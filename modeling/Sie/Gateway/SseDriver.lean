import Sie.Gateway.Republish

/-!
# The driver of an SSE response

The loop of the gateway's `handlers/sse.rs` that forwards the chunks of a stream to an
HTTP client: `run_sse_driver_with_lifecycle`.  One event of the driver is what one of its
awaits resolves with; `select!` may resolve with any of its sources, so a run of the
driver is any sequence of them.

An SSE event is kept as what its body is rendered from.  The answers of the loop to the
telemetry are left out, and the wait of a driver whose client is gone is one step.
-/

namespace Sie.Gateway

open Sie.Lib

inductive SseEndpoint
  | chat (includeUsage includeReasoning : Bool)
  | generate
  | completion (includeUsage : Bool)
  deriving DecidableEq

inductive FirstChunkDeadlineAction
  | republishToPool
  | waitForOverall
  | surfaceTimeout
  deriving DecidableEq

def firstChunkDeadlineAction (supportsPoolRepublish wasDirectDispatched
    republishAlreadyAttempted singleConsumerLaneAtDispatch : Bool) : FirstChunkDeadlineAction :=
  if !supportsPoolRepublish then .waitForOverall
  else if wasDirectDispatched && !republishAlreadyAttempted && !singleConsumerLaneAtDispatch then
    .republishToPool
  else if wasDirectDispatched && !republishAlreadyAttempted && singleConsumerLaneAtDispatch then
    .waitForOverall
  else .surfaceTimeout

def suppressFirstChunkRepublishForLane (wasDirectDispatched : Bool)
    (poolFallbackLaneWorkerCount : ℕ) : Bool :=
  wasDirectDispatched && poolFallbackLaneWorkerCount ≤ 1

/-- The arguments of the driver. -/
structure SseConfig where
  endpoint : SseEndpoint
  /-- Whether a bridge waits for the first output before it answers. -/
  prefetchFirstOutput : Bool
  supportsFirstChunkPoolRepublish : Bool
  wasDirectDispatched : Bool
  poolFallbackLaneWorkerCount : ℕ
  firstChunkTimeout : ℕ
  interChunkTimeout : ℕ
  overallTimeout : ℕ
  deriving DecidableEq

/-- What the driver waits for. -/
inductive DriverPhase
  /-- The head of the loop. -/
  | top
  | republishing
  | selecting
  /-- A terminal chunk is held until the publish is confirmed durable. -/
  | holding (chunk : ChunkEnvelope)
  | returned
  deriving DecidableEq

/-- The variables of the loop. -/
structure Driver where
  phase : DriverPhase
  firstOutput : Bool
  firstChunkDeadline : ℕ
  overallDeadline : ℕ
  lastChunkAt : Option ℕ
  firstSeen : Bool
  outputSeen : Bool
  roleEmitted : List ℕ
  multiCandidateStream : Bool
  republishedForFirstChunk : Bool
  outcomeDone : Bool
  streamSucceeded : Bool
  durabilityDone : Bool
  deriving DecidableEq

/-- The driver before its loop. -/
def Driver.start (config : SseConfig) (publishInstant : ℕ) : Driver where
  phase := .top
  firstOutput := config.prefetchFirstOutput
  firstChunkDeadline := publishInstant + config.firstChunkTimeout
  overallDeadline := publishInstant + config.overallTimeout
  lastChunkAt := none
  firstSeen := false
  outputSeen := false
  roleEmitted := []
  multiCandidateStream := false
  republishedForFirstChunk := false
  outcomeDone := false
  streamSucceeded := false
  durabilityDone := false

/-- What becomes of the durability of the initial publish. -/
inductive Durability
  | confirmed
  | failed (error : String)
  | monitorStopped
  deriving DecidableEq

/-- How the wait for it ends once a terminal chunk is held. -/
inductive TerminalDurabilityWait
  | completed (durability : Durability)
  | clientClosed
  | overallTimeout
  deriving DecidableEq

/-- An event of the SSE stream. -/
inductive SseEvent
  /-- A forwarded chunk, in the shape of the endpoint. -/
  | chunk (chunk : ChunkEnvelope) (emitRole : Bool) (extras : List (String × Json))
  | usageOnly (usage : UsageBlock) (extras : List (String × Json))
  | error (code message : String)
  | syntheticError (error : ChunkError)
  /-- The literal `[DONE]`. -/
  | done
  deriving DecidableEq

/-- The answer to a bridge that waits for the first output. -/
inductive GateAnswer
  | ready
  | failed (code : Option String) (unanswered : Bool)
  | workerError (error : ChunkError)
  deriving DecidableEq

inductive DriverOutput
  | event (event : SseEvent)
  | gate (answer : GateAnswer)
  | publishCancel
  | dropPendingStream
  deriving DecidableEq

/-- What an await of the driver resolves with.  `delivered` says whether the client still
took the event of a chunk. -/
inductive DriverEvent
  /-- The head of the loop, with the two times it reads. -/
  | check (now later : ℕ)
  | republished (now : ℕ) (result : Except String Bool)
  | durability (result : Durability)
  | closed
  | outcome (outcome : Option StreamOutcome)
  | chunk (now : ℕ) (chunk : ChunkEnvelope) (extras : List (String × Json)) (delivered : Bool)
  | lagged (count : ℕ)
  | tapClosed
  | timer
  | terminalDurability (wait : TerminalDurabilityWait) (extras : List (String × Json))
      (delivered : Bool)

namespace Driver

/-- Answer the bridge, if one waits. -/
def answerGate (d : Driver) (answer : GateAnswer) : List DriverOutput :=
  if d.firstOutput then [.gate answer] else []

/-- Send an error and `[DONE]`, and return. -/
def failWith (d : Driver) (unanswered : Bool) (code message : String)
    (teardown : List DriverOutput) : Driver × List DriverOutput :=
  ({ d with phase := .returned, firstOutput := false },
    d.answerGate (.failed (some code) unanswered) ++
      [.event (.error code message), .event .done] ++ teardown)

/-- Return without a word, as the client is gone. -/
def disconnect (d : Driver) : Driver × List DriverOutput :=
  ({ d with phase := .returned },
    (if d.streamSucceeded then [] else [.publishCancel]) ++ [.dropPendingStream])

/-- The head of the loop: the overall, the first-chunk and the inter-chunk timeout. -/
def check (config : SseConfig) (d : Driver) (now later : ℕ) : Driver × List DriverOutput :=
  if d.overallDeadline ≤ now then
    d.failWith (!d.outputSeen) "overall_timeout" "Generation aborted: overall timeout"
      [.publishCancel, .dropPendingStream]
  else if !d.firstSeen && d.firstChunkDeadline ≤ now then
    match firstChunkDeadlineAction config.supportsFirstChunkPoolRepublish
        config.wasDirectDispatched d.republishedForFirstChunk
        (suppressFirstChunkRepublishForLane config.wasDirectDispatched
          config.poolFallbackLaneWorkerCount) with
    | .republishToPool =>
      ({ d with phase := .republishing, republishedForFirstChunk := true }, [.publishCancel])
    | .waitForOverall =>
      ({ d with
          republishedForFirstChunk := true
          firstChunkDeadline := d.overallDeadline }, [])
    | .surfaceTimeout =>
      d.failWith (!d.firstSeen) "first_chunk_timeout" "Generation aborted: first_chunk timeout"
        [.publishCancel, .dropPendingStream]
  else
    match d.lastChunkAt with
    | some last =>
      if config.interChunkTimeout ≤ later - last then
        d.failWith false "inter_chunk_timeout" "Generation aborted: inter_chunk timeout"
          [.publishCancel, .dropPendingStream]
      else ({ d with phase := .selecting }, [])
    | none => ({ d with phase := .selecting }, [])

/-- The republish is through. -/
def afterRepublish (config : SseConfig) (d : Driver) (now : ℕ) (result : Except String Bool) :
    Driver × List DriverOutput :=
  match result with
  | .ok _ =>
    ({ d with phase := .top, firstChunkDeadline := now + config.firstChunkTimeout }, [])
  | .error _ =>
    d.failWith (!d.firstSeen) "first_chunk_timeout" "Generation aborted: first_chunk timeout"
      [.publishCancel, .dropPendingStream]

/-- The publish is confirmed durable, or it is not. -/
def settleDurability (d : Driver) (durability : Durability) (teardown : List DriverOutput) :
    Driver × List DriverOutput :=
  match durability with
  | .confirmed => ({ d with phase := .top }, [])
  | .failed error =>
    d.failWith false "transport_failure" ("Queue durability confirmation failed: " ++ error)
      teardown
  | .monitorStopped =>
    d.failWith false "transport_failure" "Queue durability monitor stopped before completion"
      teardown

/-- The terminal outcome: a made-up error is sent, a worker's outcome only noted. -/
def noteOutcome (d : Driver) (outcome : Option StreamOutcome) : Driver × List DriverOutput :=
  let d := { d with outcomeDone := true }
  match outcome with
  | some o =>
    if o.origin = .gatewaySynthetic then
      match o.error with
      | none => ({ d with phase := .top }, [])
      | some error =>
        ({ d with phase := .returned, firstOutput := false },
          d.answerGate (.workerError error) ++
            [.event (.syntheticError error), .event .done, .dropPendingStream])
    else ({ d with phase := .top, streamSucceeded := true }, [])
  | none => ({ d with phase := .top }, [])

/-- The tap dropped chunks the driver had not read. -/
def fellBehind (d : Driver) : Driver × List DriverOutput :=
  d.failWith false "inter_chunk_timeout" "SSE consumer fell behind; response is incomplete"
    ((if d.streamSucceeded then [] else [.publishCancel]) ++ [.dropPendingStream])

/-- The tap is closed. -/
def tapEnded (d : Driver) : Driver × List DriverOutput :=
  if d.outputSeen then ({ d with phase := .returned }, [])
  else d.failWith false "transport_failure" "Result channel closed" []

/-- A chunk that only shows that the worker is alive. -/
def progressOnly (chunk : ChunkEnvelope) : Bool :=
  !chunk.carriesOutput && !chunk.done && chunk.finishReason.isNone && chunk.error.isNone &&
    chunk.logprobs.isNone

/-- The usage event before `[DONE]`, if the endpoint asked for it. -/
def usageOnlyEvent (endpoint : SseEndpoint) (chunk : ChunkEnvelope)
    (extras : List (String × Json)) : List SseEvent :=
  let wanted :=
    match endpoint with
    | .chat includeUsage _ => includeUsage
    | .completion includeUsage => includeUsage
    | .generate => false
  match chunk.usage with
  | some usage => if wanted then [.usageOnly usage extras] else []
  | none => []

/-- What a bridge is told when the first event is ready. -/
def gateAnswer (chunk : ChunkEnvelope) : GateAnswer :=
  match chunk.error with
  | some error => .workerError error
  | none =>
    if chunk.done && (chunk.finishReason = some "cancelled" || chunk.finishReason = some "error")
    then .failed none false
    else .ready

/-- Whether any chunk so far is of a stream of several candidates. -/
def multiCandidate (d : Driver) (chunk : ChunkEnvelope) : Bool :=
  d.multiCandidateStream || chunk.choiceIndex != 0 || (!chunk.done && chunk.finishReason.isSome)

/-- The terminal of a stream of several candidates is not forwarded: each candidate was
closed by a chunk of its own. -/
def skipForward (d : Driver) (chunk : ChunkEnvelope) : Bool :=
  chunk.done && d.multiCandidate chunk && chunk.error.isNone

section

variable (config : SseConfig) (d : Driver)

/-- The first forwarded chunk of each candidate of a chat carries the role. -/
def emitsRole (chunk : ChunkEnvelope) : Bool :=
  match config.endpoint with
  | .chat _ _ => chunk.choiceIndex ∉ d.roleEmitted && !d.skipForward chunk
  | _ => false

/-- Forward a chunk; a terminal is followed by the usage and `[DONE]`. -/
def forward (chunk : ChunkEnvelope)
    (extras : List (String × Json)) (delivered : Bool) : Driver × List DriverOutput :=
  let skip := d.skipForward chunk
  let emitRole := d.emitsRole config chunk
  let d₁ := { d with
    multiCandidateStream := d.multiCandidate chunk
    roleEmitted := if emitRole then chunk.choiceIndex :: d.roleEmitted else d.roleEmitted
    firstOutput := d.firstOutput && skip }
  let answer := if skip then [] else d.answerGate (gateAnswer chunk)
  if !skip && !delivered then
    (d₁.disconnect.1, answer ++ d₁.disconnect.2)
  else
    let sent := answer ++ if skip then [] else [.event (.chunk chunk emitRole extras)]
    if chunk.done then
      ({ d₁ with phase := .returned },
        sent ++ (usageOnlyEvent config.endpoint chunk extras).map .event ++ [.event .done])
    else ({ d₁ with phase := .top }, sent)

/-- A chunk of the tap.  A terminal is held until the publish is confirmed durable. -/
def takeChunk (now : ℕ) (chunk : ChunkEnvelope)
    (extras : List (String × Json)) (delivered : Bool) : Driver × List DriverOutput :=
  let d₁ := { d with firstSeen := true, lastChunkAt := some now }
  if progressOnly chunk && d.firstOutput then ({ d₁ with phase := .top }, [])
  else
    let d₂ := { d₁ with outputSeen := d.outputSeen || !progressOnly chunk }
    if chunk.done && !d.durabilityDone then
      ({ d₂ with phase := .holding chunk, durabilityDone := true }, [])
    else d₂.forward config chunk extras delivered

/-- The wait for the durability of a held terminal is through. -/
def afterHold (chunk : ChunkEnvelope)
    (wait : TerminalDurabilityWait) (extras : List (String × Json)) (delivered : Bool) :
    Driver × List DriverOutput :=
  match wait with
  | .completed .confirmed => d.forward config chunk extras delivered
  | .completed (.failed error) => d.settleDurability (.failed error) [.dropPendingStream]
  | .completed .monitorStopped =>
    d.settleDurability .monitorStopped [.publishCancel, .dropPendingStream]
  | .clientClosed => d.disconnect
  | .overallTimeout =>
    d.failWith false "overall_timeout" "Generation aborted: overall timeout"
      [.publishCancel, .dropPendingStream]

/-- One step of the driver. -/
def step (e : DriverEvent) : Option (Driver × List DriverOutput) :=
  match d.phase, e with
  | .top, .check now later => some (d.check config now later)
  | .republishing, .republished now result => some (d.afterRepublish config now result)
  | .selecting, .durability result =>
    if d.durabilityDone then none
    else some ({ d with durabilityDone := true }.settleDurability result [])
  | .selecting, .closed => some d.disconnect
  | .selecting, .outcome outcome => if d.outcomeDone then none else some (d.noteOutcome outcome)
  | .selecting, .chunk now chunk extras delivered =>
    some (d.takeChunk config now chunk extras delivered)
  | .selecting, .lagged _ => some d.fellBehind
  | .selecting, .tapClosed => some d.tapEnded
  | .selecting, .timer => some ({ d with phase := .top }, [])
  | .holding chunk, .terminalDurability wait extras delivered =>
    some (d.afterHold config chunk wait extras delivered)
  | _, _ => none

end

end Driver

/-! ## What a step can do -/

/-- The events the client gets. -/
def events (os : List DriverOutput) : List SseEvent :=
  os.filterMap fun o =>
    match o with
    | .event event => some event
    | _ => none

@[simp] theorem events_nil : events [] = [] := rfl

@[simp] theorem events_cons_event (e : SseEvent) (os : List DriverOutput) :
    events (.event e :: os) = e :: events os := rfl

@[simp] theorem events_append (os o : List DriverOutput) :
    events (os ++ o) = events os ++ events o := List.filterMap_append

@[simp] theorem events_map_event (sent : List SseEvent) : events (sent.map .event) = sent := by
  induction sent with
  | nil => rfl
  | cons e sent ih => simp [events]

@[simp] theorem events_answerGate (d : Driver) (answer : GateAnswer) :
    events (d.answerGate answer) = [] := by
  unfold Driver.answerGate
  split <;> rfl

@[simp] theorem events_disconnect (d : Driver) : events d.disconnect.2 = [] := by
  cases h : d.streamSucceeded <;> simp [Driver.disconnect, h, events]

def SseEvent.isError : SseEvent → Bool
  | .error _ _ => true
  | .syntheticError _ => true
  | _ => false

/-- An error event, or a forwarded terminal chunk. -/
def SseEvent.closes (e : SseEvent) : Bool :=
  e.isError ||
    (match e with
      | .chunk forwarded _ _ => forwarded.done
      | _ => false)

/-- A chunk that shows that the stream has several candidates. -/
def SseEvent.ofCandidates : SseEvent → Bool
  | .chunk sent _ _ => sent.choiceIndex != 0 || (!sent.done && sent.finishReason.isSome)
  | _ => false

/-- The loop goes on. -/
def Driver.Live (d : Driver) : Prop :=
  d.phase = .top ∨ d.phase = .republishing ∨ d.phase = .selecting

theorem Driver.Live.phase_ne {d : Driver} (h : d.Live) : d.phase ≠ .returned := by
  obtain h | h | h := h <;> simp [h]

/-- The client is still there after the event. -/
def DriverEvent.connected : DriverEvent → Bool
  | .closed => false
  | .chunk _ _ _ delivered => delivered
  | .terminalDurability wait _ delivered => delivered && wait != .clientClosed
  | _ => true

/-- The chunk that is taken from the tap. -/
def DriverEvent.taken : DriverEvent → Option ChunkEnvelope
  | .chunk _ c _ _ => some c
  | _ => none

/-- The event confirms that the initial publish is durable. -/
def DriverEvent.confirms : DriverEvent → Bool
  | .durability result => result = .confirmed
  | .terminalDurability wait _ _ => wait = .completed .confirmed
  | _ => false

/-- What one step does. -/
inductive Turns (config : SseConfig) (d : Driver) :
    DriverEvent → Driver × List DriverOutput → Prop
  /-- Nothing is sent and no chunk is read. -/
  | goesOn {e : DriverEvent} {r : Driver × List DriverOutput} (htaken : e.taken = none)
      (hevents : events r.2 = []) (hfrom : d.Live) (hto : r.1.Live)
      (hfirst : r.1.firstSeen = d.firstSeen)
      (hrepublish : r.1.phase = .republishing → d.firstSeen = false)
      (hdurable : r.1.durabilityDone = true → e.confirms = true ∨ d.durabilityDone = true)
      (hcandidates : r.1.multiCandidateStream = d.multiCandidateStream) : Turns config d e r
  /-- A chunk without output is not forwarded while a bridge waits for output. -/
  | skips {now : ℕ} {chunk : ChunkEnvelope} {extras : List (String × Json)} {delivered : Bool}
      {t : Driver} (hphase : d.phase = .selecting) (hprogress : Driver.progressOnly chunk = true)
      (hto : t.phase = .top) (hdurable : t.durabilityDone = d.durabilityDone)
      (hfirst : t.firstSeen = true)
      (hcandidates : t.multiCandidateStream = d.multiCandidateStream) :
      Turns config d (.chunk now chunk extras delivered) (t, [])
  /-- A terminal is held back. -/
  | holds {now : ℕ} {chunk : ChunkEnvelope} {extras : List (String × Json)} {delivered : Bool}
      {t : Driver} (hphase : d.phase = .selecting) (hdone : chunk.done = true)
      (hto : t.phase = .holding chunk) (hfirst : t.firstSeen = true)
      (hcandidates : t.multiCandidateStream = d.multiCandidateStream) :
      Turns config d (.chunk now chunk extras delivered) (t, [])
  /-- A chunk is forwarded.  A terminal is not held back behind a confirmation. -/
  | forwards {now : ℕ} {chunk : ChunkEnvelope} {extras : List (String × Json)}
      {delivered : Bool} {d₁ : Driver} (hphase : d.phase = .selecting)
      (hdurable : chunk.done = true → d.durabilityDone = true)
      (hcandidates : d₁.multiCandidateStream = d.multiCandidateStream)
      (hsame : d₁.durabilityDone = d.durabilityDone) (hfirst : d₁.firstSeen = true) :
      Turns config d (.chunk now chunk extras delivered)
        (d₁.forward config chunk extras delivered)
  /-- The terminal that was held back is forwarded. -/
  | releases {chunk : ChunkEnvelope} {extras : List (String × Json)} {delivered : Bool}
      (hphase : d.phase = .holding chunk) :
      Turns config d (.terminalDurability (.completed .confirmed) extras delivered)
        (d.forward config chunk extras delivered)
  /-- An error and `[DONE]` are sent. -/
  | fails {e : DriverEvent} {r : Driver × List DriverOutput} (error : SseEvent)
      (hphase : d.phase ≠ .returned) (herror : error.isError = true)
      (hevents : events r.2 = [error, .done]) (hto : r.1.phase = .returned) : Turns config d e r
  /-- The driver returns without a word. -/
  | leaves {e : DriverEvent} {r : Driver × List DriverOutput} (hphase : d.phase ≠ .returned)
      (hwhy : e.connected = false ∨ (e = .tapClosed ∧ d.outputSeen = true))
      (hevents : events r.2 = []) (hto : r.1.phase = .returned) : Turns config d e r

namespace Driver

variable {config : SseConfig} {d : Driver} {r : Driver × List DriverOutput} {e : DriverEvent}
  {chunk : ChunkEnvelope} {teardown : List DriverOutput}

theorem turns_failWith {d₁ : Driver} (unanswered : Bool) (code message : String)
    (hphase : d.phase ≠ .returned) (hteardown : events teardown = []) :
    Turns config d e (d₁.failWith unanswered code message teardown) := by
  refine .fails (.error code message) hphase rfl ?_ rfl
  simp [failWith, hteardown]

theorem turns_check (now later : ℕ) (hphase : d.phase = .top) :
    Turns config d (.check now later) (d.check config now later) := by
  have hfails : d.phase ≠ .returned := by simp [hphase]
  have hselects : Turns config d (.check now later) ({ d with phase := .selecting }, []) :=
    .goesOn rfl rfl (.inl hphase) (.inr (.inr rfl)) rfl (by simp) .inr rfl
  unfold check
  by_cases hoverall : d.overallDeadline ≤ now
  · rw [if_pos hoverall]
    exact turns_failWith _ _ _ hfails rfl
  rw [if_neg hoverall]
  by_cases hfirst : (!d.firstSeen && d.firstChunkDeadline ≤ now) = true
  · rw [if_pos hfirst]
    simp at hfirst
    split
    · exact .goesOn rfl rfl (.inl hphase) (.inr (.inl rfl)) rfl (fun _ => hfirst.1) .inr rfl
    · exact .goesOn rfl rfl (.inl hphase) (.inl hphase) rfl (by simp [hphase]) .inr rfl
    · exact turns_failWith _ _ _ hfails rfl
  rw [if_neg hfirst]
  split
  · split
    · exact turns_failWith _ _ _ hfails rfl
    · exact hselects
  · exact hselects

theorem turns_settleDurability (durability : Durability) (htaken : e.taken = none) (hfrom : d.Live)
    (hteardown : events teardown = []) (hconfirms : durability = .confirmed → e.confirms = true) :
    Turns config d e ({ d with durabilityDone := true }.settleDurability durability teardown) := by
  cases durability with
  | confirmed =>
    exact .goesOn htaken rfl hfrom (.inl rfl) rfl (by simp [settleDurability])
      (fun _ => .inl (hconfirms rfl)) rfl
  | failed | monitorStopped => exact turns_failWith _ _ _ hfrom.phase_ne hteardown

theorem turns_noteOutcome (outcome : Option StreamOutcome) (hfrom : d.Live) :
    Turns config d (.outcome outcome) (d.noteOutcome outcome) := by
  unfold noteOutcome
  repeat' split
  · exact .goesOn rfl rfl hfrom (.inl rfl) rfl (by simp) .inr rfl
  next error _ => exact .fails (.syntheticError error) hfrom.phase_ne rfl (by simp; rfl) rfl
  · exact .goesOn rfl rfl hfrom (.inl rfl) rfl (by simp) .inr rfl
  · exact .goesOn rfl rfl hfrom (.inl rfl) rfl (by simp) .inr rfl

theorem turns_takeChunk (now : ℕ) (chunk : ChunkEnvelope) (extras : List (String × Json))
    (delivered : Bool) (hphase : d.phase = .selecting) :
    Turns config d (.chunk now chunk extras delivered)
      (d.takeChunk config now chunk extras delivered) := by
  unfold takeChunk
  split
  next hprogress =>
    simp only [Bool.and_eq_true] at hprogress
    exact .skips hphase hprogress.1 rfl rfl rfl rfl
  split_ifs with hhold
  · simp only [Bool.and_eq_true] at hhold
    exact .holds hphase hhold.1 rfl rfl rfl
  refine .forwards hphase ?_ rfl rfl rfl
  intro hdone
  simpa [hdone] using hhold

theorem turns_afterHold (wait : TerminalDurabilityWait)
    (extras : List (String × Json)) (delivered : Bool) (hphase : d.phase = .holding chunk) :
    Turns config d (.terminalDurability wait extras delivered)
      (d.afterHold config chunk wait extras delivered) := by
  have hfails : d.phase ≠ .returned := by simp [hphase]
  cases wait with
  | completed durability =>
    cases durability with
    | confirmed => exact .releases hphase
    | failed | monitorStopped => exact turns_failWith _ _ _ hfails rfl
  | clientClosed =>
    refine .leaves hfails (.inl (by simp [DriverEvent.connected])) ?_ rfl
    exact events_disconnect d
  | overallTimeout => exact turns_failWith _ _ _ hfails rfl

/-- **One case for each kind of step.** -/
theorem turns_of_step (h : d.step config e = some r) : Turns config d e r := by
  unfold step at h
  split at h
  next hphase =>
    cases h
    exact turns_check _ _ hphase
  next result hphase =>
    cases h
    cases result with
    | ok =>
      exact .goesOn rfl rfl (.inr (.inl hphase)) (.inl rfl) rfl (by simp [afterRepublish])
        .inr rfl
    | error => exact turns_failWith _ _ _ (by simp [hphase]) rfl
  next result hphase =>
    split at h <;> cases h
    refine turns_settleDurability _ rfl (.inr (.inr hphase)) rfl ?_
    rintro rfl
    rfl
  next hphase =>
    cases h
    exact .leaves (by simp [hphase]) (.inl rfl) (events_disconnect d) rfl
  next hphase =>
    split at h <;> cases h
    exact turns_noteOutcome _ (.inr (.inr hphase))
  next hphase =>
    cases h
    exact turns_takeChunk _ _ _ _ hphase
  next hphase =>
    cases h
    refine turns_failWith _ _ _ (by simp [hphase]) ?_
    cases d.streamSucceeded <;> rfl
  next hphase =>
    cases h
    unfold tapEnded
    split_ifs with hseen
    · exact .leaves (by simp [hphase]) (.inr ⟨rfl, hseen⟩) rfl rfl
    · exact turns_failWith _ _ _ (by simp [hphase]) rfl
  next hphase =>
    cases h
    exact .goesOn rfl rfl (.inr (.inr hphase)) (.inl rfl) rfl (by simp) .inr rfl
  next hphase =>
    cases h
    exact turns_afterHold _ _ _ hphase
  · cases h

/-! ### Forwarding -/

theorem skipForward_congr {d₁ : Driver} (h : d₁.multiCandidateStream = d.multiCandidateStream)
    (chunk : ChunkEnvelope) : d₁.skipForward chunk = d.skipForward chunk := by
  simp [skipForward, multiCandidate, h]

theorem forward_same (chunk : ChunkEnvelope) (extras : List (String × Json)) (delivered : Bool) :
    (d.forward config chunk extras delivered).1.durabilityDone = d.durabilityDone ∧
      (d.forward config chunk extras delivered).1.firstSeen = d.firstSeen ∧
      (d.forward config chunk extras delivered).1.multiCandidateStream =
        d.multiCandidate chunk := by
  unfold forward
  dsimp only
  repeat' split
  all_goals exact ⟨rfl, rfl, rfl⟩

variable (config d) in
/-- Where a forwarded chunk leaves the driver. -/
theorem forward_phase (chunk : ChunkEnvelope) (extras : List (String × Json)) (delivered : Bool) :
    (d.forward config chunk extras delivered).1.phase =
      if chunk.done || !d.skipForward chunk && !delivered then .returned else .top := by
  cases hdone : chunk.done <;> cases hskip : d.skipForward chunk <;> cases delivered <;>
    simp [forward, disconnect, hdone, hskip]

/-- What the client gets of a chunk. -/
def forwardEvents (config : SseConfig) (d : Driver) (chunk : ChunkEnvelope)
    (extras : List (String × Json)) : List SseEvent :=
  (if d.skipForward chunk then [] else [.chunk chunk (d.emitsRole config chunk) extras]) ++
    if chunk.done then usageOnlyEvent config.endpoint chunk extras ++ [.done] else []

variable (config d) in
theorem events_forward (chunk : ChunkEnvelope) (extras : List (String × Json)) (delivered : Bool) :
    events (d.forward config chunk extras delivered).2 =
      if d.skipForward chunk || delivered then d.forwardEvents config chunk extras else [] := by
  cases hskip : d.skipForward chunk <;> cases hdone : chunk.done <;> cases delivered <;>
    simp [forward, forwardEvents, events_disconnect, hskip, hdone]

end Driver

/-! ## Every stream is terminated -/

/-- The tap is closed only as long as no output was seen. -/
def TapEndsFirst (d : Driver) (e : DriverEvent) : Prop :=
  match e with
  | .tapClosed => d.outputSeen = false
  | _ => True

instance (d : Driver) (e : DriverEvent) : Decidable (TapEndsFirst d e) := by
  unfold TapEndsFirst
  split <;> infer_instance

/-- The chunk that a step may forward. -/
def Driver.handled (d : Driver) (e : DriverEvent) : Option ChunkEnvelope :=
  match d.phase, e with
  | .selecting, .chunk _ chunk _ _ => some chunk
  | .holding chunk, .terminalDurability _ _ _ => some chunk
  | _, _ => none

/-- The terminal is not suppressed as that of a stream of several candidates. -/
def TerminalShown (d : Driver) (e : DriverEvent) : Prop :=
  ∀ chunk ∈ d.handled e, d.skipForward chunk = false

instance (d : Driver) (e : DriverEvent) : Decidable (TerminalShown d e) :=
  inferInstanceAs (Decidable (∀ chunk ∈ d.handled e, d.skipForward chunk = false))

/-- A terminal without an error is that of the stream, and not of a further candidate. -/
def TerminalOfStream (d : Driver) (e : DriverEvent) : Prop :=
  ∀ chunk ∈ d.handled e, chunk.done = true → chunk.error.isNone = true → chunk.choiceIndex = 0

instance (d : Driver) (e : DriverEvent) : Decidable (TerminalOfStream d e) :=
  inferInstanceAs (Decidable (∀ chunk ∈ d.handled e, _ → _ → chunk.choiceIndex = 0))

/-- What a `[DONE]` is behind: the terminal or an error if every terminal was shown, and
otherwise at least a chunk of one of several candidates, whose terminal is suppressed because
each of them was closed by a chunk of its own. -/
structure Closed (shown ofStream : Prop) (before : List SseEvent) : Prop where
  shown : shown → ∃ e ∈ before, e.closes = true
  ofStream : ofStream → ∃ e ∈ before, e.closes = true ∨ e.ofCandidates = true

/-- What the client has of a stream: no `[DONE]` while the driver runs, and once it
returned exactly one, at the end. -/
structure Terminated (shown ofStream : Prop) (sent : List SseEvent) (d : Driver) : Prop where
  running : d.phase ≠ .returned → .done ∉ sent
  candidates : d.phase ≠ .returned → d.multiCandidateStream = true →
    ∃ e ∈ sent, e.ofCandidates = true
  returned : d.phase = .returned → ∃ before, sent = before ++ [.done] ∧ .done ∉ before ∧
    Closed shown ofStream before

namespace Terminated

variable {config : SseConfig} {d d₁ t : Driver} {e : DriverEvent} {sent : List SseEvent}
  {shown shown' ofStream ofStream' : Prop}

theorem closed_of_closes {error : SseEvent} {before : List SseEvent} (hmem : error ∈ before)
    (h : error.closes = true) : Closed shown ofStream before :=
  ⟨fun _ => ⟨error, hmem, h⟩, fun _ => ⟨error, hmem, .inl h⟩⟩

/-- The driver goes on and sends no `[DONE]`. -/
theorem of_running {new : List SseEvent} (h : Terminated shown ofStream sent d)
    (hphase : d.phase ≠ .returned) (hto : t.phase ≠ .returned) (hnew : .done ∉ new)
    (hcandidates : t.multiCandidateStream = true →
      d.multiCandidateStream = true ∨ ∃ e ∈ new, e.ofCandidates = true) :
    Terminated shown' ofStream' (sent ++ new) t := by
  refine ⟨fun _ => ?_, fun _ hmulti => ?_, fun hreturned => absurd hreturned hto⟩
  · simp [h.running hphase, hnew]
  · rcases hcandidates hmulti with hbefore | ⟨e, he, hof⟩
    · obtain ⟨e, he, hof⟩ := h.candidates hphase hbefore
      exact ⟨e, List.mem_append_left _ he, hof⟩
    · exact ⟨e, List.mem_append_right _ he, hof⟩

/-- The driver returns with a `[DONE]`. -/
theorem of_returned {new before : List SseEvent} (h : Terminated shown ofStream sent d)
    (hphase : d.phase ≠ .returned) (hto : t.phase = .returned) (hnew : new = before ++ [.done])
    (hbefore : .done ∉ before) (hclosed : Closed shown' ofStream' (sent ++ before)) :
    Terminated shown' ofStream' (sent ++ new) t := by
  refine ⟨fun hrunning => absurd hto hrunning, fun hrunning => absurd hto hrunning,
    fun _ => ⟨sent ++ before, by simp [hnew], ?_, hclosed⟩⟩
  simp [h.running hphase, hbefore]

theorem mono (h : Terminated shown ofStream sent d) (hshown : shown' → shown)
    (hofStream : ofStream' → ofStream) : Terminated shown' ofStream' sent d := by
  refine ⟨h.running, h.candidates, fun hreturned => ?_⟩
  obtain ⟨before, hsent, hdone, hclosed⟩ := h.returned hreturned
  exact ⟨before, hsent, hdone, hclosed.shown ∘ hshown, hclosed.ofStream ∘ hofStream⟩

/-- A terminal is suppressed only behind a chunk of several candidates. -/
theorem closed_of_skip {chunk : ChunkEnvelope} {new : List SseEvent}
    (h : Terminated shown ofStream sent d) (hphase : d.phase ≠ .returned)
    (hskip : d.skipForward chunk = true) (hshown : shown' → d.skipForward chunk = false)
    (hofStream : ofStream' → chunk.done = true → chunk.error.isNone = true →
      chunk.choiceIndex = 0) : Closed shown' ofStream' (sent ++ new) := by
  refine ⟨fun hs => absurd (hshown hs) (by simp [hskip]), fun hs => ?_⟩
  simp only [Driver.skipForward, Driver.multiCandidate, Bool.and_eq_true] at hskip
  have hindex := hofStream hs hskip.1.1 hskip.2
  obtain ⟨e, he, hof⟩ := h.candidates hphase (by simpa [hindex, hskip.1.1] using hskip.1.2)
  exact ⟨e, List.mem_append_left _ he, .inr hof⟩

/-- A chunk is forwarded to a client that takes it. -/
theorem of_forward (h : Terminated shown ofStream sent d) (hphase : d.phase ≠ .returned)
    (hcandidates : d₁.multiCandidateStream = d.multiCandidateStream)
    (chunk : ChunkEnvelope) (extras : List (String × Json))
    (hshown : shown' → d.skipForward chunk = false)
    (hofStream : ofStream' → chunk.done = true → chunk.error.isNone = true →
      chunk.choiceIndex = 0) :
    Terminated shown' ofStream' (sent ++ events (d₁.forward config chunk extras true).2)
      (d₁.forward config chunk extras true).1 := by
  have hto := Driver.forward_phase config d₁ chunk extras true
  rw [Driver.events_forward, Bool.or_true, if_pos rfl, Driver.forwardEvents,
    Driver.skipForward_congr hcandidates]
  cases hdone : chunk.done with
  | false =>
    rw [hdone] at hto
    refine h.of_running hphase (by simp [hto]) ?_ ?_
    · cases d.skipForward chunk <;> simp
    · rw [(Driver.forward_same ..).2.2, Driver.multiCandidate, hcandidates, Bool.or_assoc,
        Bool.or_eq_true]
      simp [Driver.skipForward, hdone, SseEvent.ofCandidates]
  | true =>
    rw [hdone] at hto
    refine h.of_returned hphase hto (List.append_assoc _ _ _).symm ?_ ?_
    · have hnot : .done ∉ Driver.usageOnlyEvent config.endpoint chunk extras := by
        unfold Driver.usageOnlyEvent
        repeat' split
        all_goals simp
      cases d.skipForward chunk <;> simp [hnot]
    · cases hskip : d.skipForward chunk with
      | true => exact h.closed_of_skip hphase hskip hshown hofStream
      | false =>
        exact closed_of_closes (by simp; exact .inr (.inl rfl)) (by simp [SseEvent.closes, hdone])

/-- **One step**, with the client there and the tap not closed behind output. -/
theorem next {r : Driver × List DriverOutput} (h : Terminated shown ofStream sent d)
    (hturns : Turns config d e r) (hconnected : e.connected = true) (htap : TapEndsFirst d e) :
    Terminated (shown ∧ TerminalShown d e) (ofStream ∧ TerminalOfStream d e)
      (sent ++ events r.2) r.1 := by
  have handles : ∀ chunk ∈ d.handled e, ((shown ∧ TerminalShown d e) →
      d.skipForward chunk = false) ∧ ((ofStream ∧ TerminalOfStream d e) → chunk.done = true →
      chunk.error.isNone = true → chunk.choiceIndex = 0) :=
    fun chunk hchunk => ⟨fun hs => hs.2 chunk hchunk, fun hs => hs.2 chunk hchunk⟩
  cases hturns with
  | goesOn _ hevents hfrom hto _ _ _ hcandidates =>
    exact h.of_running hfrom.phase_ne hto.phase_ne (by simp [hevents])
      (.inl ∘ hcandidates.symm.trans)
  | skips hphase _ hto _ _ hcandidates | holds hphase _ hto _ hcandidates =>
    exact h.of_running (by simp [hphase]) (by simp [hto]) (by simp) (.inl ∘ hcandidates.symm.trans)
  | @forwards _ chunk _ delivered _ hphase _ hcandidates =>
    obtain rfl : delivered = true := hconnected
    obtain ⟨hshown, hofStream⟩ := handles chunk (by simp [Driver.handled, hphase])
    exact h.of_forward (by simp [hphase]) hcandidates _ _ hshown hofStream
  | @releases chunk _ delivered hphase =>
    simp only [DriverEvent.connected, Bool.and_eq_true] at hconnected
    obtain rfl : delivered = true := hconnected.1
    obtain ⟨hshown, hofStream⟩ := handles chunk (by simp [Driver.handled, hphase])
    exact h.of_forward (by simp [hphase]) rfl _ _ hshown hofStream
  | fails error hphase herror hevents hto =>
    refine h.of_returned hphase hto (hevents.trans (List.append_cons [] error [.done])) ?_ ?_
    · cases error <;> simp_all [SseEvent.isError]
    · exact closed_of_closes (by simp; exact .inr rfl) (by simp [SseEvent.closes, herror])
  | leaves _ hwhy =>
    obtain hgone | ⟨rfl, hseen⟩ := hwhy
    · cases hgone.symm.trans hconnected
    · cases hseen.symm.trans htap

end Terminated

/-! ## A terminal waits for the durability -/

/-- The loop goes on and waits for the durability of the publish no more. -/
def Durable (d : Driver) : Prop := d.durabilityDone = true ∧ d.Live

/-- The chunks among the events. -/
def forwarded (sent : List SseEvent) : List ChunkEnvelope :=
  sent.filterMap fun e =>
    match e with
    | .chunk chunk _ _ => some chunk
    | _ => none

@[simp] theorem forwarded_append (sent new : List SseEvent) :
    forwarded (sent ++ new) = forwarded sent ++ forwarded new := List.filterMap_append

theorem forwarded_error {error : SseEvent} (h : error.isError = true) :
    forwarded [error, .done] = [] := by
  cases error <;> simp_all [SseEvent.isError, forwarded]

section

variable (config : SseConfig) (d : Driver) (chunk : ChunkEnvelope) (extras : List (String × Json))

theorem forwarded_forwardEvents :
    forwarded (d.forwardEvents config chunk extras) =
      if d.skipForward chunk then [] else [chunk] := by
  have hnil : forwarded [] = [] := rfl
  have hdone : forwarded [.done] = [] := rfl
  have hchunk : forwarded [.chunk chunk (d.emitsRole config chunk) extras] = [chunk] := rfl
  have husage : forwarded (Driver.usageOnlyEvent config.endpoint chunk extras) = [] := by
    unfold Driver.usageOnlyEvent
    dsimp only
    repeat' split
    all_goals rfl
  rw [Driver.forwardEvents, forwarded_append]
  cases d.skipForward chunk <;> cases chunk.done <;> simp [husage, hnil, hdone, hchunk]

/-- A forwarded chunk is the only one. -/
theorem forwarded_forward (delivered : Bool) :
    forwarded (events (d.forward config chunk extras delivered).2) =
      if delivered && !d.skipForward chunk then [chunk] else [] := by
  rw [Driver.events_forward]
  have hnil : forwarded [] = [] := rfl
  cases hskip : d.skipForward chunk <;> cases delivered <;>
    simp [forwarded_forwardEvents, hskip, hnil]

end

section Durability

variable {config : SseConfig} {d : Driver} {e : DriverEvent} {r : Driver × List DriverOutput}
  {chunk : ChunkEnvelope}

/-- Only a confirmation ends the wait and lets the loop go on. -/
theorem durable_of_turns (h : Turns config d e r) (ht : Durable r.1) :
    e.confirms = true ∨ Durable d := by
  obtain ⟨hdone, hlive⟩ := ht
  cases h with
  | goesOn _ _ hfrom _ _ _ hdurable => exact (hdurable hdone).imp_right fun hd => ⟨hd, hfrom⟩
  | skips hphase _ _ hdurable => exact .inr ⟨hdurable ▸ hdone, .inr (.inr hphase)⟩
  | holds _ _ hto => exact absurd hlive (by simp [Driver.Live, hto])
  | forwards hphase _ _ hsame =>
    rw [(Driver.forward_same ..).1, hsame] at hdone
    exact .inr ⟨hdone, .inr (.inr hphase)⟩
  | releases => exact .inl rfl
  | fails _ _ _ _ hto | leaves _ _ _ hto => exact absurd hto hlive.phase_ne

/-- A terminal is forwarded with a confirmation or behind one. -/
theorem durable_of_terminal (h : Turns config d e r) (hmem : chunk ∈ forwarded (events r.2))
    (hdone : chunk.done = true) : e.confirms = true ∨ Durable d := by
  cases h with
  | goesOn _ hevents | leaves _ _ hevents => simp [hevents, forwarded] at hmem
  | skips | holds => simp [forwarded] at hmem
  | @forwards _ _ _ _ _ hphase hdurable =>
    rw [forwarded_forward] at hmem
    split at hmem
    · obtain rfl := List.mem_singleton.mp hmem
      exact .inr ⟨hdurable hdone, .inr (.inr hphase)⟩
    · simp at hmem
  | releases => exact .inl rfl
  | fails _ _ herror hevents => simp [hevents, forwarded_error herror] at hmem

end Durability

/-! ## Whole runs -/

section Runs

variable {config : SseConfig} {publishInstant : ℕ} {es : List DriverEvent}
  {os : List DriverOutput} {d : Driver} {chunk : ChunkEnvelope}

section

variable (h : runs (Driver.step config) (.start config publishInstant) es = some (d, os))
include h

theorem terminal_confirmed (hmem : chunk ∈ forwarded (events os)) (hdone : chunk.done = true) :
    ∃ e ∈ es, e.confirms = true := by
  refine (runs_induction (fun es os d => (Durable d → ∃ e ∈ es, e.confirms = true) ∧
    ∀ chunk ∈ forwarded (events os), chunk.done = true → ∃ e ∈ es, e.confirms = true)
    ?_ ?_ es os d h).2 chunk hmem hdone
  · refine ⟨?_, by simp [forwarded]⟩
    rintro ⟨hstart, -⟩
    exact absurd hstart (by simp [Driver.start])
  · rintro es os d e t o _ ⟨hdurable, hterminal⟩ hstep
    have hturns := Driver.turns_of_step hstep
    have hwiden : (∃ e ∈ es, e.confirms = true) → ∃ e' ∈ es ++ [e], e'.confirms = true := by
      rintro ⟨e', he', hconfirms⟩
      exact ⟨e', by simp [he'], hconfirms⟩
    have hlast : e.confirms = true ∨ Durable d → ∃ e' ∈ es ++ [e], e'.confirms = true := by
      rintro (hconfirms | hd)
      · exact ⟨e, by simp, hconfirms⟩
      · exact hwiden (hdurable hd)
    refine ⟨fun ht => hlast (durable_of_turns hturns ht), ?_⟩
    intro chunk hmem hdone
    rw [events_append, forwarded_append, List.mem_append] at hmem
    obtain hmem | hmem := hmem
    · exact hwiden (hterminal chunk hmem hdone)
    · exact hlast (durable_of_terminal hturns hmem hdone)

end

end Runs

namespace TwoAttempts

/-- A chat that was dispatched to one worker, with a pool of two to fall back on. -/
def chatConfig : SseConfig where
  endpoint := .chat false false
  prefetchFirstOutput := false
  supportsFirstChunkPoolRepublish := true
  wasDirectDispatched := true
  poolFallbackLaneWorkerCount := 2
  firstChunkTimeout := 10
  interChunkTimeout := 10
  overallTimeout := 100

/-- The terminal comes before the confirmation and is held until then. -/
def held : List DriverEvent :=
  [.check 0 0, .chunk 1 (chunkOf "a" 0 "hi" false) [] true, .check 1 1,
    .chunk 2 (chunkOf "a" 1 "" true) [] true, .terminalDurability (.completed .confirmed) [] true]

theorem held_goes : (runs (Driver.step chatConfig) (.start chatConfig 0) held).isSome = true := by
  decide +kernel

def afterHeld : Driver × List DriverOutput :=
  reached (Driver.step chatConfig) (.start chatConfig 0) held held_goes

/-- The tap is closed after some output, before the terminal. -/
def closedBehindOutput : List DriverEvent :=
  [.check 0 0, .chunk 1 (chunkOf "a" 0 "hi" false) [] true, .check 1 1, .tapClosed]

/-- The terminal alone, as that of a further candidate. -/
def numberedTerminal : List DriverEvent :=
  [.check 0 0, .durability .confirmed, .check 0 0,
    .chunk 1 { chunkOf "a" 0 "hi" true with choiceIndex := 1 } [] true]

end TwoAttempts

end Sie.Gateway
