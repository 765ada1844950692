import Sie.Gateway.Aggregation
import Sie.Gateway.SseDriver

/-!
# What an SSE client sees of the attempts

A streamed request with its SSE driver: the collector puts every chunk it accepts on the
tap, and the driver forwards what it takes from there.  The two are connected by the tap,
by the outcome, and by the republish the driver asks for when no first chunk came in time.

What is on the tap cannot be taken back when the collector abandons an attempt.  The
client sees the output of one attempt as long as no attempt is abandoned that has brought
output (`BumpsQuietly`).
-/

namespace Sie.Gateway

open Sie.Lib List Option StreamCollector Driver AttemptState

/-! ## The request and its driver -/

/-- `CHUNK_TAP_CAPACITY`. -/
def chunkTapCapacity : ℕ := 256

/-- The bounded tap between the collector and the driver. -/
structure ChunkTap where
  queue : List ChunkEnvelope
  /-- Chunks were dropped that the driver had not taken. -/
  lagged : Bool

def ChunkTap.send (tap : ChunkTap) (chunk : ChunkEnvelope) : ChunkTap :=
  if tap.queue.length < chunkTapCapacity then { tap with queue := tap.queue ++ [chunk] }
  else { queue := tap.queue.tail ++ [chunk], lagged := true }

structure SseStream where
  stream : PendingStream
  tap : ChunkTap
  /-- The outcome that was sent to the driver. -/
  outcome : Option StreamOutcome
  driver : Driver

def SseStream.start (config : SseConfig) (publishedAt : ℕ) (poolFallbackSubject : Option String)
    (publishInstant : ℕ) : SseStream where
  stream := .start publishedAt poolFallbackSubject true
  tap := ⟨[], false⟩
  outcome := none
  driver := .start config publishInstant

inductive SseStreamEvent
  | stream (e : StreamEvent)
  /-- The republish that the driver waits for takes the lock. -/
  | republish (now : ℕ) (token : Bool)
  | republishAck (now : ℕ) (ok : Bool)
  | driver (e : DriverEvent)

inductive SseStreamOutput
  | stream (o : StreamOutput)
  | driver (o : DriverOutput)

/-- The steps of the request that only its driver takes. -/
def StreamEvent.ofDriver : StreamEvent → Bool
  | .timeout _ => true
  | .driverAck _ => true
  | _ => false

/-- The chunks that were put on the tap. -/
def tappedChunks (os : List StreamOutput) : List ChunkEnvelope :=
  os.filterMap fun o =>
    match o with
    | .tapped chunk => some chunk
    | _ => none

def sentOutcome (os : List StreamOutput) : Option StreamOutcome :=
  os.findSome? fun o =>
    match o with
    | .outcome outcome => some outcome
    | _ => none

namespace SseStream

/-- The request after a step of it. -/
def afterStream (s : SseStream) (r : PendingStream × List StreamOutput) : SseStream :=
  { s with
    stream := r.1
    tap := (tappedChunks r.2).foldl .send s.tap
    outcome := s.outcome <|> sentOutcome r.2 }

/-- Whether an await of the driver may resolve so. -/
def ready (s : SseStream) : DriverEvent → Bool
  | .chunk _ chunk _ _ => !s.tap.lagged && s.tap.queue.head? = some chunk
  | .lagged _ => s.tap.lagged
  | .tapClosed => !s.tap.lagged && s.tap.queue.isEmpty && s.stream.collector.isNone
  | .outcome outcome =>
    outcome = s.outcome && (outcome.isSome || s.stream.collector.isNone)
  | .republished _ _ => false
  | _ => true

/-- The request after a step of the driver. -/
def afterDriver (s : SseStream) (e : DriverEvent) (d : Driver) : SseStream :=
  { s with
    tap := if e.taken.isSome then { s.tap with queue := s.tap.queue.tail } else s.tap
    driver := d }

/-- One step of the request or of its driver. -/
def step (config : SseConfig) (s : SseStream) :
    SseStreamEvent → Option (SseStream × List SseStreamOutput)
  | .stream e =>
    if e.ofDriver then none
    else (s.stream.step e).map fun r => (s.afterStream r, r.2.map .stream)
  | .republish now token =>
    if s.driver.phase = .republishing then
      (s.stream.step (.timeout token)).bind fun r =>
        if r.1.driver = none then
          -- nothing was published, and the driver goes on
          (s.driver.step config (.republished now (.ok false))).map fun q =>
            ((s.afterStream r).afterDriver (.republished now (.ok false)) q.1,
              r.2.map .stream ++ q.2.map .driver)
        else some (s.afterStream r, r.2.map .stream)
    else none
  | .republishAck now ok =>
    let result := if ok then .ok true else .error "republish publish failed"
    (s.stream.step (.driverAck ok)).bind fun r =>
      (s.driver.step config (.republished now result)).map fun q =>
        ((s.afterStream r).afterDriver (.republished now result) q.1,
          r.2.map .stream ++ q.2.map .driver)
  | .driver e =>
    if s.ready e then
      (s.driver.step config e).map fun q => (s.afterDriver e q.1, q.2.map .driver)
    else none

end SseStream

/-- What is seen of the collector. -/
def streamOutputs (os : List SseStreamOutput) : List StreamOutput :=
  os.filterMap fun o =>
    match o with
    | .stream output => some output
    | .driver _ => none

/-- What the client gets. -/
def sentEvents (os : List SseStreamOutput) : List SseEvent :=
  events (os.filterMap fun o =>
    match o with
    | .stream _ => none
    | .driver output => some output)

section Outputs

variable (os : List SseStreamOutput)

@[simp] theorem streamOutputs_append (o : List SseStreamOutput) :
    streamOutputs (os ++ o) = streamOutputs os ++ streamOutputs o := filterMap_append

@[simp] theorem sentEvents_append (o : List SseStreamOutput) :
    sentEvents (os ++ o) = sentEvents os ++ sentEvents o := by
  simp [sentEvents]

@[simp] theorem streamOutputs_stream (ls : List StreamOutput) :
    streamOutputs (ls.map .stream) = ls := by
  induction ls with
  | nil => rfl
  | cons l ls ih => simp [streamOutputs]

@[simp] theorem streamOutputs_driver (ds : List DriverOutput) :
    streamOutputs (ds.map .driver) = [] := by
  simp [streamOutputs]

@[simp] theorem sentEvents_stream (ls : List StreamOutput) : sentEvents (ls.map .stream) = [] := by
  simp [sentEvents]

@[simp] theorem sentEvents_driver (ds : List DriverOutput) :
    sentEvents (ds.map .driver) = events ds := by
  simp [sentEvents]

end Outputs

/-! ## Text -/

/-- The text of some chunks, joined. -/
def textOf (chunks : List ChunkEnvelope) : String :=
  String.join (chunks.map ChunkEnvelope.textDelta)

@[simp] theorem textOf_nil : textOf [] = "" := rfl

@[simp] theorem textOf_append (chunks new : List ChunkEnvelope) :
    textOf (chunks ++ new) = textOf chunks ++ textOf new := by
  simp [textOf]

@[simp] theorem textOf_singleton (chunk : ChunkEnvelope) : textOf [chunk] = chunk.textDelta := by
  simp [textOf]

variable {chunk : ChunkEnvelope}

theorem textDelta_eq_empty (h : chunk.carriesOutput = false) : chunk.textDelta = "" := by
  simp [ChunkEnvelope.carriesOutput] at h
  exact h.1.1

theorem textOf_eq_empty {chunks : List ChunkEnvelope}
    (h : ∀ chunk ∈ chunks, chunk.carriesOutput = false) : textOf chunks = "" := by
  induction chunks with
  | nil => rfl
  | cons chunk chunks ih =>
    have hhead := textDelta_eq_empty (h chunk (by simp))
    have htail := ih fun c hc => h c (by simp [hc])
    simpa [textOf, hhead] using htail

/-- The text that an attempt has brought. -/
def AttemptState.text (a : AttemptState) : String :=
  a.chunks.foldl (fun text delta => text ++ delta.2) ""

theorem text_absorb (a : AttemptState) (now : ℕ) (chunk : ChunkEnvelope) :
    (a.absorb now chunk).text = a.text ++ chunk.textDelta := by
  by_cases hempty : chunk.textDelta = ""
  · simp [text, absorb, hempty]
  · simp [text, absorb, hempty]

theorem text_of_buildOutcome {c : StreamCollector} {o : StreamOutcome}
    (h : c.buildOutcome = some o) : o.text = c.text := by
  obtain ⟨m, -, rfl⟩ := map_eq_some_iff.mp h
  rfl

/-- The copy of a chunk on the tap differs from it in its digests only. -/
theorem tappedChunk_same (a : AttemptState) (chunk : ChunkEnvelope) :
    (tappedChunk a chunk).textDelta = chunk.textDelta ∧
      (tappedChunk a chunk).attemptId = chunk.attemptId ∧
      (tappedChunk a chunk).carriesOutput = chunk.carriesOutput ∧
      (tappedChunk a chunk).done = chunk.done := by
  unfold tappedChunk
  split <;> exact ⟨rfl, rfl, rfl, rfl⟩

/-! ## The collector and the tap -/

/-- The attempt has brought no output, or is not republished. -/
def PendingStream.outputless (s : PendingStream) (tokenRefused : Bool) : Bool :=
  s.collector.all fun c => !c.republishes tokenRefused || c.firstChunkAt.isNone

/-- No attempt is abandoned that has brought output. -/
def BumpsQuietly (s : PendingStream) (e : StreamEvent) : Prop :=
  match s.inbox, e with
  | .nakChecked _, .proceed => s.outputless false = true
  | _, .timeout token => s.outputless (!token) = true
  | _, _ => True

instance (s : PendingStream) (e : StreamEvent) : Decidable (BumpsQuietly s e) := by
  unfold BumpsQuietly
  split <;> infer_instance

/-- The request after the log `os`. -/
structure Tapped (os : List StreamOutput) (s : PendingStream) : Prop where
  taps : ∀ c ∈ s.collector, c.chunkTap = true
  text : ∀ c ∈ s.collector, c.text = textOf (tappedChunks os)
  /-- Output on the tap is of the latched attempt. -/
  attempt : ∀ c ∈ s.collector, ∀ chunk ∈ tappedChunks os, chunk.carriesOutput = true →
    c.firstChunkAt.isSome = true ∧ c.currentAttemptId = some chunk.attemptId
  latched : ∀ c ∈ s.collector, c.currentAttemptId = none → c.firstChunkAt = none
  /-- What was put aside had brought no output. -/
  aside : ∀ c ∈ s.collector, ∀ st ∈ c.snapshot, st.firstChunkAt = none ∧ st.text = ""
  single : ∀ chunk ∈ tappedChunks os, ∀ other ∈ tappedChunks os, chunk.carriesOutput = true →
    other.carriesOutput = true → chunk.attemptId = other.attemptId
  /-- Nothing follows a terminal. -/
  ended : ∀ chunk ∈ tappedChunks os, chunk.done = true →
    s.collector = none ∨ s.inbox = .complete
  last : ∀ chunk ∈ (tappedChunks os).dropLast, chunk.done = false
  pending : ∀ c ∈ s.collector, ∀ o, .outcome o ∉ os
  outcome : ∀ o, .outcome o ∈ os → o.origin = .workerTerminal → o.text = textOf (tappedChunks os)

@[simp] theorem tappedChunks_append (os o : List StreamOutput) :
    tappedChunks (os ++ o) = tappedChunks os ++ tappedChunks o := filterMap_append

@[simp] theorem tappedChunks_map (chunks : List ChunkEnvelope) :
    tappedChunks (chunks.map .tapped) = chunks := by
  induction chunks with
  | nil => rfl
  | cons _ chunks ih => simp [tappedChunks]

namespace Tapped

variable {os o : List StreamOutput} {s t : PendingStream} {c c₁ : StreamCollector}

section

variable (h : Tapped os s)
include h

/-- An attempt without output: nothing on the tap carries any. -/
theorem silent (hc : s.collector = some c) (hfirst : c.firstChunkAt = none) :
    ∀ chunk ∈ tappedChunks os, chunk.carriesOutput = false := by
  intro chunk hmem
  by_contra hcarries
  have hsome := (h.attempt c hc chunk hmem (by simpa using hcarries)).1
  simp [hfirst] at hsome

/-- The collector stays as it is. -/
theorem of_collector (htapped : tappedChunks o = []) (houtcome : ∀ outcome, .outcome outcome ∉ o)
    (hcollector : t.collector = s.collector)
    (hinbox : s.inbox = .complete → t.collector = none ∨ t.inbox = .complete) :
    Tapped (os ++ o) t := by
  rw [hcollector] at hinbox
  constructor <;> simp only [tappedChunks_append, htapped, hcollector, append_nil, mem_append,
    houtcome, or_false]
  exacts [h.taps, h.text, h.attempt, h.latched, h.aside, h.single,
    fun chunk hmem hdone => (h.ended chunk hmem hdone).elim .inl hinbox, h.last, h.pending,
    h.outcome]

/-- What the collector holds of its attempt stays. -/
theorem of_state (htapped : tappedChunks o = []) (houtcome : ∀ outcome, .outcome outcome ∉ o)
    (hc : s.collector = some c) (hcollector : t.collector = some c₁)
    (hstate : c₁.toAttemptState = c.toAttemptState) (hsnapshot : c₁.snapshot = c.snapshot)
    (htap : c₁.chunkTap = c.chunkTap) (hinbox : s.inbox = .complete → t.inbox = .complete) :
    Tapped (os ++ o) t := by
  have ⟨htaps, htext, hattempt, hlatched, haside, hsingle, hended, hlast, hpending, _⟩ := h
  constructor <;> simp_all
  exacts [hattempt, hsingle, fun chunk hmem hdone => hinbox (hended chunk hmem hdone)]

/-- A chunk that is not accepted may latch its attempt. -/
theorem of_latched (hc : s.collector = some c) (hlatch : Latches c chunk c₁)
    (htapped : tappedChunks o = []) (houtcome : ∀ outcome, .outcome outcome ∉ o)
    (hidle : s.inbox = .idle) (hcollector : t.collector = some c₁) : Tapped (os ++ o) t := by
  cases hlatch with
  | opened =>
    have ⟨htaps, htext, hattempt, hlatched, haside, hsingle, hended, hlast, hpending, _⟩ := h
    constructor <;> simp_all [latch]
    exact htext
  | kept => exact h.of_state htapped houtcome hc hcollector rfl rfl rfl (by simp [hidle])

/-- The collector is gone, with outcomes of its text. -/
theorem of_gone (htapped : tappedChunks o = []) (hgone : t.collector = none)
    (houtcome : ∀ outcome, .outcome outcome ∈ o → outcome.origin = .workerTerminal →
      ∃ c, s.collector = some c ∧ outcome.text = c.text) : Tapped (os ++ o) t := by
  refine ⟨?_, ?_, ?_, ?_, ?_, ?_, ?_, ?_, ?_, ?_⟩ <;> simp [htapped, hgone]
  · exact h.single
  · exact h.last
  · rintro outcome (hout | hout) horigin
    · exact h.outcome outcome hout horigin
    · obtain ⟨c, hc, htext⟩ := houtcome outcome hout horigin
      rw [htext, h.text c hc]

end

/-- A chunk is accepted and put on the tap. -/
theorem of_accepted {now : ℕ} (h : Tapped os s) (hc : s.collector = some c)
    (hidle : s.inbox = .idle) (hlatch : Latches c chunk c₁)
    (hcollector : t.collector = some (c₁.accept now chunk).collector)
    (hinbox : chunk.done = true → t.inbox = .complete) :
    Tapped (os ++ .accepted now chunk :: (c₁.accept now chunk).tapped.map .tapped) t := by
  have hsame := hlatch.same
  have htap : c₁.chunkTap = true := hsame.2.2.2.2.trans (h.taps c hc)
  have hchunks : tappedChunks
      (os ++ .accepted now chunk :: (c₁.accept now chunk).tapped.map .tapped) =
      tappedChunks os ++ [tappedChunk (c₁.absorb now chunk) chunk] := by
    rw [append_cons, tappedChunks_append, tappedChunks_append, tappedChunks_map]
    simp [accept, htap, tappedChunks]
  -- the copy on the tap differs from the chunk only in its digests
  obtain ⟨htext, hattempt, hcarries, hdone⟩ := tappedChunk_same (c₁.absorb now chunk) chunk
  generalize tappedChunk (c₁.absorb now chunk) chunk = copy at hchunks htext hattempt hcarries hdone
  have hopen : ∀ other ∈ tappedChunks os, other.done = false := by
    have hended := h.ended
    simp_all
  have hbefore : ∀ other ∈ tappedChunks os, other.carriesOutput = true →
      other.attemptId = chunk.attemptId ∧ c₁.firstChunkAt.isSome = true := by
    intro other hother hout
    obtain ⟨hsome, hcurrent⟩ := h.attempt c hc other hother hout
    cases hlatch with
    | opened hnone => cases hnone.symm.trans hcurrent
    | kept hkept => exact ⟨some.inj (hcurrent.symm.trans hkept), hsome⟩
  have hall : ∀ other ∈ tappedChunks os ++ [copy], other.carriesOutput = true →
      other.attemptId = chunk.attemptId := by
    intro other hother hout
    obtain hother | hother := mem_append.mp hother
    · exact (hbefore other hother hout).1
    · rwa [mem_singleton.mp hother]
  have hnone : ∀ outcome, .outcome outcome ∉
      os ++ .accepted now chunk :: (c₁.accept now chunk).tapped.map .tapped := by
    have hpending := h.pending c hc
    simp_all
  refine ⟨?_, ?_, ?_, ?_, ?_, ?_, ?_, ?_, fun _ _ => hnone, fun o ho => absurd ho (hnone o)⟩
  · simpa [hcollector]
  · rw [hcollector, hchunks, textOf_append, textOf_singleton, htext, ← h.text c hc]
    rintro _ ⟨⟩
    have hstate : c₁.text = c.text := by cases hlatch <;> rfl
    rw [← hstate]
    exact text_absorb _ _ _
  · rw [hcollector, hchunks]
    rintro _ ⟨⟩ other hother hout
    rw [hall other hother hout]
    refine ⟨?_, hlatch.current⟩
    obtain hother | hother := mem_append.mp hother
    · have hsome := (hbefore other hother hout).2
      cases hcarry : chunk.carriesOutput <;>
        simp [accept, absorb, hcarry, hsome]
    obtain rfl := mem_singleton.mp hother
    rw [hcarries] at hout
    cases hfirst : c₁.firstChunkAt <;>
      simp [accept, absorb, hout, hfirst]
  · rw [hcollector]
    rintro _ ⟨⟩ hcurrent
    cases hlatch.current.symm.trans hcurrent
  · rw [hcollector]
    rintro _ ⟨⟩ st hst
    exact h.aside c hc st (hsame.2.2.1 ▸ hst)
  · rw [hchunks]
    intro a ha b hb houtA houtB
    rw [hall a ha houtA, hall b hb houtB]
  · rw [hchunks]
    intro other hother hend
    obtain hother | hother := mem_append.mp hother
    · cases (hopen other hother).symm.trans hend
    · rw [mem_singleton.mp hother, hdone] at hend
      exact .inr (hinbox hend)
  · rwa [hchunks, dropLast_concat]

/-- An attempt is put aside, or put back, that has brought no output. -/
theorem of_silent (h : Tapped os s) (hc : s.collector = some c) (hfirst : c.firstChunkAt = none)
    (htapped : tappedChunks o = []) (houtcome : ∀ outcome, .outcome outcome ∉ o)
    (hinbox : s.inbox = .complete → t.inbox = .complete) (hcollector : t.collector = some c₁)
    (htext : c₁.text = "") (hlatched : c₁.firstChunkAt = none)
    (haside : ∀ st ∈ c₁.snapshot, st.firstChunkAt = none ∧ st.text = "")
    (htap : c₁.chunkTap = c.chunkTap) : Tapped (os ++ o) t := by
  have hsilent := h.silent hc hfirst
  have hempty := textOf_eq_empty hsilent
  have ⟨htaps, _, _, _, _, hsingle, hended, hlast, hpending, _⟩ := h
  constructor <;> simp_all
  exact fun chunk hmem hdone => hinbox (hended chunk hmem hdone)

theorem tappedChunks_bumpOutputs (nak : Option NakEnvelope) (c c₁ : StreamCollector) :
    tappedChunks (bumpOutputs nak c c₁) = [] := by
  cases habandoned : c₁.abandonedAttemptId <;> simp [bumpOutputs, habandoned, tappedChunks]

theorem of_bumped {nak : Option NakEnvelope} {named : Option String} (h : Tapped os s)
    (hc : s.collector = some c) (hnone : c.firstChunkAt = none)
    (hinbox : s.inbox = .complete → t.inbox = .complete)
    (hcollector : t.collector = some (republishBump c named)) :
    Tapped (os ++ bumpOutputs nak c (republishBump c named)) t := by
  have htext : c.text = "" := by
    rw [h.text c hc]
    exact textOf_eq_empty (h.silent hc hnone)
  refine h.of_silent hc hnone (tappedChunks_bumpOutputs _ _ _) (by simp [bumpOutputs]) hinbox
    hcollector ?_ ?_ ?_ ?_ <;> rw [republishBump_eq]
  · rfl
  · rfl
  · rintro _ ⟨⟩
    exact ⟨hnone, htext⟩

/-- **One step that is no rollback of the driver**, and abandons no attempt with output. -/
theorem next {e : StreamEvent} {r : PendingStream × List StreamOutput} (h : Tapped os s)
    (hflags : Flags os s) (hquiet : BumpsQuietly s e) (hack : e ≠ .driverAck false)
    (hstep : Steps s e r) : Tapped (os ++ r.2) r.1 := by
  cases hstep with
  | nothing | driverAcked => exact h.of_collector rfl (by simp) rfl .inr
  | finished | nakChecked | nakAlready | nakDecidesToFail | nakAcked =>
    exact h.of_collector rfl (by simp) rfl (by grind)
  | published hc => exact h.of_state rfl (by simp) hc rfl rfl rfl rfl id
  | nakWaits hc hinbox => exact h.of_state rfl (by simp) hc rfl rfl rfl rfl (by simp [hinbox])
  | duplicate hc hidle hlatch | gap hc hidle hlatch =>
    exact h.of_latched hc hlatch rfl (by simp) hidle rfl
  | accepted hc hidle hlatch =>
    exact h.of_accepted hc hidle hlatch rfl (by simp_all)
  | @complete c hc =>
    refine h.of_gone (by cases c.buildOutcome <;> rfl) rfl ?_
    intro outcome hmem _
    exact ⟨c, hc, text_of_buildOutcome (by simpa using hmem)⟩
  | failGap | nakFails => exact h.of_gone rfl rfl (by simp [StreamCollector.failure])
  | nakBump hc hinbox _ hrepublishes =>
    simp only [BumpsQuietly, hinbox] at hquiet
    refine h.of_bumped hc ?_ (by simp [hinbox]) rfl
    simpa [PendingStream.outputless, hc, hrepublishes] using hquiet
  | @nakRollsBack _ generation _ hinbox =>
    have hpublishing : s.inbox.publishing = some generation := by rw [hinbox]; rfl
    obtain ⟨-, hinFlight⟩ := hflags.inFlight_of_publishing hpublishing
    cases hc : s.collector with
    | none => exact h.of_gone rfl rfl (by simp [rollbackRepublishAttempt])
    | some c =>
      obtain ⟨hopen, hsnapshot⟩ := hflags.opened c hc (by rw [hpublishing]; rfl)
      obtain ⟨st, hst⟩ := isSome_iff_exists.mp hsnapshot
      obtain ⟨hfirst, htext⟩ := h.aside c hc st hst
      rw [← hc, hflags.rollback_eq hc hinFlight]
      have hstate : (rolledBack c).toAttemptState = st := by
        simp [rolledBack, rewindAttemptGeneration, hst]
      refine h.of_silent hc (h.latched c hc hopen) rfl (by simp) (by simp [hinbox]) rfl ?_ ?_ ?_ rfl
      · rw [hstate, htext]
      · rw [hstate, hfirst]
      · simp [rolledBack, rewindAttemptGeneration]
  | driverBump hc _ _ hrepublishes =>
    simp only [BumpsQuietly] at hquiet
    refine h.of_bumped hc ?_ id rfl
    simpa [PendingStream.outputless, hc, hrepublishes] using hquiet
  | driverRollsBack => exact absurd rfl hack
  | removed => exact h.of_gone rfl rfl (by simp)
  | @shutdown c hc =>
    refine h.of_gone rfl rfl ?_
    intro outcome hmem horigin
    obtain rfl : outcome = _ := by simpa using hmem
    cases houtcome : c.buildOutcome with
    | none => simp [houtcome, StreamCollector.failure] at horigin
    | some outcome => exact ⟨c, hc, text_of_buildOutcome houtcome⟩

end Tapped

/-! ## The driver and the tap -/

/-- A terminal that is suppressed carries no text. -/
def SuppressesNoText (d : Driver) (e : DriverEvent) : Prop :=
  ∀ chunk ∈ d.handled e, d.skipForward chunk = true → chunk.textDelta = ""

instance (d : Driver) (e : DriverEvent) : Decidable (SuppressesNoText d e) :=
  inferInstanceAs (Decidable (∀ chunk ∈ d.handled e, _ → _))

/-- The stream ended with `[DONE]` and without an error event. -/
structure Completed (sent : List SseEvent) : Prop where
  done : .done ∈ sent
  clean : ∀ e ∈ sent, e.isError = false

/-- The driver has taken the chunks `read` and sent the events `sent`. -/
structure Follows (sent : List SseEvent) (read : List ChunkEnvelope) (d : Driver) : Prop where
  seen : d.phase ≠ .returned → d.firstSeen = false → read = []
  republishing : d.phase = .republishing → d.firstSeen = false
  open_ : d.phase ≠ .returned → .done ∉ sent
  sub : ∀ chunk ∈ forwarded sent, chunk ∈ read
  live : d.Live → textOf (forwarded sent) = textOf read
  /-- A terminal that is held back is the last chunk that was taken. -/
  holding : ∀ chunk, d.phase = .holding chunk → ∃ before, read = before ++ [chunk] ∧
    chunk.done = true ∧ textOf (forwarded sent) = textOf before ∧
    ∀ c ∈ forwarded sent, c ∈ before
  returned : Completed sent → textOf (forwarded sent) = textOf read ∧
    ∃ before terminal, read = before ++ [terminal] ∧ terminal.done = true

namespace Follows

variable {config : SseConfig} {d d₁ t : Driver} {sent : List SseEvent}
  {read taken : List ChunkEnvelope}

theorem not_completed (h : Follows sent read d) (hphase : d.phase ≠ .returned) :
    ¬ Completed sent := fun hcompleted => h.open_ hphase hcompleted.done

/-- The driver returns without a `[DONE]`, or with an error. -/
theorem of_broken {new : List SseEvent} (h : Follows sent read d) (hto : t.phase = .returned)
    (hnew : forwarded new = []) (hbroken : ¬ Completed (sent ++ new)) :
    Follows (sent ++ new) (read ++ taken) t := by
  have hsub := h.sub
  constructor <;> simp_all [Driver.Live]

/-- The driver goes on with a chunk without text, or with none. -/
theorem of_silent (h : Follows sent read d) (hfrom : d.Live) (hto : t.Live)
    (htext : textOf taken = "") (hseen : t.firstSeen = false → d.firstSeen = false ∧ taken = [])
    (hrepublish : t.phase = .republishing → t.firstSeen = false) :
    Follows sent (read ++ taken) t := by
  have hrunning := hfrom.phase_ne
  have hbefore := h.not_completed hrunning
  have ⟨hread, _, hopen, hsub, hlive, _, _⟩ := h
  constructor <;> simp_all
  exact fun chunk hphase => absurd hto (by simp [Driver.Live, hphase])

/-- A chunk is forwarded.  `before` is what was forwarded until then. -/
theorem of_forward {before : List ChunkEnvelope} (h : Follows sent read d)
    (hphase : d.phase ≠ .returned) (chunk : ChunkEnvelope) (extras : List (String × Json))
    (delivered : Bool) (hfirst : d₁.firstSeen = true)
    (htext : textOf (forwarded sent) = textOf before) (hsub : ∀ c ∈ forwarded sent, c ∈ before)
    (hsuppressed : d₁.skipForward chunk = true → chunk.textDelta = "") :
    Follows (sent ++ events (d₁.forward config chunk extras delivered).2) (before ++ [chunk])
      (d₁.forward config chunk extras delivered).1 := by
  have hto := forward_phase config d₁ chunk extras delivered
  have hseen : (d₁.forward config chunk extras delivered).1.firstSeen = true :=
    (forward_same ..).2.1.trans hfirst
  have hopen := h.open_ hphase
  have hevents := events_forward config d₁ chunk extras delivered
  have hforwarded := forwarded_forward config d₁ chunk extras delivered
  have hsub' : ∀ c ∈ forwarded (sent ++ events (d₁.forward config chunk extras delivered).2),
      c ∈ before ++ [chunk] := by
    intro c hc
    rw [forwarded_append, hforwarded] at hc
    obtain hc | hc := mem_append.mp hc
    · exact mem_append_left _ (hsub c hc)
    · split at hc
      · exact mem_append_right _ hc
      · simp at hc
  by_cases hlost : d₁.skipForward chunk = false ∧ delivered = false
  · -- the client is gone
    obtain ⟨hskip, rfl⟩ := hlost
    have hbefore := h.not_completed hphase
    constructor <;> simp_all [Driver.Live]
  · have hshown : textOf (forwarded (sent ++ events
        (d₁.forward config chunk extras delivered).2)) = textOf (before ++ [chunk]) := by
      rw [forwarded_append, hforwarded, textOf_append, htext, textOf_append, textOf_singleton]
      cases hskip : d₁.skipForward chunk with
      | true => simp [hsuppressed hskip]
      | false =>
        have hdelivered : delivered = true := by
          by_contra hnot
          exact hlost ⟨hskip, by simpa using hnot⟩
        simp [hdelivered]
    have hdone : .done ∈ sent ++ events (d₁.forward config chunk extras delivered).2 →
        chunk.done = true := by
      rw [hevents]
      unfold forwardEvents
      grind
    refine ⟨by simp [hseen], by grind, by grind, hsub', fun _ => hshown, by grind,
      fun hcompleted => ⟨hshown, before, chunk, rfl, hdone hcompleted.done⟩⟩

/-- **One step of the driver.** -/
theorem next {e : DriverEvent} {r : Driver × List DriverOutput} (h : Follows sent read d)
    (hturns : Turns config d e r) (hsuppressed : SuppressesNoText d e) :
    Follows (sent ++ events r.2) (read ++ e.taken.toList) r.1 := by
  cases hturns with
  | goesOn htaken hevents hfrom hto hfirst hrepublish =>
    rw [htaken, hevents, append_nil]
    refine h.of_silent hfrom hto rfl ?_ ?_
    · exact fun hnot => ⟨hfirst ▸ hnot, rfl⟩
    · exact fun hphase => hfirst.trans (hrepublish hphase)
  | @skips _ chunk _ _ _ hphase hprogress hto _ hfirst =>
    have htext : chunk.textDelta = "" := by
      refine textDelta_eq_empty ?_
      simp [progressOnly] at hprogress
      exact hprogress.1.1.1.1
    rw [events_nil, append_nil]
    refine h.of_silent (.inr (.inr hphase)) (.inl hto) ?_ ?_ ?_
    · simpa [DriverEvent.taken] using htext
    · simp [hfirst]
    · simp [hto]
  | @holds _ chunk _ _ _ hphase hdone hto hfirst =>
    rw [events_nil, append_nil]
    have hbefore := h.not_completed (by simp [hphase])
    have ⟨_, _, hopen, hsub, hlive, _, _⟩ := h
    constructor <;> simp_all [Driver.Live, DriverEvent.taken]
  | @forwards _ chunk extras delivered _ hphase _ hcandidates _ hfirst =>
    refine h.of_forward (by simp [hphase]) chunk extras delivered hfirst
      (h.live (.inr (.inr hphase))) h.sub ?_
    rw [skipForward_congr hcandidates]
    exact hsuppressed chunk (by simp [handled, hphase])
  | @releases chunk extras delivered hphase =>
    obtain ⟨_, rfl, -, htext, hsub⟩ := h.holding chunk hphase
    have hfirst : d.firstSeen = true := by
      by_contra hnot
      exact absurd (h.seen (by simp [hphase]) (by simpa using hnot)) (by simp)
    simp only [DriverEvent.taken, toList_none, append_nil]
    exact h.of_forward (by simp [hphase]) chunk extras delivered hfirst htext hsub
      (hsuppressed chunk (by simp [handled, hphase]))
  | fails error _ herror hevents hto =>
    refine h.of_broken hto (by rw [hevents, forwarded_error herror]) ?_
    intro hcompleted
    have hclean := hcompleted.clean error (by simp [hevents])
    cases hclean.symm.trans herror
  | leaves hphase _ hevents hto =>
    refine h.of_broken hto (by rw [hevents]; rfl) ?_
    rw [hevents, append_nil]
    exact h.not_completed hphase

end Follows

/-- The driver has taken the chunks `read` of those that were put on the tap. -/
structure OnTap (read : List ChunkEnvelope) (tap : ChunkTap) (chunks : List ChunkEnvelope) :
    Prop where
  sub : ∀ chunk ∈ read, chunk ∈ chunks
  queue : tap.lagged = false → read ++ tap.queue = chunks
  ended : ∀ chunk ∈ read, chunk.done = true → tap.lagged = false

namespace OnTap

variable {read chunks : List ChunkEnvelope} {tap : ChunkTap}

theorem send (h : OnTap read tap chunks) (hopen : ∀ chunk ∈ read, chunk.done = false)
    (chunk : ChunkEnvelope) : OnTap read (tap.send chunk) (chunks ++ [chunk]) := by
  refine ⟨fun c hc => mem_append_left _ (h.sub c hc), ?_, ?_⟩
  · intro hlagged
    unfold ChunkTap.send at hlagged ⊢
    split at hlagged
    next hroom => rw [if_pos hroom, ← append_assoc, h.queue hlagged]
    · cases hlagged
  · intro c hc hdone
    cases (hopen c hc).symm.trans hdone

theorem sendAll (hopen : ∀ chunk ∈ read, chunk.done = false) (new : List ChunkEnvelope) :
    ∀ {tap : ChunkTap} {chunks : List ChunkEnvelope}, OnTap read tap chunks →
      OnTap read (new.foldl .send tap) (chunks ++ new) := by
  induction new with
  | nil =>
    intro tap chunks h
    simpa using h
  | cons chunk new ih =>
    intro tap chunks h
    rw [foldl_cons, append_cons]
    exact ih (h.send hopen chunk)

/-- The driver takes the next chunk. -/
theorem take (h : OnTap read tap chunks) (hlagged : tap.lagged = false)
    (hhead : tap.queue.head? = some chunk) :
    OnTap (read ++ [chunk]) { tap with queue := tap.queue.tail } chunks := by
  obtain ⟨rest, hrest⟩ : ∃ rest, tap.queue = chunk :: rest := head?_eq_some_iff.mp hhead
  have hqueue := h.queue hlagged
  rw [hrest, append_cons] at hqueue
  refine ⟨?_, ?_, fun _ _ _ => hlagged⟩
  · intro c hc
    rw [← hqueue]
    exact mem_append_left _ hc
  · intro _
    simpa [hrest] using hqueue

end OnTap

/-! ## The request and its driver together -/

/-- Only an idle inbox worker puts chunks on the tap. -/
theorem tappedChunks_of_steps {s : PendingStream} {e : StreamEvent}
    {r : PendingStream × List StreamOutput} (h : Steps s e r) :
    tappedChunks r.2 = [] ∨ (s.inbox = .idle ∧ s.collector.isSome = true) := by
  cases h with
  | accepted hc hidle => exact .inr ⟨hidle, by simp [hc]⟩
  | @complete c => cases c.buildOutcome <;> exact .inl rfl
  | nakBump | driverBump => exact .inl (Tapped.tappedChunks_bumpOutputs _ _ _)
  | nakRollsBack | driverRollsBack =>
    refine .inl ?_
    unfold rollbackRepublishAttempt
    split
    · rfl
    · split <;> rfl
  | _ => exact .inl rfl

/-- The request and its driver after the log `os`. -/
structure Joint (os : List SseStreamOutput) (s : SseStream) : Prop where
  flags : Flags (streamOutputs os) s.stream
  tapped : Tapped (streamOutputs os) s.stream
  reads : ∃ read, Follows (sentEvents os) read s.driver ∧
    OnTap read s.tap (tappedChunks (streamOutputs os))

/-- The driver gave up before it forwarded anything. -/
structure GaveUp (os : List SseStreamOutput) (s : SseStream) : Prop where
  returned : s.driver.phase = .returned
  forwarded : forwarded (sentEvents os) = []
  error : ∃ e ∈ sentEvents os, e.isError = true

/-- No attempt is abandoned that has brought output, and no terminal is suppressed that
carries text. -/
def Undivided (s : SseStream) : SseStreamEvent → Prop
  | .stream e => BumpsQuietly s.stream e
  | .republish _ token => BumpsQuietly s.stream (.timeout token)
  | .republishAck _ _ => True
  | .driver e => SuppressesNoText s.driver e

instance (s : SseStream) (e : SseStreamEvent) : Decidable (Undivided s e) := by
  unfold Undivided
  split <;> infer_instance

namespace Joint

variable {config : SseConfig} {os : List SseStreamOutput} {s : SseStream}
  {r : PendingStream × List StreamOutput} {q : Driver × List DriverOutput}

/-- A step of the request. -/
theorem stream {e : StreamEvent} (h : Joint os s) (hquiet : BumpsQuietly s.stream e)
    (hack : e ≠ .driverAck false) (hstep : s.stream.step e = some r) :
    Joint (os ++ r.2.map .stream) (s.afterStream r) := by
  have hsteps := PendingStream.steps_of_step hstep
  obtain ⟨read, _, htap⟩ := h.reads
  refine ⟨?_, ?_, read, by simpa, ?_⟩
  · simpa [SseStream.afterStream] using h.flags.next hsteps
  · simpa [SseStream.afterStream] using h.tapped.next h.flags hquiet hack hsteps
  · rw [streamOutputs_append, streamOutputs_stream, tappedChunks_append]
    obtain hnone | ⟨hidle, hsome⟩ := tappedChunks_of_steps hsteps
    · simpa [SseStream.afterStream, hnone] using htap
    refine htap.sendAll ?_ _
    intro chunk hchunk
    have hended := h.tapped.ended chunk (htap.sub chunk hchunk)
    grind

/-- A step of the driver. -/
theorem driver {e : DriverEvent} (h : Joint os s) (hsuppressed : SuppressesNoText s.driver e)
    (hready : ∀ chunk, e.taken = some chunk → s.tap.lagged = false ∧ s.tap.queue.head? = some chunk)
    (hstep : s.driver.step config e = some q) :
    Joint (os ++ q.2.map .driver) (s.afterDriver e q.1) := by
  obtain ⟨read, hfollows, htap⟩ := h.reads
  have hnext := hfollows.next (turns_of_step hstep) hsuppressed
  refine ⟨by simpa [SseStream.afterDriver] using h.flags,
    by simpa [SseStream.afterDriver] using h.tapped, read ++ e.taken.toList, by simpa, ?_⟩
  cases htaken : e.taken with
  | none => simpa [SseStream.afterDriver, htaken] using htap
  | some chunk =>
    obtain ⟨hlagged, hhead⟩ := hready chunk htaken
    simpa [SseStream.afterDriver, htaken] using htap.take hlagged hhead

/-- The republish that the driver waits for fails: nothing was forwarded yet, and an error
is sent. -/
theorem gaveUp {now : ℕ} {message : String} (h : Joint os s)
    (hstep : s.driver.step config (.republished now (.error message)) = some q) :
    GaveUp (os ++ (r.2.map .stream ++ q.2.map .driver))
      ((s.afterStream r).afterDriver (.republished now (.error message)) q.1) := by
  have hphase : s.driver.phase = .republishing := by
    cases hphase : s.driver.phase <;> simp [step, hphase] at hstep ⊢
  obtain ⟨read, hfollows, -⟩ := h.reads
  obtain rfl : read = [] := hfollows.seen (by simp [hphase]) (hfollows.republishing hphase)
  have hnone : forwarded (sentEvents os) = [] := by
    rw [eq_nil_iff_forall_not_mem]
    exact fun chunk hmem => absurd (hfollows.sub chunk hmem) (by simp)
  simp only [step, hphase, afterRepublish, some.injEq] at hstep
  subst hstep
  have hevents : sentEvents (os ++ (r.2.map .stream ++ (failWith s.driver
      (!s.driver.firstSeen) "first_chunk_timeout" "Generation aborted: first_chunk timeout"
      [.publishCancel, .dropPendingStream]).2.map .driver)) = sentEvents os ++
      [.error "first_chunk_timeout" "Generation aborted: first_chunk timeout", .done] := by
    simp [failWith]
    rfl
  refine ⟨rfl, ?_, ?_⟩
  · rw [hevents, forwarded_append, hnone]
    rfl
  · rw [hevents]
    exact ⟨.error "first_chunk_timeout" "Generation aborted: first_chunk timeout", by simp, rfl⟩

end Joint

/-- **One step of the request or of its driver.** -/
theorem joint_or_gaveUp_next {config : SseConfig} {os o : List SseStreamOutput} {s t : SseStream}
    {e : SseStreamEvent} (h : Joint os s ∨ GaveUp os s) (hundivided : Undivided s e)
    (hstep : s.step config e = some (t, o)) : Joint (os ++ o) t ∨ GaveUp (os ++ o) t := by
  have hrepublished : ∀ (d : Driver) now result,
      SuppressesNoText d (.republished now result) := fun d now result chunk hmem => by
    cases hphase : d.phase <;> simp [handled, hphase] at hmem
  obtain h | h := h
  · cases e with
    | stream =>
      simp only [SseStream.step] at hstep
      split at hstep
      · cases hstep
      rename_i hother
      obtain ⟨r, hr, ⟨⟩⟩ := map_eq_some_iff.mp hstep
      refine .inl (h.stream hundivided ?_ hr)
      rintro rfl
      exact hother rfl
    | republish =>
      simp only [SseStream.step] at hstep
      split at hstep
      · obtain ⟨r, hr, hrest⟩ := bind_eq_some_iff.mp hstep
        have hstream := h.stream hundivided (by simp) hr
        split at hrest
        · obtain ⟨q, hq, ⟨⟩⟩ := map_eq_some_iff.mp hrest
          rw [← append_assoc]
          exact .inl (hstream.driver (hrepublished _ _ _) (by simp [DriverEvent.taken]) hq)
        · cases hrest
          exact .inl hstream
      · cases hstep
    | republishAck _ ok =>
      simp only [SseStream.step] at hstep
      obtain ⟨r, hr, hrest⟩ := bind_eq_some_iff.mp hstep
      obtain ⟨q, hq, ⟨⟩⟩ := map_eq_some_iff.mp hrest
      cases ok with
      | true =>
        have hquiet : BumpsQuietly s.stream (.driverAck true) := by
          cases hinbox : s.stream.inbox <;> simp [BumpsQuietly, hinbox]
        have hstream := h.stream hquiet (by simp) hr
        rw [← append_assoc]
        exact .inl (hstream.driver (hrepublished _ _ _) (by simp [DriverEvent.taken]) hq)
      | false => exact .inr (h.gaveUp hq)
    | driver e =>
      simp only [SseStream.step] at hstep
      split at hstep
      next hready =>
        obtain ⟨q, hq, ⟨⟩⟩ := map_eq_some_iff.mp hstep
        refine .inl (h.driver hundivided ?_ hq)
        intro chunk htaken
        cases e <;> simp_all [DriverEvent.taken, SseStream.ready]
      · cases hstep
  · -- a driver that returned takes no step
    have hstuck : ∀ e, s.driver.step config e = none := by
      intro e
      simp [step, h.returned]
    refine .inr ?_
    cases e with
    | stream =>
      simp only [SseStream.step] at hstep
      split at hstep
      · cases hstep
      · obtain ⟨r, -, ⟨⟩⟩ := map_eq_some_iff.mp hstep
        exact ⟨h.returned, by simpa using h.forwarded, by simpa using h.error⟩
    | republish => simp [SseStream.step, h.returned] at hstep
    | republishAck | driver => simp [SseStream.step, hstuck] at hstep

/-! ## Whole runs -/

section Runs

variable {config : SseConfig} {publishedAt publishInstant : ℕ} {subject : Option String}
  {es : List SseStreamEvent} {os : List SseStreamOutput} {s : SseStream}

theorem joint_start : Joint [] (.start config publishedAt subject publishInstant) := by
  refine ⟨.start publishedAt subject true, ?_, [], ?_, ⟨by simp, fun _ => rfl, by simp⟩⟩
  · constructor <;> simp [SseStream.start, PendingStream.start, new, streamOutputs, tappedChunks,
      AttemptState.empty, text]
  · refine ⟨fun _ _ => rfl, fun _ => rfl, by simp [sentEvents], by simp [sentEvents, forwarded],
      fun _ => rfl, by simp [SseStream.start, start], ?_⟩
    intro hcompleted
    exact absurd hcompleted.done (by simp [sentEvents])

/-- **An SSE client sees the output of one attempt.**  If no attempt is abandoned that has
brought output and no suppressed terminal carries text, then the chunks with output that
the driver forwards are of one attempt, and when the stream completes the forwarded text
is that of the outcome. -/
theorem sse_sees_one_attempt
    (h : runs (SseStream.step config) (.start config publishedAt subject publishInstant) es =
      some (s, os)) (hundivided : Along (SseStream.step config) Undivided
      (.start config publishedAt subject publishInstant) es) :
    (∀ chunk ∈ forwarded (sentEvents os), ∀ other ∈ forwarded (sentEvents os),
      chunk.carriesOutput = true → other.carriesOutput = true → chunk.attemptId = other.attemptId) ∧
    (Completed (sentEvents os) → ∀ o, .outcome o ∈ streamOutputs os →
      o.origin = .workerTerminal → textOf (forwarded (sentEvents os)) = o.text) := by
  have hinv := runs_induction_along (fun os s => Joint os s ∨ GaveUp os s)
    (.inl joint_start) (fun _ _ _ _ _ hP hC hstep => joint_or_gaveUp_next hP hC hstep) es os s
    hundivided h
  obtain ⟨-, htapped, _, hfollows, htap⟩ | hgaveUp := hinv
  · constructor
    · intro chunk hchunk other hother
      exact htapped.single chunk (htap.sub _ (hfollows.sub _ hchunk)) other
        (htap.sub _ (hfollows.sub _ hother))
    · intro hcompleted o ho horigin
      obtain ⟨htext, _, terminal, rfl, hdone⟩ := hfollows.returned hcompleted
      have hqueue := htap.queue (htap.ended terminal (by simp) hdone)
      -- nothing is on the tap behind the terminal
      have hnil : s.tap.queue = [] := by
        by_contra hne
        have hmem : terminal ∈ (tappedChunks (streamOutputs os)).dropLast := by
          rw [← hqueue, dropLast_append_of_ne_nil hne]
          simp
        cases (htapped.last terminal hmem).symm.trans hdone
      rw [hnil, append_nil] at hqueue
      rw [htext, hqueue]
      exact (htapped.outcome o ho horigin).symm
  · refine ⟨by simp [hgaveUp.forwarded], ?_⟩
    intro hcompleted
    obtain ⟨e, he, herror⟩ := hgaveUp.error
    cases (hcompleted.clean e he).symm.trans herror

end Runs

namespace TwoAttempts

def streaming : SseStream := .start chatConfig 0 (some "pool") 0

/-- The text the client got, and the texts of the worker's outcomes. -/
def texts (os : List SseStreamOutput) : String × List String :=
  (textOf (forwarded (sentEvents os)),
    ((outcomes (streamOutputs os)).filter fun o => o.origin = .workerTerminal).map
      StreamOutcome.text)

/-- Attempt `a` refuses before it brings output, and the pool's attempt `b` answers. -/
def refusedQuietly : List SseStreamEvent :=
  [.stream (.published [1]), .driver (.check 0 0), .driver (.durability .confirmed),
    .driver (.check 0 0), .stream (.chunk 1 (chunkOf "a" 0 "" false)), .stream (.nak (nakOf "a")),
    .stream .proceed, .driver (.chunk 1 (chunkOf "a" 0 "" false) [] true), .driver (.check 1 1),
    .stream (.nakAck true), .stream (.chunk 2 (chunkOf "b" 0 "hello" false)),
    .driver (.chunk 2 (chunkOf "b" 0 "hello" false) [] true), .driver (.check 2 2),
    .stream (.chunk 3 (chunkOf "b" 1 "" true)), .stream .proceed,
    .driver (.chunk 3 (chunkOf "b" 1 "" true) [] true)]

theorem refusedQuietly_goes :
    (runs (SseStream.step chatConfig) streaming refusedQuietly).isSome = true := by
  decide +kernel

def afterRefusedQuietly : SseStream × List SseStreamOutput :=
  reached (SseStream.step chatConfig) streaming refusedQuietly refusedQuietly_goes

theorem sse_sees_one_attempt_refused :
    Completed (sentEvents afterRefusedQuietly.2) ∧
      (∃ o, .outcome o ∈ streamOutputs afterRefusedQuietly.2 ∧ o.origin = .workerTerminal) ∧
      ∀ o, .outcome o ∈ streamOutputs afterRefusedQuietly.2 → o.origin = .workerTerminal →
        "hello" = o.text := by
  have hundivided : Along (SseStream.step chatConfig) Undivided streaming refusedQuietly := by
    decide +kernel
  obtain ⟨-, hall⟩ := sse_sees_one_attempt (runs_eq_reached refusedQuietly_goes) hundivided
  have hcompleted : Completed (sentEvents afterRefusedQuietly.2) :=
    ⟨by decide +kernel, by decide +kernel⟩
  have htext : textOf (forwarded (sentEvents afterRefusedQuietly.2)) = "hello" := by
    decide +kernel
  refine ⟨hcompleted, ?_, ?_⟩
  · have hexists : ∃ o ∈ outcomes (streamOutputs afterRefusedQuietly.2),
        o.origin = .workerTerminal := by decide +kernel
    obtain ⟨o, ho, horigin⟩ := hexists
    exact ⟨o, mem_outcomes.mp ho, horigin⟩
  · intro o ho horigin
    exact htext.symm.trans (hall hcompleted o ho horigin)

/-- The first chunk of `a` is on the tap when the deadline of the driver fires: the driver
republishes, then forwards that chunk, and then the answer of `b`. -/
def racedDeadline : List SseStreamEvent :=
  [.stream (.published [1]), .driver (.check 0 0), .driver (.durability .confirmed),
    .driver (.check 0 0), .driver .timer, .stream (.chunk 9 (chunkOf "a" 0 "Hel" false)),
    .driver (.check 10 10), .republish 10 true, .republishAck 10 true, .driver (.check 11 11),
    .driver (.chunk 11 (chunkOf "a" 0 "Hel" false) [] true), .driver (.check 11 11),
    .stream (.chunk 12 (chunkOf "b" 0 "Hello" false)),
    .driver (.chunk 12 (chunkOf "b" 0 "Hello" false) [] true), .driver (.check 12 12),
    .stream (.chunk 13 (chunkOf "b" 1 "" true)), .stream .proceed,
    .driver (.chunk 13 (chunkOf "b" 1 "" true) [] true)]

/-- `a` refuses after its first output was forwarded. -/
def refusedLate : List SseStreamEvent :=
  [.stream (.published [1]), .driver (.check 0 0), .driver (.durability .confirmed),
    .driver (.check 0 0), .stream (.chunk 1 (chunkOf "a" 0 "Hel" false)),
    .driver (.chunk 1 (chunkOf "a" 0 "Hel" false) [] true), .driver (.check 1 1),
    .stream (.nak (nakOf "a")), .stream .proceed, .stream (.nakAck true),
    .stream (.chunk 2 (chunkOf "b" 0 "Hello" false)),
    .driver (.chunk 2 (chunkOf "b" 0 "Hello" false) [] true), .driver (.check 2 2),
    .stream (.chunk 3 (chunkOf "b" 1 "" true)), .stream .proceed,
    .driver (.chunk 3 (chunkOf "b" 1 "" true) [] true)]

/-- **The client gets the output of two attempts joined**, and the stream completes. -/
theorem client_sees_two_attempts :
    (∃ s os, runs (SseStream.step chatConfig) streaming racedDeadline = some (s, os) ∧
      Completed (sentEvents os) ∧ texts os = ("HelHello", ["Hello"]) ∧
      (forwarded (sentEvents os)).map ChunkEnvelope.attemptId = ["a", "b", "b"]) ∧
    (∃ s os, runs (SseStream.step chatConfig) streaming refusedLate = some (s, os) ∧
      Completed (sentEvents os) ∧ texts os = ("HelHello", ["Hello"]) ∧
      (forwarded (sentEvents os)).map ChunkEnvelope.attemptId = ["a", "b", "b"]) := by
  refine ⟨⟨_, _, runs_eq_reached (by decide +kernel), ⟨?_, ?_⟩, ?_⟩,
    ⟨_, _, runs_eq_reached (by decide +kernel), ⟨?_, ?_⟩, ?_⟩⟩
  all_goals decide +kernel

end TwoAttempts

end Sie.Gateway
