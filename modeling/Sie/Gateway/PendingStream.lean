import Sie.Gateway.StreamCollector
import Sie.Lib.Run

/-!
# A pending stream

The handlers of the gateway's `queue/publisher.rs` that work on the collector of one
streamed request, at the granularity of its lock in the map of pending streams:
`handle_chunk` and `handle_nak` on the request's inbox worker, which takes one envelope
at a time, `republish_to_pool` with `rollback_republish_attempt`, called by the NAK
handler and by the driver of the HTTP request when no first chunk came in time, and the
paths that remove the collector.

A handler gives the lock up between its parts, and what it has still to do is a value in
the state (`Inbox`, and the generation the driver has published), so that anything may
come in between.  The publish itself takes no lock; its acknowledgement or failure is an
event.
-/

namespace Sie.Gateway

open Sie.Lib StreamCollector

/-- A worker's refusal of a request. -/
structure NakEnvelope where
  kind : String
  requestId : String
  attemptId : String
  reason : String
  deriving DecidableEq

/-- What the inbox worker has still to do for the envelope it took. -/
inductive Inbox
  | idle
  /-- A terminal chunk was applied: remove the collector and send its outcome. -/
  | complete
  /-- A chunk left out a sequence number: fail the stream. -/
  | failGap
  /-- A NAK was not found stale: try to republish. -/
  | nakChecked (nak : NakEnvelope)
  | nakPublishing (nak : NakEnvelope) (generation : ℕ)
  /-- The request was republished before: decide again. -/
  | nakAlready (nak : NakEnvelope)
  | nakFail (nak : NakEnvelope) (message : String)
  deriving DecidableEq

/-- One request. -/
structure PendingStream where
  collector : Option StreamCollector
  inbox : Inbox
  /-- The generation that the driver has published and waits for. -/
  driver : Option ℕ

/-- A request as the publish path puts it in the map. -/
def PendingStream.start (publishedAt : ℕ) (poolFallbackSubject : Option String)
    (chunkTap : Bool) : PendingStream where
  collector := some (.new publishedAt poolFallbackSubject chunkTap)
  inbox := .idle
  driver := none

inductive StreamEvent
  /-- The publish path keeps the encoded work item. -/
  | published (payload : List UInt8)
  | chunk (now : ℕ) (chunk : ChunkEnvelope)
  | nak (nak : NakEnvelope)
  /-- The inbox worker goes on with what it has still to do. -/
  | proceed
  | nakAck (ok : Bool)
  /-- The driver saw no first chunk in time and asks for a republish; `token` is what
  the token bucket of the fallback says. -/
  | timeout (token : Bool)
  | driverAck (ok : Bool)
  /-- The collector is dropped without an outcome. -/
  | remove
  | shutdown
  deriving DecidableEq

/-- What is seen of a request. -/
inductive StreamOutput
  | accepted (now : ℕ) (chunk : ChunkEnvelope)
  | gap (chunk : ChunkEnvelope)
  | tapped (chunk : ChunkEnvelope)
  /-- The attempt was bumped, for a NAK or for the driver, and was latched so. -/
  | bumped (nak : Option NakEnvelope) (latched : Option String)
  /-- The id was recorded as abandoned. -/
  | abandoned (attemptId : String)
  | republished
  | rolledBack
  /-- A NAK failed the stream, which was latched so. -/
  | nakFailed (nak : NakEnvelope) (latched : Option String)
  | outcome (outcome : StreamOutcome)
  deriving DecidableEq

/-- Whether a NAK is from an abandoned attempt. -/
def nakIsStale (currentAttemptId abandonedAttemptId : Option String) (nakAttemptId : String) :
    Bool :=
  if nakAttemptId = "" then false
  else
    match currentAttemptId with
    | some current => current ≠ nakAttemptId
    | none => abandonedAttemptId = some nakAttemptId

inductive AlreadyRepublishedNakDecision
  | dropStale
  | waitForSuccessor
  | fail
  deriving DecidableEq

def alreadyRepublishedNakDecision (currentAttemptId abandonedAttemptId : Option String)
    (nakAttemptId : String) : AlreadyRepublishedNakDecision :=
  if nakIsStale currentAttemptId abandonedAttemptId nakAttemptId then .dropStale
  else if currentAttemptId = none then .waitForSuccessor
  else .fail

/-- What the locked part of a republish answers. -/
inductive RepublishStart
  /-- The collector `c` was bumped to `c₁`, and the item is to be published with the
  generation of `c₁`. -/
  | publish (c c₁ : StreamCollector)
  | alreadyRepublished
  | notPossible
  | rateLimited

/-- What a republish does to the collector before it publishes: the flag, the bump, and
the attempt a NAK named. -/
def republishBump (c : StreamCollector) (abandonedAttemptId : Option String) : StreamCollector :=
  let c₁ := { c with republished := true }.bumpAttemptGeneration
  match abandonedAttemptId with
  | some attemptId => c₁.recordAbandonedAttemptId attemptId
  | none => c₁

/-- The locked part of `republish_to_pool_outcome_with_abandoned_attempt`.  Only the
driver's republish asks the token bucket. -/
def republishStart (collector : Option StreamCollector) (tokenRefused : Bool)
    (abandonedAttemptId : Option String) : RepublishStart :=
  match collector with
  | none => .notPossible
  | some c =>
    if c.republished then .alreadyRepublished
    else if c.poolFallbackSubject = none then .notPossible
    else if c.encodedPayload = none then .notPossible
    else if tokenRefused then .rateLimited
    else .publish c (republishBump c abandonedAttemptId)

/-- The outputs of a bump from `c` to `c₁`. -/
def bumpOutputs (nak : Option NakEnvelope) (c c₁ : StreamCollector) : List StreamOutput :=
  .bumped nak c.currentAttemptId :: (c₁.abandonedAttemptId.map .abandoned).toList

/-- `rollback_republish_attempt`. -/
def rollbackRepublishAttempt (collector : Option StreamCollector) (generation : ℕ) :
    Option StreamCollector × List StreamOutput :=
  match collector with
  | none => (none, [])
  | some c =>
    if c.republished && c.attemptGeneration = generation then
      (some { c with republished := false }.rewindAttemptGeneration, [.rolledBack])
    else (some c, [])

namespace PendingStream

section

variable (s : PendingStream)

/-- `fail_pending_stream`: an outcome with an error, unless the collector is gone.  `notes`
is what is seen besides. -/
def failPendingStream (code message : String)
    (notes : StreamCollector → List StreamOutput) : PendingStream × List StreamOutput :=
  match s.collector with
  | none => ({ s with inbox := .idle }, [])
  | some c =>
    ({ s with collector := none, inbox := .idle },
      notes c ++ [.outcome (c.failure code message)])

/-- `handle_chunk`, as far as it keeps the lock. -/
def handleChunk (now : ℕ) (chunk : ChunkEnvelope) : PendingStream × List StreamOutput :=
  match s.collector with
  | none => (s, [])
  | some c =>
    let r := c.apply now chunk
    let s₁ := { s with collector := some r.collector }
    match r.applied with
    | .terminal =>
      ({ s₁ with inbox := .complete }, .accepted now chunk :: r.tapped.map .tapped)
    | .delta => (s₁, .accepted now chunk :: r.tapped.map .tapped)
    | .seqGap => ({ s₁ with inbox := .failGap }, [.gap chunk])
    | .stale => (s₁, [])
    | .duplicate => (s₁, [])

/-- The check `handle_nak` starts with. -/
def handleNak (nak : NakEnvelope) : PendingStream :=
  let current := s.collector.bind fun c => c.currentAttemptId
  let abandoned := s.collector.bind fun c => c.abandonedAttemptId
  if nakIsStale current abandoned nak.attemptId then s
  else { s with inbox := .nakChecked nak }

/-- The locked part of the republish of a NAK. -/
def nakRepublish (nak : NakEnvelope) : PendingStream × List StreamOutput :=
  match republishStart s.collector false (some nak.attemptId) with
  | .publish c c₁ =>
    ({ s with collector := some c₁, inbox := .nakPublishing nak c₁.attemptGeneration },
      bumpOutputs (some nak) c c₁)
  | .alreadyRepublished => ({ s with inbox := .nakAlready nak }, [])
  | .rateLimited =>
    ({ s with inbox := .nakFail nak "fallback rate limit reached during NAK republish" }, [])
  | .notPossible => ({ s with inbox := .idle }, [])

/-- The second look of a NAK at a request that was republished before. -/
def nakDecide (nak : NakEnvelope) : PendingStream × List StreamOutput :=
  match s.collector with
  | none => ({ s with inbox := .idle }, [])
  | some c =>
    match alreadyRepublishedNakDecision c.currentAttemptId c.abandonedAttemptId nak.attemptId with
    | .dropStale => ({ s with inbox := .idle }, [])
    | .waitForSuccessor =>
      let c₁ := c.recordAbandonedAttemptId nak.attemptId
      ({ s with collector := some c₁, inbox := .idle },
        if c₁.abandonedAttemptId = c.abandonedAttemptId then []
        else (c₁.abandonedAttemptId.map .abandoned).toList)
    | .fail =>
      ({ s with
          inbox := .nakFail nak "KV cache saturated and request already retried on the pool" },
        [])

/-- What a completed stream is removed with. -/
def completeStream : PendingStream × List StreamOutput :=
  match s.collector with
  | none => ({ s with inbox := .idle }, [])
  | some c =>
    ({ s with collector := none, inbox := .idle }, (c.buildOutcome.map .outcome).toList)

end

def gapMessage : String :=
  "streaming chunk sequence gap (missing chunk between worker and gateway)"

section

variable (s : PendingStream)

/-- The inbox worker goes on. -/
def proceedInbox : Option (PendingStream × List StreamOutput) :=
  match s.inbox with
  | .idle => none
  | .complete => some s.completeStream
  | .failGap => some (s.failPendingStream "transport_failure" gapMessage fun _ => [])
  | .nakChecked nak => some (s.nakRepublish nak)
  | .nakPublishing _ _ => none
  | .nakAlready nak => some (s.nakDecide nak)
  | .nakFail nak message =>
    some (s.failPendingStream "rate_limit_exceeded" message fun c =>
      [.nakFailed nak c.currentAttemptId])

/-- The locked part of the driver's republish. -/
def driverRepublish (token : Bool) : PendingStream × List StreamOutput :=
  match republishStart s.collector (!token) none with
  | .publish c c₁ =>
    ({ s with collector := some c₁, driver := some c₁.attemptGeneration },
      bumpOutputs none c c₁)
  | _ => (s, [])

/-- Shutdown takes the outcome that is there, or makes one up. -/
def shutdownStream : PendingStream × List StreamOutput :=
  match s.collector with
  | none => (s, [])
  | some c =>
    ({ s with collector := none },
      [.outcome (c.buildOutcome.getD
        (c.failure "shutdown" "gateway shutdown before stream completed"))])

/-- One step of a request. -/
def step : StreamEvent → Option (PendingStream × List StreamOutput)
  | .published payload =>
    some ({ s with
      collector := s.collector.map fun c => { c with encodedPayload := some payload } }, [])
  | .chunk now chunk => if s.inbox = .idle then some (s.handleChunk now chunk) else none
  | .nak nak => if s.inbox = .idle then some (s.handleNak nak, []) else none
  | .proceed => s.proceedInbox
  | .nakAck ok =>
    match s.inbox with
    | .nakPublishing nak generation =>
      if ok then some ({ s with inbox := .idle }, [.republished])
      else
        let r := rollbackRepublishAttempt s.collector generation
        some ({ s with
          collector := r.1
          inbox := .nakFail nak "KV cache saturated and pool republish failed" }, r.2)
    | _ => none
  | .timeout token => if s.driver = none then some (s.driverRepublish token) else none
  | .driverAck ok =>
    match s.driver with
    | some generation =>
      if ok then some ({ s with driver := none }, [.republished])
      else
        let r := rollbackRepublishAttempt s.collector generation
        some ({ s with collector := r.1, driver := none }, r.2)
    | none => none
  | .remove => some ({ s with collector := none }, [])
  | .shutdown => some s.shutdownStream

end

end PendingStream

/-! ## What a step can do -/

/-- The request can be republished, and was not before. -/
def StreamCollector.republishes (c : StreamCollector) (tokenRefused : Bool) : Bool :=
  !c.republished && c.poolFallbackSubject.isSome && c.encodedPayload.isSome && !tokenRefused

/-- What the locked part of a republish can answer. -/
inductive Starts (collector : Option StreamCollector) (refused : Bool)
    (attemptId : Option String) : RepublishStart → Prop
  | publish {c : StreamCollector} (hc : collector = some c) (hfirst : c.republished = false)
      (hrepublishes : c.republishes refused = true) :
      Starts collector refused attemptId (.publish c (republishBump c attemptId))
  | already {c : StreamCollector} (hc : collector = some c) (hnot : c.republished = true) :
      Starts collector refused attemptId .alreadyRepublished
  | limited (hrefused : refused = true) : Starts collector refused attemptId .rateLimited
  | impossible : Starts collector refused attemptId .notPossible

theorem republishStart_starts (collector : Option StreamCollector) (refused : Bool)
    (attemptId : Option String) :
    Starts collector refused attemptId (republishStart collector refused attemptId) := by
  cases collector with
  | none => exact .impossible
  | some c =>
    simp only [republishStart]
    split_ifs with hrepublished hsubject hpayload hrefused
    · exact .already rfl hrepublished
    · exact .impossible
    · exact .impossible
    · exact .limited hrefused
    · exact .publish rfl (by simpa using hrepublished)
        (by simp [StreamCollector.republishes, hrepublished, hrefused, Option.isSome_iff_ne_none,
          hsubject, hpayload])

/-- What one step does.  `c` is the collector it finds. -/
inductive Steps (s : PendingStream) : StreamEvent → PendingStream × List StreamOutput → Prop
  /-- Nothing happens. -/
  | nothing {e : StreamEvent} : Steps s e (s, [])
  /-- The inbox worker is through with its envelope, and nothing happened. -/
  | finished {e : StreamEvent} (hnothing : s.collector = none ∨
      ∃ nak, s.inbox = .nakChecked nak ∨ s.inbox = .nakAlready nak)
      (hinbox : ∀ nak generation, s.inbox ≠ .nakPublishing nak generation) :
      Steps s e ({ s with inbox := .idle }, [])
  | published {c : StreamCollector} {payload : List UInt8} (hc : s.collector = some c) :
      Steps s (.published payload)
        ({ s with collector := some { c with encodedPayload := some payload } }, [])
  /-- A chunk of the latched attempt that was applied before. -/
  | duplicate {c c₁ : StreamCollector} {now last : ℕ} {chunk : ChunkEnvelope}
      (hc : s.collector = some c) (hidle : s.inbox = .idle) (hlatch : Latches c chunk c₁)
      (hlast : c₁.lastAppliedSeq = some last) :
      Steps s (.chunk now chunk) ({ s with collector := some c₁ }, [])
  | gap {c c₁ : StreamCollector} {now last : ℕ} {chunk : ChunkEnvelope}
      (hc : s.collector = some c) (hidle : s.inbox = .idle) (hlatch : Latches c chunk c₁)
      (hlast : c₁.lastAppliedSeq = some last) :
      Steps s (.chunk now chunk) ({ s with collector := some c₁, inbox := .failGap }, [.gap chunk])
  | accepted {c c₁ : StreamCollector} {now : ℕ} {chunk : ChunkEnvelope}
      (hc : s.collector = some c) (hidle : s.inbox = .idle) (hlatch : Latches c chunk c₁)
      (hseq : chunk.done = false → ∀ last, c₁.lastAppliedSeq = some last →
        chunk.seq = last + 1) :
      Steps s (.chunk now chunk)
        ({ s with
          collector := some (c₁.accept now chunk).collector
          inbox := if chunk.done then .complete else .idle },
        (.accepted now chunk :: (c₁.accept now chunk).tapped.map .tapped))
  | nakChecked {nak : NakEnvelope} (hidle : s.inbox = .idle)
      (hstale : nakIsStale (s.collector.bind fun c => c.currentAttemptId)
        (s.collector.bind fun c => c.abandonedAttemptId) nak.attemptId = false) :
      Steps s (.nak nak) ({ s with inbox := .nakChecked nak }, [])
  | complete {c : StreamCollector} (hc : s.collector = some c) (hinbox : s.inbox = .complete) :
      Steps s .proceed ({ s with collector := none, inbox := .idle },
        (c.buildOutcome.map .outcome).toList)
  | failGap {c : StreamCollector} (hc : s.collector = some c) (hinbox : s.inbox = .failGap) :
      Steps s .proceed ({ s with collector := none, inbox := .idle },
        [.outcome (c.failure "transport_failure" PendingStream.gapMessage)])
  | nakBump {c : StreamCollector} {nak : NakEnvelope} (hc : s.collector = some c)
      (hinbox : s.inbox = .nakChecked nak) (hfirst : c.republished = false)
      (hrepublishes : c.republishes false = true) :
      Steps s .proceed
        ({ s with
          collector := some (republishBump c (some nak.attemptId))
          inbox := .nakPublishing nak (republishBump c (some nak.attemptId)).attemptGeneration },
        (bumpOutputs (some nak) c (republishBump c (some nak.attemptId))))
  | nakAlready {c : StreamCollector} {nak : NakEnvelope} (hc : s.collector = some c)
      (hinbox : s.inbox = .nakChecked nak) (hnot : c.republished = true) :
      Steps s .proceed ({ s with inbox := .nakAlready nak }, [])
  | nakWaits {c : StreamCollector} {nak : NakEnvelope} (hc : s.collector = some c)
      (hinbox : s.inbox = .nakAlready nak) (hopen : c.currentAttemptId = none)
      (habandoned : c.abandonedAttemptId = none) (hnamed : nak.attemptId ≠ "") :
      Steps s .proceed
        ({ s with
          collector := some { c with abandonedAttemptId := some nak.attemptId }
          inbox := .idle },
        [.abandoned nak.attemptId])
  | nakDecidesToFail {c : StreamCollector} {nak : NakEnvelope} {message : String}
      (hc : s.collector = some c) (hinbox : s.inbox = .nakAlready nak)
      (hstale : nakIsStale c.currentAttemptId c.abandonedAttemptId nak.attemptId = false)
      (hlatched : c.currentAttemptId ≠ none) :
      Steps s .proceed ({ s with inbox := .nakFail nak message }, [])
  | nakFails {c : StreamCollector} {nak : NakEnvelope} {message : String}
      (hc : s.collector = some c) (hinbox : s.inbox = .nakFail nak message) :
      Steps s .proceed ({ s with collector := none, inbox := .idle },
        [.nakFailed nak c.currentAttemptId, .outcome (c.failure "rate_limit_exceeded" message)])
  | nakAcked {nak : NakEnvelope} {generation : ℕ}
      (hinbox : s.inbox = .nakPublishing nak generation) :
      Steps s (.nakAck true) ({ s with inbox := .idle }, [.republished])
  | nakRollsBack {nak : NakEnvelope} {generation : ℕ} {message : String}
      (hinbox : s.inbox = .nakPublishing nak generation) :
      Steps s (.nakAck false)
        ({ s with
          collector := (rollbackRepublishAttempt s.collector generation).1
          inbox := .nakFail nak message },
        (rollbackRepublishAttempt s.collector generation).2)
  | driverBump {c : StreamCollector} {token : Bool} (hc : s.collector = some c)
      (hdriver : s.driver = none) (hfirst : c.republished = false)
      (hrepublishes : c.republishes (!token) = true) :
      Steps s (.timeout token)
        ({ s with
          collector := some (republishBump c none)
          driver := some (republishBump c none).attemptGeneration },
        (bumpOutputs none c (republishBump c none)))
  | driverAcked {generation : ℕ} (hdriver : s.driver = some generation) :
      Steps s (.driverAck true) ({ s with driver := none }, [.republished])
  | driverRollsBack {generation : ℕ} (hdriver : s.driver = some generation) :
      Steps s (.driverAck false)
        ({ s with
          collector := (rollbackRepublishAttempt s.collector generation).1
          driver := none },
        (rollbackRepublishAttempt s.collector generation).2)
  | removed : Steps s .remove ({ s with collector := none }, [])
  | shutdown {c : StreamCollector} (hc : s.collector = some c) :
      Steps s .shutdown ({ s with collector := none },
        [.outcome (c.buildOutcome.getD
          (c.failure "shutdown" "gateway shutdown before stream completed"))])

namespace PendingStream

variable {s : PendingStream} {r : PendingStream × List StreamOutput} {nak : NakEnvelope}
  {e : StreamEvent}

theorem steps_handleChunk (now : ℕ) (chunk : ChunkEnvelope) (hidle : s.inbox = .idle) :
    Steps s (.chunk now chunk) (s.handleChunk now chunk) := by
  unfold handleChunk
  split
  · exact .nothing
  rename_i c hc
  have happlies := apply_applies c now chunk
  generalize hr : c.apply now chunk = r at happlies
  have hself : ({ s with collector := some c } : PendingStream) = s := by rw [← hc]
  cases happlies with
  | stale =>
    simp only [hself]
    exact .nothing
  | duplicate hlatch _ hlast => exact .duplicate hc hidle hlatch hlast
  | seqGap hlatch _ hlast => exact .gap hc hidle hlatch hlast
  | @accepted _ hlatch hseq =>
    have hstep : Steps s (.chunk now chunk) _ := .accepted hc hidle hlatch hseq
    cases hdone : chunk.done with
    | true =>
      simp only [accept, hdone, if_true] at hstep ⊢
      exact hstep
    | false =>
      simp [accept, hdone] at hstep ⊢
      rw [hidle] at *
      exact hstep

theorem steps_nakRepublish (hinbox : s.inbox = .nakChecked nak) :
    Steps s .proceed (s.nakRepublish nak) := by
  have hidle : Steps s .proceed ({ s with inbox := .idle }, []) :=
    .finished (.inr ⟨nak, .inl hinbox⟩) (by simp [hinbox])
  unfold nakRepublish
  have hstarts := republishStart_starts s.collector false (some nak.attemptId)
  generalize republishStart s.collector false (some nak.attemptId) = r at hstarts
  cases hstarts with
  | publish hc hfirst hrepublishes => exact .nakBump hc hinbox hfirst hrepublishes
  | already hc hnot => exact .nakAlready hc hinbox hnot
  | limited hrefused => cases hrefused
  | impossible => exact hidle

theorem steps_nakDecide (hinbox : s.inbox = .nakAlready nak) :
    Steps s .proceed (s.nakDecide nak) := by
  have hidle : Steps s .proceed ({ s with inbox := .idle }, []) :=
    .finished (.inr ⟨nak, .inr hinbox⟩) (by simp [hinbox])
  unfold nakDecide
  split
  · exact hidle
  rename_i c hc
  by_cases hstale : nakIsStale c.currentAttemptId c.abandonedAttemptId nak.attemptId = true
  · rwa [show alreadyRepublishedNakDecision _ _ _ = .dropStale from if_pos hstale]
  by_cases hopen : c.currentAttemptId = none
  · rw [show alreadyRepublishedNakDecision _ _ _ = .waitForSuccessor from
      (if_neg hstale).trans (if_pos hopen)]
    by_cases hkeeps : nak.attemptId = "" ∨ c.abandonedAttemptId.isSome = true
    · have hsame : c.recordAbandonedAttemptId nak.attemptId = c := by
        simp [recordAbandonedAttemptId, hopen, hkeeps]
      simp only [hsame, if_true, ← hc]
      exact hidle
    have hnamed : nak.attemptId ≠ "" := fun h => hkeeps (.inl h)
    have hnone : c.abandonedAttemptId = none := by
      simpa using fun h => hkeeps (.inr h)
    have hrecords : c.recordAbandonedAttemptId nak.attemptId =
        { c with abandonedAttemptId := some nak.attemptId } := by
      simp [recordAbandonedAttemptId, hopen, hnamed, hnone]
    simp only [hrecords, hnone]
    exact .nakWaits hc hinbox hopen hnone hnamed
  · rw [show alreadyRepublishedNakDecision _ _ _ = .fail from (if_neg hstale).trans (if_neg hopen)]
    exact .nakDecidesToFail hc hinbox (by simpa using hstale) hopen

theorem steps_completeStream (hinbox : s.inbox = .complete) :
    Steps s .proceed s.completeStream := by
  unfold completeStream
  split
  next hc => exact .finished (.inl hc) (by simp [hinbox])
  next c hc => exact .complete hc hinbox

theorem steps_failGap (hinbox : s.inbox = .failGap) :
    Steps s .proceed (s.failPendingStream "transport_failure" gapMessage fun _ => []) := by
  unfold failPendingStream
  split
  next hc => exact .finished (.inl hc) (by simp [hinbox])
  next c hc => exact .failGap hc hinbox

theorem steps_nakFail {message : String} (hinbox : s.inbox = .nakFail nak message) :
    Steps s .proceed (s.failPendingStream "rate_limit_exceeded" message fun c =>
        [.nakFailed nak c.currentAttemptId]) := by
  unfold failPendingStream
  split
  next hc => exact .finished (.inl hc) (by simp [hinbox])
  next c hc => exact .nakFails hc hinbox

theorem steps_proceedInbox (h : s.proceedInbox = some r) : Steps s .proceed r := by
  unfold proceedInbox at h
  split at h <;> cases h
  next hinbox => exact steps_completeStream hinbox
  next hinbox => exact steps_failGap hinbox
  next hinbox => exact steps_nakRepublish hinbox
  next hinbox => exact steps_nakDecide hinbox
  next hinbox => exact steps_nakFail hinbox

theorem steps_handleNak (nak : NakEnvelope) (hidle : s.inbox = .idle) :
    Steps s (.nak nak) (s.handleNak nak, []) := by
  simp only [handleNak]
  split_ifs with hstale
  · exact .nothing
  · exact .nakChecked hidle (by simpa using hstale)

theorem steps_shutdownStream : Steps s .shutdown s.shutdownStream := by
  unfold shutdownStream
  split
  · exact .nothing
  next c hc => exact .shutdown hc

theorem steps_driverRepublish (token : Bool) (hdriver : s.driver = none) :
    Steps s (.timeout token) (s.driverRepublish token) := by
  unfold driverRepublish
  have hstarts := republishStart_starts s.collector (!token) none
  generalize republishStart s.collector (!token) none = r at hstarts
  cases hstarts with
  | publish hc hfirst hrepublishes => exact .driverBump hc hdriver hfirst hrepublishes
  | already | limited | impossible => exact .nothing

/-- **One case for each kind of step.** -/
theorem steps_of_step (h : s.step e = some r) : Steps s e r := by
  cases e with
  | published =>
    cases h
    cases hc : s.collector with
    | none =>
      have hself : ({ s with collector := none } : PendingStream) = s := by rw [← hc]
      simp only [Option.map_none, hself]
      exact .nothing
    | some c => exact .published hc
  | chunk now chunk =>
    obtain ⟨hidle, ⟨⟩⟩ := Option.ite_none_right_eq_some.mp h
    exact steps_handleChunk now chunk hidle
  | nak nak =>
    obtain ⟨hidle, ⟨⟩⟩ := Option.ite_none_right_eq_some.mp h
    exact steps_handleNak nak hidle
  | proceed => exact steps_proceedInbox h
  | nakAck ok =>
    simp only [step] at h
    split at h
    next nak generation hinbox =>
      cases ok <;> cases h
      · exact .nakRollsBack hinbox
      · exact .nakAcked hinbox
    · cases h
  | timeout token =>
    obtain ⟨hdriver, ⟨⟩⟩ := Option.ite_none_right_eq_some.mp h
    exact steps_driverRepublish token hdriver
  | driverAck ok =>
    simp only [step] at h
    split at h
    next generation hdriver =>
      cases ok <;> cases h
      · exact .driverRollsBack hdriver
      · exact .driverAcked hdriver
    · cases h
  | remove =>
    cases h
    exact .removed
  | shutdown =>
    cases h
    exact steps_shutdownStream

end PendingStream

end Sie.Gateway
