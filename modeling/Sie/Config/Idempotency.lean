import Sie.Lib.Run

/-!
# Idempotent config writes

The idempotency of `POST`, `PUT` and `DELETE` on `/v1/configs/models` in the config service's
`config_api.py`: `_idempotency_claim`, the write section under the write lock, and the two ways a
request gives its marker back.  The three handlers differ in what they do under the write lock;
here that is any number of awaits, each of which is either an ordinary one, where a cancellation is
raised, or one of `_await_committed`, where it is deferred to the end of the request.

The idempotency lock is free between the steps of a claim, which has no await under it.  The end
of a request waits for it through `_await_committed`, so the lock is taken for the request
(`grant`) some time before the request goes on (`settle`).
-/

namespace Sie.Config

open Sie.Lib List Function

inductive WriteMethod
  | post
  | put (modelId : String)
  | delete (modelId : String)
  deriving DecidableEq

/-- The fingerprint of a request; `sha256` gives the hex digest. -/
def WriteMethod.fingerprint (sha256 : String → String) (body : String) : WriteMethod → String
  | .post => sha256 body
  | .put modelId => sha256 ("PUT\x00" ++ modelId ++ "\x00" ++ body)
  | .delete modelId => sha256 ("DELETE\x00" ++ modelId)

/-- The exception a request ends with. -/
inductive WriteFailure
  | error (status : ℕ) (detail : String)
  | cancelled
  deriving DecidableEq

/-- `_IdempotencyInFlight`. -/
structure InFlightWrite where
  payloadHash : String
  failure : Option WriteFailure
  succeeded : Bool
  event : Bool
  deriving DecidableEq

structure CachedResponse where
  status : ℕ
  body : String
  payloadHash : String
  deriving DecidableEq

/-- Where a request is.  In `looking` it waits for the idempotency lock, after it has waited for
the marker `waited`; `committed` is an await of `_await_committed`, and `deferred` that one of
those has seen a cancellation. -/
inductive WritePhase
  | looking (waited : Option ℕ)
  | waiting (marker : ℕ)
  | claimed (marker : ℕ)
  | awaitingWrite (marker : ℕ)
  | writing (marker : ℕ) (committed deferred : Bool)
  | storing (marker : ℕ) (deferred : Bool) (status : ℕ) (body : String)
  | failing (marker : ℕ) (failure : WriteFailure)
  | ended
  deriving DecidableEq

/-- The marker a request owns. -/
def WritePhase.owned : WritePhase → Option ℕ
  | .looking _ | .waiting _ | .ended => none
  | .claimed m | .awaitingWrite m | .writing m _ _ | .storing m _ _ _ | .failing m _ => some m

/-- The request has not come to the write section. -/
def WritePhase.early : WritePhase → Bool
  | .looking _ | .waiting _ | .claimed _ | .awaitingWrite _ => true
  | .writing _ _ _ | .storing _ _ _ _ | .failing _ _ | .ended => false

/-- Where a request waits for the idempotency lock through `_await_committed`. -/
def WritePhase.settles : WritePhase → Bool
  | .storing _ _ _ _ | .failing _ _ => true
  | _ => false

structure WriteRequest where
  key : String
  bodyHash : String
  phase : WritePhase
  deriving DecidableEq

/-- What a request is answered with. -/
inductive WriteAnswer
  | replay (status : ℕ) (body : String)
  | replayEvicted
  | mismatch
  | inFlightCancelled
  | inFlightAborted
  | inFlightFailed (status : ℕ) (detail : String)
  | response (status : ℕ) (body : String)
  | failed (failure : WriteFailure)
  deriving DecidableEq

/-- The answer is not that of the request's own handler. -/
def WriteAnswer.withoutWrite : WriteAnswer → Bool
  | .response _ _ | .failed _ => false
  | _ => true

/-- `cache` is in the order of its last uses, the oldest first.  `lock` is the request the
idempotency lock was taken for. -/
structure IdempotentWrites where
  cache : List (String × CachedResponse)
  inFlight : String → Option ℕ
  markers : ℕ → InFlightWrite
  nextMarker : ℕ
  lock : Option ℕ
  writeLock : Option ℕ
  requests : ℕ → Option WriteRequest

/-- `prepare` is what comes before the write lock, `await` the next await under it. -/
inductive WriteEvent
  | arrive (r : ℕ) (key : String) (method : WriteMethod) (body : String)
  | look (r : ℕ)
  | wake (r : ℕ)
  | prepare (r : ℕ) (failure : Option WriteFailure)
  | enter (r : ℕ)
  | await (r : ℕ) (committed : Bool)
  | respond (r : ℕ) (status : ℕ) (body : String)
  | raise (r : ℕ) (failure : WriteFailure)
  | grant (r : ℕ)
  | settle (r : ℕ)
  | cancel (r : ℕ)

def WriteEvent.request : WriteEvent → ℕ
  | .arrive r _ _ _ | .look r | .wake r | .prepare r _ | .enter r | .await r _ | .respond r _ _
  | .raise r _ | .grant r | .settle r | .cancel r => r

inductive WriteOutput
  | claimed (r marker : ℕ)
  | entered (r : ℕ)
  | succeeded (r status : ℕ) (body : String)
  | answered (r : ℕ) (answer : WriteAnswer)
  deriving DecidableEq

namespace IdempotentWrites

def new : IdempotentWrites where
  cache := []
  inFlight := fun _ => none
  markers := fun _ => ⟨"", none, false, false⟩
  nextMarker := 0
  lock := none
  writeLock := none
  requests := fun _ => none

section

variable (s : IdempotentWrites)

def cached (key : String) : Option CachedResponse := s.cache.lookup key

section

variable (r : ℕ) (q : WriteRequest)

def setPhase (phase : WritePhase) : IdempotentWrites :=
  { s with requests := update s.requests r (some { q with phase := phase }) }

/-- The request puts a new marker under its key. -/
def claim : IdempotentWrites :=
  { s.setPhase r q (.claimed s.nextMarker) with
    inFlight := update s.inFlight q.key (some s.nextMarker)
    markers := update s.markers s.nextMarker ⟨q.bodyHash, none, false, false⟩
    nextMarker := s.nextMarker + 1 }

/-- The request ends with an answer. -/
def answer (a : WriteAnswer) : IdempotentWrites × List WriteOutput :=
  (s.setPhase r q .ended, [.answered r a])

/-- One pass through the lock in `_idempotency_claim`. -/
def lookStep (waited : Option ℕ) : IdempotentWrites × List WriteOutput :=
  match s.cached q.key with
  | some c => s.answer r q (if q.bodyHash = c.payloadHash then .replay c.status c.body
      else .mismatch)
  | none =>
    match waited, s.inFlight q.key with
    | some _, _ => s.answer r q .replayEvicted
    | none, none => (s.claim r q, [.claimed r s.nextMarker])
    | none, some m =>
      if q.bodyHash = (s.markers m).payloadHash then (s.setPhase r q (.waiting m), [])
      else s.answer r q .mismatch

/-- A waiter is woken: the failure of the owner is its answer, too. -/
def wakeStep (m : ℕ) : IdempotentWrites × List WriteOutput :=
  match (s.markers m).failure with
  | some .cancelled => s.answer r q .inFlightCancelled
  | some (.error status detail) => s.answer r q (.inFlightFailed status detail)
  | none =>
    if (s.markers m).succeeded = true then (s.setPhase r q (.looking (some m)), [])
    else s.answer r q .inFlightAborted

end

/-- The marker is taken out and its waiters are released. -/
def release (key : String) (m : ℕ) (failure : Option WriteFailure)
    (succeeded : Bool) : IdempotentWrites :=
  { s with
    inFlight := if s.inFlight key = some m then update s.inFlight key none else s.inFlight
    markers := update s.markers m
      { s.markers m with failure := failure, succeeded := succeeded, event := true }
    lock := none }

end

/-- The response is put last, and the oldest ones go. -/
def store (maxSize : ℕ) (cache : List (String × CachedResponse)) (key : String)
    (c : CachedResponse) : List (String × CachedResponse) :=
  let cache := cache.filter (fun entry => entry.1 ≠ key) ++ [(key, c)]
  cache.drop (cache.length - maxSize)

def settleStep (maxSize : ℕ) (s : IdempotentWrites) (r : ℕ) (q : WriteRequest) :
    Option (IdempotentWrites × List WriteOutput) :=
  match q.phase with
  | .storing m deferred status body =>
    some ({ (s.release q.key m none true).setPhase r q .ended with
      cache := store maxSize s.cache q.key ⟨status, body, q.bodyHash⟩ },
      [.succeeded r status body,
        .answered r (if deferred = true then .failed .cancelled else .response status body)])
  | .failing m failure =>
    some ((s.release q.key m (some failure) false).setPhase r q .ended,
      [.answered r (.failed failure)])
  | _ => none

/-- A cancellation is raised at an ordinary await and deferred at one of `_await_committed`. -/
def cancelStep (s : IdempotentWrites) (r : ℕ) (q : WriteRequest) :
    Option (IdempotentWrites × List WriteOutput) :=
  match q.phase with
  | .looking _ | .waiting _ => some (s.answer r q (.failed .cancelled))
  | .awaitingWrite m => some (s.setPhase r q (.failing m .cancelled), [])
  | .writing m false _ =>
    some ({ s.setPhase r q (.failing m .cancelled) with writeLock := none }, [])
  | .writing m true _ => some (s.setPhase r q (.writing m true true), [])
  | .storing m _ status body => some (s.setPhase r q (.storing m true status body), [])
  | .failing _ _ => some (s, [])
  | .claimed _ | .ended => none

/-- A step of the request `r`. -/
def stepOf (maxSize : ℕ) (s : IdempotentWrites) (r : ℕ) (q : WriteRequest) :
    WriteEvent → Option (IdempotentWrites × List WriteOutput)
  | .arrive _ _ _ _ => none
  | .look _ =>
    match q.phase with
    | .looking waited => if s.lock = none then some (s.lookStep r q waited) else none
    | _ => none
  | .wake _ =>
    match q.phase with
    | .waiting m => if (s.markers m).event = true then some (s.wakeStep r q m) else none
    | _ => none
  | .prepare _ failure =>
    match q.phase, failure with
    | .claimed m, none => some (s.setPhase r q (.awaitingWrite m), [])
    | .claimed m, some failure => some (s.setPhase r q (.failing m failure), [])
    | _, _ => none
  | .enter _ =>
    match q.phase with
    | .awaitingWrite m =>
      if s.writeLock = none then
        some ({ s.setPhase r q (.writing m false false) with writeLock := some r },
          [.entered r])
      else none
    | _ => none
  | .await _ committed =>
    match q.phase with
    | .writing m _ deferred => some (s.setPhase r q (.writing m committed deferred), [])
    | _ => none
  | .respond _ status body =>
    match q.phase with
    | .writing m _ deferred =>
      some ({ s.setPhase r q (.storing m deferred status body) with writeLock := none }, [])
    | _ => none
  | .raise _ failure =>
    match q.phase with
    | .writing m _ _ =>
      some ({ s.setPhase r q (.failing m failure) with writeLock := none }, [])
    | _ => none
  | .grant _ =>
    if q.phase.settles = true ∧ s.lock = none then some ({ s with lock := some r }, [])
    else none
  | .settle _ => if s.lock = some r then settleStep maxSize s r q else none
  | .cancel _ => s.cancelStep r q

/-- `maxSize` is `_MAX_IDEMPOTENCY_CACHE_SIZE`. -/
def step (sha256 : String → String) (maxSize : ℕ) (s : IdempotentWrites) (e : WriteEvent) :
    Option (IdempotentWrites × List WriteOutput) :=
  match s.requests e.request, e with
  | none, .arrive r key method body =>
    let q : WriteRequest := ⟨key, method.fingerprint sha256 body, .looking none⟩
    some ({ s with requests := update s.requests r (some q) }, [])
  | some q, e => stepOf maxSize s e.request q e
  | none, _ => none

/-! ## What a step does -/

/-- The shared state changes when a marker is claimed and when it is given back; every other step
moves one request on. -/
inductive Turn (maxSize : ℕ) (s : IdempotentWrites) : IdempotentWrites → List WriteOutput → Prop
  | arrived {r : ℕ} {q : WriteRequest} (hnew : s.requests r = none)
      (hphase : q.phase = .looking none) :
      Turn maxSize s { s with requests := update s.requests r (some q) } []
  | idle {lock : Option ℕ} : Turn maxSize s { s with lock := lock } []
  | waits {r : ℕ} {q : WriteRequest} {phase : WritePhase} (hq : s.requests r = some q)
      (hold : q.phase.owned = none) (hearly : q.phase.early = true) (hnew : phase.owned = none)
      (hnewEarly : phase.early = true)
      (hwaiting : ∀ m, phase = .waiting m → s.inFlight q.key = some m) :
      Turn maxSize s (s.setPhase r q phase) []
  | answered {r : ℕ} {q : WriteRequest} {a : WriteAnswer} (hq : s.requests r = some q)
      (hold : q.phase.owned = none) (hearly : q.phase.early = true)
      (hreplay : ∀ status body, a = .replay status body →
        s.cached q.key = some ⟨status, body, q.bodyHash⟩) :
      Turn maxSize s (s.setPhase r q .ended) [.answered r a]
  | claimed {r : ℕ} {q : WriteRequest} (hq : s.requests r = some q)
      (hphase : q.phase = .looking none) (hcached : s.cached q.key = none)
      (hactive : s.inFlight q.key = none) :
      Turn maxSize s (s.claim r q) [.claimed r s.nextMarker]
  | held {r m : ℕ} {q : WriteRequest} {phase : WritePhase} {writeLock : Option ℕ}
      (hq : s.requests r = some q) (hold : q.phase.owned = some m) (hnew : phase.owned = some m)
      (hearly : phase.early = true → q.phase.early = true) :
      Turn maxSize s { s.setPhase r q phase with writeLock := writeLock } []
  | entered {r m : ℕ} {q : WriteRequest} (hq : s.requests r = some q)
      (hphase : q.phase = .awaitingWrite m) :
      Turn maxSize s { s.setPhase r q (.writing m false false) with writeLock := some r }
        [.entered r]
  | stored {r m status : ℕ} {q : WriteRequest} {body : String} {a : WriteAnswer}
      (hq : s.requests r = some q) (hold : q.phase.owned = some m)
      (ha : a.withoutWrite = false) :
      Turn maxSize s
        { (s.release q.key m none true).setPhase r q .ended with
          cache := store maxSize s.cache q.key ⟨status, body, q.bodyHash⟩ }
        [.succeeded r status body, .answered r a]
  | failed {r m : ℕ} {q : WriteRequest} {failure : WriteFailure} (hq : s.requests r = some q)
      (hold : q.phase.owned = some m) :
      Turn maxSize s ((s.release q.key m (some failure) false).setPhase r q .ended)
        [.answered r (.failed failure)]

variable {sha256 : String → String} {maxSize : ℕ} {s t : IdempotentWrites} {e : WriteEvent}
  {os o : List WriteOutput} {r : ℕ} {q : WriteRequest} {m r' : ℕ} {q' : WriteRequest}
  {waited : Option ℕ} {phase : WritePhase} {key : String} {cache : List (String × CachedResponse)}
  {c : CachedResponse} {writeLock : Option ℕ}

section

variable (hq : s.requests r = some q)
include hq

theorem turn_of_look (hphase : q.phase = .looking waited) :
    Turn maxSize s (s.lookStep r q waited).1 (s.lookStep r q waited).2 := by
  have hold : q.phase.owned = none := by rw [hphase]; rfl
  have hearly : q.phase.early = true := by rw [hphase]; rfl
  unfold lookStep
  split
  next c hcached =>
    refine .answered hq hold hearly fun status body ha => ?_
    split_ifs at ha with hhash
    cases ha
    rw [hcached, hhash]
  next hcached =>
    split
    next => exact .answered hq hold hearly (by simp)
    next hactive => exact .claimed hq hphase hcached hactive
    next m hactive =>
      split_ifs
      · exact .waits hq hold hearly rfl rfl fun m' hm' => by cases hm'; exact hactive
      · exact .answered hq hold hearly (by simp)

theorem turn_of_wake (hphase : q.phase = .waiting m) :
    Turn maxSize s (s.wakeStep r q m).1 (s.wakeStep r q m).2 := by
  have hold : q.phase.owned = none := by rw [hphase]; rfl
  have hearly : q.phase.early = true := by rw [hphase]; rfl
  unfold wakeStep
  split
  next => exact .answered hq hold hearly (by simp)
  next => exact .answered hq hold hearly (by simp)
  next =>
    split_ifs
    · exact .waits hq hold hearly rfl rfl (by simp)
    · exact .answered hq hold hearly (by simp)

theorem turn_of_settle (h : settleStep maxSize s r q = some (t, o)) : Turn maxSize s t o := by
  unfold settleStep at h
  split at h <;> cases h
  next m _ _ _ hphase =>
    refine .stored hq (hphase ▸ rfl) ?_
    split_ifs <;> rfl
  next m _ hphase => exact .failed hq (hphase ▸ rfl)

theorem turn_of_cancel (h : s.cancelStep r q = some (t, o)) : Turn maxSize s t o := by
  unfold cancelStep at h
  split at h <;> cases h
  next _ hphase => exact .answered hq (hphase ▸ rfl) (hphase ▸ rfl) (by simp)
  next m hphase => exact .answered hq (hphase ▸ rfl) (hphase ▸ rfl) (by simp)
  next m hphase => exact .held hq (hphase ▸ rfl) rfl (by simp [WritePhase.early])
  next m deferred hphase => exact .held hq (hphase ▸ rfl) rfl (by simp [WritePhase.early])
  next m deferred hphase => exact .held hq (hphase ▸ rfl) rfl (by simp [WritePhase.early])
  next m deferred _ _ hphase => exact .held hq (hphase ▸ rfl) rfl (by simp [WritePhase.early])
  next m _ hphase => exact .idle

theorem turn_of_stepOf (h : stepOf maxSize s r q e = some (t, o)) : Turn maxSize s t o := by
  unfold stepOf at h
  split at h
  next => cases h
  next =>
    split at h
    next _ hphase =>
      split_ifs at h
      obtain ⟨rfl, rfl⟩ := Prod.mk.inj (Option.some.inj h)
      exact turn_of_look hq hphase
    next => cases h
  next =>
    split at h
    next m hphase =>
      split_ifs at h
      obtain ⟨rfl, rfl⟩ := Prod.mk.inj (Option.some.inj h)
      exact turn_of_wake hq hphase
    next => cases h
  next =>
    split at h <;> cases h
    next m hphase => exact .held hq (hphase ▸ rfl) rfl (fun _ => by rw [hphase]; rfl)
    next m _ hphase => exact .held hq (hphase ▸ rfl) rfl (by simp [WritePhase.early])
  next =>
    split at h
    next m hphase =>
      split_ifs at h
      cases h
      exact .entered hq hphase
    next => cases h
  next =>
    split at h <;> cases h
    next m committed deferred hphase =>
      exact .held hq (hphase ▸ rfl) rfl (by simp [WritePhase.early])
  next =>
    split at h <;> cases h
    next m committed deferred hphase =>
      exact .held hq (hphase ▸ rfl) rfl (by simp [WritePhase.early])
  next =>
    split at h <;> cases h
    next m committed deferred hphase =>
      exact .held hq (hphase ▸ rfl) rfl (by simp [WritePhase.early])
  next =>
    split_ifs at h
    cases h
    exact .idle
  next =>
    split_ifs at h
    exact turn_of_settle hq h
  next => exact turn_of_cancel hq h

end

/-- Every step is a turn. -/
theorem turn_of_step (h : step sha256 maxSize s e = some (t, o)) : Turn maxSize s t o := by
  unfold step at h
  split at h
  next r _ _ _ hnone =>
    cases h
    exact .arrived hnone rfl
  next q hq => exact turn_of_stepOf hq h
  next => cases h

/-! ## The owners of the markers -/

/-- What an owner has: its marker is the active one of its key and has not been touched, and no
success is cached for the key. -/
structure Owns (os : List WriteOutput) (s : IdempotentWrites) (r : ℕ) (q : WriteRequest)
    (m : ℕ) : Prop where
  active : s.inFlight q.key = some m
  marker : s.markers m = ⟨q.bodyHash, none, false, false⟩
  uncached : s.cached q.key = none
  claimed : .claimed r m ∈ os

/-- What holds of markers: a request that owns one is the only one; an active marker has an owner,
and where a marker has no owner any more its event is set. -/
structure Owned (os : List WriteOutput) (s : IdempotentWrites) : Prop where
  owns : ∀ {r q m}, s.requests r = some q → q.phase.owned = some m → Owns os s r q m
  claims : ∀ {r r' m}, .claimed r m ∈ os → .claimed r' m ∈ os → r = r'
  bounded : ∀ {r m}, .claimed r m ∈ os → m < s.nextMarker
  live : ∀ {key m}, s.inFlight key = some m →
    ∃ r q, s.requests r = some q ∧ q.key = key ∧ q.phase.owned = some m
  settled : ∀ m < s.nextMarker, (s.markers m).event = true ∨
    ∃ r q, s.requests r = some q ∧ q.phase.owned = some m
  waiting : ∀ {r q m}, s.requests r = some q → q.phase = .waiting m → m < s.nextMarker

theorem owned_new : Owned [] new := by
  constructor <;> simp [new]

section

variable (h : Owned os s)
include h

theorem Owned.unique {r : ℕ} {q : WriteRequest} (hq : s.requests r = some q)
    (hq' : s.requests r' = some q') (hm : q.phase.owned = some m) (hm' : q'.phase.owned = some m) :
    r = r' :=
  h.claims (h.owns hq hm).claimed (h.owns hq' hm').claimed

theorem Owned.lt_of_inFlight (hkey : s.inFlight key = some m) : m < s.nextMarker := by
  obtain ⟨r, q, hq, -, hm⟩ := h.live hkey
  exact h.bounded (h.owns hq hm).claimed

/-- One request moves on.  The other owners keep what they own; the request owns what it may
claim, and what it owned before or gives back. -/
theorem Owned.moved (hreq : t.requests = update s.requests r (some q))
    (hothers : ∀ r' q' m, r' ≠ r → s.requests r' = some q' → q'.phase.owned = some m →
      t.inFlight q'.key = s.inFlight q'.key ∧ t.markers m = s.markers m ∧ t.cached q'.key = none)
    (hmine : ∀ m, q.phase.owned = some m → Owns (os ++ o) t r q m)
    (hnew : ∀ r' m, .claimed r' m ∈ o → r' = r ∧ m = s.nextMarker ∧ m < t.nextMarker)
    (hnext : s.nextMarker ≤ t.nextMarker)
    (hlive : ∀ key m, t.inFlight key = some m → key = q.key ∧ q.phase.owned = some m ∨
      s.inFlight key = some m ∧ ∀ q', s.requests r = some q' → q'.phase.owned = some m →
        q.key = q'.key ∧ q.phase.owned = some m)
    (hsettled : ∀ m < t.nextMarker, (t.markers m).event = true ∨ q.phase.owned = some m ∨
      m < s.nextMarker ∧ (t.markers m).event = (s.markers m).event ∧
        ∀ q', s.requests r = some q' → q'.phase.owned = some m → q.phase.owned = some m)
    (hwaiting : ∀ m, q.phase = .waiting m → m < s.nextMarker) : Owned (os ++ o) t := by
  have hme : t.requests r = some q := by rw [hreq, update_self]
  have hbefore : ∀ r' q', t.requests r' = some q' →
      r' = r ∧ q' = q ∨ r' ≠ r ∧ s.requests r' = some q' := by
    intro r' q' hq'
    by_cases hr : r' = r
    · subst hr
      exact .inl ⟨rfl, Option.some.inj (hq'.symm.trans hme)⟩
    · exact .inr ⟨hr, by rwa [hreq, update_of_ne hr] at hq'⟩
  have hafter : ∀ r' q', r' ≠ r → s.requests r' = some q' → t.requests r' = some q' := by
    intro r' q' hr hq'
    rwa [hreq, update_of_ne hr]
  constructor
  · intro r' q' m hq' hm
    obtain ⟨rfl, rfl⟩ | ⟨hr, hq'⟩ := hbefore r' q' hq'
    · exact hmine m hm
    · obtain ⟨hactive, hmarker, huncached⟩ := hothers r' q' m hr hq' hm
      have howns := h.owns hq' hm
      exact ⟨hactive.trans howns.active, hmarker.trans howns.marker, huncached,
        mem_append_left _ howns.claimed⟩
  · intro r₁ r₂ m h₁ h₂
    rcases mem_append.mp h₁ with h₁ | h₁ <;> rcases mem_append.mp h₂ with h₂ | h₂
    · exact h.claims h₁ h₂
    · exact absurd (hnew r₂ m h₂).2.1 (Nat.ne_of_lt (h.bounded h₁))
    · exact absurd (hnew r₁ m h₁).2.1 (Nat.ne_of_lt (h.bounded h₂))
    · exact (hnew r₁ m h₁).1.trans (hnew r₂ m h₂).1.symm
  · intro r' m hmem
    rcases mem_append.mp hmem with hmem | hmem
    · exact Nat.lt_of_lt_of_le (h.bounded hmem) hnext
    · exact (hnew r' m hmem).2.2
  · intro key m hkey
    obtain ⟨rfl, hm⟩ | ⟨hkey, hkept⟩ := hlive key m hkey
    · exact ⟨r, q, hme, rfl, hm⟩
    obtain ⟨r', q', hq', hkey', hm⟩ := h.live hkey
    by_cases hr : r' = r
    · subst hr
      obtain ⟨hsame, hm⟩ := hkept q' hq' hm
      exact ⟨r', q, hme, hsame.trans hkey', hm⟩
    · exact ⟨r', q', hafter r' q' hr hq', hkey', hm⟩
  · intro m hm
    obtain hevent | hm | ⟨hlt, hsame, hkept⟩ := hsettled m hm
    · exact .inl hevent
    · exact .inr ⟨r, q, hme, hm⟩
    rw [hsame]
    refine (h.settled m hlt).imp_right ?_
    rintro ⟨r', q', hq', hm⟩
    by_cases hr : r' = r
    · subst hr
      exact ⟨r', q, hme, hkept q' hq' hm⟩
    · exact ⟨r', q', hafter r' q' hr hq', hm⟩
  · intro r' q' m hq' hm
    obtain ⟨rfl, rfl⟩ | ⟨-, hq'⟩ := hbefore r' q' hq'
    · exact Nat.lt_of_lt_of_le (hwaiting m hm) hnext
    · exact Nat.lt_of_lt_of_le (h.waiting hq' hm) hnext

/-- The shared state stays, and the request owns what it owned. -/
theorem Owned.same {lock : Option ℕ} (hown : ∀ m, q.phase.owned = some m →
      ∃ q', s.requests r = some q' ∧ q'.key = q.key ∧ q'.bodyHash = q.bodyHash ∧
        q'.phase.owned = some m) (hkept : ∀ q' m, s.requests r = some q' → q'.phase.owned = some m →
      q.key = q'.key ∧ q.phase.owned = some m)
    (hwaiting : ∀ m, q.phase = .waiting m → m < s.nextMarker) (ho : ∀ r m, .claimed r m ∉ o) :
    Owned (os ++ o) { s with
      requests := update s.requests r (some q), lock := lock, writeLock := writeLock } := by
  refine h.moved rfl (fun r' q' m _ hq' hm => ⟨rfl, rfl, (h.owns hq' hm).uncached⟩) ?_
    (fun r' m hmem => absurd hmem (ho r' m)) (Nat.le_refl _)
    (fun key m hkey => .inr ⟨hkey, fun q' => hkept q' m⟩)
    (fun m hm => .inr (.inr ⟨hm, rfl, fun q' hq' hm' => (hkept q' m hq' hm').2⟩)) hwaiting
  intro m hm
  obtain ⟨q', hq', hkey, hhash, hm'⟩ := hown m hm
  obtain ⟨hactive, hmarker, huncached, hclaimed⟩ := h.owns hq' hm'
  exact ⟨hkey ▸ hactive, hhash ▸ hmarker, hkey ▸ huncached, mem_append_left _ hclaimed⟩

/-- One request moves on and owns what it owned. -/
theorem Owned.setPhase (hq : s.requests r = some q) (howned : phase.owned = q.phase.owned)
    (hwaiting : ∀ m, phase = .waiting m → m < s.nextMarker) (ho : ∀ r m, .claimed r m ∉ o) :
    Owned (os ++ o) { s.setPhase r q phase with writeLock := writeLock } := by
  refine h.same (fun m hm => ⟨q, hq, rfl, rfl, howned ▸ hm⟩) (fun q' m hq' hm => ?_) hwaiting ho
  cases hq.symm.trans hq'
  exact ⟨rfl, howned.trans hm⟩

/-- A marker is claimed: its key has no owner and no cached success. -/
theorem Owned.claim (hq : s.requests r = some q) (hphase : q.phase.owned = none)
    (hcached : s.cached q.key = none) (hactive : s.inFlight q.key = none) :
    Owned (os ++ [.claimed r s.nextMarker]) (s.claim r q) := by
  have hnone : ∀ q' m, s.requests r = some q' → q'.phase.owned ≠ some m := by
    intro q' m hq'
    cases hq.symm.trans hq'
    simp [hphase]
  refine h.moved rfl ?_ ?_ (by simp [IdempotentWrites.claim]) (Nat.le_succ _) ?_ ?_ (by simp)
  · -- an owner of before has another key and an older marker
    intro r' q' m _ hq' hm
    have hkey : q'.key ≠ q.key := by
      intro hkey
      have hother := (h.owns hq' hm).active
      rw [hkey, hactive] at hother
      cases hother
    have hlt := h.bounded (h.owns hq' hm).claimed
    exact ⟨update_of_ne hkey _ _, update_of_ne (Nat.ne_of_lt hlt) _ _, (h.owns hq' hm).uncached⟩
  · rintro m hm
    cases hm
    exact ⟨update_self .., update_self .., hcached, by simp⟩
  · intro key m hkey
    by_cases hk : key = q.key
    · subst hk
      simp only [IdempotentWrites.claim, update_self] at hkey
      exact .inl ⟨rfl, hkey⟩
    · simp only [IdempotentWrites.claim, update_of_ne hk] at hkey
      exact .inr ⟨hkey, fun q' hq' hm => absurd hm (hnone q' m hq')⟩
  · intro m hm
    obtain hlt | rfl := Nat.lt_succ_iff_lt_or_eq.mp hm
    · refine .inr (.inr ⟨hlt, ?_, fun q' hq' hm => absurd hm (hnone q' m hq')⟩)
      simp [IdempotentWrites.claim, update_of_ne (Nat.ne_of_lt hlt)]
    · exact .inr (.inl rfl)

/-- A marker is given back: its key has no owner any more. -/
theorem Owned.giveBack {failure : Option WriteFailure} {succeeded : Bool}
    (hq : s.requests r = some q) (hm : q.phase.owned = some m)
    (hcache : ∀ key, key ≠ q.key → s.cached key = none → cache.lookup key = none)
    (ho : ∀ r m, .claimed r m ∉ o) :
    Owned (os ++ o)
      { (s.release q.key m failure succeeded).setPhase r q .ended with cache := cache } := by
  have hactive := (h.owns hq hm).active
  have hreleased : (s.release q.key m failure succeeded).inFlight =
      update s.inFlight q.key none := if_pos hactive
  refine h.moved rfl ?_ (by simp [WritePhase.owned]) (fun r' m hmem => absurd hmem (ho r' m))
    (Nat.le_refl _) ?_ ?_ (by simp)
  · -- the other owners have other keys and other markers
    intro r' q' m' hr hq' hm'
    have hne : m' ≠ m := by
      rintro rfl
      exact hr (h.unique hq' hq hm' hm)
    have hkey : q'.key ≠ q.key := by
      intro hkey
      have hother := (h.owns hq' hm').active
      rw [hkey, hactive] at hother
      exact hne (Option.some.inj hother).symm
    refine ⟨?_, update_of_ne hne _ _, hcache _ hkey (h.owns hq' hm').uncached⟩
    change (s.release q.key m failure succeeded).inFlight q'.key = _
    rw [hreleased, update_of_ne hkey]
  · intro key m' hkey
    change (s.release q.key m failure succeeded).inFlight key = some m' at hkey
    rw [hreleased] at hkey
    have hk : key ≠ q.key := by
      rintro rfl
      simp at hkey
    rw [update_of_ne hk] at hkey
    refine .inr ⟨hkey, fun q' hq' hm' => absurd ?_ hk⟩
    cases hq.symm.trans hq'
    obtain ⟨r', q', hq', rfl, howned⟩ := h.live hkey
    obtain rfl := h.unique hq hq' hm' howned
    cases hq.symm.trans hq'
    rfl
  · intro m' hlt
    by_cases hmm : m' = m
    · subst hmm
      exact .inl (by simp [release, IdempotentWrites.setPhase])
    refine .inr (.inr ⟨hlt, congrArg InFlightWrite.event (update_of_ne hmm _ _), ?_⟩)
    intro q' hq' hm'
    cases hq.symm.trans hq'
    exact absurd (Option.some.inj (hm'.symm.trans hm)) hmm

end

theorem lookup_store {key' : String} (hkey : key' ≠ key) (h : cache.lookup key' = none) :
    (store maxSize cache key c).lookup key' = none := by
  rw [lookup_eq_none_iff] at h ⊢
  intro entry hentry
  rcases mem_append.mp (mem_of_mem_drop hentry) with hold | hnew
  · exact h entry (mem_filter.mp hold).1
  · obtain rfl := mem_singleton.mp hnew
    simpa using hkey

theorem Owned.next (h : Owned os s) (hturn : Turn maxSize s t o) : Owned (os ++ o) t := by
  cases hturn with
  | @arrived _ _ hnew hphase =>
    refine h.same ?_ ?_ ?_ (by simp) <;> simp [hnew, hphase, WritePhase.owned]
  | idle =>
    rw [append_nil]
    exact { h with owns := fun hq hm => { h.owns hq hm with } }
  | waits hq hold _ hnew _ hwaiting =>
    exact h.setPhase hq (hnew.trans hold.symm)
      (fun m hm => h.lt_of_inFlight (hwaiting m hm)) (by simp)
  | answered hq hold => exact h.setPhase hq hold.symm (by simp) (by simp)
  | claimed hq hphase hcached hactive => exact h.claim hq (hphase ▸ rfl) hcached hactive
  | held hq hold hnew =>
    refine h.setPhase hq (hnew.trans hold.symm) (fun m hm => ?_) (by simp)
    rw [hm] at hnew
    cases hnew
  | entered hq hphase => exact h.setPhase hq (hphase ▸ rfl) (by simp) (by simp)
  | stored hq hold => exact h.giveBack hq hold (fun _ hkey => lookup_store hkey) (by simp)
  | failed hq hold => exact h.giveBack hq hold (fun _ _ hnone => hnone) (by simp)

/-! ## What the answers say -/

/-- What a step leaves of a request. -/
def Kept (q q' : WriteRequest) : Prop :=
  q'.key = q.key ∧ q'.bodyHash = q.bodyHash ∧
    (q.phase.early = false → q'.phase.early = false) ∧ (q.phase = .ended → q'.phase = .ended) ∧
    ∀ m, q.phase.owned = some m → q'.phase.owned = some m ∨ q'.phase = .ended

theorem Kept.refl (q : WriteRequest) : Kept q q :=
  ⟨rfl, rfl, id, id, fun _ => .inl⟩

theorem kept_setPhase (phase : WritePhase) (hq : s.requests r = some q)
    (hkept : Kept q { q with phase := phase }) (hq' : s.requests r' = some q') :
    ∃ q'', (s.setPhase r q phase).requests r' = some q'' ∧ Kept q' q'' := by
  by_cases hr : r' = r
  · subst hr
    cases hq.symm.trans hq'
    exact ⟨_, by simp [setPhase], hkept⟩
  · exact ⟨q', by simpa [setPhase, update_of_ne hr] using hq', Kept.refl q'⟩

theorem kept_ended (q : WriteRequest) : Kept q { q with phase := .ended } :=
  ⟨rfl, rfl, fun _ => rfl, fun _ => rfl, fun _ _ => .inr rfl⟩

section

variable (hturn : Turn maxSize s t o)
include hturn

theorem Turn.kept (hq : s.requests r = some q) : ∃ q', t.requests r = some q' ∧ Kept q q' := by
  cases hturn with
  | @arrived r₀ _ hnew =>
    have hr : r ≠ r₀ := by
      rintro rfl
      rw [hnew] at hq
      cases hq
    exact ⟨q, by simpa [update_of_ne hr] using hq, Kept.refl q⟩
  | idle => exact ⟨q, hq, Kept.refl q⟩
  | waits hq₀ hold hearly =>
    refine kept_setPhase _ hq₀ ?_ hq
    refine ⟨rfl, rfl, ?_, ?_, ?_⟩
    · simp [hearly]
    · intro hended
      simp [hended, WritePhase.early] at hearly
    · simp [hold]
  | answered hq₀ => exact kept_setPhase .ended hq₀ (kept_ended _) hq
  | claimed hq₀ hphase =>
    exact kept_setPhase (.claimed s.nextMarker) hq₀
      ⟨rfl, rfl, by simp [hphase, WritePhase.early], by simp [hphase],
        by simp [hphase, WritePhase.owned]⟩ hq
  | held hq₀ hold hnew hearly =>
    refine kept_setPhase _ hq₀ ?_ hq
    refine ⟨rfl, rfl, ?_, ?_, ?_⟩
    · intro hlate
      by_contra hphase
      rw [hearly (by simpa using hphase)] at hlate
      cases hlate
    · intro hended
      simp [hended, WritePhase.owned] at hold
    · intro m hm
      exact .inl (hnew.trans (hold.symm.trans hm))
  | entered hq₀ hphase =>
    exact kept_setPhase (.writing _ false false) hq₀ ⟨rfl, rfl, fun _ => rfl, by simp [hphase],
      fun m hm => .inl (by simpa [hphase, WritePhase.owned] using hm)⟩ hq
  | stored hq₀ | failed hq₀ =>
    exact kept_setPhase (s := s.release _ _ _ _) .ended hq₀ (kept_ended _) hq

/-- An answer ends its request; one without a write is that of a request that has not come to the
write section. -/
theorem Turn.answer {a : WriteAnswer} (ha : .answered r a ∈ o) :
    ∃ q, s.requests r = some q ∧ t.requests r = some { q with phase := .ended } ∧
      (a.withoutWrite = true → q.phase.early = true ∧ (∀ r', .entered r' ∉ o) ∧
        ∀ status body, a = .replay status body →
          s.cached q.key = some ⟨status, body, q.bodyHash⟩) := by
  cases hturn with
  | arrived | idle | waits | claimed | held | entered => simp at ha
  | @answered r₀ q a₀ hq _ hearly hreplay =>
    obtain ⟨rfl, rfl⟩ : r = r₀ ∧ a = a₀ := by simpa using ha
    exact ⟨q, hq, by simp [setPhase], fun _ => ⟨hearly, by simp, hreplay⟩⟩
  | @stored r₀ _ _ q _ a₀ hq _ hwithout =>
    obtain ⟨rfl, rfl⟩ : r = r₀ ∧ a = a₀ := by simpa using ha
    exact ⟨q, hq, by simp [setPhase], fun h => by rw [hwithout] at h; cases h⟩
  | @failed r₀ _ q failure hq =>
    obtain ⟨rfl, rfl⟩ : r = r₀ ∧ a = .failed failure := by simpa using ha
    exact ⟨q, hq, by simp [setPhase], by simp [WriteAnswer.withoutWrite]⟩

theorem Turn.enters (hr : .entered r ∈ o) :
    ∃ q m, s.requests r = some q ∧ q.phase = .awaitingWrite m ∧
      t.requests r = some { q with phase := .writing m false false } := by
  cases hturn with
  | arrived | idle | waits | answered | claimed | held | stored | failed => simp at hr
  | @entered r₀ m q hq hphase =>
    obtain rfl : r = r₀ := by simpa using hr
    exact ⟨q, m, hq, hphase, by simp [setPhase]⟩

theorem Turn.claims (hr : .claimed r m ∈ o) :
    ∃ q, t.requests r = some q ∧ q.phase.owned = some m := by
  cases hturn with
  | arrived | idle | waits | answered | entered | held | stored | failed => simp at hr
  | @claimed r₀ q =>
    obtain ⟨rfl, rfl⟩ : r = r₀ ∧ m = s.nextMarker := by simpa using hr
    exact ⟨{ q with phase := .claimed s.nextMarker }, by simp [claim, setPhase], rfl⟩

theorem Turn.cached (hc : (key, c) ∈ t.cache) :
    (key, c) ∈ s.cache ∨ ∃ r q, s.requests r = some q ∧ q.key = key ∧
      q.bodyHash = c.payloadHash ∧ .succeeded r c.status c.body ∈ o := by
  cases hturn with
  | arrived | idle | waits | answered | claimed | entered | held | failed => exact .inl hc
  | stored hq =>
    rcases mem_append.mp (mem_of_mem_drop hc) with hold | hnew
    · exact .inl (mem_filter.mp hold).1
    · cases mem_singleton.mp hnew
      exact .inr ⟨_, _, hq, rfl, rfl, by simp⟩

end

/-- The log of a run: what is cached and what is replayed are successes with the fingerprint, and
a request that was answered otherwise has not come to the write section. -/
structure Logged (os : List WriteOutput) (s : IdempotentWrites) : Prop where
  cached : ∀ {key c}, (key, c) ∈ s.cache → ∃ r q, s.requests r = some q ∧ q.key = key ∧
    q.bodyHash = c.payloadHash ∧ .succeeded r c.status c.body ∈ os
  replayed : ∀ r status body, .answered r (.replay status body) ∈ os →
    ∃ q r' q', s.requests r = some q ∧ s.requests r' = some q' ∧ q'.key = q.key ∧
      q'.bodyHash = q.bodyHash ∧ .succeeded r' status body ∈ os
  entered : ∀ {r}, .entered r ∈ os → ∃ q, s.requests r = some q ∧ q.phase.early = false
  ended : ∀ {r a}, .answered r a ∈ os → ∃ q, s.requests r = some q ∧ q.phase = .ended
  refused : ∀ r a, .answered r a ∈ os → a.withoutWrite = true → .entered r ∉ os
  claimed : ∀ {r m}, .claimed r m ∈ os →
    ∃ q, s.requests r = some q ∧ (q.phase.owned = some m ∨ q.phase = .ended)

theorem logged_new : Logged [] new := by
  constructor <;> simp [new]

theorem Logged.next (h : Logged os s) (hturn : Turn maxSize s t o) : Logged (os ++ o) t where
  cached := by
    intro key c hc
    rcases hturn.cached hc with hc | ⟨r, q, hq, hkey, hhash, hs⟩
    · obtain ⟨r, q, hq, hkey, hhash, hs⟩ := h.cached hc
      obtain ⟨q', hq', hkept⟩ := hturn.kept hq
      exact ⟨r, q', hq', hkept.1.trans hkey, hkept.2.1.trans hhash, mem_append_left _ hs⟩
    · obtain ⟨q', hq', hkept⟩ := hturn.kept hq
      exact ⟨r, q', hq', hkept.1.trans hkey, hkept.2.1.trans hhash, mem_append_right _ hs⟩
  replayed := by
    intro r status body hr
    -- the success was logged before this step, also where the replay is its output
    obtain ⟨q, r', q', hq, hq', hkey, hhash, hs⟩ : ∃ q r' q', s.requests r = some q ∧
        s.requests r' = some q' ∧ q'.key = q.key ∧ q'.bodyHash = q.bodyHash ∧
        .succeeded r' status body ∈ os := by
      rcases mem_append.mp hr with hr | hr
      · exact h.replayed r status body hr
      obtain ⟨q, hq, -, hwithout⟩ := hturn.answer hr
      have hcached := (hwithout rfl).2.2 status body rfl
      obtain ⟨l₁, l₂, hsplit, -⟩ := lookup_eq_some_iff.mp hcached
      have hmem : (q.key, ⟨status, body, q.bodyHash⟩) ∈ s.cache := by simp [hsplit]
      obtain ⟨r', q', hq', hkey, hhash, hs⟩ := h.cached hmem
      exact ⟨q, r', q', hq, hq', hkey, hhash, hs⟩
    obtain ⟨p, hp, hkept⟩ := hturn.kept hq
    obtain ⟨p', hp', hkept'⟩ := hturn.kept hq'
    refine ⟨p, r', p', hp, hp', ?_, ?_, mem_append_left _ hs⟩
    · rw [hkept'.1, hkept.1, hkey]
    · rw [hkept'.2.1, hkept.2.1, hhash]
  entered := by
    intro r hr
    rcases mem_append.mp hr with hr | hr
    · obtain ⟨q, hq, hlate⟩ := h.entered hr
      obtain ⟨q', hq', hkept⟩ := hturn.kept hq
      exact ⟨q', hq', hkept.2.2.1 hlate⟩
    · obtain ⟨q, m, -, -, hq'⟩ := hturn.enters hr
      exact ⟨_, hq', rfl⟩
  ended := by
    intro r a hr
    rcases mem_append.mp hr with hr | hr
    · obtain ⟨q, hq, hended⟩ := h.ended hr
      obtain ⟨q', hq', hkept⟩ := hturn.kept hq
      exact ⟨q', hq', hkept.2.2.2.1 hended⟩
    · obtain ⟨q, -, hq', -⟩ := hturn.answer hr
      exact ⟨_, hq', rfl⟩
  refused := by
    intro r a hr hwithout hentered
    rcases mem_append.mp hr with hr | hr
    · rcases mem_append.mp hentered with hentered | hentered
      · exact h.refused r a hr hwithout hentered
      obtain ⟨q, m, hq, hphase, -⟩ := hturn.enters hentered
      obtain ⟨q', hq', hended⟩ := h.ended hr
      cases hq.symm.trans hq'
      rw [hphase] at hended
      cases hended
    obtain ⟨q, hq, -, hkept⟩ := hturn.answer hr
    obtain ⟨hearly, hnone, -⟩ := hkept hwithout
    rcases mem_append.mp hentered with hentered | hentered
    · obtain ⟨q', hq', hlate⟩ := h.entered hentered
      cases hq.symm.trans hq'
      rw [hearly] at hlate
      cases hlate
    · exact hnone r hentered
  claimed := by
    intro r m hr
    rcases mem_append.mp hr with hr | hr
    · obtain ⟨q, hq, hphase⟩ := h.claimed hr
      obtain ⟨q', hq', -, -, -, hended, howned⟩ := hturn.kept hq
      exact ⟨q', hq', hphase.elim (howned m) fun hp => .inr (hended hp)⟩
    · obtain ⟨q, hq, howned⟩ := hturn.claims hr
      exact ⟨q, hq, .inl howned⟩

theorem invariants_of_runs {es : List WriteEvent}
    (hrun : runs (step sha256 maxSize) new es = some (s, os)) : Owned os s ∧ Logged os s := by
  refine runs_induction (fun _ os s => Owned os s ∧ Logged os s) ⟨owned_new, logged_new⟩ ?_
    es os s hrun
  intro es os s e t o _ h hstep
  exact ⟨h.1.next (turn_of_step hstep), h.2.next (turn_of_step hstep)⟩

/-- A request with another fingerprint than the cached or the active one is refused. -/
theorem Owned.look_refused (h : Owned os s) (hq : s.requests r = some q)
    (hphase : q.phase = .looking waited)
    (hother : (∃ c, s.cached q.key = some c ∧ c.payloadHash ≠ q.bodyHash) ∨
      ∃ m, s.inFlight q.key = some m ∧ (s.markers m).payloadHash ≠ q.bodyHash)
    (hstep : step sha256 maxSize s (.look r) = some (t, o)) :
    o = [.answered r .mismatch] ∨
      waited ≠ none ∧ s.cached q.key = none ∧ o = [.answered r .replayEvicted] := by
  have hlook : s.lookStep r q waited = (t, o) := by
    simp only [step, WriteEvent.request, hq, stepOf, hphase] at hstep
    split_ifs at hstep
    exact Option.some.inj hstep
  rcases hother with ⟨c, hcached, hhash⟩ | ⟨m, hactive, hhash⟩
  · simp only [lookStep, hcached, answer, if_neg hhash.symm, Prod.mk.injEq] at hlook
    exact .inl hlook.2.symm
  have hcached : s.cached q.key = none := by
    obtain ⟨r', q', hq', hkey, hm⟩ := h.live hactive
    exact hkey ▸ (h.owns hq' hm).uncached
  cases waited with
  | some m' =>
    simp only [lookStep, hcached, answer, Prod.mk.injEq] at hlook
    exact .inr ⟨by simp, hcached, hlook.2.symm⟩
  | none =>
    simp only [lookStep, hcached, hactive, answer, if_neg hhash.symm, Prod.mk.injEq] at hlook
    exact .inl hlook.2.symm

/-- In every run of the service: two owners of one key are the same request; a request comes to the
write section only while no success is cached for its key and nobody else owns it; what is replayed
is the status and the body of a success with the request's own key and fingerprint; a request with
another fingerprint than the cached or the active one is refused, and a request answered without
its own handler never comes to the write section; a request that has claimed a marker owns it until
it ends, and then the marker is out, and whoever waits for it can go on. -/
theorem writes_happen_once {es : List WriteEvent}
    (hrun : runs (step sha256 maxSize) new es = some (s, os)) :
    (∀ r₁ r₂ q₁ q₂ m₁ m₂, s.requests r₁ = some q₁ → s.requests r₂ = some q₂ →
      q₁.phase.owned = some m₁ → q₂.phase.owned = some m₂ → q₁.key = q₂.key → r₁ = r₂) ∧
    (∀ e t o r, step sha256 maxSize s e = some (t, o) → .entered r ∈ o →
      ∃ q, s.requests r = some q ∧ s.cached q.key = none ∧
        ∀ r' q' m, s.requests r' = some q' → q'.key = q.key → q'.phase.owned = some m → r' = r) ∧
    (∀ r status body, .answered r (.replay status body) ∈ os →
      ∃ q r' q', s.requests r = some q ∧ s.requests r' = some q' ∧ q'.key = q.key ∧
        q'.bodyHash = q.bodyHash ∧ .succeeded r' status body ∈ os) ∧
    (∀ r q waited t o, s.requests r = some q → q.phase = .looking waited →
      ((∃ c, s.cached q.key = some c ∧ c.payloadHash ≠ q.bodyHash) ∨
        ∃ m, s.inFlight q.key = some m ∧ (s.markers m).payloadHash ≠ q.bodyHash) →
      step sha256 maxSize s (.look r) = some (t, o) → o = [.answered r .mismatch] ∨
        waited ≠ none ∧ s.cached q.key = none ∧ o = [.answered r .replayEvicted]) ∧
    (∀ r a, .answered r a ∈ os → a.withoutWrite = true → .entered r ∉ os) ∧
    (∀ r m, .claimed r m ∈ os → ∃ q, s.requests r = some q ∧ (q.phase.owned = some m ∨
      q.phase = .ended ∧ (∀ key, s.inFlight key ≠ some m) ∧ (s.markers m).event = true)) ∧
    (∀ r q m, s.requests r = some q → q.phase = .waiting m →
      (∃ r' q', s.requests r' = some q' ∧ q'.phase.owned = some m) ∨
        (step sha256 maxSize s (.wake r)).isSome = true) := by
  obtain ⟨howned, hlogged⟩ := invariants_of_runs hrun
  have hunique : ∀ r₁ r₂ q₁ q₂ m₁ m₂, s.requests r₁ = some q₁ → s.requests r₂ = some q₂ →
      q₁.phase.owned = some m₁ → q₂.phase.owned = some m₂ → q₁.key = q₂.key → r₁ = r₂ := by
    intro r₁ r₂ q₁ q₂ m₁ m₂ hq₁ hq₂ hm₁ hm₂ hkey
    have hactive₁ := (howned.owns hq₁ hm₁).active
    rw [hkey, (howned.owns hq₂ hm₂).active] at hactive₁
    cases hactive₁
    exact howned.unique hq₁ hq₂ hm₁ hm₂
  refine ⟨hunique, ?_, hlogged.replayed, ?_, hlogged.refused, ?_, ?_⟩
  · intro e t o r hstep hr
    obtain ⟨q, m, hq, hphase, -⟩ := (turn_of_step hstep).enters hr
    have hm : q.phase.owned = some m := by rw [hphase]; rfl
    exact ⟨q, hq, (howned.owns hq hm).uncached, fun r' q' m' hq' hkey hm' =>
      hunique r' r q' q m' m hq' hq hm' hm hkey⟩
  · intro r q waited t o hq hphase hother hstep
    exact howned.look_refused hq hphase hother hstep
  · intro r m hr
    obtain ⟨q, hq, hphase⟩ := hlogged.claimed hr
    refine ⟨q, hq, hphase.imp_right fun hended => ⟨hended, ?_⟩⟩
    -- an owner would have claimed the marker, so it would be the request that has ended
    have hnone : ¬ ∃ r' q', s.requests r' = some q' ∧ q'.phase.owned = some m := by
      rintro ⟨r', q', hq', hm⟩
      obtain rfl := howned.claims hr (howned.owns hq' hm).claimed
      cases hq.symm.trans hq'
      rw [hended] at hm
      cases hm
    refine ⟨fun key hkey => ?_, (howned.settled m (howned.bounded hr)).resolve_right hnone⟩
    obtain ⟨r', q', hq', -, hm⟩ := howned.live hkey
    exact hnone ⟨r', q', hq', hm⟩
  · intro r q m hq hphase
    refine (howned.settled m (howned.waiting hq hphase)).symm.imp_right fun hevent => ?_
    simp [step, WriteEvent.request, hq, stepOf, hphase, hevent]

namespace Cancelled

/-- The first request is cancelled after its commit, while the second waits for it; the third and
the fourth have other fingerprints, and the fifth is cancelled before the write lock. -/
def events : List WriteEvent :=
  [.arrive 0 "key" .post "a", .look 0, .arrive 1 "key" .post "a", .look 1, .arrive 2 "key" .post
      "b",
    .look 2, .prepare 0 none, .enter 0, .await 0 true, .cancel 0, .respond 0 201 "created", .grant
        0,
    .settle 0, .wake 1, .look 1, .arrive 3 "key" (.delete "a") "", .look 3,
    .arrive 4 "other" (.put "a") "b", .look 4, .prepare 4 none, .cancel 4, .grant 4, .settle 4]

theorem events_go : (runs (step id 2) new events).isSome = true := by decide +kernel

/-- Where the run ends, and what it has put out. -/
def after : IdempotentWrites × List WriteOutput := reached (step id 2) new events events_go

theorem writes_happen_once_cancelled :
    after.2 = [.claimed 0 0, .answered 2 .mismatch, .entered 0, .succeeded 0 201 "created",
      .answered 0 (.failed .cancelled), .answered 1 (.replay 201 "created"),
      .answered 3 .mismatch, .claimed 4 1, .answered 4 (.failed .cancelled)] ∧
    (∃ q r' q', after.1.requests 1 = some q ∧ after.1.requests r' = some q' ∧ q'.key = q.key ∧
      q'.bodyHash = q.bodyHash ∧ .succeeded r' 201 "created" ∈ after.2) ∧ .entered 2 ∉ after.2 ∧
    (∃ q, after.1.requests 4 = some q ∧ (q.phase.owned = some 1 ∨ q.phase = .ended ∧
      (∀ key, after.1.inFlight key ≠ some 1) ∧ (after.1.markers 1).event = true)) := by
  obtain ⟨-, -, hreplayed, -, hrefused, hclaimed, -⟩ :=
    writes_happen_once (runs_eq_reached events_go)
  exact ⟨by decide +kernel, hreplayed 1 201 "created" (by decide +kernel),
    hrefused 2 .mismatch (by decide +kernel) rfl, hclaimed 4 1 (by decide +kernel)⟩

end Cancelled

end IdempotentWrites

end Sie.Config
