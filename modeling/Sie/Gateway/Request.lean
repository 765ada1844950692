import Sie.Gateway.CollectorSpec
import Sie.Lib.Ledger
import Sie.Lib.Run

/-!
# Pending requests

The handlers of the gateway's `queue/publisher.rs` that work on the collector of one
request, at the granularity of its lock: `publish_work_inner` and
`republish_pending_result_to_pool` on the publishing side, `handle_result_chunk`,
`handle_result_with_chunk_reservation` and `fail_result_chunk_request` on the
receiving side, and the paths that remove a collector and later drop it.

A handler that gives up the lock and goes on later is a value in the state
(`Handler`, `Publisher`), so that anything may come in between.  `apply_result_chunk`
keeps the lock between its two parts (`Hold.applying`), and only other requests run
there.  Requests share nothing but the budget.

`kept`, `abandoned` and `acked` are ghost fields: the reservations of results that
were stored, those that no transfer, handler or result has any more, and the items
whose pool copy was acknowledged.
-/

namespace Sie.Gateway

open Sie.Lib Sie.Wire

/-- Where the collector of a request is. -/
inductive Hold
  /-- In the map of pending results. -/
  | pending (c : ResultCollector)
  /-- In the map, locked by a chunk between its two parts. -/
  | applying (c : ResultCollector) (chunk : CheckedChunk) (r : Replacement)
  /-- Out of the map, and not yet dropped. -/
  | removed (c : ResultCollector)
  | dropped

/-- What a handler has still to do after it gave up the lock. -/
inductive Handler
  /-- Decode a completed transfer and store its result. -/
  | decode (completed : CompletedResultTransfer)
  /-- Fail the request. -/
  | fail
  /-- All results were there: remove the collector and deliver them. -/
  | finish
  deriving DecidableEq

/-- Who publishes to the pool: the request itself, when its direct publish failed, or
a later fallback. -/
inductive Route
  | initial
  | republish
  deriving DecidableEq

/-- What a task that publishes the work items has still to do.  An item is its index
and its encoded payload. -/
inductive Publisher
  /-- Publish the items of a new request; the pool's subject is for the case that it
  fails. -/
  | publishItems (poolFallbackSubject : Option String) (items : List (ℕ × Bytes))
  | publishPool (route : Route) (subject : String) (items : List (ℕ × Bytes))
  /-- Wait for the acknowledgements of the pool. -/
  | awaitAcks (route : Route) (items : List (ℕ × Bytes)) (outstanding : List ℕ) (failed : Bool)
  | confirm (route : Route) (items : List (ℕ × Bytes))
  | cache (items : List (ℕ × Bytes))
  /-- Tear the request down. -/
  | abort
  deriving DecidableEq

/-- What a publishing task learns from the network. -/
inductive News
  | sent
  | unsent
  | ack (index : ℕ)
  | nack (index : ℕ)
  | timeout
  deriving DecidableEq

/-- What the gateway is seen to do for a request. -/
inductive Output
  | reserve (bytes : ℕ)
  /-- A release, with what the request and the budget had reserved. -/
  | release (bytes requestBytes globalBytes : ℕ)
  /-- The release of a dropped collector. -/
  | drop (bytes globalBytes : ℕ)
  | deliver (results : List WorkResult)
  /-- The unwrap of a missing result. -/
  | unwrapNone
  | staleDirectFallback (itemIndex : ℕ)
  | fallbackFailed
  deriving DecidableEq

/-- One request. -/
structure Request where
  requestId : String
  totalItems : ℕ
  hold : Hold
  handlers : List Handler
  publishers : List Publisher
  kept : Multiset ℕ
  abandoned : Multiset ℕ
  acked : Finset ℕ

/-- A request after a step, the budget, and what was seen. -/
structure Turn where
  request : Request
  budget : ResultChunkBudget
  outputs : List Output

/-- Run with the lock of the collector, or without a collector if it is gone; a chunk
between its two parts keeps the lock. -/
def Hold.locked {α : Type} (hold : Hold) (gone : α) (f : ResultCollector → α) : Option α :=
  match hold with
  | .pending c => some (f c)
  | .applying _ _ _ => none
  | .removed _ => some gone
  | .dropped => some gone

/-- What `handle_result_chunk` goes on to do. -/
def followUp : ChunkAnswer → List Handler
  | .error _ => [.fail]
  | .ok ⟨.complete completed, _⟩ => [.decode completed]
  | .ok _ => []

/-- The output of a release by a collector; the budget ignores one of nothing. -/
def releaseOutput (c : ResultCollector) (budget : ResultChunkBudget) (bytes : ℕ) : List Output :=
  if bytes = 0 then [] else [.release bytes c.resultChunkReservedBytes budget.reservedBytes]

/-- The output of a reservation that took the collector from `c` to `c₁`. -/
def reserveOutput (c c₁ : ResultCollector) : List Output :=
  if c.resultChunkReservedBytes < c₁.resultChunkReservedBytes then
    [.reserve (c₁.resultChunkReservedBytes - c.resultChunkReservedBytes)]
  else []

namespace Request

/-- A request whose collector was just inserted, about to publish its items. -/
def new (requestId : String) (payloads : List Bytes)
    (poolFallbackSubject directFallbackWorkerId : Option String) : Request where
  requestId := requestId
  totalItems := payloads.length
  hold := .pending
    (ResultCollector.new payloads.length poolFallbackSubject directFallbackWorkerId)
  handlers := []
  publishers := [.publishItems poolFallbackSubject ((List.range payloads.length).zip payloads)]
  kept := 0
  abandoned := 0
  acked := ∅

variable (req : Request) (budget : ResultChunkBudget)

/-! ## Receiving -/

/-- `handle_result_chunk` up to the first use of the budget. -/
def chunkTurn (chunk : ResultChunkV1) (c : ResultCollector) : Turn :=
  match beginChunk c chunk with
  | (c₁, released, .answer a) =>
    ⟨{ req with hold := .pending c₁, handlers := req.handlers ++ followUp a },
      budget.release released, releaseOutput c budget released⟩
  | (c₁, released, .proceed checked r) =>
    ⟨{ req with hold := .applying c₁ checked r }, budget.release released,
      releaseOutput c budget released⟩

/-- The rest of the locked part of `handle_result_chunk`. -/
def resumeTurn (sha256 : Bytes → Digest) (c : ResultCollector) (chunk : CheckedChunk)
    (r : Replacement) : Turn :=
  let applied := insertChunk sha256 c budget chunk r
  ⟨{ req with
      hold := .pending applied.collector
      handlers := req.handlers ++ followUp applied.answer
      abandoned := req.abandoned + lot (applied.abandoned.getD 0) },
    applied.budget, reserveOutput c applied.collector⟩

/-- The locked part of `handle_result_with_chunk_reservation`. -/
def storeTurn (result : WorkResult) (completedReservationBytes : ℕ) (c : ResultCollector) : Turn :=
  let (c₁, released, outcome) := storeResult c result completedReservationBytes
  ⟨{ req with
      hold := .pending c₁
      handlers := req.handlers ++ (if c₁.allDone then [.finish] else [])
      kept := req.kept + lot (if outcome = .stored then completedReservationBytes else 0) },
    budget.release released,
    releaseOutput c budget released ++
      (if outcome = .staleDirectFallback then [.staleDirectFallback result.itemIndex] else [])⟩

section

variable (c : ResultCollector)

/-- Take the collector out of the map; its sender goes with it. -/
def removeTurn : Turn := ⟨{ req with hold := .removed c }, budget, []⟩

/-- `fail_pending_result_chunk_request`. -/
def failTurn : Turn :=
  ⟨{ req with hold := .removed c }, budget,
    [.deliver (failedResults req.requestId c.results.length)]⟩

/-- The last part of `handle_result_with_chunk_reservation`. -/
def finishTurn : Turn :=
  ⟨{ req with hold := .removed c }, budget,
    match c.results.mapM id with
    | some results => [.deliver results]
    | none => [.unwrapNone]⟩

/-- The collector's `Drop`. -/
def dropTurn : Turn :=
  ⟨{ req with hold := .dropped }, budget.release c.resultChunkReservedBytes,
    [.drop c.resultChunkReservedBytes budget.reservedBytes]⟩

end

/-- A handler goes on.  A completed transfer keeps its reservation until its result is
stored; on an error path nobody has it, and it stays with the collector. -/
def handlerTurn (decode : Bytes → Option WorkResult) : Handler → Option Turn
  | .decode completed =>
    let lost := { req with abandoned := req.abandoned + lot completed.reservationBytes }
    match decodeCompletedResult decode completed with
    | .error _ => some ⟨{ lost with handlers := req.handlers ++ [.fail] }, budget, []⟩
    | .ok result =>
      req.hold.locked ⟨lost, budget, []⟩ (req.storeTurn budget result completed.reservationBytes)
  | .fail => req.hold.locked ⟨req, budget, []⟩ (req.failTurn budget)
  | .finish => req.hold.locked ⟨req, budget, []⟩ (req.finishTurn budget)

/-! ## Publishing -/

/-- The task goes on with something else. -/
def goOn (next : List Publisher) : Turn :=
  ⟨{ req with publishers := req.publishers ++ next }, budget, []⟩

/-- A publish to the pool failed: a new request is torn down, a later fallback ends. -/
def fallbackFails : Route → Turn
  | .initial => ⟨{ req with publishers := req.publishers ++ [.abort] }, budget, [.fallbackFailed]⟩
  | .republish => ⟨req, budget, [.fallbackFailed]⟩

/-- What follows the confirmation. -/
def afterConfirm (items : List (ℕ × Bytes)) : Route → List Publisher
  | .initial => [.cache items]
  | .republish => []

/-- A publishing task learns something from the network. -/
def newsTurn : Publisher → News → Option Turn
  | .publishItems _ items, .sent => some (req.goOn budget [.cache items])
  | .publishItems (some subject) items, .unsent =>
    some (req.goOn budget [.publishPool .initial subject items])
  | .publishItems none _, .unsent => some (req.goOn budget [.abort])
  | .publishPool route _ items, .sent =>
    some (req.goOn budget [.awaitAcks route items (items.map Prod.fst) false])
  | .publishPool route _ _, .unsent => some (req.fallbackFails budget route)
  | .awaitAcks route items outstanding failed, .ack index =>
    if index ∈ outstanding then
      some ({ req with acked := insert index req.acked }.goOn budget
        [.awaitAcks route items (outstanding.erase index) failed])
    else none
  | .awaitAcks route items outstanding _, .nack index =>
    if index ∈ outstanding then
      some (req.goOn budget [.awaitAcks route items (outstanding.erase index) true])
    else none
  | .awaitAcks route _ _ _, .timeout => some (req.fallbackFails budget route)
  | _, _ => none

/-- A publishing task goes on by itself. -/
def publisherTurn : Publisher → Option Turn
  | .awaitAcks route items [] failed =>
    some (if failed then req.fallbackFails budget route
      else req.goOn budget [.confirm route items])
  | .confirm route items =>
    req.hold.locked (req.goOn budget (afterConfirm items route)) fun c =>
      { req with hold := .pending (markDirectFallbackConfirmed c (items.map Prod.fst)) }.goOn
        budget (afterConfirm items route)
  | .cache items =>
    req.hold.locked (req.goOn budget []) fun c =>
      { req with hold := .pending (cacheDirectFallbackPayloads c items) }.goOn budget []
  | .abort => req.hold.locked (req.goOn budget []) (req.removeTurn budget)
  | _ => none

/-- `republish_pending_result_to_pool` up to its first publish. -/
def republishTurn (c : ResultCollector) : Turn :=
  match takeDirectFallbackPayloads c with
  | none => ⟨req, budget, []⟩
  | some (c₁, subject, _, items) =>
    { req with hold := .pending c₁ }.goOn budget [.publishPool .republish subject items]

end Request

/-- What can happen to a request. -/
inductive RequestEvent
  | chunk (chunk : ResultChunkV1)
  /-- The chunk that has the lock goes on. -/
  | resume
  | result (result : WorkResult)
  | handler (n : ℕ)
  | republish
  | publisher (n : ℕ)
  | news (n : ℕ) (news : News)
  /-- The waiter is gone, or the deadline has passed. -/
  | remove
  | drop

/-- A message is for the request that it names. -/
def RequestEvent.isFor (requestId : String) : RequestEvent → Bool
  | .chunk c => c.requestId = requestId
  | .result r => r.requestId = requestId
  | _ => true

/-- One step of a request. -/
def Request.step (sha256 : Bytes → Digest) (decode : Bytes → Option WorkResult) (req : Request)
    (budget : ResultChunkBudget) : RequestEvent → Option Turn
  | .chunk chunk => req.hold.locked ⟨req, budget, []⟩ (req.chunkTurn budget chunk)
  | .resume =>
    match req.hold with
    | .applying c chunk r => some (req.resumeTurn budget sha256 c chunk r)
    | _ => none
  | .result result => req.hold.locked ⟨req, budget, []⟩ (req.storeTurn budget result 0)
  | .handler n =>
    req.handlers[n]?.bind
      ({ req with handlers := req.handlers.eraseIdx n }.handlerTurn budget decode)
  | .republish => req.hold.locked ⟨req, budget, []⟩ (req.republishTurn budget)
  | .publisher n =>
    req.publishers[n]?.bind
      ({ req with publishers := req.publishers.eraseIdx n }.publisherTurn budget)
  | .news n news =>
    req.publishers[n]?.bind fun p =>
      { req with publishers := req.publishers.eraseIdx n }.newsTurn budget p news
  | .remove => req.hold.locked ⟨req, budget, []⟩ (req.removeTurn budget)
  | .drop =>
    match req.hold with
    | .removed c => some (req.dropTurn budget c)
    | _ => none

/-! ## All requests -/

/-- All requests, with the budget they share. -/
structure PendingResults where
  budget : ResultChunkBudget
  requests : AList fun _ : String => Request

def PendingResults.new (limit : ℕ) : PendingResults := ⟨.new limit, ∅⟩

inductive ResultsEvent
  /-- A request comes in, under a new id. -/
  | publishWork (requestId : String) (payloads : List Bytes)
      (poolFallbackSubject directFallbackWorkerId : Option String)
  | request (requestId : String) (e : RequestEvent)

/-- One step; the outputs are by request. -/
def PendingResults.step (sha256 : Bytes → Digest) (decode : Bytes → Option WorkResult)
    (g : PendingResults) : ResultsEvent → Option (PendingResults × List (String × Output))
  | .publishWork requestId payloads poolFallbackSubject directFallbackWorkerId =>
    match g.requests.lookup requestId with
    | some _ => none
    | none =>
      some ({ g with
        requests := g.requests.insert requestId
          (Request.new requestId payloads poolFallbackSubject directFallbackWorkerId) }, [])
  | .request requestId e =>
    match g.requests.lookup requestId with
    | none => some (g, [])
    | some req =>
      if e.isFor requestId then
        (req.step sha256 decode g.budget e).map fun t =>
          (⟨t.budget, g.requests.insert requestId t.request⟩,
            t.outputs.map fun o => (requestId, o))
      else none

/-- What was seen of one request. -/
def outputsOf (requestId : String) (os : List (String × Output)) : List Output :=
  os.filterMap fun o => if o.1 = requestId then some o.2 else none

/-! ## Rules -/

variable {hold : Hold}

/-- The collector that is in the map. -/
def Hold.live : Hold → Option ResultCollector
  | .pending c => some c
  | .applying c _ _ => some c
  | _ => none

/-- What runs with the lock has a property if it has it where the collector is in the map and
where it is gone. -/
theorem Hold.locked_rule {α : Type} {gone a : α} {f : ResultCollector → α} {P : α → Prop}
    (h : hold.locked gone f = some a) (hgone : hold.live = none → P gone)
    (hf : ∀ c, hold = .pending c → P (f c)) : P a := by
  cases hold with
  | pending c =>
    cases h
    exact hf c rfl
  | applying => cases h
  | removed | dropped =>
    cases h
    exact hgone rfl

section Rules

variable {req : Request} {budget : ResultChunkBudget} {c : ResultCollector} {P : Turn → Prop}
  {t : Turn}

/-- A chunk is answered and changes nothing, or goes on with the lock. -/
theorem chunkTurn_rule {chunk : ResultChunkV1} (answers : ∀ a, completedOf a = none →
      P ⟨{ req with hold := .pending c, handlers := req.handlers ++ followUp a }, budget, []⟩)
    (begins : ∀ c₁ n checked r, Begins c chunk c₁ n (.proceed checked r) →
      P ⟨{ req with hold := .applying c₁ checked r }, budget.release n, releaseOutput c budget n⟩) :
    P (req.chunkTurn budget chunk c) := by
  have hbegins := begins_beginChunk c chunk
  unfold Request.chunkTurn
  rcases hbegin : beginChunk c chunk with ⟨c₁, n, a | ⟨checked, r⟩⟩
  · rw [hbegin] at hbegins
    cases hbegins with
    | answers a hopen => simpa [releaseOutput, ResultChunkBudget.release] using answers a hopen
  · rw [hbegin] at hbegins
    exact begins c₁ n checked r hbegins

theorem storeTurn_rule {result : WorkResult} {bytes : ℕ}
    (stores : ∀ c₁ n outcome, Stores c result bytes c₁ n outcome →
      P ⟨{ req with
          hold := .pending c₁
          handlers := req.handlers ++ (if c₁.allDone then [.finish] else [])
          kept := req.kept + lot (if outcome = .stored then bytes else 0) },
        budget.release n,
        releaseOutput c budget n ++
          (if outcome = .staleDirectFallback then [.staleDirectFallback result.itemIndex]
            else [])⟩) : P (req.storeTurn budget result bytes c) :=
  stores _ _ _ (stores_storeResult c result bytes)

/-- Only the publishing side of a request changes. -/
structure OnlyPublishes (req : Request) (budget : ResultChunkBudget) (t : Turn) : Prop where
  requestId : t.request.requestId = req.requestId
  totalItems : t.request.totalItems = req.totalItems
  hold : t.request.hold = req.hold
  handlers : t.request.handlers = req.handlers
  kept : t.request.kept = req.kept
  abandoned : t.request.abandoned = req.abandoned
  acked : req.acked ⊆ t.request.acked
  budget_eq : t.budget = budget
  outputs : ∀ o ∈ t.outputs, o = .fallbackFailed

theorem onlyPublishes_goOn (next : List Publisher) :
    OnlyPublishes req budget (req.goOn budget next) :=
  ⟨rfl, rfl, rfl, rfl, rfl, rfl, subset_rfl, rfl, by simp [Request.goOn]⟩

theorem onlyPublishes_fallbackFails (route : Route) :
    OnlyPublishes req budget (req.fallbackFails budget route) := by
  cases route <;>
    exact ⟨rfl, rfl, rfl, rfl, rfl, rfl, subset_rfl, rfl, by simp [Request.fallbackFails]⟩

theorem onlyPublishes_newsTurn {p : Publisher} {news : News}
    (h : req.newsTurn budget p news = some t) : OnlyPublishes req budget t := by
  unfold Request.newsTurn at h
  split at h
  · cases h
    exact onlyPublishes_goOn _
  · cases h
    exact onlyPublishes_goOn _
  · cases h
    exact onlyPublishes_goOn _
  · cases h
    exact onlyPublishes_goOn _
  · cases h
    exact onlyPublishes_fallbackFails _
  · split_ifs at h
    cases h
    exact ⟨rfl, rfl, rfl, rfl, rfl, rfl, Finset.subset_insert _ _, rfl, by simp [Request.goOn]⟩
  · split_ifs at h
    cases h
    exact onlyPublishes_goOn _
  · cases h
    exact onlyPublishes_fallbackFails _
  · simp at h

end Rules

variable {req : Request} {sha256 : Bytes → Digest} {decode : Bytes → Option WorkResult} {t : Turn}

/-- A request is the same one after a step. -/
def SameRequest (req : Request) (t : Turn) : Prop :=
  t.request.requestId = req.requestId ∧ t.request.totalItems = req.totalItems

theorem sameRequest_step {budget : ResultChunkBudget} {e : RequestEvent}
    (h : req.step sha256 decode budget e = some t) : SameRequest req t := by
  cases e with
  | chunk =>
    refine Hold.locked_rule h (fun _ => ⟨rfl, rfl⟩) fun c _ => ?_
    exact chunkTurn_rule (P := SameRequest req) (fun _ _ => ⟨rfl, rfl⟩) fun _ _ _ _ _ => ⟨rfl, rfl⟩
  | resume | drop =>
    simp only [Request.step] at h
    split at h
    · cases h
      exact ⟨rfl, rfl⟩
    · simp at h
  | result | remove => exact Hold.locked_rule h (fun _ => ⟨rfl, rfl⟩) fun _ _ => ⟨rfl, rfl⟩
  | handler =>
    obtain ⟨handler, -, hturn⟩ := Option.bind_eq_some_iff.mp h
    cases handler with
    | decode =>
      simp only [Request.handlerTurn] at hturn
      split at hturn
      · cases hturn
        exact ⟨rfl, rfl⟩
      · exact Hold.locked_rule hturn (fun _ => ⟨rfl, rfl⟩) fun _ _ => ⟨rfl, rfl⟩
    | fail | finish => exact Hold.locked_rule hturn (fun _ => ⟨rfl, rfl⟩) fun _ _ => ⟨rfl, rfl⟩
  | republish =>
    refine Hold.locked_rule h (fun _ => ⟨rfl, rfl⟩) fun c _ => ?_
    unfold Request.republishTurn
    split <;> exact ⟨rfl, rfl⟩
  | publisher =>
    obtain ⟨p, -, hturn⟩ := Option.bind_eq_some_iff.mp h
    unfold Request.publisherTurn at hturn
    split at hturn
    · cases hturn
      split_ifs
      · unfold Request.fallbackFails
        split <;> exact ⟨rfl, rfl⟩
      · exact ⟨rfl, rfl⟩
    · exact Hold.locked_rule hturn (fun _ => ⟨rfl, rfl⟩) fun _ _ => ⟨rfl, rfl⟩
    · exact Hold.locked_rule hturn (fun _ => ⟨rfl, rfl⟩) fun _ _ => ⟨rfl, rfl⟩
    · exact Hold.locked_rule hturn (fun _ => ⟨rfl, rfl⟩) fun _ _ => ⟨rfl, rfl⟩
    · simp at hturn
  | news =>
    obtain ⟨p, -, hturn⟩ := Option.bind_eq_some_iff.mp h
    exact ⟨(onlyPublishes_newsTurn hturn).requestId, (onlyPublishes_newsTurn hturn).totalItems⟩

/-- A step of all requests adds one, finds none, or is a step of one of them. -/
inductive Moves (sha256 : Bytes → Digest) (decode : Bytes → Option WorkResult)
    (g : PendingResults) : PendingResults → List (String × Output) → Prop
  | added (requestId : String) (payloads : List Bytes) (subject worker : Option String)
      (hnew : g.requests.lookup requestId = none) :
      Moves sha256 decode g
        { g with
          requests := g.requests.insert requestId
            (Request.new requestId payloads subject worker) } []
  | unknown : Moves sha256 decode g g []
  | stepped (requestId : String) (req : Request) (e : RequestEvent) (t : Turn)
      (hreq : g.requests.lookup requestId = some req) (hfor : e.isFor requestId = true)
      (hstep : req.step sha256 decode g.budget e = some t) :
      Moves sha256 decode g ⟨t.budget, g.requests.insert requestId t.request⟩
        (t.outputs.map fun o => (requestId, o))

theorem moves_of_step {g g₁ : PendingResults} {e : ResultsEvent} {os : List (String × Output)}
    (h : g.step sha256 decode e = some (g₁, os)) : Moves sha256 decode g g₁ os := by
  cases e with
  | publishWork requestId payloads subject worker =>
    simp only [PendingResults.step] at h
    split at h
    · simp at h
    next hnew =>
      cases h
      exact .added requestId payloads subject worker hnew
  | request requestId e =>
    simp only [PendingResults.step] at h
    split at h
    · cases h
      exact .unknown
    rename_i req hreq
    split_ifs at h with hfor
    obtain ⟨t, ht, ⟨⟩⟩ := Option.map_eq_some_iff.mp h
    exact .stepped requestId req e t hreq hfor ht

end Sie.Gateway
