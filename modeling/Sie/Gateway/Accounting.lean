import Sie.Gateway.Request

/-!
# Reserved bytes are accounted for

What the requests of the gateway do to the budget is a list of entries that can be
posted in a ledger: the account of a request holds the reservations of its transfers,
of completed transfers on their way to be stored, of results it kept, and of those
that an error path left behind.  The counters of the code are the sums of that
ledger, so the limits hold, no release takes more than is there or takes it twice,
and nothing is left when all collectors are dropped.
-/

namespace Sie.Gateway

open Sie.Lib Sie.Wire List Request ResultCollector Output Ledger Option Hold

/-! ## The reservations of a request -/

/-- The reservations of the transfers under way. -/
def ResultCollector.transferLots (c : ResultCollector) : Multiset ℕ :=
  total (fun p => lot p.reservationBytes) c.resultChunkTransfers

/-- The reservation that a handler has. -/
def Handler.lots : Handler → Multiset ℕ
  | .decode completed => lot completed.reservationBytes
  | _ => 0

/-- The reservations that handlers have. -/
def handlerLots (handlers : List Handler) : Multiset ℕ := (handlers.map Handler.lots).sum

namespace Request

/-- The reservations of completed transfers on their way to be stored, of results
that were stored, and of transfers that an error path left. -/
def completedLots (req : Request) : Multiset ℕ :=
  handlerLots req.handlers + req.kept + req.abandoned

/-- All reservations of a request. -/
def outstanding (req : Request) : Multiset ℕ :=
  match req.hold with
  | .pending c => c.transferLots + req.completedLots
  -- a replaced transfer leaves its reservation to the one that replaces it
  | .applying c _ r => c.transferLots + lot (r.reservationBytes.getD 0) + req.completedLots
  | .removed c => c.transferLots + req.completedLots
  | .dropped => 0

/-- The counter of a live collector. -/
def reservedBytes (req : Request) : ℕ :=
  match req.hold with
  | .pending c => c.resultChunkReservedBytes
  | .applying c _ _ => c.resultChunkReservedBytes
  | .removed c => c.resultChunkReservedBytes
  | .dropped => 0

end Request

@[simp] theorem handlerLots_append (h₁ h₂ : List Handler) :
    handlerLots (h₁ ++ h₂) = handlerLots h₁ + handlerLots h₂ := by
  simp [handlerLots]

theorem handlerLots_eraseIdx {handlers : List Handler} {n : ℕ} {h : Handler}
    (hn : handlers[n]? = some h) :
    handlerLots handlers = h.lots + handlerLots (handlers.eraseIdx n) := by
  induction handlers generalizing n with
  | nil => simp at hn
  | cons h₁ _ ih =>
    cases n with
    | zero =>
      obtain rfl : h₁ = h := by simpa using hn
      simp [handlerLots]
    | succ n =>
      have hrest := ih (n := n) (by simpa using hn)
      simp [handlerLots] at hrest ⊢
      rw [hrest]
      exact add_left_comm _ _ _

section TransferLots

variable {c : ResultCollector} {workItemId : String} {p : PartialResultTransfer}

theorem transferLots_removeTransfer (h : c.transfer workItemId = some p) :
    c.transferLots = lot p.reservationBytes + (c.removeTransfer workItemId p).transferLots :=
  total_erase _ h

theorem transferLots_putTransfer_of_none (h : c.transfer workItemId = none) (n : ℕ) :
    (c.putTransfer workItemId p n).transferLots = lot p.reservationBytes + c.transferLots := by
  unfold transferLots putTransfer
  rw [total_insert, total_erase_of_lookup_eq_none _ h]

theorem transferLots_putTransfer_of_some {q : PartialResultTransfer}
    (h : c.transfer workItemId = some q) (heq : p.reservationBytes = q.reservationBytes) (n : ℕ) :
    (c.putTransfer workItemId p n).transferLots = c.transferLots := by
  rw [transferLots_removeTransfer h]
  unfold transferLots putTransfer
  rw [total_insert, heq]
  rfl

@[simp] theorem transferLots_unreserve (n : ℕ) :
    (c.unreserve n).transferLots = c.transferLots := rfl

end TransferLots

variable {c : ResultCollector} {budget : ResultChunkBudget}

/-! ## Entries -/

/-- The entry that an output is in the ledger. -/
def Output.entry (requestId : String) : Output → Option (Entry String)
  | .reserve bytes => some (.reserve requestId bytes)
  | .release bytes _ _ => some (.release requestId bytes)
  | .drop bytes _ => some (.close requestId bytes)
  | _ => none

/-- A release takes no more than is there, in the request and in the budget. -/
def Output.Covered : Output → Prop
  | .release bytes requestBytes globalBytes => bytes ≤ requestBytes ∧ bytes ≤ globalBytes
  | .drop bytes globalBytes => bytes ≤ globalBytes
  | _ => True

/-- The entries of a request's turn, as a change of its reservations and the budget. -/
inductive Posts (requestId : String) (m : Multiset ℕ) (budget : ResultChunkBudget) :
    Multiset ℕ → ResultChunkBudget → List (Entry String) → Prop
  | quiet : Posts requestId m budget m budget []
  | reserve (n : ℕ) (hcap : m.sum + n ≤ maxResultChunkReservedBytesPerRequest)
      (hlimit : budget.reservedBytes + n ≤ budget.limit) :
      Posts requestId m budget (n ::ₘ m)
        { budget with reservedBytes := budget.reservedBytes + n } [.reserve requestId n]
  | release (n : ℕ) (hmem : n ∈ m) :
      Posts requestId m budget (m.erase n) (budget.release n) [.release requestId n]
  | close : Posts requestId m budget 0 (budget.release m.sum) [.close requestId m.sum]

/-- The request's limit, of a collector in the map. -/
def Limited (c : ResultCollector) : Prop :=
  c.resultChunkReservedLimit = maxResultChunkReservedBytesPerRequest

/-- The counter of a live collector is the sum of the request's reservations. -/
def Books (req : Request) : Prop :=
  match req.hold with
  | .pending c =>
    c.resultChunkReservedBytes = (c.transferLots + req.completedLots).sum ∧ Limited c
  | .applying c chunk r =>
    c.resultChunkReservedBytes =
        (c.transferLots + lot (r.reservationBytes.getD 0) + req.completedLots).sum ∧
      Limited c ∧ (r.reservationBytes ≠ none → c.transfer chunk.workItemId = none)
  | .removed c => c.resultChunkReservedBytes = (c.transferLots + req.completedLots).sum
  | .dropped => True

theorem Books.reservedBytes_eq {req : Request} (h : Books req) :
    req.reservedBytes = req.outstanding.sum := by
  unfold Books at h
  unfold reservedBytes outstanding
  split at h
  · exact h.1
  · exact h.1
  · exact h
  · rfl

/-- A turn from reservations `m` posts its entries and keeps the books. -/
structure Settles (m : Multiset ℕ) (budget : ResultChunkBudget) (t : Turn) : Prop where
  posts : Posts t.request.requestId m budget t.request.outstanding t.budget
    (t.outputs.filterMap (entry t.request.requestId))
  books : Books t.request
  covered : ∀ o ∈ t.outputs, o.Covered

@[simp] theorem release_zero (budget : ResultChunkBudget) : budget.release 0 = budget := by
  simp [ResultChunkBudget.release]

theorem reservedBytes_release (budget : ResultChunkBudget) (n : ℕ) :
    (budget.release n).reservedBytes = budget.reservedBytes - n := by
  simp only [ResultChunkBudget.release]
  omega

/-- Giving back one of the reservations. -/
theorem posts_releaseOutput (requestId : String) (n : ℕ) (m : Multiset ℕ) :
    Posts requestId (lot n + m) budget m (budget.release n)
      ((releaseOutput c budget n).filterMap (entry requestId)) := by
  unfold releaseOutput
  by_cases hn : n = 0
  · subst hn
    simpa using Posts.quiet
  · have h : Posts requestId (lot n + m) budget ((lot n + m).erase n) (budget.release n)
        [.release requestId n] := .release n (by simp [lot_of_ne_zero hn])
    simpa [hn, lot_of_ne_zero hn, entry] using h

/-- Taking one reservation more, within the limits. -/
theorem posts_reserveOutput {c₁ : ResultCollector} (requestId : String) {n : ℕ} {m : Multiset ℕ}
    (hreserved : c₁.resultChunkReservedBytes = c.resultChunkReservedBytes + n)
    (hwithin : n ≠ 0 → m.sum + n ≤ maxResultChunkReservedBytesPerRequest ∧
      budget.reservedBytes + n ≤ budget.limit) :
    Posts requestId m budget (lot n + m) { budget with reservedBytes := budget.reservedBytes + n }
      ((reserveOutput c c₁).filterMap (entry requestId)) := by
  unfold reserveOutput
  by_cases hn : n = 0
  · subst hn
    simpa [hreserved] using Posts.quiet
  have hpos : 0 < n := Nat.pos_of_ne_zero hn
  have h : Posts requestId m budget (n ::ₘ m)
      { budget with reservedBytes := budget.reservedBytes + n } [.reserve requestId n] :=
    .reserve n (hwithin hn).1 (hwithin hn).2
  simpa [hreserved, hpos, entry, lot_of_ne_zero hn] using h

theorem covered_releaseOutput {n : ℕ} (hn : n ≤ c.resultChunkReservedBytes)
    (hc : c.resultChunkReservedBytes ≤ budget.reservedBytes) :
    ∀ o ∈ releaseOutput c budget n, o.Covered := by
  unfold releaseOutput
  split_ifs <;> simp [Output.Covered, hn, hn.trans hc]

/-! ## Receiving -/

section Receiving

variable {sha256 : Bytes → Digest} {decode : Bytes → Option WorkResult} {req req₁ : Request}
  {os : List Output} {c₁ : ResultCollector} {chunk : CheckedChunk} {r : Replacement} {t : Turn}
  {m : Multiset ℕ} {n bytes : ℕ} {budget₁ : ResultChunkBudget} {h : Handler}

theorem handlerLots_followUp {a : ChunkAnswer} (hopen : completedOf a = none) :
    handlerLots (followUp a) = 0 := by
  rcases a with e | ⟨status, _⟩
  · rfl
  · cases status with
    | complete => simp [completedOf] at hopen
    | buffered | duplicate | staleRetry => rfl

/-- A release by a collector that holds the bytes. -/
theorem settles_release {outputs : List Output} (os : List Output)
    (hm : m = lot n + req₁.outstanding) (hsum : c.resultChunkReservedBytes = m.sum)
    (hbudget : c.resultChunkReservedBytes ≤ budget.reservedBytes) (hbooks : Books req₁)
    (houtputs : outputs = releaseOutput c budget n ++ os := by simp)
    (hos : os.filterMap (entry req₁.requestId) = [] := by rfl)
    (hcovered : ∀ o ∈ os, o.Covered := by simp) :
    Settles m budget ⟨req₁, budget.release n, outputs⟩ := by
  have hn : n ≤ c.resultChunkReservedBytes := by
    rw [hsum, hm, Multiset.sum_add, sum_lot]
    exact Nat.le_add_right _ _
  subst houtputs
  refine ⟨?_, hbooks, fun o ho => ?_⟩
  · simp [hos]
    rw [hm]
    exact posts_releaseOutput _ n _
  · rcases mem_append.mp ho with ho | ho
    · exact covered_releaseOutput hn hbudget o ho
    · exact hcovered o ho

/-- A turn that touches no reservation. -/
theorem settles_quiet (hm : req₁.outstanding = m) (hbooks : Books req₁)
    (hos : ∀ o ∈ os, o.entry req₁.requestId = none ∧ o.Covered := by simp) :
    Settles m budget ⟨req₁, budget, os⟩ := by
  refine ⟨?_, hbooks, fun o ho => (hos o ho).2⟩
  have hnone : os.filterMap (entry req₁.requestId) = [] :=
    filterMap_eq_nil_iff.mpr fun o ho => (hos o ho).1
  rw [hm, hnone]
  exact .quiet

/-- The reservations that handlers and results have are the same. -/
theorem completedLots_congr (hhandlers : handlerLots req₁.handlers =
    handlerLots req.handlers) (hkept : req₁.kept = req.kept)
    (habandoned : req₁.abandoned = req.abandoned) : req₁.completedLots = req.completedLots := by
  simp [completedLots, hhandlers, hkept, habandoned]

@[simp] theorem reservationBytes_none : Replacement.none.reservationBytes = none := rfl

theorem settles_chunkTurn (chunk : ResultChunkV1)
    (hsum : c.resultChunkReservedBytes = (c.transferLots + req.completedLots).sum)
    (hlimit : Limited c) (hbudget : c.resultChunkReservedBytes ≤ budget.reservedBytes) :
    Settles (c.transferLots + req.completedLots) budget (req.chunkTurn budget chunk c) := by
  refine chunkTurn_rule ?_ ?_
  · intro a hopen
    have hsame : completedLots
        { req with hold := .pending c, handlers := req.handlers ++ followUp a } =
          req.completedLots :=
      completedLots_congr (by simp [handlerLots_followUp hopen]) rfl rfl
    refine settles_quiet ?_ ⟨?_, hlimit⟩
    · simp [outstanding, hsame]
    · rwa [hsame]
  · intro c₁ n checked r hbegins
    have hsame : completedLots { req with hold := .applying c₁ checked r } =
        req.completedLots := rfl
    cases hbegins with
    | fresh _ _ _ hnone =>
      refine settles_release [] ?_ hsum hbudget ⟨?_, hlimit, fun _ => hnone⟩
      · simp [outstanding, hsame]
      · simp [hsame, hsum]
    | continues =>
      refine settles_release [] ?_ hsum hbudget ⟨?_, hlimit, fun hne => absurd rfl hne⟩
      · simp [outstanding, hsame]
      · simp [hsame, hsum]
    | newDigest _ _ _ _ hp =>
      have hlots := transferLots_removeTransfer hp
      refine settles_release [] ?_ hsum hbudget ⟨?_, hlimit, fun hne => absurd rfl hne⟩
      · simp only [outstanding, hsame, getD_none, lot_zero, add_zero]
        rw [hlots, add_assoc]
        rfl
      · rw [hlots] at hsum
        simp [hsame, lot_zero, sum_lot, transferLots_unreserve] at hsum ⊢
        simp only [unreserve, removeTransfer] at hsum ⊢
        omega
    | newLayout _ p _ _ hp =>
      have hlots := transferLots_removeTransfer hp
      have hmoved : c.transferLots + req.completedLots =
          (c.removeTransfer checked.workItemId p).transferLots + lot p.reservationBytes +
            req.completedLots := by rw [hlots, add_comm (lot _)]
      refine settles_release [] ?_ hsum hbudget ⟨?_, hlimit, fun _ => by simp⟩
      · simp only [outstanding, hsame, getD_some, lot_zero, zero_add]
        exact hmoved
      · rwa [hsame, getD_some, ← hmoved]

/-- The second part of a chunk: the reservations it found, and one more if it made one,
are those of the transfers, of what it left behind and of what it completed. -/
structure Reserving (c : ResultCollector) (budget : ResultChunkBudget) (r : Replacement)
    (n : ℕ) (a : Applied) : Prop where
  lots : a.collector.transferLots + lot (a.abandoned.getD 0) + handlerLots (followUp a.answer) =
    c.transferLots + lot (r.reservationBytes.getD 0) + lot n
  reserved : a.collector.resultChunkReservedBytes = c.resultChunkReservedBytes + n
  limit : a.collector.resultChunkReservedLimit = c.resultChunkReservedLimit
  within : n ≠ 0 → c.resultChunkReservedBytes + n ≤ c.resultChunkReservedLimit ∧
    budget.reservedBytes + n ≤ budget.limit
  budget_eq : a.budget = { budget with reservedBytes := budget.reservedBytes + n }

/-- The bytes that a new transfer reserves itself. -/
theorem Reserves.exists_new {totalBytes : ℕ} {inherited : Option ℕ}
    (h : Reserves c budget totalBytes inherited c₁ budget₁ bytes) :
    ∃ n, lot bytes = lot (inherited.getD 0) + lot n ∧
      c₁ = { c with resultChunkReservedBytes := c.resultChunkReservedBytes + n } ∧
      budget₁ = { budget with reservedBytes := budget.reservedBytes + n } ∧
      (n ≠ 0 → c.resultChunkReservedBytes + n ≤ c.resultChunkReservedLimit ∧
        budget.reservedBytes + n ≤ budget.limit) := by
  cases h with
  | inherited => exact ⟨0, by simp, rfl, rfl, fun h => absurd rfl h⟩
  | reserved bytes _ hrequest hglobal =>
    exact ⟨bytes, by simp, rfl, rfl, fun _ => ⟨hrequest, hglobal⟩⟩

/-- A buffered chunk has its transfer in the collector with the reservations it found,
and one more if it made one. -/
theorem Buffers.exists_new {p : PartialResultTransfer} {m : ℕ}
    (h : Buffers c budget chunk r (.put c₁ budget₁ p m))
    (hcarried : r.reservationBytes ≠ none → c.transfer chunk.workItemId = none) :
    ∃ n, (c₁.putTransfer chunk.workItemId p m).transferLots =
        c.transferLots + lot (r.reservationBytes.getD 0) + lot n ∧
      c₁.resultChunkReservedBytes = c.resultChunkReservedBytes + n ∧
      c₁.resultChunkReservedLimit = c.resultChunkReservedLimit ∧
      (n ≠ 0 → c.resultChunkReservedBytes + n ≤ c.resultChunkReservedLimit ∧
        budget.reservedBytes + n ≤ budget.limit) ∧
      budget₁ = { budget with reservedBytes := budget.reservedBytes + n } := by
  cases h with
  | inserted _ hq =>
    have hnone : r.reservationBytes = none := by
      by_contra hne
      cases (hcarried hne).symm.trans hq
    refine ⟨0, ?_, rfl, rfl, fun h => absurd rfl h, rfl⟩
    rw [transferLots_putTransfer_of_some hq (by rfl), hnone]
    simp
  | started _ _ bytes hnone hreserves =>
    have hfree := hreserves.transfer chunk.workItemId
    obtain ⟨n, hlots, rfl, rfl, hwithin⟩ := hreserves.exists_new
    refine ⟨n, ?_, rfl, rfl, hwithin, rfl⟩
    rw [transferLots_putTransfer_of_none (hfree.trans hnone)]
    change lot bytes + c.transferLots = _
    rw [hlots, add_comm, add_assoc]

theorem reserving_insertChunk (sha256 : Bytes → Digest) (budget : ResultChunkBudget)
    (hcarried : r.reservationBytes ≠ none → c.transfer chunk.workItemId = none) :
    ∃ n, Reserving c budget r n (insertChunk sha256 c budget chunk r) := by
  refine insertChunk_rule (P := fun a => ∃ n, Reserving c budget r n a) ?_ ?_
  · intro a hstop
    cases hstop with
    | refused _ hopen hnew =>
      have hnone : r.reservationBytes = none := by
        by_contra hne
        exact hne (hnew (hcarried hne))
      exact ⟨0, by simp [handlerLots_followUp hopen, hnone], rfl, rfl, fun h => absurd rfl h, rfl⟩
    | dropped _ _ bytes _ hreserves =>
      obtain ⟨n, hlots, rfl, rfl, hwithin⟩ := hreserves.exists_new
      refine ⟨n, ?_, rfl, rfl, hwithin, rfl⟩
      change c.transferLots + lot bytes + 0 = _
      rw [hlots, add_zero, add_assoc]
  · intro c₁ _ p m a hput hfinishes
    obtain ⟨n, hlots, hreserved, hlimit, hwithin, hbudget⟩ := hput.exists_new hcarried
    have hremoved : (c₁.putTransfer chunk.workItemId p m).transferLots =
        lot p.reservationBytes + ((c₁.putTransfer chunk.workItemId p m).removeTransfer
          chunk.workItemId p).transferLots := transferLots_removeTransfer (by simp)
    refine ⟨n, ?_, ?_, ?_, hwithin, ?_⟩
    · rw [← hlots]
      cases hfinishes with
      | waits => exact (add_zero _).trans (add_zero _)
      | mismatch =>
        change _ + lot p.reservationBytes + 0 = _
        rw [hremoved, add_zero, add_comm]
      | completes =>
        change _ + 0 + (lot p.reservationBytes + 0) = _
        rw [hremoved, add_zero, add_zero, add_comm]
    · cases hfinishes <;> exact hreserved
    · cases hfinishes <;> exact hlimit
    · cases hfinishes <;> exact hbudget

theorem settles_resumeTurn (hsum : c.resultChunkReservedBytes =
      (c.transferLots + lot (r.reservationBytes.getD 0) + req.completedLots).sum)
    (hlimit : Limited c)
    (hcarried : r.reservationBytes ≠ none → c.transfer chunk.workItemId = none) :
    Settles (c.transferLots + lot (r.reservationBytes.getD 0) + req.completedLots) budget
      (req.resumeTurn budget sha256 c chunk r) := by
  obtain ⟨n, hreserving⟩ := reserving_insertChunk sha256 budget hcarried
  unfold resumeTurn
  generalize insertChunk sha256 c budget chunk r = a at hreserving
  obtain ⟨hlots, hreserved, hlim, hwithin, hbudget⟩ := hreserving
  -- the reservations afterwards are those before and the new one
  have hout : a.collector.transferLots + completedLots { req with
        handlers := req.handlers ++ followUp a.answer
        abandoned := req.abandoned + lot (a.abandoned.getD 0) } =
      lot n + (c.transferLots + lot (r.reservationBytes.getD 0) + req.completedLots) := by
    calc _ = a.collector.transferLots + lot (a.abandoned.getD 0) +
          handlerLots (followUp a.answer) + req.completedLots := by
            simp only [completedLots, handlerLots_append]
            abel
      _ = _ := by
            rw [hlots]
            abel
  refine ⟨?_, ⟨?_, hlim.trans hlimit⟩, ?_⟩
  · have hposts := posts_reserveOutput req.requestId hreserved fun hn => by
      rw [← hsum, ← hlimit]
      exact hwithin hn
    rwa [← hout, ← hbudget] at hposts
  · refine Eq.trans ?_ (congrArg Multiset.sum hout.symm)
    rw [hreserved, hsum, Multiset.sum_add (lot n), sum_lot, add_comm]
  · simp only [reserveOutput]
    split_ifs <;> simp [Output.Covered]

/-- A stored result keeps its reservation and gives back that of the fragments it
outran; a refused one gives its own back. -/
theorem Stores.lots {result : WorkResult} {outcome : StoreResultOutcome}
    (h : Stores c result bytes c₁ n outcome) :
    c.transferLots + lot bytes =
        lot n + (c₁.transferLots + lot (if outcome = .stored then bytes else 0)) ∧
      c₁.resultChunkReservedBytes = c.resultChunkReservedBytes - n := by
  cases h with
  | refused _ hrefused =>
    refine ⟨?_, rfl⟩
    cases hrefused <;> simp [add_comm]
  | stored => exact ⟨by simp [transferLots, putResult], rfl⟩
  | outran _ _ _ _ hp =>
    refine ⟨?_, rfl⟩
    rw [transferLots_removeTransfer hp, add_assoc]
    rfl

theorem settles_storeTurn (result : WorkResult) (bytes : ℕ)
    (hsum : c.resultChunkReservedBytes = (c.transferLots + (lot bytes + req.completedLots)).sum)
    (hlimit : Limited c) (hbudget : c.resultChunkReservedBytes ≤ budget.reservedBytes) :
    Settles (c.transferLots + (lot bytes + req.completedLots)) budget
      (req.storeTurn budget result bytes c) := by
  refine storeTurn_rule ?_
  intro c₁ n outcome hstores
  have hfinish : handlerLots (if c₁.allDone then [.finish] else []) = 0 := by
    split_ifs <;> rfl
  -- what handlers and results hold afterwards
  have hlots : completedLots
      { req with
        hold := .pending c₁
        handlers := req.handlers ++ (if c₁.allDone then [.finish] else [])
        kept := req.kept + lot (if outcome = .stored then bytes else 0) } =
      lot (if outcome = .stored then bytes else 0) + req.completedLots := by
    simp only [completedLots, handlerLots_append, hfinish]
    abel
  obtain ⟨hstored, hreserved⟩ := hstores.lots
  have hmoved : c.transferLots + (lot bytes + req.completedLots) = lot n + (c₁.transferLots +
      (lot (if outcome = .stored then bytes else 0) + req.completedLots)) := by
    rw [← add_assoc, hstored]
    abel
  refine settles_release _ ?_ hsum hbudget ⟨?_, ?_⟩ rfl ?_ ?_
  · simp only [outstanding, hlots]
    exact hmoved
  · rw [hlots, hreserved, hsum, hmoved, Multiset.sum_add (lot n), sum_lot]
    exact Nat.add_sub_cancel_left _ _
  · cases hstores <;> exact hlimit
  · split_ifs <;> rfl
  · split_ifs <;> simp [Output.Covered]

/-! ## All steps of a request -/

section

variable (hbooks : Books req)
include hbooks

/-- Only the tasks of a request change. -/
theorem settles_same (hhold : req₁.hold = req.hold) (hlots : req₁.completedLots = req.completedLots)
    (hos : ∀ o ∈ os, o.entry req₁.requestId = none ∧ o.Covered := by simp) :
    Settles req.outstanding budget ⟨req₁, budget, os⟩ := by
  refine settles_quiet ?_ ?_ hos
  · simp [outstanding, hhold, hlots]
  · simpa [Books, hhold, hlots] using hbooks

/-- The collector is taken out of the map. -/
theorem settles_removed (hhold : req.hold = .pending c)
    (hhold₁ : req₁.hold = .removed c) (hlots : req₁.completedLots = req.completedLots)
    (hos : ∀ o ∈ os, o.entry req₁.requestId = none ∧ o.Covered := by simp) :
    Settles req.outstanding budget ⟨req₁, budget, os⟩ := by
  refine settles_quiet ?_ ?_ hos
  · simp [outstanding, hhold, hhold₁, hlots]
  · simp only [Books, hhold] at hbooks
    simp only [Books, hhold₁, hlots]
    exact hbooks.1

/-- Only what the collector keeps for the fallback changes. -/
theorem settles_fallback (hhold : req.hold = .pending c) (hhold₁ : req₁.hold = .pending c₁)
    (htransfers : c₁.resultChunkTransfers = c.resultChunkTransfers)
    (hreserved : c₁.resultChunkReservedBytes = c.resultChunkReservedBytes)
    (hlimit : c₁.resultChunkReservedLimit = c.resultChunkReservedLimit)
    (hlots : req₁.completedLots = req.completedLots) :
    Settles req.outstanding budget ⟨req₁, budget, []⟩ := by
  refine settles_quiet ?_ ?_
  · simp [outstanding, hhold, hhold₁, hlots, transferLots, htransfers]
  · simp only [Books, hhold] at hbooks
    simp only [Books, hhold₁, hlots, transferLots, htransfers, hreserved, Limited, hlimit]
    exact hbooks

theorem settles_handlerTurn (hbudget : req.reservedBytes ≤ budget.reservedBytes)
    (hhold : req₁.hold = req.hold) (hlots : req.completedLots = h.lots + req₁.completedLots)
    (hstep : req₁.handlerTurn budget decode h = some t) : Settles req.outstanding budget t := by
  cases h with
  | decode completed =>
    simp only [handlerTurn] at hstep
    split at hstep
    · cases hstep
      refine settles_same hbooks hhold ?_
      rw [hlots]
      simp only [completedLots, handlerLots_append, Handler.lots]
      simp [handlerLots, Handler.lots]
      abel
    rename_i result _
    refine locked_rule hstep (fun _ => ?_) fun c hc => ?_
    · refine settles_same hbooks hhold ?_
      rw [hlots]
      simp only [completedLots, Handler.lots]
      abel
    rw [hhold] at hc
    simp only [Books, reservedBytes, hc, hlots] at hbooks hbudget
    simp only [outstanding, hc, hlots]
    exact settles_storeTurn result completed.reservationBytes hbooks.1 hbooks.2 hbudget
  | fail =>
    have hsame : req₁.completedLots = req.completedLots := by rw [hlots]; exact (zero_add _).symm
    exact locked_rule hstep (fun _ => settles_same hbooks hhold hsame) fun c hc =>
      settles_removed hbooks (hhold.symm.trans hc) rfl hsame (by simp [entry, Output.Covered])
  | finish =>
    have hsame : req₁.completedLots = req.completedLots := by rw [hlots]; exact (zero_add _).symm
    refine locked_rule hstep (fun _ => settles_same hbooks hhold hsame) fun c hc => ?_
    refine settles_removed hbooks (hhold.symm.trans hc) rfl hsame ?_
    split <;> simp [entry, Output.Covered]

theorem settles_onlyPublishes (hhold : req₁.hold = req.hold)
    (hlots : req₁.completedLots = req.completedLots) (h : OnlyPublishes req₁ budget t) :
    Settles req.outstanding budget t := by
  obtain ⟨-, -, hhold₂, hhandlers, hkept, habandoned, -, rfl, hos⟩ := h
  refine settles_same hbooks (hhold₂.trans hhold) ?_ fun o ho => ?_
  · exact (completedLots_congr (by rw [hhandlers]) hkept habandoned).trans hlots
  · obtain rfl := hos o ho
    exact ⟨rfl, trivial⟩

end

theorem settles_publisherTurn {p : Publisher} (hbooks : Books req) (hhold : req₁.hold = req.hold)
    (hlots : req₁.completedLots = req.completedLots)
    (hstep : req₁.publisherTurn budget p = some t) : Settles req.outstanding budget t := by
  have hgoOn : ∀ next, Settles req.outstanding budget (req₁.goOn budget next) := fun _ =>
    settles_onlyPublishes hbooks hhold hlots (onlyPublishes_goOn _)
  unfold publisherTurn at hstep
  split at hstep
  · cases hstep
    refine settles_onlyPublishes hbooks hhold hlots ?_
    split_ifs
    · exact onlyPublishes_fallbackFails _
    · exact onlyPublishes_goOn _
  · exact locked_rule hstep (fun _ => hgoOn _) fun c hc =>
      settles_fallback hbooks (hhold.symm.trans hc) rfl rfl rfl rfl hlots
  · refine locked_rule hstep (fun _ => hgoOn _) fun c hc => ?_
    refine settles_fallback hbooks (hhold.symm.trans hc) rfl ?_ ?_ ?_ hlots
    all_goals
      unfold cacheDirectFallbackPayloads
      split_ifs <;> rfl
  · exact locked_rule hstep (fun _ => hgoOn _) fun c hc =>
      settles_removed hbooks (hhold.symm.trans hc) rfl hlots
  · simp at hstep

theorem settles_republishTurn (hbooks : Books req) (hhold : req.hold = .pending c) :
    Settles req.outstanding budget (req.republishTurn budget c) := by
  unfold republishTurn
  split
  · exact settles_same hbooks rfl rfl
  next c₁ _ _ _ htake =>
    obtain ⟨-, rfl⟩ := takeDirectFallbackPayloads_eq_some htake
    exact settles_fallback hbooks hhold rfl rfl rfl rfl rfl

theorem settles_dropTurn (hbooks : Books req) (hhold : req.hold = .removed c)
    (hbudget : req.reservedBytes ≤ budget.reservedBytes) :
    Settles req.outstanding budget (req.dropTurn budget c) := by
  have hsum := hbooks.reservedBytes_eq
  simp only [reservedBytes, hhold] at hsum hbudget
  refine ⟨?_, trivial, ?_⟩
  · simp [dropTurn, hsum, entry]
    exact .close
  · intro o ho
    obtain rfl := mem_singleton.mp ho
    exact hbudget

theorem settles_step {e : RequestEvent} (hbooks : Books req)
    (hbudget : req.reservedBytes ≤ budget.reservedBytes)
    (hstep : req.step sha256 decode budget e = some t) : Settles req.outstanding budget t := by
  have hsame : Settles req.outstanding budget ⟨req, budget, []⟩ :=
    settles_same hbooks rfl rfl
  cases e with
  | chunk chunk =>
    refine locked_rule hstep (fun _ => hsame) fun c hhold => ?_
    simp only [Books, reservedBytes, hhold] at hbooks hbudget
    simp only [outstanding, hhold]
    exact settles_chunkTurn chunk hbooks.1 hbooks.2 hbudget
  | resume =>
    simp only [step] at hstep
    split at hstep
    next c chunk r hhold =>
      cases hstep
      simp only [Books, hhold] at hbooks
      simp only [outstanding, hhold]
      exact settles_resumeTurn hbooks.1 hbooks.2.1 hbooks.2.2
    · simp at hstep
  | result result =>
    refine locked_rule hstep (fun _ => hsame) fun c hhold => ?_
    simp only [Books, reservedBytes, hhold] at hbooks hbudget
    simp only [outstanding, hhold]
    rw [← zero_add req.completedLots, ← lot_zero] at hbooks ⊢
    exact settles_storeTurn result 0 hbooks.1 hbooks.2 hbudget
  | handler =>
    obtain ⟨h, hn, hturn⟩ := bind_eq_some_iff.mp hstep
    exact settles_handlerTurn hbooks hbudget (by rfl)
        (by simp [completedLots, handlerLots_eraseIdx hn, add_assoc]) hturn
  | republish =>
    exact locked_rule hstep (fun _ => hsame) fun c hhold => settles_republishTurn hbooks hhold
  | publisher =>
    obtain ⟨p, hn, hturn⟩ := bind_eq_some_iff.mp hstep
    exact settles_publisherTurn hbooks (by rfl) (by rfl) hturn
  | news =>
    obtain ⟨p, hn, hturn⟩ := bind_eq_some_iff.mp hstep
    exact settles_onlyPublishes hbooks (by rfl) (by rfl) (onlyPublishes_newsTurn hturn)
  | remove =>
    exact locked_rule hstep (fun _ => hsame) fun c hhold =>
      settles_removed hbooks hhold rfl rfl
  | drop =>
    simp only [step] at hstep
    split at hstep
    next c hhold =>
      cases hstep
      exact settles_dropTurn hbooks hhold hbudget
    · simp at hstep

end Receiving

/-! ## The ledger of all requests -/

/-- The entries that outputs are. -/
def entriesOf (os : List (String × Output)) : List (Entry String) :=
  os.filterMap fun o => o.2.entry o.1

namespace PendingResults

/-- The requests there have been. -/
def ids (g : PendingResults) : Finset String := g.requests.keys.toFinset

/-- The counter of a request's collector, if that is alive. -/
def reservedBytes (g : PendingResults) (requestId : String) : ℕ :=
  (g.requests.lookup requestId).elim 0 Request.reservedBytes

/-- The reservations of a request. -/
def outstanding (g : PendingResults) (requestId : String) : Multiset ℕ :=
  (g.requests.lookup requestId).elim 0 Request.outstanding

end PendingResults

/-- The counters are those of a ledger, and the books of all requests are right. -/
structure Refines (g : PendingResults) (l : Ledger String) : Prop where
  limit : l.limit = g.budget.limit
  cap : l.cap = maxResultChunkReservedBytesPerRequest
  balance : l.balance = g.budget.reservedBytes
  held : l.held = g.outstanding
  books : ∀ id req, g.requests.lookup id = some req → Books req ∧ req.requestId = id

theorem Posts.ledger {requestId : String} {m m₁ : Multiset ℕ} {budget budget₁ : ResultChunkBudget}
    {es : List (Entry String)} {l : Ledger String} (h : Posts requestId m budget m₁ budget₁ es)
    (hheld : l.held requestId = m) (hbalance : l.balance = budget.reservedBytes)
    (hlimit : l.limit = budget.limit) (hcap : l.cap = maxResultChunkReservedBytesPerRequest) :
    l.posts es = some { l with
      balance := budget₁.reservedBytes
      held := Function.update l.held requestId m₁ } ∧ budget₁.limit = budget.limit := by
  subst hheld
  cases h with
  | quiet => exact ⟨by rw [← hbalance, Function.update_eq_self]; rfl, rfl⟩
  | reserve _ hcap' hlimit' =>
    refine ⟨?_, rfl⟩
    rw [posts_singleton, post, if_pos (by rw [hcap, hlimit, hbalance]; exact
      ⟨hcap', hlimit'⟩), hbalance]
  | release _ hmem =>
    refine ⟨?_, rfl⟩
    rw [posts_singleton, post, if_pos hmem, hbalance]
    rw [reservedBytes_release]
  | close =>
    refine ⟨?_, rfl⟩
    rw [posts_singleton, post, if_pos rfl, hbalance, reservedBytes_release]

section Run

variable {sha256 : Bytes → Digest} {decode : Bytes → Option WorkResult} {g g₁ : PendingResults}
  {os : List (String × Output)} {requestId : String} {l : Ledger String}

theorem outstanding_insert (g : PendingResults) (budget : ResultChunkBudget) (requestId : String)
    (req : Request) :
    PendingResults.outstanding ⟨budget, g.requests.insert requestId req⟩ =
      Function.update g.outstanding requestId req.outstanding := by
  ext1 id
  unfold PendingResults.outstanding
  by_cases hid : id = requestId
  · subst hid
    simp
  · rw [Function.update_of_ne hid, AList.lookup_insert_ne hid]

theorem mem_ids {id : String} : id ∈ g.ids ↔ ∃ req, g.requests.lookup id = some req := by
  rw [← isSome_iff_exists, AList.lookup_isSome]
  exact mem_toFinset

theorem ids_insert (g : PendingResults) (budget : ResultChunkBudget) (requestId : String)
    (req : Request) :
    PendingResults.ids ⟨budget, g.requests.insert requestId req⟩ = insert requestId g.ids := by
  ext id
  by_cases hid : id = requestId
  · subst hid
    simp [mem_ids]
  · simp [mem_ids, hid, AList.lookup_insert_ne hid]

/-- The books of all requests after one of them changed. -/
theorem Refines.books_insert {req : Request} (h : Refines g l)
    (hreq : Books req ∧ req.requestId = requestId) (id : String) (req₁ : Request)
    (hid : (g.requests.insert requestId req).lookup id = some req₁) :
    Books req₁ ∧ req₁.requestId = id := by
  by_cases heq : id = requestId
  · subst heq
    rw [AList.lookup_insert] at hid
    cases hid
    exact hreq
  · rw [AList.lookup_insert_ne heq] at hid
    exact h.books id req₁ hid

/-- **The gateway refines the ledger.**  What a step does to the budget are entries that
can be posted. -/
theorem Refines.moves (h : Refines g l) (hsound : l.Sound g.ids)
    (hmoves : Moves sha256 decode g g₁ os) :
    ∃ l₁, l.posts (entriesOf os) = some l₁ ∧ Refines g₁ l₁ ∧ l₁.Sound g₁.ids ∧
      ∀ o ∈ os, o.2.Covered := by
  cases hmoves with
  | added requestId _ _ _ hnew =>
    refine ⟨l, rfl, ⟨h.limit, h.cap, h.balance, ?_, h.books_insert ⟨⟨rfl, rfl⟩, rfl⟩⟩, ?_, by simp⟩
    · have hzero : g.outstanding requestId = 0 := by simp [PendingResults.outstanding, hnew]
      rw [outstanding_insert, h.held, Function.update_eq_self_iff.mpr]
      exact hzero.symm
    · rw [ids_insert]
      exact hsound.mono (Finset.subset_insert _ _)
  | unknown => exact ⟨l, rfl, h, hsound, by simp⟩
  | stepped requestId req e t hreq _ hstep =>
    obtain ⟨hbooks, rfl⟩ := h.books requestId req hreq
    have hheld : l.held req.requestId = req.outstanding := by
      simp [h.held, PendingResults.outstanding, hreq]
    have hbudget : req.reservedBytes ≤ g.budget.reservedBytes := by
      rw [hbooks.reservedBytes_eq, ← hheld, ← h.balance]
      exact hsound.le_balance req.requestId
    have hsettles := settles_step hbooks hbudget hstep
    have hsame := (sameRequest_step hstep).1
    have hmem : req.requestId ∈ g.ids := mem_ids.mpr ⟨req, hreq⟩
    have hentries : entriesOf (t.outputs.map fun o => (req.requestId, o)) =
        t.outputs.filterMap (entry t.request.requestId) := by
      simp [entriesOf, filterMap_map, hsame]
    have hposts := hsettles.posts
    rw [hsame] at hposts
    obtain ⟨hpost, hlimit⟩ := hposts.ledger hheld h.balance h.limit h.cap
    rw [hentries, hsame]
    refine ⟨_, hpost, ⟨?_, h.cap, rfl, ?_, h.books_insert ⟨hsettles.books, hsame⟩⟩, ?_, ?_⟩
    · exact h.limit.trans hlimit.symm
    · rw [outstanding_insert, h.held]
    · rw [ids_insert, Finset.insert_eq_of_mem hmem]
      refine hsound.posts (fun e he => ?_) hpost
      obtain ⟨o, -, ho⟩ := mem_filterMap.mp he
      cases o <;> simp only [entry, some.injEq, reduceCtorEq] at ho <;> subst ho <;> exact hmem
    · intro o ho
      obtain ⟨o₁, ho₁, rfl⟩ := mem_map.mp ho
      exact hsettles.covered o₁ ho₁

/-- The outputs of every run are a list of entries that can be posted. -/
theorem posts_run {limit : ℕ} {es : List ResultsEvent}
    (h : runs (PendingResults.step sha256 decode) (.new limit) es = some (g, os)) :
    ∃ l, (new limit maxResultChunkReservedBytesPerRequest).posts (entriesOf os) = some l ∧
      Refines g l ∧ l.Sound g.ids ∧ ∀ o ∈ os, o.2.Covered := by
  refine runs_induction (fun _ os g => ∃ l,
    (new limit maxResultChunkReservedBytesPerRequest).posts (entriesOf os) = some l ∧
      Refines g l ∧ l.Sound g.ids ∧ ∀ o ∈ os, o.2.Covered) ?_ ?_ es os g h
  · exact ⟨_, rfl, ⟨rfl, rfl, rfl, rfl, by simp [PendingResults.new]⟩, sound_new _ _,
      by simp⟩
  · rintro _ os g e g₁ _ _ ⟨l, hposts, hrefines, hsound, hcovered⟩ hstep
    obtain ⟨l₁, hposts₁, hrefines₁, hsound₁, hcovered₁⟩ :=
      hrefines.moves hsound (moves_of_step hstep)
    refine ⟨l₁, ?_, hrefines₁, hsound₁, fun o ho => ?_⟩
    · rw [entriesOf, filterMap_append]
      exact posts_append_eq_some.mpr ⟨l, hposts, hposts₁⟩
    · rcases mem_append.mp ho with ho | ho
      · exact hcovered o ho
      · exact hcovered₁ o ho

/-- **Reserved bytes are accounted for.**  In every run of any number of requests:

* the budget's counter is the sum of the counters of the live collectors, and within the
  limit;
* the counter of a collector is the sum of the reservations of its transfers, of the
  completed transfers on their way to be stored and those of stored results, and of the
  transfers that an error path left, and is within the limit of a request;
* no release takes more than the request or the budget has reserved, and every
  reservation is given back once: by its release, or with what the collector had when it
  was dropped, or it is still outstanding;
* the budget's counter is zero once all collectors are dropped. -/
theorem resultChunk_accounting (sha256 : Bytes → Digest) (decode : Bytes → Option WorkResult)
    (limit : ℕ) (es : List ResultsEvent) (g : PendingResults) (os : List (String × Output))
    (h : runs (PendingResults.step sha256 decode) (.new limit) es = some (g, os)) :
    (g.budget.reservedBytes = ∑ id ∈ g.ids, g.reservedBytes id ∧ g.budget.reservedBytes ≤ limit) ∧
      (∀ id req c, g.requests.lookup id = some req → req.hold = .pending c →
        c.resultChunkReservedBytes = (c.transferLots + (handlerLots req.handlers + req.kept +
          req.abandoned)).sum) ∧
      (∀ id, g.reservedBytes id ≤ maxResultChunkReservedBytesPerRequest) ∧ (∀ o ∈ os, o.2.Covered) ∧
      (∀ id, ∃ closed, reservations id (entriesOf os) =
          releases id (entriesOf os) + closed + g.outstanding id ∧
        closed.sum = closings id (entriesOf os)) ∧
      ((∀ id req, g.requests.lookup id = some req → req.hold = .dropped) →
        g.budget.reservedBytes = 0) := by
  obtain ⟨l, hposts, hrefines, hsound, hcovered⟩ := posts_run h
  have hreserved : ∀ id, g.reservedBytes id = (l.held id).sum := by
    intro id
    rw [hrefines.held]
    unfold PendingResults.reservedBytes PendingResults.outstanding
    cases hreq : g.requests.lookup id with
    | none => rfl
    | some req => exact (hrefines.books id req hreq).1.reservedBytes_eq
  have hbudget : g.budget.reservedBytes = ∑ id ∈ g.ids, g.reservedBytes id := by
    rw [← hrefines.balance, hsound.balance_eq]
    exact Finset.sum_congr rfl fun id _ => (hreserved id).symm
  refine ⟨⟨hbudget, ?_⟩, ?_, ?_, hcovered, ?_, ?_⟩
  · rw [← hrefines.balance]
    exact hsound.balance_le.trans (limit_of_posts hposts).le
  · intro id req c hreq hhold
    have hbooks := (hrefines.books id req hreq).1
    simp only [Books, hhold] at hbooks
    exact hbooks.1
  · intro id
    rw [hreserved, ← hrefines.cap]
    exact hsound.held_le id
  · intro id
    rw [← hrefines.held]
    exact posts_conserve hposts
  · intro hdropped
    rw [hbudget]
    refine Finset.sum_eq_zero fun id hid => ?_
    obtain ⟨req, hreq⟩ := mem_ids.mp hid
    simp [PendingResults.reservedBytes, hreq, Request.reservedBytes, hdropped id req hreq]

end Run

namespace TwoRequests

/-- A chunk of a transfer of the only item of a request. -/
def chunk (requestId : String) (bytes : Bytes) (chunkCount chunkIndex : ℕ) (payload : Bytes) :
    ResultChunkV1 where
  kind := resultChunkKind
  workItemId := requestId ++ ".0"
  requestId := requestId
  itemIndex := 0
  transferDigest := (padded bytes).1
  chunkIndex := chunkIndex
  chunkCount := chunkCount
  totalBytes := bytes.length
  payload := payload

/-- A stand-in for the decoder: the bytes are the payload. -/
def decode (bytes : Bytes) : Option WorkResult :=
  some ⟨"b.0", "b", 0, true, bytes, none, none, false⟩

/-- Request `a` is retried in the middle of a transfer and then given up; between the two
parts of its retry, request `b` reserves, is answered and is dropped. -/
def events : List ResultsEvent :=
  [.publishWork "a" [[1]] none none, .publishWork "b" [[2]] none none,
    .request "a" (.chunk (chunk "a" [1, 2, 3] 2 1 [2, 3])), .request "a" .resume,
    .request "a" (.chunk (chunk "a" [1, 7, 8] 2 0 [1, 7])),
    .request "b" (.chunk (chunk "b" [5, 6] 1 0 [5, 6])), .request "b" .resume,
    .request "a" .resume, .request "b" (.handler 0), .request "b" (.handler 0),
    .request "b" .drop, .request "a" .remove, .request "a" .drop]

theorem goes :
    (runs (PendingResults.step padded decode) (.new maxResultChunkReservedBytesGlobal)
      events).isSome = true := by
  decide +kernel

def after : PendingResults × List (String × Output) := reached _ _ _ goes

/-- Request `a` reserved twice and released once, the rest was dropped with it. -/
theorem resultChunk_accounting_twoRequests :
    reservations "a" (entriesOf after.2) = {4105, 4105} ∧
      releases "a" (entriesOf after.2) = {4105} ∧ after.1.budget.reservedBytes = 0 := by
  have haccounting := resultChunk_accounting padded decode _ events after.1 after.2
    (runs_eq_reached goes)
  refine ⟨by decide +kernel, by decide +kernel, ?_⟩
  rw [haccounting.1.1]
  decide +kernel

end TwoRequests

end Sie.Gateway
