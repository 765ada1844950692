import Sie.Gateway.ResultCollector

/-!
# What one operation does to a collector

One specification for each operation of the collector, as a relation with one case for
each thing that can happen: `Begins` for the checks of a chunk and the arbitration
between retries, `Buffers` and `Finishes` for the rest of it, `Stores` for a whole
result.  Everything later is proved from these.
-/

namespace Sie.Gateway

open Sie.Lib Sie.Wire ResultCollector

variable {sha256 : Bytes → Digest} {c : ResultCollector} {budget : ResultChunkBudget}

/-- The transfer that an answer completes. -/
def completedOf : ChunkAnswer → Option CompletedResultTransfer
  | .ok ⟨.complete completed, _⟩ => some completed
  | _ => none

/-! ## The collector's transfers -/

section Transfers

variable (c) (workItemId id : String) (p : PartialResultTransfer) (n : ℕ)

@[simp] theorem transfer_putTransfer :
    (c.putTransfer workItemId p n).transfer id =
      if id = workItemId then some p else c.transfer id := by
  unfold transfer putTransfer
  by_cases h : id = workItemId
  · subst h
    simp
  · rw [if_neg h]
    exact AList.lookup_insert_ne h

@[simp] theorem transfer_removeTransfer :
    (c.removeTransfer workItemId p).transfer id =
      if id = workItemId then none else c.transfer id := by
  unfold transfer removeTransfer
  by_cases h : id = workItemId
  · subst h
    simp
  · rw [if_neg h]
    exact AList.lookup_erase_ne h

@[simp] theorem transfer_putResult (result : WorkResult) :
    (c.putResult result).transfer id = c.transfer id := rfl

@[simp] theorem transfer_unreserve : (c.unreserve n).transfer id = c.transfer id := rfl

end Transfers

variable {c₁ : ResultCollector} {n bytes : ℕ} {p : PartialResultTransfer}
  {budget₁ : ResultChunkBudget} {chunk : ResultChunkV1} {checked : CheckedChunk} {id : String}
  {totalBytes : ℕ} {inherited : Option ℕ}

/-! ## Specifications -/

/-- What the first part of a chunk can do. -/
inductive Begins (c : ResultCollector) (chunk : ResultChunkV1) :
    ResultCollector → ℕ → Begun → Prop
  /-- It is answered and changes nothing. -/
  | answers (a : ChunkAnswer) (hopen : completedOf a = none) : Begins c chunk c 0 (.answer a)
  /-- It is the first of its item. -/
  | fresh (checked : CheckedChunk) (hcheck : checkChunk c chunk = .ok checked)
      (hfree : c.answered chunk.itemIndex = false) (hnone : c.transfer checked.workItemId = none) :
      Begins c chunk c 0 (.proceed checked .none)
  /-- It belongs to the transfer under way. -/
  | continues (checked : CheckedChunk) (p : PartialResultTransfer)
      (hcheck : checkChunk c chunk = .ok checked) (hfree : c.answered chunk.itemIndex = false)
      (hp : c.transfer checked.workItemId = some p) (hdigest : p.transferDigest = checked.digest)
      (htotal : p.totalBytes = checked.totalBytes) (hcount : p.chunkCount = checked.chunkCount) :
      Begins c chunk c 0 (.proceed checked .none)
  /-- It starts a retry under another digest. -/
  | newDigest (checked : CheckedChunk) (p : PartialResultTransfer)
      (hcheck : checkChunk c chunk = .ok checked) (hfree : c.answered chunk.itemIndex = false)
      (hp : c.transfer checked.workItemId = some p) (hdigest : p.transferDigest ≠ checked.digest)
      (hnew : checked.digest ∉ p.retiredDigests) :
      Begins c chunk
        ((c.removeTransfer checked.workItemId p).unreserve p.reservationBytes) p.reservationBytes
        (.proceed checked
          { retiredDigests := retire maxRetiredResultChunkDigests p.retiredDigests p.transferDigest
            retiredChunkCounts := [], reservationBytes := none, retryReplaced := true })
  /-- It starts a retry with another chunk count. -/
  | newLayout (checked : CheckedChunk) (p : PartialResultTransfer)
      (hcheck : checkChunk c chunk = .ok checked) (hfree : c.answered chunk.itemIndex = false)
      (hp : c.transfer checked.workItemId = some p) (hdigest : p.transferDigest = checked.digest)
      (htotal : p.totalBytes = checked.totalBytes) (hcount : p.chunkCount ≠ checked.chunkCount)
      (hnew : checked.chunkCount ∉ p.retiredChunkCounts) :
      Begins c chunk (c.removeTransfer checked.workItemId p) 0
        (.proceed checked
          { retiredDigests := p.retiredDigests
            retiredChunkCounts :=
              retire maxRetiredResultChunkLayouts p.retiredChunkCounts p.chunkCount
            reservationBytes := some p.reservationBytes, retryReplaced := true })

/-- A checked chunk is the chunk it was made from. -/
theorem checkChunk_eq_ok (h : checkChunk c chunk = .ok checked) :
    checked.toResultChunkV1 = chunk ∧ chunk.kind = resultChunkKind ∧
      chunk.itemIndex < c.results.length ∧
      chunk.workItemId = canonicalWorkItemId chunk.requestId chunk.itemIndex ∧
      chunk.totalBytes ≤ maxResultChunkItemBytes := by
  unfold checkChunk at h
  split_ifs at h with hkind hempty hitem hdigest hcount hindex htotal hpayload
  obtain rfl := Except.ok.inj h
  simp at hkind hitem htotal
  exact ⟨rfl, hkind, hitem.1, hitem.2, htotal.2⟩

theorem begins_beginChunk (c : ResultCollector) (chunk : ResultChunkV1) :
    Begins c chunk (beginChunk c chunk).1 (beginChunk c chunk).2.1 (beginChunk c chunk).2.2 := by
  unfold beginChunk
  cases hcheck : checkChunk c chunk with
  | error => exact .answers _ rfl
  | ok checked =>
    by_cases hfree : c.answered chunk.itemIndex = true
    · simp only [hfree, if_true]
      exact .answers _ rfl
    have hfree' : c.answered chunk.itemIndex = false := by simpa using hfree
    simp only [hfree', Bool.false_eq_true, if_false, arbitrate]
    cases hp : c.transfer checked.workItemId with
    | none => exact .fresh checked hcheck hfree' hp
    | some p =>
      by_cases hdigest : p.transferDigest = checked.digest
      · by_cases htotal : p.totalBytes = checked.totalBytes
        · by_cases hcount : p.chunkCount = checked.chunkCount
          · simp [hdigest, htotal, hcount]
            exact .continues checked p hcheck hfree' hp hdigest htotal hcount
          by_cases hold : checked.chunkCount ∈ p.retiredChunkCounts
          · simp [hdigest, htotal, hcount, hold]
            exact .answers _ rfl
          by_cases hzero : checked.chunkIndex = 0
          · simp [hdigest, htotal, hcount, hold, hzero]
            exact .newLayout checked p hcheck hfree' hp hdigest htotal hcount hold
          · simp [hdigest, htotal, hcount, hold, hzero]
            exact .answers _ rfl
        · simp [hdigest, htotal]
          exact .answers _ rfl
      · by_cases hstale : checked.chunkIndex ≠ 0 ∨ checked.digest ∈ p.retiredDigests
        · simp [hdigest, hstale]
          exact .answers _ rfl
        · simp [hdigest, hstale]
          exact .newDigest checked p hcheck hfree' hp hdigest (not_or.mp hstale).2

/-- The first part of a chunk adds no transfer. -/
theorem Begins.transfer {b : Begun} (h : Begins c chunk c₁ n b) (hp : c₁.transfer id = some p) :
    c.transfer id = some p := by
  cases h with
  | answers | fresh | continues => exact hp
  | newDigest =>
    rw [transfer_unreserve, transfer_removeTransfer] at hp
    split_ifs at hp
    exact hp
  | newLayout =>
    rw [transfer_removeTransfer] at hp
    split_ifs at hp
    exact hp

/-- Where the reservation of a new transfer comes from: its predecessor, or the
request's limit and the budget. -/
inductive Reserves (c : ResultCollector) (budget : ResultChunkBudget) (totalBytes : ℕ) :
    Option ℕ → ResultCollector → ResultChunkBudget → ℕ → Prop
  | inherited (bytes : ℕ) : Reserves c budget totalBytes (some bytes) c budget bytes
  | reserved (bytes : ℕ) (hbytes : resultChunkReservationBytes totalBytes = some bytes)
      (hrequest : c.resultChunkReservedBytes + bytes ≤ c.resultChunkReservedLimit)
      (hglobal : budget.reservedBytes + bytes ≤ budget.limit) :
      Reserves c budget totalBytes none
        { c with resultChunkReservedBytes := c.resultChunkReservedBytes + bytes }
        { budget with reservedBytes := budget.reservedBytes + bytes } bytes

theorem checkedAdd_eq_some {a b : ℕ} : checkedAdd a b = some n ↔ a + b ≤ u64Max ∧ n = a + b := by
  unfold checkedAdd
  split_ifs with h
  · simp [h, eq_comm]
  · simp [h]

theorem tryReserve_eq_some (h : budget.tryReserve bytes = some budget₁) :
    budget.reservedBytes + bytes ≤ budget.limit ∧
      budget₁ = { budget with reservedBytes := budget.reservedBytes + bytes } := by
  unfold ResultChunkBudget.tryReserve at h
  cases hnext : checkedAdd budget.reservedBytes bytes with
  | none => simp [hnext] at h
  | some =>
    obtain ⟨-, rfl⟩ := checkedAdd_eq_some.mp hnext
    by_cases hglobal : budget.limit < budget.reservedBytes + bytes
    · simp [hnext, hglobal] at h
    · simp [hnext, hglobal] at h
      exact ⟨not_lt.mp hglobal, h.symm⟩

theorem reserves_of_ok
    (h : c.reservationFor budget totalBytes inherited = .ok (c₁, budget₁, bytes)) :
    Reserves c budget totalBytes inherited c₁ budget₁ bytes := by
  cases inherited with
  | some kept =>
    obtain ⟨rfl, rfl, rfl⟩ : c = c₁ ∧ budget = budget₁ ∧ kept = bytes := by
      simpa [reservationFor] using h
    exact .inherited _
  | none =>
    unfold reservationFor reserveResultChunkTransfer at h
    cases hbytes : resultChunkReservationBytes totalBytes with
    | none => simp [hbytes] at h
    | some reservationBytes =>
      cases hsum : checkedAdd c.resultChunkReservedBytes reservationBytes with
      | none => simp [hbytes, hsum] at h
      | some =>
        obtain ⟨-, rfl⟩ := checkedAdd_eq_some.mp hsum
        by_cases hlimit : c.resultChunkReservedLimit < c.resultChunkReservedBytes + reservationBytes
        · simp [hbytes, hsum, hlimit] at h
        cases htry : budget.tryReserve reservationBytes with
        | none => simp [hbytes, hsum, hlimit, htry] at h
        | some =>
          simp [hbytes, hsum, hlimit, htry] at h
          obtain ⟨hglobal, hbudget⟩ := tryReserve_eq_some htry
          obtain ⟨rfl, rfl, rfl⟩ := h
          rw [hbudget]
          exact .reserved reservationBytes hbytes (not_lt.mp hlimit) hglobal

theorem Reserves.transfer (h : Reserves c budget totalBytes inherited c₁ budget₁ bytes)
    (id : String) : c₁.transfer id = c.transfer id := by
  cases h <;> rfl

/-- What buffering a chunk can do. -/
inductive Buffers (c : ResultCollector) (budget : ResultChunkBudget) (chunk : CheckedChunk)
    (r : Replacement) : Buffering → Prop
  /-- It is answered and changes nothing. -/
  | refused (a : ChunkAnswer) (hopen : completedOf a = none)
      (hnew : c.transfer chunk.workItemId = none → r.reservationBytes = none) :
      Buffers c budget chunk r (.stop ⟨c, budget, a, none⟩)
  /-- It is refused with its reservation made. -/
  | dropped (c₁ : ResultCollector) (budget₁ : ResultChunkBudget) (bytes : ℕ)
      (hnone : c.transfer chunk.workItemId = none)
      (hreserves : Reserves c budget chunk.totalBytes r.reservationBytes c₁ budget₁ bytes) :
      Buffers c budget chunk r (.stop ⟨c₁, budget₁, .error .aggregateSize, some bytes⟩)
  /-- Its fragment goes into the transfer under way. -/
  | inserted (p : PartialResultTransfer) (hp : c.transfer chunk.workItemId = some p)
      (hrequest : p.requestId = chunk.requestId) (hitem : p.itemIndex = chunk.itemIndex)
      (hcount : p.chunkCount = chunk.chunkCount) (htotal : p.totalBytes = chunk.totalBytes)
      (hslot : p.slot chunk hcount = none)
      (hle : p.bufferedBytes + chunk.payload.length ≤ p.totalBytes) :
      Buffers c budget chunk r (.put c budget (p.insert chunk hcount hslot hle)
        (c.resultChunkBufferedBytes + chunk.payload.length))
  /-- It starts a transfer. -/
  | started (c₁ : ResultCollector) (budget₁ : ResultChunkBudget) (bytes : ℕ)
      (hnone : c.transfer chunk.workItemId = none)
      (hreserves : Reserves c budget chunk.totalBytes r.reservationBytes c₁ budget₁ bytes) :
      Buffers c budget chunk r (.put c₁ budget₁
        (.start chunk bytes r.retiredDigests r.retiredChunkCounts)
        (c₁.resultChunkBufferedBytes + chunk.payload.length))

theorem buffers_bufferChunk (c : ResultCollector) (budget : ResultChunkBudget)
    (chunk : CheckedChunk) (r : Replacement) :
    Buffers c budget chunk r (bufferChunk c budget chunk r) := by
  unfold bufferChunk
  split
  next p hp =>
    have hnew : c.transfer chunk.workItemId = none → r.reservationBytes = none :=
      fun hnone => absurd (hp.symm.trans hnone) (by simp)
    split
    next hmeta =>
      split
      · split
        · exact .refused _ rfl hnew
        · exact .refused _ rfl hnew
      rename_i hslot
      split_ifs with hle
      · split
        · exact .refused _ rfl hnew
        next n hsum =>
          obtain ⟨-, rfl⟩ := checkedAdd_eq_some.mp hsum
          exact .inserted p hp hmeta.1 hmeta.2.1 hmeta.2.2.1 hmeta.2.2.2 hslot hle
      · exact .refused _ rfl hnew
    · exact .refused _ rfl hnew
  next hnone =>
    split
    next e heq =>
      refine .refused _ rfl fun _ => ?_
      cases hbytes : r.reservationBytes with
      | none => rfl
      | some bytes => simp [hbytes, reservationFor] at heq
    rename_i c₁ budget₁ bytes heq
    have hres := reserves_of_ok heq
    split
    · exact .dropped c₁ budget₁ bytes hnone hres
    next n hsum =>
      obtain ⟨-, rfl⟩ := checkedAdd_eq_some.mp hsum
      exact .started c₁ budget₁ bytes hnone hres

/-- What happens to a transfer that is in the collector with a new fragment. -/
inductive Finishes (sha256 : Bytes → Digest) (c : ResultCollector) (budget : ResultChunkBudget)
    (workItemId : String) (p : PartialResultTransfer) : Applied → Prop
  /-- A fragment is missing. -/
  | waits (retryReplaced : Bool) (hmissing : p.chunks.all Option.isSome = false) :
      Finishes sha256 c budget workItemId p ⟨c, budget, .ok ⟨.buffered, retryReplaced⟩, none⟩
  /-- All fragments are in and do not fit the announcement. -/
  | mismatch (e : ResultChunkReject) (hall : p.chunks.all Option.isSome = true) :
      Finishes sha256 c budget workItemId p
        ⟨c.removeTransfer workItemId p, budget, .error e, some p.reservationBytes⟩
  /-- All fragments are in and fit it. -/
  | completes (retryReplaced : Bool) (hall : p.chunks.all Option.isSome = true)
      (htotal : (joined p.chunks).length = p.totalBytes)
      (hdigest : sha256 (joined p.chunks) = p.transferDigest) :
      Finishes sha256 c budget workItemId p
        ⟨c.removeTransfer workItemId p, budget,
          .ok ⟨.complete ⟨workItemId, p.requestId, p.itemIndex, joined p.chunks,
            p.reservationBytes⟩, retryReplaced⟩, none⟩

theorem finishes_finishTransfer {workItemId : String} (hp : c.transfer workItemId = some p)
    (retryReplaced : Bool) :
    Finishes sha256 c budget workItemId p
      (finishTransfer sha256 c budget workItemId retryReplaced) := by
  unfold finishTransfer
  rw [hp]
  by_cases hall : p.chunks.all Option.isSome = true
  · simp only [hall, if_true]
    split
    · exact .mismatch _ hall
    split
    · exact .mismatch _ hall
    rename_i htotal
    split_ifs with hdigest
    · exact .mismatch _ hall
    · exact .completes retryReplaced hall (not_not.mp htotal) (not_not.mp hdigest)
  · have hmissing : p.chunks.all Option.isSome = false := by simpa using hall
    simp [hmissing]
    exact .waits retryReplaced hmissing

/-- What holds of every chunk that is stopped, and of every one that is buffered and
finished, holds of the second part of a chunk. -/
theorem insertChunk_rule {r : Replacement} {P : Applied → Prop}
    (stop : ∀ a, Buffers c budget checked r (.stop a) → P a)
    (put : ∀ c₁ budget₁ p n a, Buffers c budget checked r (.put c₁ budget₁ p n) →
      Finishes sha256 (c₁.putTransfer checked.workItemId p n) budget₁ checked.workItemId p a →
      P a) : P (insertChunk sha256 c budget checked r) := by
  have hbuffers := buffers_bufferChunk c budget checked r
  unfold insertChunk
  cases hbuffer : bufferChunk c budget checked r with
  | stop a => exact stop a (hbuffer ▸ hbuffers)
  | put c₁ budget₁ p n =>
    exact put c₁ budget₁ p n _ (hbuffer ▸ hbuffers) (finishes_finishTransfer (by simp) _)

/-- Why a result is refused. -/
inductive Refused (c : ResultCollector) (result : WorkResult) : StoreResultOutcome → Prop
  | outOfRange (h : c.results.length ≤ result.itemIndex) : Refused c result .outOfRange
  | staleDirectFallback (hdirect : result.workerDirect = true)
      (h : result.itemIndex ∈ c.directFallbackRepublishedIndices) :
      Refused c result .staleDirectFallback
  | duplicate (h : c.answered result.itemIndex = true) : Refused c result .duplicate

/-- What storing a result can do: it is refused and its reservation released, or it
is stored, and fragments of its item that it outran are dropped. -/
inductive Stores (c : ResultCollector) (result : WorkResult) (reservationBytes : ℕ) :
    ResultCollector → ℕ → StoreResultOutcome → Prop
  | refused (outcome : StoreResultOutcome) (h : Refused c result outcome) :
      Stores c result reservationBytes (c.unreserve reservationBytes) reservationBytes outcome
  | stored (hlt : result.itemIndex < c.results.length)
      (hnew : ¬(result.workerDirect = true ∧
        result.itemIndex ∈ c.directFallbackRepublishedIndices))
      (hfree : c.answered result.itemIndex = false) (hnone : c.transfer result.workItemId = none) :
      Stores c result reservationBytes (c.putResult result) 0 .stored
  | outran (p : PartialResultTransfer) (hlt : result.itemIndex < c.results.length)
      (hnew : ¬(result.workerDirect = true ∧
        result.itemIndex ∈ c.directFallbackRepublishedIndices))
      (hfree : c.answered result.itemIndex = false) (hp : c.transfer result.workItemId = some p) :
      Stores c result reservationBytes
        (((c.putResult result).removeTransfer result.workItemId p).unreserve p.reservationBytes)
        p.reservationBytes .stored

theorem stores_storeResult (c : ResultCollector) (result : WorkResult) (n : ℕ) :
    Stores c result n (storeResult c result n).1 (storeResult c result n).2.1
      (storeResult c result n).2.2 := by
  unfold storeResult storeResultIfMissing
  by_cases hlen : c.results.length ≤ result.itemIndex
  · simp only [hlen, if_true]
    exact .refused _ (.outOfRange hlen)
  by_cases hstale : result.workerDirect = true ∧
      result.itemIndex ∈ c.directFallbackRepublishedIndices
  · simp [hlen, hstale]
    exact .refused _ (.staleDirectFallback hstale.1 hstale.2)
  by_cases hfree : c.answered result.itemIndex = true
  · simp only [hlen, hstale, hfree, if_true, if_false]
    exact .refused _ (.duplicate hfree)
  have hfree' : c.answered result.itemIndex = false := by simpa using hfree
  simp [hlen, hstale, hfree', dropResultChunkTransfer, transfer_putResult]
  cases hp : c.transfer result.workItemId with
  | none => exact .stored (not_le.mp hlen) hstale hfree' hp
  | some p => exact .outran p (not_le.mp hlen) hstale hfree' hp

/-- Storing adds no transfer. -/
theorem Stores.transfer {result : WorkResult} {outcome : StoreResultOutcome}
    (h : Stores c result bytes c₁ n outcome) (hp : c₁.transfer id = some p) :
    c.transfer id = some p := by
  cases h with
  | refused | stored => exact hp
  | outran =>
    rw [transfer_unreserve, transfer_removeTransfer, transfer_putResult] at hp
    split_ifs at hp
    exact hp

theorem takeDirectFallbackPayloads_eq_some {subject : String} {worker : Option String}
    {items : List (ℕ × Bytes)}
    (h : takeDirectFallbackPayloads c = some (c₁, subject, worker, items)) :
    c.directFallbackRepublished = false ∧ c₁ = { c with directFallbackRepublished := true } := by
  unfold takeDirectFallbackPayloads at h
  split_ifs at h with hflag
  split at h
  · simp at h
  dsimp only at h
  split_ifs at h
  obtain ⟨rfl, -⟩ := Prod.mk.inj (Option.some.inj h)
  exact ⟨by simpa using hflag, rfl⟩

end Sie.Gateway
