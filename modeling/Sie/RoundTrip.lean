import Sie.Lib.Run
import Sie.Gateway.CollectorSpec
import Sie.Sidecar.ResultPublisher

/-!
# A result across the wire

The two ends of the chunk transport together: the envelopes that a sidecar's plan cuts
a result into, handled by the gateway in any order and with any duplicates.

`handleResultChunk` is `handle_result_chunk` for one request, from the chunk to the
stored result; the shard that runs it takes one message of a request at a time.
SHA-256 and the decoder of an encoded result are parameters.
-/

namespace Sie.RoundTrip

open Sie.Lib Sie.Wire Sie.Sidecar Sie.Gateway List ChunkedWorkResult ResultCollector
  ResultChunkBudget

/-- The gateway's end for one request: its collector while it is pending, and the
budget. -/
structure Receiver where
  pending : Option ResultCollector
  budget : ResultChunkBudget

namespace Receiver

/-- The request is over: its collector is dropped. -/
def finish (c : ResultCollector) (budget : ResultChunkBudget) : Receiver :=
  ⟨none, budget.release c.resultChunkReservedBytes⟩

/-- Store a completed result; the last one ends the request. -/
def store (a : Applied) (result : WorkResult) (reservationBytes : ℕ) : Receiver :=
  let (c, released, _) := storeResult a.collector result reservationBytes
  if c.allDone then finish c (a.budget.release released)
  else ⟨some c, a.budget.release released⟩

/-- Handle one chunk; a chunk of a pending request gives its answer. -/
def handleResultChunk (sha256 : Bytes → Digest) (decode : Bytes → Option WorkResult)
    (s : Receiver) (chunk : ResultChunkV1) : Option (Receiver × List ChunkAnswer) :=
  match s.pending with
  | none => some (s, [])
  | some c =>
    let a := applyResultChunk sha256 c s.budget chunk
    match a.answer with
    | .error e => some (finish a.collector a.budget, [.error e])
    | .ok ⟨.complete completed, retryReplaced⟩ =>
      match decodeCompletedResult decode completed with
      | .error _ =>
        some (finish a.collector a.budget, [.ok ⟨.complete completed, retryReplaced⟩])
      | .ok result =>
        some (store a result completed.reservationBytes,
          [.ok ⟨.complete completed, retryReplaced⟩])
    | .ok applied => some (⟨some a.collector, a.budget⟩, [.ok applied])

end Receiver

/-! ## A transfer under way -/

variable {sha256 : Bytes → Digest} {decode : Bytes → Option WorkResult} {p : ChunkedWorkResult}
  {c : ResultCollector} {budget : ResultChunkBudget} {seen : List ℕ} {i : ℕ} {c' : ResultCollector}
  {budget' : ResultChunkBudget} {q : PartialResultTransfer} {result : WorkResult} {s : Receiver}

/-- The request can take the transfer: the chunks name one of its items, the item has
neither a result nor a transfer, and the reservation fits. -/
structure Ready (p : ChunkedWorkResult) (c : ResultCollector) (budget : ResultChunkBudget) :
    Prop where
  requestId : p.requestId.isEmpty = false
  workItemId : p.workItemId = canonicalWorkItemId p.requestId p.itemIndex
  workItemId_nonempty : p.workItemId.isEmpty = false
  itemIndex : p.itemIndex < c.results.length
  free : c.answered p.itemIndex = false
  idle : c.transfer p.workItemId = none
  request : c.resultChunkReservedBytes +
    (p.resultBytes.length * resultChunkCopyReservationMultiplier +
      resultChunkTransferOverheadBytes) ≤ c.resultChunkReservedLimit
  global : budget.reservedBytes +
    (p.resultBytes.length * resultChunkCopyReservationMultiplier +
      resultChunkTransferOverheadBytes) ≤ budget.limit
  request_usize : c.resultChunkReservedLimit ≤ usizeMax
  global_usize : budget.limit ≤ usizeMax
  buffered_usize : c.resultChunkBufferedBytes + p.resultBytes.length ≤ usizeMax

/-- The fragments of the chunks seen so far. -/
def fragments (p : ChunkedWorkResult) (seen : List ℕ) : List (Option Bytes) :=
  (range p.chunkCount).map fun i => if i ∈ seen then some (p.piece i) else none

/-- The transfer of the plan with the fragments of the chunks seen so far. -/
structure Holds (p : ChunkedWorkResult) (seen : List ℕ) (q : PartialResultTransfer) : Prop where
  requestId : q.requestId = p.requestId
  itemIndex : q.itemIndex = p.itemIndex
  digest : q.transferDigest = p.transferDigest
  chunkCount : q.chunkCount = p.chunkCount
  totalBytes : q.totalBytes = p.resultBytes.length
  chunks : q.chunks = fragments p seen

/-- All chunks have been seen. -/
def Covers (p : ChunkedWorkResult) (seen : List ℕ) : Prop := ∀ i < p.chunkCount, i ∈ seen

theorem joined_fragments_length_le (hp : Ranges p) (seen : List ℕ) :
    (joined (fragments p seen)).length ≤ p.resultBytes.length := by
  have hsum : ∀ l : List ℕ,
      (joined (l.map fun i => if i ∈ seen then some (p.piece i) else none)).length ≤
        (l.flatMap p.piece).length := by
    intro l
    induction l with
    | nil => simp [joined]
    | cons i l ih =>
      simp [joined] at ih ⊢
      by_cases hi : i ∈ seen
      · simp only [hi, if_true, Option.getD_some]
        omega
      · simp [hi]
        omega
  calc (joined (fragments p seen)).length
      ≤ ((range p.chunkCount).flatMap p.piece).length := hsum _
    _ = p.resultBytes.length := by rw [hp.cover]

/-- All fragments joined are the result. -/
theorem joined_fragments (hp : Ranges p) (hcovers : Covers p seen) :
    joined (fragments p seen) = p.resultBytes := by
  have hfragments : fragments p seen = (range p.chunkCount).map fun i => some (p.piece i) := by
    refine map_congr_left fun i hi => ?_
    rw [if_pos (hcovers i (mem_range.mp hi))]
  rw [hfragments, joined, flatMap_map]
  exact hp.cover

theorem fragments_set (hi : i < p.chunkCount) :
    (fragments p seen).set i (some (p.piece i)) = fragments p (i :: seen) := by
  refine ext_getElem? fun j => ?_
  simp [fragments, getElem?_set, getElem?_map]
  by_cases hj : i = j
  · subst hj
    simp [hi]
  have hj' : ¬ j = i := fun h => hj h.symm
  simp only [hj, if_false]
  by_cases hlt : j < p.chunkCount
  · simp [hlt, hj']
  · simp [hlt]

theorem fragments_all : (fragments p seen).all Option.isSome = true ↔ Covers p seen := by
  simp only [fragments, all_map, all_eq_true, mem_range, Function.comp_apply, Covers]
  refine forall₂_congr fun i _ => ?_
  by_cases hi : i ∈ seen <;> simp [hi]

/-! ## One chunk -/

/-- What the gateway checks of the chunks of a plan. -/
structure Planned (sha256 : Bytes → Digest) (p : ChunkedWorkResult) : Prop where
  ranges : Ranges p
  count_pos : 0 < p.chunkCount
  count_le : p.chunkCount ≤ maxResultChunksPerItem
  bytes_pos : 0 < p.resultBytes.length
  bytes_le : p.resultBytes.length ≤ maxResultChunkItemBytes
  digest : sha256 p.resultBytes = p.transferDigest

theorem planned_of_plan {result : ResultIds} {resultBytes : Bytes} {maxPayload : ℕ}
    (h : planChunkedWorkResult sha256 result resultBytes maxPayload = some p) :
    Planned sha256 p := by
  obtain ⟨hpos, hcount, _, _, -, heq⟩ := plan_eq_some h
  have hbytes : p.resultBytes = resultBytes := by rw [heq]
  refine ⟨plan_ranges h, hpos, hcount, ?_, ?_, ?_⟩
  · rw [hbytes]
    omega
  · rwa [hbytes]
  · rw [heq]

/-- A chunk of the plan, checked. -/
def checkedPiece (p : ChunkedWorkResult) (i : ℕ) (hi : i < p.chunkCount) : CheckedChunk :=
  { p.chunk i with
    digest := p.transferDigest
    digest_eq := rfl
    index_lt := hi
    payload_le := by
      have hlen := piece_length p hi
      have hend := chunkBounds_snd_le p hi
      simp only [chunk]
      omega }

theorem checkChunk_chunk (hplan : Planned sha256 p) (hready : Ready p c budget)
    (hlen : c'.results.length = c.results.length) (hi : i < p.chunkCount) :
    checkChunk c' (p.chunk i) = .ok (checkedPiece p i hi) := by
  have hkind : ¬(p.chunk i).kind ≠ resultChunkKind := not_not.mpr rfl
  have hitem : ¬(c'.results.length ≤ (p.chunk i).itemIndex ∨ (p.chunk i).workItemId ≠
      canonicalWorkItemId (p.chunk i).requestId (p.chunk i).itemIndex) := by
    rw [hlen, not_or, not_not]
    exact ⟨not_le.mpr hready.itemIndex, hready.workItemId⟩
  have hcount : ¬((p.chunk i).chunkCount = 0 ∨
      maxResultChunksPerItem < (p.chunk i).chunkCount) := by
    have h₂ := hplan.count_le
    simp only [chunk]
    omega
  have hsize : ¬((p.chunk i).totalBytes = 0 ∨
      maxResultChunkItemBytes < (p.chunk i).totalBytes) := by
    have h₁ := hplan.bytes_pos
    have h₂ := hplan.bytes_le
    simp only [chunk]
    omega
  have hempty : ¬((p.chunk i).requestId.isEmpty = true ∨
      (p.chunk i).workItemId.isEmpty = true) := by
    simp [chunk, hready.requestId, hready.workItemId_nonempty]
  have hdigest : (p.chunk i).transferDigest.length = 32 := p.transferDigest.2
  have hindex : (p.chunk i).chunkIndex < (p.chunk i).chunkCount := hi
  have hpayload : (p.chunk i).payload.length ≤ (p.chunk i).totalBytes :=
    (checkedPiece p i hi).payload_le
  unfold checkChunk
  rw [if_neg hkind, if_neg hempty, if_neg hitem, dif_pos hdigest, if_neg hcount,
    dif_pos hindex, if_neg hsize, dif_pos hpayload]
  rfl

/-- The collector in the middle of the transfer. -/
structure Gathering (p : ChunkedWorkResult) (c : ResultCollector) (seen : List ℕ)
    (c' : ResultCollector) : Prop where
  results : c'.results = c.results
  marked : c'.directFallbackRepublishedIndices = c.directFallbackRepublishedIndices
  transfer : ∃ q, c'.transfer p.workItemId = some q ∧ Holds p seen q ∧
    c'.resultChunkBufferedBytes = c.resultChunkBufferedBytes + q.bufferedBytes

/-- The collector at the end of the transfer, with what it answered. -/
structure Gathered (p : ChunkedWorkResult) (c : ResultCollector) (c' : ResultCollector)
    (completed : CompletedResultTransfer) : Prop where
  results : c'.results = c.results
  marked : c'.directFallbackRepublishedIndices = c.directFallbackRepublishedIndices
  workItemId : completed.workItemId = p.workItemId
  requestId : completed.requestId = p.requestId
  itemIndex : completed.itemIndex = p.itemIndex
  bytes : completed.encodedWorkResult = p.resultBytes

/-- How a fragment that was not seen before is answered. -/
inductive Progress (p : ChunkedWorkResult) (c : ResultCollector) (seen : List ℕ) :
    Applied → Prop
  | buffered (a : Applied) (hmissing : ¬Covers p seen) (hgather : Gathering p c seen a.collector)
      (hanswer : a.answer = .ok ⟨.buffered, false⟩) : Progress p c seen a
  | complete (a : Applied) (completed : CompletedResultTransfer) (hcovers : Covers p seen)
      (hgathered : Gathered p c a.collector completed)
      (hanswer : a.answer = .ok ⟨.complete completed, false⟩) : Progress p c seen a

section

variable (hplan : Planned sha256 p)
include hplan

/-- A transfer that goes into the collector with one more fragment is finished when it
was the last. -/
theorem progress_finishTransfer (hresults : c'.results = c.results)
    (hmarked : c'.directFallbackRepublishedIndices = c.directFallbackRepublishedIndices)
    (hq : c'.transfer p.workItemId = some q) (hholds : Holds p seen q)
    (hbuffered : c'.resultChunkBufferedBytes = c.resultChunkBufferedBytes + q.bufferedBytes) :
    Progress p c seen (finishTransfer sha256 c' budget' p.workItemId false) := by
  unfold finishTransfer
  rw [hq]
  by_cases hcovers : Covers p seen
  · have hall : q.chunks.all Option.isSome = true := by
      rw [hholds.chunks]
      exact fragments_all.mpr hcovers
    have hjoined : joined q.chunks = p.resultBytes := by
      rw [hholds.chunks]
      exact joined_fragments hplan.ranges hcovers
    have htotal : q.bufferedBytes = q.totalBytes := by
      rw [q.buffered_eq, hjoined, hholds.totalBytes]
    have hlength : (joined q.chunks).length = q.totalBytes := by rw [← q.buffered_eq, htotal]
    have hdigest : sha256 (joined q.chunks) = q.transferDigest := by
      rw [hjoined, hplan.digest, hholds.digest]
    simp [hall, htotal, hlength, hdigest]
    exact .complete _ _ hcovers
      ⟨hresults, hmarked, rfl, hholds.requestId, hholds.itemIndex, hjoined⟩ rfl
  · have hall : q.chunks.all Option.isSome = false := by
      rw [hholds.chunks, Bool.eq_false_iff]
      exact fun h => hcovers (fragments_all.mp h)
    simp [hall]
    exact .buffered _ hcovers ⟨hresults, hmarked, q, hq, hholds, hbuffered⟩ rfl

section

variable (hready : Ready p c budget)
include hready

/-- The reservation of the transfer is made. -/
theorem reservationFor_ready :
    ∃ c₁ budget₁ bytes,
      c.reservationFor budget p.resultBytes.length none = .ok (c₁, budget₁, bytes) ∧
        c₁.results = c.results ∧
        c₁.directFallbackRepublishedIndices = c.directFallbackRepublishedIndices ∧
        c₁.resultChunkBufferedBytes = c.resultChunkBufferedBytes := by
  have hbytes : resultChunkReservationBytes p.resultBytes.length =
      some (p.resultBytes.length * resultChunkCopyReservationMultiplier +
        resultChunkTransferOverheadBytes) := by
    have hle := hplan.bytes_le
    simp only [maxResultChunkItemBytes] at hle
    unfold resultChunkReservationBytes checkedMul checkedAdd resultChunkCopyReservationMultiplier
      resultChunkTransferOverheadBytes u64Max
    rw [if_pos (by omega), Option.bind_some, if_pos (by omega)]
  have hrequest : checkedAdd c.resultChunkReservedBytes
      (p.resultBytes.length * resultChunkCopyReservationMultiplier +
        resultChunkTransferOverheadBytes) = some _ :=
    checkedAdd_eq_some.mpr ⟨le_trans hready.request hready.request_usize, rfl⟩
  have hglobal : checkedAdd budget.reservedBytes
      (p.resultBytes.length * resultChunkCopyReservationMultiplier +
        resultChunkTransferOverheadBytes) = some _ :=
    checkedAdd_eq_some.mpr ⟨le_trans hready.global hready.global_usize, rfl⟩
  simp only [reservationFor, reserveResultChunkTransfer, hbytes,
    hrequest, not_lt.mpr hready.request, if_false, tryReserve, hglobal, not_lt.mpr hready.global]
  exact ⟨_, _, _, rfl, rfl, rfl, rfl⟩

/-- The first chunk that comes starts the transfer. -/
theorem progress_first
    (hi : i < p.chunkCount) : Progress p c [i] (applyResultChunk sha256 c budget (p.chunk i)) := by
  have hcheck := checkChunk_chunk hplan hready rfl hi
  have hfree : c.answered (p.chunk i).itemIndex = false := hready.free
  have hidle : c.transfer (checkedPiece p i hi).workItemId = none := hready.idle
  have hbegin : beginChunk c (p.chunk i) = (c, 0, .proceed (checkedPiece p i hi) .none) := by
    simp [beginChunk, hcheck, hfree, arbitrate, hidle]
  obtain ⟨c₁, budget₁, bytes, hreserve, hresults, hmarked, hbuffered⟩ :=
    reservationFor_ready hplan hready
  have hsum : checkedAdd c₁.resultChunkBufferedBytes (checkedPiece p i hi).payload.length =
      some (c.resultChunkBufferedBytes + (p.piece i).length) := by
    have hle := (checkedPiece p i hi).payload_le
    have husize := hready.buffered_usize
    simp only [checkedPiece, chunk] at hle ⊢
    rw [checkedAdd_eq_some, hbuffered]
    exact ⟨le_trans (by omega) husize, rfl⟩
  have hbuffer : bufferChunk c (budget.release 0) (checkedPiece p i hi) .none =
      .put c₁ budget₁ (.start (checkedPiece p i hi) bytes [] [])
        (c.resultChunkBufferedBytes + (p.piece i).length) := by
    have hrelease : budget.release 0 = budget := by simp [release]
    have hreserve' : c.reservationFor budget (checkedPiece p i hi).totalBytes
        Replacement.none.reservationBytes = .ok (c₁, budget₁, bytes) := hreserve
    simp only [bufferChunk, hidle, hrelease, hreserve', hsum]
    rfl
  simp only [applyResultChunk, hbegin, insertChunk, hbuffer]
  refine progress_finishTransfer hplan hresults hmarked
    (q := .start (checkedPiece p i hi) bytes [] [])
    (by simp [checkedPiece, chunk]) ⟨rfl, rfl, rfl, rfl, rfl, ?_⟩ rfl
  rw [← fragments_set hi]
  simp [PartialResultTransfer.start, fragments]
  rfl

/-- A chunk of the transfer under way goes on to be buffered. -/
theorem beginChunk_gathering (hresults : c'.results = c.results)
    (hq : c'.transfer p.workItemId = some q) (hholds : Holds p seen q) (hi : i < p.chunkCount) :
    beginChunk c' (p.chunk i) = (c', 0, .proceed (checkedPiece p i hi) .none) := by
  have hcheck : checkChunk c' (p.chunk i) = .ok (checkedPiece p i hi) :=
    checkChunk_chunk hplan hready (by rw [hresults]) hi
  have hfree : c'.answered (p.chunk i).itemIndex = false := by
    rw [answered, hresults]
    exact hready.free
  have hq' : c'.transfer (checkedPiece p i hi).workItemId = some q := hq
  have hdigest : q.transferDigest = (checkedPiece p i hi).digest := hholds.digest
  have htotal : q.totalBytes = (checkedPiece p i hi).totalBytes := hholds.totalBytes
  have hcount : q.chunkCount = (checkedPiece p i hi).chunkCount := hholds.chunkCount
  simp [beginChunk, hcheck, hfree, arbitrate, hq', hdigest, htotal, hcount]

end

end

theorem slot_of_holds (hholds : Holds p seen q) (hi : i < p.chunkCount)
    (hcount : q.chunkCount = (checkedPiece p i hi).chunkCount) :
    q.slot (checkedPiece p i hi) hcount = if i ∈ seen then some (p.piece i) else none := by
  have hget : q.chunks[i]? = some (if i ∈ seen then some (p.piece i) else none) := by
    rw [hholds.chunks]
    simp [fragments, hi]
  have hslot := PartialResultTransfer.slot_eq (rfl : q.slot (checkedPiece p i hi) hcount = _)
  exact Option.some.inj (hslot.symm.trans hget)

theorem Holds.checked {q : PartialResultTransfer} (h : Holds p seen q) (hi : i < p.chunkCount) :
    q.requestId = (checkedPiece p i hi).requestId ∧ q.itemIndex = (checkedPiece p i hi).itemIndex ∧
      q.chunkCount = (checkedPiece p i hi).chunkCount ∧
      q.totalBytes = (checkedPiece p i hi).totalBytes :=
  ⟨h.requestId, h.itemIndex, h.chunkCount, h.totalBytes⟩

section

variable (hplan : Planned sha256 p) (hready : Ready p c budget)
include hplan hready

/-- A further chunk adds its fragment. -/
theorem progress_next (hgather : Gathering p c seen c') (hi : i < p.chunkCount) (hnew : i ∉ seen) :
    Progress p c (i :: seen) (applyResultChunk sha256 c' budget' (p.chunk i)) := by
  obtain ⟨hresults, hmarked, q, hq, hholds, hbuffered⟩ := hgather
  have hbegin := beginChunk_gathering hplan hready hresults hq hholds hi
  have hmeta := hholds.checked hi
  have hslot : q.slot (checkedPiece p i hi) hmeta.2.2.1 = none := by
    rw [slot_of_holds hholds hi, if_neg hnew]
  have hchunks : q.chunks.set i (some (p.piece i)) = fragments p (i :: seen) := by
    rw [hholds.chunks, fragments_set hi]
  have hlength : q.bufferedBytes + (p.piece i).length =
      (joined (fragments p (i :: seen))).length := by
    rw [← hchunks, q.buffered_eq]
    exact (joined_set_length _ (PartialResultTransfer.slot_eq hslot)).symm
  have hle : q.bufferedBytes + (checkedPiece p i hi).payload.length ≤ q.totalBytes := by
    have hbound := joined_fragments_length_le hplan.ranges (i :: seen)
    rw [hholds.totalBytes]
    exact hlength.trans_le hbound
  have hsum : checkedAdd c'.resultChunkBufferedBytes (checkedPiece p i hi).payload.length =
      some (c'.resultChunkBufferedBytes + (p.piece i).length) := by
    have husize := hready.buffered_usize
    rw [hholds.totalBytes] at hle
    rw [checkedAdd_eq_some, hbuffered]
    exact ⟨le_trans (by omega) husize, rfl⟩
  have hq' : c'.transfer (checkedPiece p i hi).workItemId = some q := hq
  have hbuffer : bufferChunk c' (budget'.release 0) (checkedPiece p i hi) .none =
      .put c' (budget'.release 0) (q.insert (checkedPiece p i hi) hmeta.2.2.1 hslot hle)
        (c'.resultChunkBufferedBytes + (p.piece i).length) := by
    unfold bufferChunk
    rw [hq']
    dsimp only
    rw [dif_pos hmeta]
    split
    next hsome =>
      rw [hslot] at hsome
      cases hsome
    · rw [dif_pos hle, hsum]
  simp only [applyResultChunk, hbegin, insertChunk, hbuffer]
  refine progress_finishTransfer hplan hresults hmarked
    (q := q.insert (checkedPiece p i hi) hmeta.2.2.1 hslot hle)
    (by simp [checkedPiece, chunk])
    { hholds with chunks := hchunks } ?_
  have hadd : (q.insert (checkedPiece p i hi) hmeta.2.2.1 hslot hle).bufferedBytes =
      q.bufferedBytes + (p.piece i).length := rfl
  rw [hadd, ← add_assoc, ← hbuffered]
  rfl

/-- A chunk seen before is a duplicate. -/
theorem applyResultChunk_seen (budget' : ResultChunkBudget) (hgather : Gathering p c seen c')
    (hi : i < p.chunkCount) (hseen : i ∈ seen) :
    applyResultChunk sha256 c' budget' (p.chunk i) =
      ⟨c', budget', .ok ⟨.duplicate, false⟩, none⟩ := by
  obtain ⟨hresults, -, q, hq, hholds, -⟩ := hgather
  have hbegin := beginChunk_gathering hplan hready hresults hq hholds hi
  have hmeta := hholds.checked hi
  have hslot : q.slot (checkedPiece p i hi) hmeta.2.2.1 = some (p.piece i) := by
    rw [slot_of_holds hholds hi, if_pos hseen]
  have hq' : c'.transfer (checkedPiece p i hi).workItemId = some q := hq
  have hrelease : budget'.release 0 = budget' := by simp [release]
  have hbuffer : bufferChunk c' budget' (checkedPiece p i hi) .none =
      .stop ⟨c', budget', .ok ⟨.duplicate, false⟩, none⟩ := by
    unfold bufferChunk
    rw [hq']
    dsimp only
    rw [dif_pos hmeta]
    split
    next hsome =>
      cases hslot.symm.trans hsome
      rw [if_pos (by rfl)]
      rfl
    next hnone =>
      rw [hslot] at hnone
      cases hnone
  simp [applyResultChunk, hbegin, insertChunk, hrelease, hbuffer]

/-- A chunk of an item that has its result is a duplicate. -/
theorem applyResultChunk_answered
    (budget' : ResultChunkBudget) (hlen : c'.results.length = c.results.length)
    (hanswered : c'.answered p.itemIndex = true) (hi : i < p.chunkCount) :
    applyResultChunk sha256 c' budget' (p.chunk i) =
      ⟨c', budget', .ok ⟨.duplicate, false⟩, none⟩ := by
  have hcheck := checkChunk_chunk hplan hready hlen hi
  have hanswered' : c'.answered (p.chunk i).itemIndex = true := hanswered
  simp [applyResultChunk, beginChunk, hcheck, hanswered', release]

end

/-! ## The handler -/

/-- The encoded result decodes to a result of the item, and the request takes it. -/
structure Accepted (decode : Bytes → Option WorkResult) (p : ChunkedWorkResult)
    (c : ResultCollector) (result : WorkResult) : Prop where
  decode : decode p.resultBytes = some result
  workItemId : result.workItemId = p.workItemId
  requestId : result.requestId = p.requestId
  itemIndex : result.itemIndex = p.itemIndex
  fresh : ¬(result.workerDirect = true ∧ p.itemIndex ∈ c.directFallbackRepublishedIndices)

/-- The request is over, or the item has its result. -/
def Done (p : ChunkedWorkResult) (c : ResultCollector) (s : Receiver) : Prop :=
  ∀ c', s.pending = some c' → c'.results.length = c.results.length ∧
    c'.answered p.itemIndex = true

/-- The transfer has not ended. -/
inductive Underway (p : ChunkedWorkResult) (c : ResultCollector) (budget : ResultChunkBudget) :
    List ℕ → Receiver → Prop
  | start : Underway p c budget [] ⟨some c, budget⟩
  | gathering (seen : List ℕ) (c' : ResultCollector) (budget' : ResultChunkBudget)
      (h : Gathering p c seen c') : Underway p c budget seen ⟨some c', budget'⟩

/-- A chunk is buffered, or is a duplicate. -/
def Quiet (a : ChunkAnswer) : Prop := a = .ok ⟨.buffered, false⟩ ∨ a = .ok ⟨.duplicate, false⟩

theorem done_store {a : Applied} {completed : CompletedResultTransfer} (hready : Ready p c budget)
    (hgathered : Gathered p c a.collector completed) (haccepted : Accepted decode p c result)
    (n : ℕ) : Done p c (Receiver.store a result n) := by
  have hstores := stores_storeResult a.collector result n
  have hitem : result.itemIndex < a.collector.results.length := by
    rw [hgathered.results, haccepted.itemIndex]
    exact hready.itemIndex
  have hfree : a.collector.answered result.itemIndex = false := by
    rw [answered, hgathered.results, haccepted.itemIndex]
    exact hready.free
  have hput : (storeResult a.collector result n).1.results =
      a.collector.results.set result.itemIndex (some result) := by
    generalize (storeResult a.collector result n).1 = c₁ at hstores
    generalize (storeResult a.collector result n).2.1 = m at hstores
    generalize (storeResult a.collector result n).2.2 = outcome at hstores
    cases hstores with
    | refused _ hrefused =>
      cases hrefused with
      | outOfRange => omega
      | staleDirectFallback hdirect h =>
        rw [hgathered.marked, haccepted.itemIndex] at h
        exact absurd ⟨hdirect, h⟩ haccepted.fresh
      | duplicate h => simp [hfree] at h
    | stored | outran => rfl
  intro c' hc'
  unfold Receiver.store at hc'
  dsimp only at hc'
  split_ifs at hc'
  · simp [Receiver.finish] at hc'
  cases hc'
  refine ⟨by rw [hput, length_set, hgathered.results], ?_⟩
  rw [answered, hput, ← haccepted.itemIndex]
  simp [hitem]

theorem handleResultChunk_ok (decode : Bytes → Option WorkResult) {chunk : ResultChunkV1}
    {status : ResultChunkStatus} {retryReplaced : Bool}
    (hanswer : (applyResultChunk sha256 c' budget' chunk).answer = .ok ⟨status, retryReplaced⟩)
    (hopen : ∀ completed, status ≠ .complete completed) :
    Receiver.handleResultChunk sha256 decode ⟨some c', budget'⟩ chunk =
      some (⟨some (applyResultChunk sha256 c' budget' chunk).collector,
        (applyResultChunk sha256 c' budget' chunk).budget⟩, [.ok ⟨status, retryReplaced⟩]) := by
  unfold Receiver.handleResultChunk
  dsimp only
  rw [hanswer]
  cases status with
  | complete completed => exact absurd rfl (hopen completed)
  | buffered | duplicate | staleRetry => rfl

/-- What one chunk of a transfer under way does. -/
inductive Handled (p : ChunkedWorkResult) (c : ResultCollector) (budget : ResultChunkBudget)
    (seen : List ℕ) (i : ℕ) : Receiver × List ChunkAnswer → Prop
  | goesOn (s : Receiver) (a : ChunkAnswer) (seen' : List ℕ) (hquiet : Quiet a)
      (hmem : ∀ j, j ∈ seen' ↔ j = i ∨ j ∈ seen) (hmissing : ¬Covers p seen')
      (hunderway : Underway p c budget seen' s) : Handled p c budget seen i (s, [a])
  | ends (s : Receiver) (completed : CompletedResultTransfer)
      (hbytes : completed.encodedWorkResult = p.resultBytes) (hcovers : Covers p (i :: seen))
      (hdone : Done p c s) :
      Handled p c budget seen i (s, [.ok ⟨.complete completed, false⟩])

theorem handled_of_progress (hready : Ready p c budget) (haccepted : Accepted decode p c result)
    (h : Progress p c (i :: seen) (applyResultChunk sha256 c' budget' (p.chunk i))) :
    ∃ out, Receiver.handleResultChunk sha256 decode ⟨some c', budget'⟩ (p.chunk i) = some out ∧
      Handled p c budget seen i out := by
  cases h with
  | buffered hmissing hgather hanswer =>
    exact ⟨_, handleResultChunk_ok decode hanswer (by simp),
      .goesOn _ _ (i :: seen) (.inl rfl) (by simp) hmissing (.gathering _ _ _ hgather)⟩
  | complete completed hcovers hgathered hanswer =>
    have hdecode : decodeCompletedResult decode completed = .ok result := by
      simp [decodeCompletedResult, hgathered.bytes, haccepted.decode, haccepted.workItemId,
        haccepted.requestId, haccepted.itemIndex, hgathered.workItemId, hgathered.requestId,
        hgathered.itemIndex]
    refine ⟨(Receiver.store (applyResultChunk sha256 c' budget' (p.chunk i)) result
      completed.reservationBytes, [.ok ⟨.complete completed, false⟩]), ?_,
      .ends _ completed hgathered.bytes hcovers (done_store hready hgathered haccepted _)⟩
    simp [Receiver.handleResultChunk, hanswer, hdecode]

/-- One chunk of a transfer under way. -/
theorem handled_step (hplan : Planned sha256 p) (hready : Ready p c budget)
    (haccepted : Accepted decode p c result) (h : Underway p c budget seen s)
    (hmissing : ¬Covers p seen) (hi : i < p.chunkCount) :
    ∃ out, Receiver.handleResultChunk sha256 decode s (p.chunk i) = some out ∧
      Handled p c budget seen i out := by
  cases h with
  | start => exact handled_of_progress hready haccepted (progress_first hplan hready hi)
  | gathering seen c' budget' hgather =>
    by_cases hseen : i ∈ seen
    · have happly := applyResultChunk_seen hplan hready budget' hgather hi hseen
      refine ⟨_, handleResultChunk_ok decode (by rw [happly]) (by simp), ?_⟩
      rw [happly]
      exact .goesOn _ _ seen (.inr rfl)
        (fun j => ⟨.inr, fun hj => hj.elim (fun heq => heq ▸ hseen) id⟩) hmissing
        (.gathering seen c' budget' hgather)
    · exact handled_of_progress hready haccepted (progress_next hplan hready hgather hi hseen)

/-- Once the item has its result every chunk is a duplicate, or the request is over. -/
theorem done_runs (decode : Bytes → Option WorkResult) (hplan : Planned sha256 p)
    (hready : Ready p c budget) (hdone : Done p c s) {order : List ℕ}
    (horder : ∀ i ∈ order, i < p.chunkCount) :
    ∃ s' answers, runs (Receiver.handleResultChunk sha256 decode) s (order.map p.chunk) =
      some (s', answers) ∧ ∀ a ∈ answers, Quiet a := by
  induction order generalizing s with
  | nil => exact ⟨s, [], rfl, by simp⟩
  | cons i rest ih =>
    have hrest : ∀ j ∈ rest, j < p.chunkCount := fun j hj => horder j (by simp [hj])
    rcases s with ⟨_ | c', budget'⟩
    · obtain ⟨s', answers, hruns, hquiet⟩ := ih hdone hrest
      exact ⟨s', answers, runs_cons_eq_some.mpr ⟨_, [], answers, rfl, hruns, rfl⟩, hquiet⟩
    obtain ⟨hlen, hanswered⟩ := hdone c' rfl
    have happly := applyResultChunk_answered hplan hready budget' hlen hanswered
      (horder i (by simp))
    have hstep := handleResultChunk_ok decode (by rw [happly]) (by simp)
    rw [happly] at hstep
    obtain ⟨s', answers, hruns, hquiet⟩ := ih hdone hrest
    refine ⟨s', _, runs_cons_eq_some.mpr ⟨_, _, answers, hstep, hruns, rfl⟩, ?_⟩
    intro a ha
    rcases mem_append.mp ha with ha | ha
    · exact .inr (by simpa using ha)
    · exact hquiet a ha

/-- What the gateway answers to chunks in some order, after those in `seen`: nothing
but `Buffered` and `Duplicate` up to the last distinct chunk, `Complete` with the
result for that one, and no other `Complete`. -/
def Told (p : ChunkedWorkResult) (seen order : List ℕ) (answers : List ChunkAnswer) : Prop :=
  (¬Covers p (seen ++ order) → answers.length = order.length ∧ ∀ a ∈ answers, Quiet a) ∧
    (Covers p (seen ++ order) → ∃ before completed after,
      answers = before ++ .ok ⟨.complete completed, false⟩ :: after ∧
        completed.encodedWorkResult = p.resultBytes ∧
        ¬Covers p (seen ++ order.take before.length) ∧
        Covers p (seen ++ order.take (before.length + 1)) ∧
        ∀ a ∈ before ++ after, Quiet a)

theorem covers_congr {l₁ l₂ : List ℕ} (h : ∀ j, j ∈ l₁ ↔ j ∈ l₂) : Covers p l₁ ↔ Covers p l₂ := by
  simp [Covers, h]

theorem Told.cons {seen' rest : List ℕ} {a : ChunkAnswer} {answers : List ChunkAnswer}
    (h : Told p seen' rest answers) (hmem : ∀ j, j ∈ seen' ↔ j = i ∨ j ∈ seen) (ha : Quiet a) :
    Told p seen (i :: rest) (a :: answers) := by
  have hcongr : ∀ l, Covers p (seen ++ i :: l) ↔ Covers p (seen' ++ l) := by
    intro l
    refine covers_congr fun j => ?_
    simp only [mem_append, mem_cons, hmem]
    tauto
  refine ⟨fun hmissing => ?_, fun hcovers => ?_⟩
  · obtain ⟨hlen, hquiet⟩ := h.1 fun hc => hmissing ((hcongr rest).mpr hc)
    refine ⟨by simp [hlen], ?_⟩
    intro b hb
    rcases mem_cons.mp hb with rfl | hb
    · exact ha
    · exact hquiet b hb
  · obtain ⟨before, completed, after, rfl, hbytes, _, _, hquiet⟩ := h.2 ((hcongr rest).mp hcovers)
    refine ⟨a :: before, completed, after, rfl, hbytes, ?_, ?_, ?_⟩
    · rwa [length_cons, take_succ_cons, hcongr]
    · rwa [length_cons, take_succ_cons, hcongr]
    · intro b hb
      rcases mem_cons.mp hb with rfl | hb
      · exact ha
      · exact hquiet b hb

theorem told_runs (hplan : Planned sha256 p) (hready : Ready p c budget)
    (haccepted : Accepted decode p c result) {order : List ℕ} (h : Underway p c budget seen s)
    (hmissing : ¬Covers p seen) (horder : ∀ i ∈ order, i < p.chunkCount) :
    ∃ s' answers, runs (Receiver.handleResultChunk sha256 decode) s (order.map p.chunk) =
      some (s', answers) ∧ Told p seen order answers := by
  induction order generalizing s seen with
  | nil =>
    refine ⟨s, [], rfl, fun _ => ⟨rfl, by simp⟩, fun hcovers => ?_⟩
    rw [append_nil] at hcovers
    exact absurd hcovers hmissing
  | cons i rest ih =>
    have hrest : ∀ j ∈ rest, j < p.chunkCount := fun j hj => horder j (by simp [hj])
    obtain ⟨_, hstep, hhandled⟩ :=
      handled_step hplan hready haccepted h hmissing (horder i (by simp))
    cases hhandled with
    | goesOn s₁ a _ hquiet hmem hmissing' hunderway =>
      obtain ⟨s', answers, hruns, htold⟩ := ih hunderway hmissing' hrest
      exact ⟨s', a :: answers, runs_cons_eq_some.mpr ⟨s₁, [a], answers, hstep, hruns, rfl⟩,
        htold.cons hmem hquiet⟩
    | ends s₁ completed hbytes hcovers hdone =>
      obtain ⟨s', answers, hruns, hquiet⟩ := done_runs decode hplan hready hdone hrest
      have hlast : Covers p (seen ++ [i]) := (covers_congr (by simp [or_comm])).mp hcovers
      refine ⟨s', _, runs_cons_eq_some.mpr ⟨s₁, _, answers, hstep, hruns, rfl⟩, ?_, ?_⟩
      · intro hnot
        refine absurd (fun j hj => ?_) hnot
        have hj' := hlast j hj
        simp at hj' ⊢
        tauto
      · intro _
        exact ⟨[], completed, answers, rfl, hbytes, by simpa using hmissing,
          by simpa using hlast, by simpa using hquiet⟩

/-- **Round trip of a chunked result.**  For every plan: the chunks are not empty, in
order and cover the result; every envelope fits the limit, so the publish loop never
finds one too large; and a gateway that can take the transfer, fed the chunks in any
order with any duplicates, answers `Buffered` or `Duplicate` until the last distinct
chunk, then `Complete` with the result, and never again. -/
theorem chunked_roundTrip (sha256 : Bytes → Digest) (decode : Bytes → Option WorkResult)
    (ids : ResultIds) (resultBytes : Bytes) (maxPayload : ℕ) (p : ChunkedWorkResult)
    (hplan : planChunkedWorkResult sha256 ids resultBytes maxPayload = some p) :
    p.resultBytes = resultBytes ∧ Ranges p ∧
      (∀ i < p.chunkCount, (p.encodeChunk i).length ≤ maxPayload) ∧
      (∀ publish flush size limit, (publishChunks p maxPayload publish flush).2 ≠
        .error (.resultChunkPayloadTooLarge size limit)) ∧
      ∀ c budget result, Ready p c budget → Accepted decode p c result →
        ∀ order : List ℕ, (∀ i ∈ order, i < p.chunkCount) →
          ∃ s answers, runs (Receiver.handleResultChunk sha256 decode) ⟨some c, budget⟩
              (order.map p.chunk) = some (s, answers) ∧ Told p [] order answers := by
  have hplanned := planned_of_plan hplan
  obtain ⟨-, -, -, -, -, heq⟩ := plan_eq_some hplan
  refine ⟨by rw [heq], hplanned.ranges, fun i hi => plan_encodeChunk_le hplan hi, ?_, ?_⟩
  · intro publish flush size limit
    exact publishLoop_ne_tooLarge hplan publish flush (fun i hi => mem_range.mp hi) size limit
  · intro c budget result hready haccepted order horder
    refine told_runs hplanned hready haccepted .start ?_ horder
    intro hcovers
    exact absurd (hcovers 0 hplanned.count_pos) not_mem_nil

namespace ThreeChunks

open Msgpack

def answer : WorkResult := ⟨"r.0", "r", 0, true, [7, 8, 9], none, none, false⟩

/-- The answer as a map; the fields that are left out have defaults. -/
def encoded : Bytes :=
  writeMapLen 5 ++ writeStr "work_item_id" ++ writeStr "r.0" ++ writeStr "request_id" ++
    writeStr "r" ++ writeStr "item_index" ++ writeUint 0 ++ writeStr "success" ++ [0xc3] ++
    writeStr "result_msgpack" ++ writeBin [7, 8, 9]

/-- A stand-in for the decoder, which reads these bytes only. -/
def decodeAnswer (bytes : Bytes) : Option WorkResult :=
  if bytes = encoded then some answer else none

/-- The limit leaves room for a third of the bytes. -/
def limit : ℕ := 188

theorem planned : (planChunkedWorkResult padded ⟨"r.0", "r", 0⟩ encoded limit).isSome = true := by
  decide +kernel

def plan : ChunkedWorkResult :=
  (planChunkedWorkResult padded ⟨"r.0", "r", 0⟩ encoded limit).get planned

def collector : ResultCollector := .new 2 none none

def idle : ResultChunkBudget := .new maxResultChunkReservedBytesGlobal

theorem ready : Ready plan collector idle := by
  constructor <;> decide +kernel

theorem accepted : Accepted decodeAnswer plan collector answer := by
  constructor <;> decide +kernel

/-- Three chunks, out of order and with duplicates. -/
theorem chunked_roundTrip_outOfOrder :
    plan.chunkCount = 3 ∧
      ∃ s answers, runs (Receiver.handleResultChunk padded decodeAnswer) ⟨some collector, idle⟩
          ([2, 0, 2, 1, 0].map plan.chunk) = some (s, answers) ∧
        Told plan [] [2, 0, 2, 1, 0] answers := by
  have hcount : plan.chunkCount = 3 := by decide +kernel
  have htrip := chunked_roundTrip padded decodeAnswer ⟨"r.0", "r", 0⟩ encoded limit plan
    (Option.some_get planned).symm
  refine ⟨hcount, htrip.2.2.2.2 collector idle _ ready accepted _ ?_⟩
  rw [hcount]
  decide

end ThreeChunks

end Sie.RoundTrip
