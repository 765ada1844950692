import Mathlib.Data.Finset.Basic
import Mathlib.Data.List.AList
import Sie.Lib.Word
import Sie.Wire.ResultChunk

/-!
# The result collector of a pending request

The collector in which the gateway's `queue/publisher.rs` gathers the results of one
request: `apply_result_chunk` with its reservations, the stores of whole results, and
the bookkeeping of the direct-to-pool fallback.

All operations run under the request's own lock; what they share with other requests
is the budget of reserved bytes, one atomic counter.  `apply_result_chunk` touches it
at most twice, so it is cut in two where other requests can come in between:
`beginChunk` (the checks and the arbitration between retries, which may release) and
`insertChunk` (which may reserve).

A transfer and a checked chunk carry what the code relies on as fields.  SHA-256 is a
parameter.  `Applied.abandoned` is a ghost output: the reservation of a transfer that
an error path takes out of the collector without releasing it.
-/

namespace Sie.Gateway

open Sie.Lib Sie.Wire List

def maxResultChunkItemBytes : ℕ := 16 * 1024 * 1024

def maxResultChunksPerItem : ℕ := 64

def maxResultChunkReservedBytesPerRequest : ℕ := 64 * 1024 * 1024

def maxResultChunkReservedBytesGlobal : ℕ := 256 * 1024 * 1024

def resultChunkCopyReservationMultiplier : ℕ := 3

def resultChunkTransferOverheadBytes : ℕ := 4 * 1024

def maxRetiredResultChunkDigests : ℕ := 8

def maxRetiredResultChunkLayouts : ℕ := 8

/-- A worker's answer for one item. -/
structure WorkResult where
  workItemId : String
  requestId : String
  itemIndex : ℕ
  success : Bool
  resultMsgpack : Bytes
  error : Option String
  errorCode : Option String
  workerDirect : Bool
  deriving DecidableEq

/-! ## The budget -/

/-- The bytes reserved by all requests together. -/
structure ResultChunkBudget where
  reservedBytes : ℕ
  limit : ℕ
  deriving DecidableEq

namespace ResultChunkBudget

def new (limit : ℕ) : ResultChunkBudget := ⟨0, limit⟩

def tryReserve (b : ResultChunkBudget) (bytes : ℕ) : Option ResultChunkBudget :=
  match checkedAdd b.reservedBytes bytes with
  | none => none
  | some next => if b.limit < next then none else some { b with reservedBytes := next }

/-- Release, at most what is reserved. -/
def release (b : ResultChunkBudget) (bytes : ℕ) : ResultChunkBudget :=
  { b with reservedBytes := b.reservedBytes - min b.reservedBytes bytes }

end ResultChunkBudget

def resultChunkReservationBytes (totalBytes : ℕ) : Option ℕ :=
  (checkedMul totalBytes resultChunkCopyReservationMultiplier).bind fun bytes =>
    checkedAdd bytes resultChunkTransferOverheadBytes

/-! ## Transfers -/

/-- The buffered fragments, joined in order. -/
def joined (chunks : List (Option Bytes)) : Bytes := chunks.flatMap fun c => c.getD []

theorem joined_replicate_none (n : ℕ) : joined (replicate n none) = [] := by
  simp [joined]

/-- A fragment put where there was none adds its length. -/
theorem joined_set_length {chunks : List (Option Bytes)} {i : ℕ} (payload : Bytes)
    (h : chunks[i]? = some none) :
    (joined (chunks.set i (some payload))).length = (joined chunks).length + payload.length := by
  induction chunks generalizing i with
  | nil => simp at h
  | cons c _ ih =>
    cases i with
    | zero =>
      obtain rfl : c = none := by simpa using h
      simp [joined, add_comm]
    | succ i =>
      have hrest := ih (i := i) (by simpa using h)
      simp [joined] at hrest ⊢
      omega

/-- A transfer under way: what it was announced as, the fragments so far, and the
retries it superseded. -/
structure PartialResultTransfer where
  requestId : String
  itemIndex : ℕ
  transferDigest : Digest
  chunkCount : ℕ
  totalBytes : ℕ
  chunks : List (Option Bytes)
  bufferedBytes : ℕ
  reservationBytes : ℕ
  /-- Superseded digests of this item, oldest first. -/
  retiredDigests : List Digest
  /-- Superseded chunk counts of this digest, oldest first. -/
  retiredChunkCounts : List ℕ
  chunks_length : chunks.length = chunkCount
  buffered_eq : bufferedBytes = (joined chunks).length
  buffered_le : bufferedBytes ≤ totalBytes

/-- A chunk that passed the checks on its own fields. -/
structure CheckedChunk extends ResultChunkV1 where
  digest : Digest
  digest_eq : digest.1 = transferDigest
  index_lt : chunkIndex < chunkCount
  payload_le : payload.length ≤ totalBytes

namespace PartialResultTransfer

/-- The fragment at a chunk's index, when the chunk counts agree. -/
def slot (p : PartialResultTransfer) (chunk : CheckedChunk) (h : p.chunkCount = chunk.chunkCount) :
    Option Bytes :=
  p.chunks.get ⟨chunk.chunkIndex, by rw [p.chunks_length, h]; exact chunk.index_lt⟩

theorem slot_eq {p : PartialResultTransfer} {chunk : CheckedChunk}
    {h : p.chunkCount = chunk.chunkCount} {o : Option Bytes} (hslot : p.slot chunk h = o) :
    p.chunks[chunk.chunkIndex]? = some o := by
  rw [← hslot]
  exact getElem?_eq_getElem _

/-- A new transfer with the first fragment that came. -/
def start (chunk : CheckedChunk) (reservationBytes : ℕ) (retiredDigests : List Digest)
    (retiredChunkCounts : List ℕ) : PartialResultTransfer where
  requestId := chunk.requestId
  itemIndex := chunk.itemIndex
  transferDigest := chunk.digest
  chunkCount := chunk.chunkCount
  totalBytes := chunk.totalBytes
  chunks := (replicate chunk.chunkCount none).set chunk.chunkIndex (some chunk.payload)
  bufferedBytes := chunk.payload.length
  reservationBytes := reservationBytes
  retiredDigests := retiredDigests
  retiredChunkCounts := retiredChunkCounts
  chunks_length := by simp
  buffered_eq := by
    have hnone : (replicate chunk.chunkCount (none : Option Bytes))[chunk.chunkIndex]? =
        some none := by simp [chunk.index_lt]
    rw [joined_set_length chunk.payload hnone, joined_replicate_none]
    simp
  buffered_le := chunk.payload_le

/-- The transfer with one more fragment. -/
def insert (p : PartialResultTransfer) (chunk : CheckedChunk) (h : p.chunkCount = chunk.chunkCount)
    (hslot : p.slot chunk h = none) (hle : p.bufferedBytes + chunk.payload.length ≤ p.totalBytes) :
    PartialResultTransfer :=
  { p with
    chunks := p.chunks.set chunk.chunkIndex (some chunk.payload)
    bufferedBytes := p.bufferedBytes + chunk.payload.length
    chunks_length := by rw [length_set]; exact p.chunks_length
    buffered_eq := by rw [joined_set_length chunk.payload (slot_eq hslot), p.buffered_eq]
    buffered_le := hle }

end PartialResultTransfer

/-! ## The collector -/

inductive ResultChunkReject
  | kind
  | identity
  | digest
  | chunkCount
  | chunkIndex
  | itemSize
  | payloadSize
  | aggregateSize
  | globalBudget
  | metadataConflict
  | duplicateConflict
  | totalMismatch
  | digestMismatch
  | decode
  deriving DecidableEq

structure CompletedResultTransfer where
  workItemId : String
  requestId : String
  itemIndex : ℕ
  encodedWorkResult : Bytes
  reservationBytes : ℕ
  deriving DecidableEq

inductive ResultChunkStatus
  | buffered
  | duplicate
  | staleRetry
  | complete (completed : CompletedResultTransfer)
  deriving DecidableEq

structure ResultChunkApply where
  status : ResultChunkStatus
  retryReplaced : Bool
  deriving DecidableEq

abbrev ChunkAnswer := Except ResultChunkReject ResultChunkApply

/-- The results of one request, with the transfers under way. -/
structure ResultCollector where
  results : List (Option WorkResult)
  /-- Transfers under way, by work item id. -/
  resultChunkTransfers : AList fun _ : String => PartialResultTransfer
  resultChunkBufferedBytes : ℕ
  resultChunkReservedBytes : ℕ
  resultChunkReservedLimit : ℕ
  poolFallbackSubject : Option String
  directFallbackWorkerId : Option String
  directFallbackRepublishedIndices : Finset ℕ
  directFallbackPayloads : List (Option Bytes)
  directFallbackRepublished : Bool

namespace ResultCollector

/-- A collector for a new request. -/
def new (totalItems : ℕ) (poolFallbackSubject directFallbackWorkerId : Option String) :
    ResultCollector where
  results := replicate totalItems none
  resultChunkTransfers := ∅
  resultChunkBufferedBytes := 0
  resultChunkReservedBytes := 0
  resultChunkReservedLimit := maxResultChunkReservedBytesPerRequest
  poolFallbackSubject := poolFallbackSubject
  directFallbackWorkerId := directFallbackWorkerId
  directFallbackRepublishedIndices := ∅
  directFallbackPayloads := replicate totalItems none
  directFallbackRepublished := false

section

variable (c : ResultCollector)

/-- An item has its result. -/
def answered (itemIndex : ℕ) : Bool :=
  (c.results[itemIndex]?.getD none).isSome

/-- Put a result into its slot. -/
def putResult (result : WorkResult) : ResultCollector :=
  { c with results := c.results.set result.itemIndex (some result) }

def transfer (workItemId : String) : Option PartialResultTransfer :=
  c.resultChunkTransfers.lookup workItemId

/-- Put a transfer under its item, with another count of buffered bytes. -/
def putTransfer (workItemId : String) (p : PartialResultTransfer)
    (bufferedBytes : ℕ) : ResultCollector :=
  { c with
    resultChunkTransfers := c.resultChunkTransfers.insert workItemId p
    resultChunkBufferedBytes := bufferedBytes }

/-- Take a transfer out; its reservation stays. -/
def removeTransfer (workItemId : String) (p : PartialResultTransfer) : ResultCollector :=
  { c with
    resultChunkTransfers := c.resultChunkTransfers.erase workItemId
    resultChunkBufferedBytes := c.resultChunkBufferedBytes - p.bufferedBytes }

/-- The collector's part of `release_result_chunk_reservation`. -/
def unreserve (bytes : ℕ) : ResultCollector :=
  { c with resultChunkReservedBytes := c.resultChunkReservedBytes - bytes }

/-- Reserve for a transfer: in the request's limit first, then in the budget. -/
def reserveResultChunkTransfer (budget : ResultChunkBudget)
    (totalBytes : ℕ) : Except ResultChunkReject (ResultCollector × ResultChunkBudget × ℕ) :=
  match resultChunkReservationBytes totalBytes with
  | none => .error .aggregateSize
  | some reservationBytes =>
    match checkedAdd c.resultChunkReservedBytes reservationBytes with
    | none => .error .aggregateSize
    | some requestTotal =>
      if c.resultChunkReservedLimit < requestTotal then .error .aggregateSize
      else
        match budget.tryReserve reservationBytes with
        | none => .error .globalBudget
        | some budget =>
          .ok ({ c with resultChunkReservedBytes := requestTotal }, budget,
            reservationBytes)

/-- The reservation of a new transfer: the one of the transfer it replaces, if that
was kept for it. -/
def reservationFor (budget : ResultChunkBudget) (totalBytes : ℕ) :
    Option ℕ → Except ResultChunkReject (ResultCollector × ResultChunkBudget × ℕ)
  | some bytes => .ok (c, budget, bytes)
  | none => c.reserveResultChunkTransfer budget totalBytes

end

end ResultCollector

/-! ## One chunk -/

/-- The checks on the chunk's own fields, in the code's order. -/
def checkChunk (c : ResultCollector) (chunk : ResultChunkV1) :
    Except ResultChunkReject CheckedChunk :=
  if chunk.kind ≠ resultChunkKind then .error .kind
  else if chunk.requestId.isEmpty ∨ chunk.workItemId.isEmpty then .error .identity
  else if c.results.length ≤ chunk.itemIndex ∨
      chunk.workItemId ≠ canonicalWorkItemId chunk.requestId chunk.itemIndex then
    .error .identity
  else if hdigest : chunk.transferDigest.length = 32 then
    if chunk.chunkCount = 0 ∨ maxResultChunksPerItem < chunk.chunkCount then .error .chunkCount
    else if hindex : chunk.chunkIndex < chunk.chunkCount then
      if chunk.totalBytes = 0 ∨ maxResultChunkItemBytes < chunk.totalBytes then .error .itemSize
      else if hpayload : chunk.payload.length ≤ chunk.totalBytes then
        .ok { chunk with
          digest := ⟨chunk.transferDigest, hdigest⟩
          digest_eq := rfl
          index_lt := hindex
          payload_le := hpayload }
      else .error .payloadSize
    else .error .chunkIndex
  else .error .digest

/-- What a superseded transfer leaves to its replacement. -/
structure Replacement where
  retiredDigests : List Digest
  retiredChunkCounts : List ℕ
  reservationBytes : Option ℕ
  retryReplaced : Bool

/-- No transfer is superseded. -/
def Replacement.none : Replacement := ⟨[], [], Option.none, false⟩

/-- Push to a list of tombstones; the oldest goes when it is full. -/
def retire {α : Type} (limit : ℕ) (retired : List α) (a : α) : List α :=
  (if retired.length = limit then retired.drop 1 else retired) ++ [a]

/-- A chunk is answered at once, or goes on to be buffered. -/
inductive Arbitration
  | answer (a : ChunkAnswer)
  | proceed (r : Replacement)

/-- Arbitration between the transfer under way and the chunk's own: the collector, the
bytes it releases, and how to go on. -/
def arbitrate (c : ResultCollector) (chunk : CheckedChunk) : ResultCollector × ℕ × Arbitration :=
  match c.transfer chunk.workItemId with
  | none => (c, 0, .proceed .none)
  | some current =>
    if current.transferDigest ≠ chunk.digest then
      -- a retry starts with its chunk zero, and a tombstoned digest never comes back
      if chunk.chunkIndex ≠ 0 ∨ chunk.digest ∈ current.retiredDigests then
        (c, 0, .answer (.ok ⟨.staleRetry, false⟩))
      else
        ((c.removeTransfer chunk.workItemId current).unreserve current.reservationBytes,
          current.reservationBytes,
          .proceed
            { retiredDigests := retire maxRetiredResultChunkDigests current.retiredDigests
                current.transferDigest
              retiredChunkCounts := []
              reservationBytes := none
              retryReplaced := true })
    else if current.totalBytes ≠ chunk.totalBytes then
      (c, 0, .answer (.error .metadataConflict))
    else if current.chunkCount ≠ chunk.chunkCount then
      if chunk.chunkCount ∈ current.retiredChunkCounts then
        (c, 0, .answer (.ok ⟨.staleRetry, false⟩))
      else if chunk.chunkIndex ≠ 0 then (c, 0, .answer (.error .metadataConflict))
      else
        (c.removeTransfer chunk.workItemId current, 0,
          .proceed
            { retiredDigests := current.retiredDigests
              retiredChunkCounts := retire maxRetiredResultChunkLayouts
                current.retiredChunkCounts current.chunkCount
              reservationBytes := some current.reservationBytes
              retryReplaced := true })
    else (c, 0, .proceed .none)

/-- Result of the first part of `apply_result_chunk`. -/
inductive Begun
  | answer (a : ChunkAnswer)
  | proceed (chunk : CheckedChunk) (r : Replacement)

/-- First part of `apply_result_chunk`: the checks, the filled slot, the arbitration. -/
def beginChunk (c : ResultCollector) (chunk : ResultChunkV1) : ResultCollector × ℕ × Begun :=
  match checkChunk c chunk with
  | .error e => (c, 0, .answer (.error e))
  | .ok checked =>
    if c.answered chunk.itemIndex then (c, 0, .answer (.ok ⟨.duplicate, false⟩))
    else
      match arbitrate c checked with
      | (c, released, .answer a) => (c, released, .answer a)
      | (c, released, .proceed r) => (c, released, .proceed checked r)

/-- Result of the second part of `apply_result_chunk`, with the reservation it leaves
behind. -/
structure Applied where
  collector : ResultCollector
  budget : ResultChunkBudget
  answer : ChunkAnswer
  abandoned : Option ℕ

/-- Take the transfer out when its last fragment is in, and check it. -/
def finishTransfer (sha256 : Bytes → Digest) (c : ResultCollector) (budget : ResultChunkBudget)
    (workItemId : String) (retryReplaced : Bool) : Applied :=
  match c.transfer workItemId with
  | none => ⟨c, budget, .ok ⟨.buffered, retryReplaced⟩, none⟩
  | some p =>
    if p.chunks.all Option.isSome then
      let c := c.removeTransfer workItemId p
      if p.bufferedBytes ≠ p.totalBytes then
        ⟨c, budget, .error .totalMismatch, some p.reservationBytes⟩
      else
        let encodedWorkResult := joined p.chunks
        if encodedWorkResult.length ≠ p.totalBytes then
          ⟨c, budget, .error .totalMismatch, some p.reservationBytes⟩
        else if sha256 encodedWorkResult ≠ p.transferDigest then
          ⟨c, budget, .error .digestMismatch, some p.reservationBytes⟩
        else
          ⟨c, budget,
            .ok ⟨.complete
              { workItemId, requestId := p.requestId, itemIndex := p.itemIndex,
                encodedWorkResult, reservationBytes := p.reservationBytes }, retryReplaced⟩,
            none⟩
    else ⟨c, budget, .ok ⟨.buffered, retryReplaced⟩, none⟩

/-- A chunk is answered without being buffered, or its transfer goes into the
collector with the new count of buffered bytes. -/
inductive Buffering
  | stop (a : Applied)
  | put (collector : ResultCollector) (budget : ResultChunkBudget) (p : PartialResultTransfer)
      (bufferedBytes : ℕ)

/-- Add the fragment to the transfer under way, or start a new one. -/
def bufferChunk (c : ResultCollector) (budget : ResultChunkBudget) (chunk : CheckedChunk)
    (r : Replacement) : Buffering :=
  match c.transfer chunk.workItemId with
  | some p =>
    if hmeta : p.requestId = chunk.requestId ∧ p.itemIndex = chunk.itemIndex ∧
        p.chunkCount = chunk.chunkCount ∧ p.totalBytes = chunk.totalBytes then
      match hslot : p.slot chunk hmeta.2.2.1 with
      | some existing =>
        if existing = chunk.payload then
          .stop ⟨c, budget, .ok ⟨.duplicate, r.retryReplaced⟩, none⟩
        else .stop ⟨c, budget, .error .duplicateConflict, none⟩
      | none =>
        -- a sum past the largest word is refused the same way
        if hle : p.bufferedBytes + chunk.payload.length ≤ p.totalBytes then
          match checkedAdd c.resultChunkBufferedBytes chunk.payload.length with
          | none => .stop ⟨c, budget, .error .aggregateSize, none⟩
          | some bufferedBytes =>
            .put c budget (p.insert chunk hmeta.2.2.1 hslot hle) bufferedBytes
        else .stop ⟨c, budget, .error .payloadSize, none⟩
    else .stop ⟨c, budget, .error .metadataConflict, none⟩
  | none =>
    match c.reservationFor budget chunk.totalBytes r.reservationBytes with
    | .error e => .stop ⟨c, budget, .error e, none⟩
    | .ok (c, budget, reservationBytes) =>
      match checkedAdd c.resultChunkBufferedBytes chunk.payload.length with
      | none => .stop ⟨c, budget, .error .aggregateSize, some reservationBytes⟩
      | some bufferedBytes =>
        .put c budget
          (.start chunk reservationBytes r.retiredDigests r.retiredChunkCounts)
          bufferedBytes

section

variable (sha256 : Bytes → Digest) (c : ResultCollector) (budget : ResultChunkBudget)

/-- Second part of `apply_result_chunk`: buffer the fragment and finish a complete
transfer. -/
def insertChunk (chunk : CheckedChunk) (r : Replacement) : Applied :=
  match bufferChunk c budget chunk r with
  | .stop a => a
  | .put c budget p bufferedBytes =>
    finishTransfer sha256 (c.putTransfer chunk.workItemId p bufferedBytes) budget
      chunk.workItemId r.retryReplaced

/-- The whole of `apply_result_chunk`, when no other request comes in between. -/
def applyResultChunk (chunk : ResultChunkV1) : Applied :=
  match beginChunk c chunk with
  | (c, released, .answer a) => ⟨c, budget.release released, a, none⟩
  | (c, released, .proceed checked r) =>
    insertChunk sha256 c (budget.release released) checked r

end

/-! ## Whole results -/

/-- Decode a completed transfer; the result must be of the item it came for. -/
def decodeCompletedResult (decode : Bytes → Option WorkResult)
    (completed : CompletedResultTransfer) : Except ResultChunkReject WorkResult :=
  match decode completed.encodedWorkResult with
  | none => .error .decode
  | some result =>
    if result.workItemId ≠ completed.workItemId ∨ result.requestId ≠ completed.requestId ∨
        result.itemIndex ≠ completed.itemIndex then
      .error .identity
    else .ok result

/-- Drop the transfer of an item; the collector and the bytes it releases. -/
def dropResultChunkTransfer (c : ResultCollector) (workItemId : String) : ResultCollector × ℕ :=
  match c.transfer workItemId with
  | none => (c, 0)
  | some p =>
    ((c.removeTransfer workItemId p).unreserve p.reservationBytes, p.reservationBytes)

inductive StoreResultOutcome
  | stored
  | duplicate
  | staleDirectFallback
  | outOfRange
  deriving DecidableEq

def storeResultIfMissing (c : ResultCollector) (result : WorkResult) :
    ResultCollector × StoreResultOutcome :=
  if c.results.length ≤ result.itemIndex then (c, .outOfRange)
  else if result.workerDirect ∧ result.itemIndex ∈ c.directFallbackRepublishedIndices then
    (c, .staleDirectFallback)
  else if c.answered result.itemIndex then (c, .duplicate)
  else (c.putResult result, .stored)

/-- The locked part of `handle_result_with_chunk_reservation`: store, and release the
reservation of a result that is refused or of fragments that a stored one outran. -/
def storeResult (c : ResultCollector) (result : WorkResult) (completedReservationBytes : ℕ) :
    ResultCollector × ℕ × StoreResultOutcome :=
  match storeResultIfMissing c result with
  | (c, .stored) =>
    let (c, released) := dropResultChunkTransfer c result.workItemId
    (c, released, .stored)
  | (c, outcome) => (c.unreserve completedReservationBytes, completedReservationBytes, outcome)

def ResultCollector.allDone (c : ResultCollector) : Bool := c.results.all Option.isSome

/-- The results of a request that fails as a whole. -/
def failedResults (requestId : String) (totalItems : ℕ) : List WorkResult :=
  (range totalItems).map fun itemIndex =>
    { workItemId := canonicalWorkItemId requestId itemIndex
      requestId
      itemIndex
      success := false
      resultMsgpack := []
      error := some "Worker result transport validation failed"
      errorCode := some "transport_failure"
      workerDirect := false }

/-! ## The direct-to-pool fallback -/

/-- The payloads of the items without a result, once. -/
def takeDirectFallbackPayloads (c : ResultCollector) :
    Option (ResultCollector × String × Option String × List (ℕ × Bytes)) :=
  if c.directFallbackRepublished then none
  else
    match c.poolFallbackSubject with
    | none => none
    | some subject =>
      let payloads := (range c.directFallbackPayloads.length).filterMap fun index =>
        if c.results[index]? = some none then
          (c.directFallbackPayloads[index]?.getD none).map fun bytes => (index, bytes)
        else none
      if payloads.isEmpty then none
      else some ({ c with directFallbackRepublished := true }, subject,
        c.directFallbackWorkerId, payloads)

/-- The pool has the items durably. -/
def markDirectFallbackConfirmed (c : ResultCollector) (indices : List ℕ) : ResultCollector :=
  { c with
    directFallbackRepublished := true
    directFallbackRepublishedIndices := c.directFallbackRepublishedIndices ∪ indices.toFinset }

/-- Keep the published payloads for a later fallback. -/
def cacheDirectFallbackPayloads (c : ResultCollector) (items : List (ℕ × Bytes)) :
    ResultCollector :=
  if c.poolFallbackSubject.isSome then
    { c with
      directFallbackPayloads := items.foldl
        (fun payloads item => payloads.set item.1 (some item.2)) c.directFallbackPayloads }
  else c

end Sie.Gateway
