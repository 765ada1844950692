import Mathlib.Algebra.Order.Floor.Div
import Sie.Wire.ResultChunk

/-!
# Sending a result in chunks

The chunk transport of the sidecar's `publisher.rs`: `plan_chunked_work_result`
looks for the smallest number of balanced pieces whose largest envelope fits the
broker's limit, `chunk_bounds` and `encode_chunk` cut and wrap a piece, and the
publish loop sends the envelopes in order.

SHA-256 and the broker are parameters: the digest of the encoded result, whether
the client takes an envelope, and whether the flush goes through.
-/

namespace Sie.Sidecar

open Sie.Wire List

def resultChunkPayloadTargetBytes : ℕ := 768 * 1024

def maxChunkedResultBytes : ℕ := 16 * 1024 * 1024

def maxResultChunks : ℕ := 64

/-- The fields of a `WorkResult` that the plan copies. -/
structure ResultIds where
  workItemId : String
  requestId : String
  itemIndex : ℕ
  deriving DecidableEq

/-- A planned transfer. -/
structure ChunkedWorkResult where
  workItemId : String
  requestId : String
  itemIndex : ℕ
  transferDigest : Digest
  resultBytes : Bytes
  chunkCount : ℕ
  deriving DecidableEq

inductive PublishError
  | nats
  | flush
  | resultChunkPayloadTooLarge (size maxPayload : ℕ)
  deriving DecidableEq

namespace ChunkedWorkResult

section

variable (p : ChunkedWorkResult) (chunkIndex : ℕ)

/-- Where a chunk starts and ends in the result. -/
def chunkBounds : ℕ × ℕ :=
  (p.resultBytes.length * chunkIndex / p.chunkCount,
    p.resultBytes.length * (chunkIndex + 1) / p.chunkCount)

/-- The bytes `result_bytes[start..end]` of a chunk. -/
def piece : Bytes :=
  (p.resultBytes.take (p.chunkBounds chunkIndex).2).drop (p.chunkBounds chunkIndex).1

/-- The envelope of a chunk. -/
def chunk : ResultChunkV1 where
  kind := resultChunkKind
  workItemId := p.workItemId
  requestId := p.requestId
  itemIndex := p.itemIndex
  transferDigest := p.transferDigest
  chunkIndex := chunkIndex
  chunkCount := p.chunkCount
  totalBytes := p.resultBytes.length
  payload := p.piece chunkIndex

def encodeChunk : Bytes :=
  (p.chunk chunkIndex).toVecNamed

end

end ChunkedWorkResult

/-- The probe envelope of a chunk count: the last index with the largest payload. -/
def probe (result : ResultIds) (transferDigest : Digest) (resultBytes : Bytes) (chunkCount : ℕ) :
    ResultChunkV1 where
  kind := resultChunkKind
  workItemId := result.workItemId
  requestId := result.requestId
  itemIndex := result.itemIndex
  transferDigest := transferDigest
  chunkIndex := chunkCount - 1
  chunkCount := chunkCount
  totalBytes := resultBytes.length
  payload := resultBytes.take (resultBytes.length ⌈/⌉ chunkCount)

/-- The smallest chunk count whose largest envelope fits, if one does. -/
def planChunkedWorkResult (sha256 : Bytes → Digest) (result : ResultIds) (resultBytes : Bytes)
    (maxPayload : ℕ) : Option ChunkedWorkResult :=
  if resultBytes.isEmpty || decide (maxChunkedResultBytes < resultBytes.length) then none
  else
    let transferDigest := sha256 resultBytes
    let minChunks := max (resultBytes.length ⌈/⌉ resultChunkPayloadTargetBytes) 1
    let maxChunks := min maxResultChunks resultBytes.length
    ((range' minChunks (maxChunks + 1 - minChunks)).find? fun chunkCount =>
        decide ((probe result transferDigest resultBytes chunkCount).toVecNamed.length ≤
          maxPayload)).map
      fun chunkCount =>
        { workItemId := result.workItemId, requestId := result.requestId,
          itemIndex := result.itemIndex, transferDigest, resultBytes, chunkCount }

/-- Send the chunks with these indices in order; the envelopes that were taken and
how the loop ended. -/
def publishLoop (p : ChunkedWorkResult) (maxPayload : ℕ) (publish : Bytes → Bool) (flush : Bool) :
    List ℕ → List Bytes × Except PublishError Unit
  | [] => ([], if flush then .ok () else .error .flush)
  | chunkIndex :: rest =>
    let bytes := p.encodeChunk chunkIndex
    if maxPayload < bytes.length then
      ([], .error (.resultChunkPayloadTooLarge bytes.length maxPayload))
    else if publish bytes then
      let (sent, outcome) := publishLoop p maxPayload publish flush rest
      (bytes :: sent, outcome)
    else ([], .error .nats)

/-- The publish loop over all chunks of a plan. -/
def publishChunks (p : ChunkedWorkResult) (maxPayload : ℕ) (publish : Bytes → Bool)
    (flush : Bool) : List Bytes × Except PublishError Unit :=
  publishLoop p maxPayload publish flush (range p.chunkCount)

/-! ## What a plan gives -/

/-- The chunks are not empty, each starts where the one before it ends, and together
they are the whole result. -/
structure Ranges (p : ChunkedWorkResult) : Prop where
  nonempty : ∀ i < p.chunkCount, (p.chunkBounds i).1 < (p.chunkBounds i).2
  first : (p.chunkBounds 0).1 = 0
  adjacent : ∀ i, (p.chunkBounds i).2 = (p.chunkBounds (i + 1)).1
  last : (p.chunkBounds (p.chunkCount - 1)).2 = p.resultBytes.length
  cover : (range p.chunkCount).flatMap p.piece = p.resultBytes

variable {sha256 : Bytes → Digest} {result : ResultIds} {resultBytes : Bytes} {maxPayload : ℕ}
  {p : ChunkedWorkResult} {i : ℕ}

/-- A plan copies the result's ids, takes its digest and has a count whose probe fits. -/
theorem plan_eq_some (h : planChunkedWorkResult sha256 result resultBytes maxPayload = some p) :
    0 < p.chunkCount ∧ p.chunkCount ≤ maxResultChunks ∧ p.chunkCount ≤ resultBytes.length ∧
      resultBytes.length ≤ maxChunkedResultBytes ∧
      (probe result (sha256 resultBytes) resultBytes p.chunkCount).toVecNamed.length ≤ maxPayload ∧
      p = { workItemId := result.workItemId, requestId := result.requestId,
            itemIndex := result.itemIndex, transferDigest := sha256 resultBytes, resultBytes,
            chunkCount := p.chunkCount } := by
  unfold planChunkedWorkResult at h
  by_cases hsize : (resultBytes.isEmpty ||
      decide (maxChunkedResultBytes < resultBytes.length)) = true
  · simp [hsize] at h
  rw [if_neg hsize] at h
  obtain ⟨chunkCount, hfind, rfl⟩ := Option.map_eq_some_iff.mp h
  have hmem := mem_range'_1.mp (mem_of_find?_eq_some hfind)
  have hfits := find?_some hfind
  simp at hsize
  have hmin : 1 ≤ max (resultBytes.length ⌈/⌉ resultChunkPayloadTargetBytes) 1 := le_max_right _ _
  have hmax := min_le_left maxResultChunks resultBytes.length
  have hlen := min_le_right maxResultChunks resultBytes.length
  exact ⟨by simp only; omega, by simp only; omega, by simp only; omega, hsize.2,
    by simpa using hfits, rfl⟩

section

variable (p) (hi : i < p.chunkCount)
include hi

theorem chunkBounds_snd_le : (p.chunkBounds i).2 ≤ p.resultBytes.length := by
  calc (p.chunkBounds i).2
      ≤ p.resultBytes.length * p.chunkCount / p.chunkCount :=
        Nat.div_le_div_right (Nat.mul_le_mul_left _ hi)
    _ = p.resultBytes.length := Nat.mul_div_cancel _ (by omega)

theorem piece_length : (p.piece i).length = (p.chunkBounds i).2 - (p.chunkBounds i).1 := by
  have hle := chunkBounds_snd_le p hi
  simp [ChunkedWorkResult.piece, hle]

/-- No piece is longer than the payload that was probed. -/
theorem piece_length_le : (p.piece i).length ≤ p.resultBytes.length ⌈/⌉ p.chunkCount := by
  have hcount : 0 < p.chunkCount := by omega
  have hceil : p.resultBytes.length ≤ p.chunkCount * (p.resultBytes.length ⌈/⌉ p.chunkCount) :=
    le_smul_ceilDiv hcount
  have hend : (p.chunkBounds i).2 ≤
      (p.chunkBounds i).1 + p.resultBytes.length ⌈/⌉ p.chunkCount := by
    calc p.resultBytes.length * (i + 1) / p.chunkCount
        ≤ (p.resultBytes.length * i +
            p.chunkCount * (p.resultBytes.length ⌈/⌉ p.chunkCount)) / p.chunkCount :=
          Nat.div_le_div_right (by rw [Nat.mul_succ]; omega)
      _ = _ := Nat.add_mul_div_left _ _ hcount
  rw [piece_length p hi]
  omega

end

/-- The first pieces are the first bytes. -/
theorem flatMap_piece (p : ChunkedWorkResult) {k : ℕ} (hk : k ≤ p.chunkCount) :
    (range k).flatMap p.piece = p.resultBytes.take (p.chunkBounds k).1 := by
  induction k with
  | zero => simp [ChunkedWorkResult.chunkBounds]
  | succ k ih =>
    have hstart : (p.chunkBounds k).1 ≤ (p.chunkBounds k).2 :=
      Nat.div_le_div_right (Nat.mul_le_mul_left _ (Nat.le_succ k))
    have htake : p.resultBytes.take (p.chunkBounds k).1 =
        (p.resultBytes.take (p.chunkBounds k).2).take (p.chunkBounds k).1 := by
      rw [take_take, min_eq_left hstart]
    rw [range_succ, flatMap_append, ih (by omega), flatMap_singleton, htake]
    exact take_append_drop _ _

section

variable (h : planChunkedWorkResult sha256 result resultBytes maxPayload = some p)
include h

/-- **The pieces of a plan** are not empty and make up the result. -/
theorem plan_ranges : Ranges p := by
  obtain ⟨hpos, -, _, -, -, heq⟩ := plan_eq_some h
  have hbytes : p.resultBytes = resultBytes := by rw [heq]
  have hlast : p.resultBytes.length * p.chunkCount / p.chunkCount = p.resultBytes.length :=
    Nat.mul_div_cancel _ hpos
  constructor
  · intro i hi
    calc p.resultBytes.length * i / p.chunkCount
        < (p.resultBytes.length * i + p.chunkCount) / p.chunkCount := by
          rw [Nat.add_div_right _ hpos]; omega
      _ ≤ p.resultBytes.length * (i + 1) / p.chunkCount :=
          Nat.div_le_div_right (by rw [Nat.mul_succ, hbytes]; omega)
  · simp [ChunkedWorkResult.chunkBounds]
  · intro i
    rfl
  · simp only [ChunkedWorkResult.chunkBounds, Nat.sub_add_cancel hpos]
    exact hlast
  · rw [flatMap_piece p le_rfl]
    simp only [ChunkedWorkResult.chunkBounds]
    rw [hlast, take_length]

/-- **The envelopes of a plan** fit the limit it was made for. -/
theorem plan_encodeChunk_le (hi : i < p.chunkCount) : (p.encodeChunk i).length ≤ maxPayload := by
  obtain ⟨-, -, -, -, hfits, heq⟩ := plan_eq_some h
  have hpiece := piece_length_le p hi
  have hlen := piece_length p hi
  have hend := chunkBounds_snd_le p hi
  have hchunk : p.chunk i =
      { probe result (sha256 resultBytes) resultBytes p.chunkCount with
        chunkIndex := i, payload := p.piece i } := by
    rw [heq]
    rfl
  rw [ChunkedWorkResult.encodeChunk, hchunk]
  refine le_trans (ResultChunkV1.toVecNamed_length_mono _ ?_ ?_) hfits
  · simp only [probe]
    omega
  · have hbytes : p.resultBytes = resultBytes := by rw [heq]
    rw [hbytes] at hpiece hend
    simp only [probe, length_take]
    omega

/-- The size check of the publish loop never fires on indices of the plan. -/
theorem publishLoop_ne_tooLarge (publish : Bytes → Bool) (flush : Bool) {indices : List ℕ}
    (hmem : ∀ i ∈ indices, i < p.chunkCount) (size limit : ℕ) :
    (publishLoop p maxPayload publish flush indices).2 ≠
      .error (.resultChunkPayloadTooLarge size limit) := by
  induction indices with
  | nil =>
    unfold publishLoop
    split <;> simp
  | cons i _ ih =>
    have hfits := plan_encodeChunk_le h (hmem i (by simp))
    have hrest := ih fun j hj => hmem j (by simp [hj])
    simp only [publishLoop, not_lt.mpr hfits, if_false]
    split
    · exact hrest
    · simp

end

end Sie.Sidecar
