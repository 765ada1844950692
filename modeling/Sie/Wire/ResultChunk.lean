import Sie.Lib.Msgpack

/-!
# The result-chunk envelope

The envelope in which a worker's sidecar sends one piece of an encoded result and
which the gateway puts together again: `ResultChunkV1Ref` on the one side,
`ResultChunkV1` on the other, the same fields under the same names.

## Main definitions

* `ResultChunkV1` — the envelope; `toVecNamed` — its bytes.
* `canonicalWorkItemId` — the name of an item of a request.
-/

namespace Sie.Wire

open Sie.Lib.Msgpack

abbrev Bytes := List UInt8

/-- A SHA-256 digest. -/
abbrev Digest := { d : Bytes // d.length = 32 }

/-- A stand-in for SHA-256 where a run is evaluated: the first bytes, padded. -/
def padded (bytes : Bytes) : Digest := ⟨(bytes ++ List.replicate 32 0).take 32, by simp⟩

def resultChunkKind : String := "result_chunk_v1"

/-- One piece of an encoded `WorkResult`. -/
structure ResultChunkV1 where
  kind : String
  workItemId : String
  requestId : String
  itemIndex : ℕ
  transferDigest : Bytes
  chunkIndex : ℕ
  chunkCount : ℕ
  totalBytes : ℕ
  payload : Bytes
  deriving DecidableEq

/-- Bytes of `rmp_serde::to_vec_named`: a map from the field names, in their order. -/
def ResultChunkV1.toVecNamed (c : ResultChunkV1) : Bytes :=
  writeMapLen 9 ++ (writeStr "kind" ++ writeStr c.kind) ++
    (writeStr "work_item_id" ++ writeStr c.workItemId) ++
    (writeStr "request_id" ++ writeStr c.requestId) ++
    (writeStr "item_index" ++ writeUint c.itemIndex) ++
    (writeStr "transfer_digest" ++ writeBin c.transferDigest) ++
    (writeStr "chunk_index" ++ writeUint c.chunkIndex) ++
    (writeStr "chunk_count" ++ writeUint c.chunkCount) ++
    (writeStr "total_bytes" ++ writeUint c.totalBytes) ++
    (writeStr "payload" ++ writeBin c.payload)

/-- A chunk with a lower index and a payload no longer is no longer on the wire. -/
theorem ResultChunkV1.toVecNamed_length_mono (c : ResultChunkV1) {index : ℕ} {payload : Bytes}
    (hindex : index ≤ c.chunkIndex) (hpayload : payload.length ≤ c.payload.length) :
    ({ c with chunkIndex := index, payload } : ResultChunkV1).toVecNamed.length ≤
      c.toVecNamed.length := by
  have huint := writeUint_length_mono hindex
  have hbin := writeBin_length_mono hpayload
  simp only [toVecNamed, List.length_append]
  omega

/-- Name of an item, `{request_id}.{item_index}`. -/
def canonicalWorkItemId (requestId : String) (itemIndex : ℕ) : String :=
  requestId ++ "." ++ toString itemIndex

end Sie.Wire
