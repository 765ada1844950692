import Sie.Lib.Msgpack.RoundTrip
import Sie.Wire.ResultChunk

/-!
# The IPC response-chunk envelope

The envelope in which the engine sends one piece of an oversized response over the IPC socket:
`IpcResponseChunkV1` in `sie_server/ipc_types.py`, packed by `msgpack.packb`, and the struct of
the same name in the sidecar's `protocol/ipc_types.rs`, read by `rmp_serde::from_slice`.
-/

namespace Sie.Wire

open Sie.Lib.Msgpack Option

def ipcVersion : ℕ := 1

def ipcResponseChunkKindV1 : String := "ipc_response_chunk_v1"

/-- One piece of an encoded response. -/
structure IpcResponseChunkV1 where
  version : ℕ
  requestId : String
  transferDigest : Bytes
  chunkIndex : ℕ
  chunkCount : ℕ
  totalBytes : ℕ
  payload : Bytes
  kind : String
  deriving DecidableEq

/-- Nesting that `rmp_serde` allows. -/
def rmpDepth : ℕ := 1024

/-- An unsigned integer below a bound. -/
def asUint (bound : ℕ) : Value → Option ℕ
  | .int n => if 0 ≤ n ∧ n < bound then some n.toNat else none
  | _ => none

/-- A value read as bytes: bytes, a string, or a list of bytes. -/
def asBytes : Value → Option Bytes
  | .bin bytes => some bytes
  | .str s => some (utf8 s)
  | .arr items => items.mapM fun v => (asUint 256 v).map UInt8.ofNat
  | _ => none

namespace IpcResponseChunkV1

def fieldNames : List String :=
  ["version", "request_id", "transfer_digest", "chunk_index", "chunk_count", "total_bytes",
    "payload", "kind"]

/-- The fields with their encoded values. -/
def fields (c : IpcResponseChunkV1) : List (String × Bytes) :=
  [("version", writeUint c.version), ("request_id", writeStr c.requestId),
    ("transfer_digest", writeBin c.transferDigest), ("chunk_index", writeUint c.chunkIndex),
    ("chunk_count", writeUint c.chunkCount), ("total_bytes", writeUint c.totalBytes),
    ("payload", writeBin c.payload), ("kind", writeStr c.kind)]

/-- Bytes of `msgpack.packb(_to_builtins(chunk), use_bin_type=True)`. -/
def packb (c : IpcResponseChunkV1) : Bytes :=
  writeMapLen c.fields.length ++ c.fields.flatMap writeField

/-- The envelope from the values of its fields. -/
def ofSlots (s : ℕ → Option Value) : Option IpcResponseChunkV1 := do
  return {
    version := ← (s 0).bind (asUint (2 ^ 32))
    requestId := ← (s 1).bind asString
    transferDigest := ← (s 2).bind asBytes
    chunkIndex := ← (s 3).bind (asUint (2 ^ 32))
    chunkCount := ← (s 4).bind (asUint (2 ^ 32))
    totalBytes := ← (s 5).bind (asUint (2 ^ 64))
    payload := ← (s 6).bind asBytes
    kind := ← (s 7).bind asString }

def fromSlice (frame : Bytes) : Option IpcResponseChunkV1 :=
  (decode rmpDepth frame).bind fun v => (slots fieldNames v.1).bind ofSlots

end IpcResponseChunkV1

/-- The fields by which a response frame is told apart; both may be missing. -/
structure ResponseFrameHead where
  kind : Option String
  requestId : String
  deriving DecidableEq

/-- An optional string: missing and nil are none. -/
def asOptString : Option Value → Option (Option String)
  | none => some none
  | some .nil => some none
  | some v => (asString v).map some

/-- A string with a default. -/
def asDefaultString : Option Value → Option String
  | none => some ""
  | some v => asString v

def ResponseFrameHead.fromSlice (frame : Bytes) : Option ResponseFrameHead := do
  let v ← decode rmpDepth frame
  let s ← slots ["kind", "request_id"] v.1
  return { kind := ← asOptString (s 0), requestId := ← asDefaultString (s 1) }

/-! ### Round trip -/

/-- The numbers fit their wire types, and the texts and bytes their headers. -/
structure IpcResponseChunkV1.Fits (c : IpcResponseChunkV1) : Prop where
  version : c.version < 2 ^ 32
  requestId : (utf8 c.requestId).length < 2 ^ 32
  transferDigest : c.transferDigest.length < 2 ^ 32
  chunkIndex : c.chunkIndex < 2 ^ 32
  chunkCount : c.chunkCount < 2 ^ 32
  totalBytes : c.totalBytes < 2 ^ 64
  payload : c.payload.length < 2 ^ 32
  kind : (utf8 c.kind).length < 2 ^ 32

section
variable {c : IpcResponseChunkV1}

/-- The entries of a packed envelope. -/
def IpcResponseChunkV1.entries (c : IpcResponseChunkV1) : List (Value × Value) :=
  [(.str "version", .int c.version), (.str "request_id", .str c.requestId),
    (.str "transfer_digest", .bin c.transferDigest), (.str "chunk_index", .int c.chunkIndex),
    (.str "chunk_count", .int c.chunkCount), (.str "total_bytes", .int c.totalBytes),
    (.str "payload", .bin c.payload), (.str "kind", .str c.kind)]

theorem decode_packb (h : c.Fits) : decode rmpDepth c.packb = some (.map c.entries, []) := by
  have hkeys : ∀ f ∈ c.fields, (utf8 f.1).length < 2 ^ 32 := by
    simp [IpcResponseChunkV1.fields]
    decide +kernel
  have huint : ∀ {v : ℕ}, v < 2 ^ 32 → v < 2 ^ 64 := fun hv => hv.trans (by decide)
  have hvalues : List.Forall₂ (fun f v => Reads 1023 f.2 v) c.fields (c.entries.map Prod.snd) :=
    .cons (fun _ => decode_writeUint (huint h.version))
      (.cons (fun _ => decode_writeStr h.requestId)
      (.cons (fun _ => decode_writeBin h.transferDigest)
      (.cons (fun _ => decode_writeUint (huint h.chunkIndex))
      (.cons (fun _ => decode_writeUint (huint h.chunkCount))
      (.cons (fun _ => decode_writeUint h.totalBytes) (.cons (fun _ => decode_writeBin h.payload)
      (.cons (fun _ => decode_writeStr h.kind) .nil)))))))
  have hlen : c.fields.length < 2 ^ 4 := by simp [IpcResponseChunkV1.fields]
  have hreads := decode_writeMap hlen hkeys hvalues []
  rwa [List.append_nil] at hreads

theorem asUint_int {bound n : ℕ} (h : n < bound) : asUint bound (.int n) = some n := by
  rw [asUint, if_pos ⟨by omega, by exact_mod_cast h⟩]
  simp

/-- The fields of a packed envelope, where they are looked for. -/
theorem slots_entries (c : IpcResponseChunkV1) : ∃ s,
    slots IpcResponseChunkV1.fieldNames (.map c.entries) = some s ∧
      s 0 = some (.int c.version) ∧ s 1 = some (.str c.requestId) ∧
      s 2 = some (.bin c.transferDigest) ∧ s 3 = some (.int c.chunkIndex) ∧
      s 4 = some (.int c.chunkCount) ∧ s 5 = some (.int c.totalBytes) ∧
      s 6 = some (.bin c.payload) ∧ s 7 = some (.str c.kind) :=
  ⟨_, rfl, rfl, rfl, rfl, rfl, rfl, rfl, rfl, rfl⟩

/-- **A packed envelope is read back.** -/
theorem fromSlice_packb (h : c.Fits) : IpcResponseChunkV1.fromSlice c.packb = some c := by
  obtain ⟨s, hs, h0, h1, h2, h3, h4, h5, h6, h7⟩ := slots_entries c
  have h0 : (s 0).bind (asUint (2 ^ 32)) = some c.version := by
    rw [h0, bind_some, asUint_int h.version]
  have h3 : (s 3).bind (asUint (2 ^ 32)) = some c.chunkIndex := by
    rw [h3, bind_some, asUint_int h.chunkIndex]
  have h4 : (s 4).bind (asUint (2 ^ 32)) = some c.chunkCount := by
    rw [h4, bind_some, asUint_int h.chunkCount]
  have h5 : (s 5).bind (asUint (2 ^ 64)) = some c.totalBytes := by
    rw [h5, bind_some, asUint_int h.totalBytes]
  have hofSlots : IpcResponseChunkV1.ofSlots s = some c := by
    rw [IpcResponseChunkV1.ofSlots, h0, h1, h2, h3, h4, h5, h6, h7]
    rfl
  rw [IpcResponseChunkV1.fromSlice, decode_packb h, bind_some, hs, bind_some, hofSlots]

theorem head_packb (h : c.Fits) :
    ResponseFrameHead.fromSlice c.packb = some ⟨some c.kind, c.requestId⟩ := by
  obtain ⟨s, hs, h0, h1⟩ : ∃ s, slots ["kind", "request_id"] (.map c.entries) = some s ∧
      s 0 = some (.str c.kind) ∧ s 1 = some (.str c.requestId) := ⟨_, rfl, rfl, rfl⟩
  simp [ResponseFrameHead.fromSlice, decode_packb h, bind_eq_bind, bind_some, hs, h0, h1,
    asOptString, asDefaultString, asString, map_some, pure_def]

end

end Sie.Wire
