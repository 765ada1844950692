import Sie.Wire.IpcResponseChunk

/-!
# Writing an IPC response

Model of `_write_response_envelope` in `sie_server/ipc_server.py`: a response that fits a frame
is written as it is, and a larger one as a sequence of chunks of its bytes, if the sidecar
negotiated them.  SHA-256 and the frame of an error envelope are parameters of the writer;
`errorFrame` is what `_send_error` packs.
-/

namespace Sie.Server

open Sie.Wire Sie.Lib.Msgpack List

def maxFrameBytes : ℕ := 32 * 1024 * 1024

def ipcResponseChunkPayloadBytes : ℕ := 4 * 1024 * 1024

def maxChunkedIpcResponseBytes : ℕ := 128 * 1024 * 1024

def maxIpcResponseChunks : ℕ := 64

/-- The frames that went out, and the size of the chunk frame that was refused, if one was. -/
structure Written where
  frames : List Bytes
  tooLarge : Option ℕ
  deriving DecidableEq

/-- The slice of a response that a chunk carries. -/
def piece (payload : Bytes) (i : ℕ) : Bytes :=
  (payload.drop (i * ipcResponseChunkPayloadBytes)).take ipcResponseChunkPayloadBytes

def chunkCount (payload : Bytes) : ℕ :=
  (payload.length + ipcResponseChunkPayloadBytes - 1) / ipcResponseChunkPayloadBytes

section
variable (sha256 : Bytes → Digest) (errorFrame : String → String → Bytes)

def responseChunk (requestId : String) (payload : Bytes) (i : ℕ) : IpcResponseChunkV1 where
  version := ipcVersion
  requestId := requestId
  transferDigest := (sha256 payload).1
  chunkIndex := i
  chunkCount := chunkCount payload
  totalBytes := payload.length
  payload := piece payload i
  kind := ipcResponseChunkKindV1

/-- The loop over the chunks: a frame over the limit raises. -/
def writeChunks : List IpcResponseChunkV1 → Written
  | [] => ⟨[], none⟩
  | c :: rest =>
    if c.packb.length > maxFrameBytes then ⟨[], some c.packb.length⟩
    else
      let written := writeChunks rest
      { written with frames := c.packb :: written.frames }

def writeResponseEnvelope (acceptsResponseChunksV1 : Bool) (requestId : String) (payload : Bytes) :
    Written :=
  if payload.length ≤ maxFrameBytes then ⟨[payload], none⟩
  else if !acceptsResponseChunksV1 then
    ⟨[errorFrame requestId ("IPC response exceeds the legacy frame limit; " ++
      "response chunking v1 was not negotiated")], none⟩
  else if payload.length > maxChunkedIpcResponseBytes ∨
      chunkCount payload > maxIpcResponseChunks then
    ⟨[errorFrame requestId "IPC response exceeds the negotiated response chunking v1 bounds"],
      none⟩
  else
    writeChunks ((range (chunkCount payload)).map (responseChunk sha256 requestId payload))

end

/-! ### Whole responses -/

/-- A body as `msgpack.packb` writes it, the bytes of one value; the packer nests less deep than
the sidecar reads. -/
structure PackedBody where
  bytes : Bytes
  value : Value
  reads : Reads 1023 bytes value

/-- A response.  Wherever one is built, its version is `IPC_VERSION`. -/
structure ResponseEnvelope where
  requestId : String
  ok : Bool
  body : PackedBody
  error : Option String

namespace ResponseEnvelope
variable (e : ResponseEnvelope)

/-- The items of `_envelope_to_dict`, packed. -/
def fields : List (String × Bytes) :=
  [("version", writeUint ipcVersion), ("request_id", writeStr e.requestId),
    ("ok", [if e.ok then 0xc3 else 0xc2]), ("body", e.body.bytes),
    ("error", e.error.elim [0xc0] writeStr)]

/-- Bytes of `msgpack.packb(_envelope_to_dict(envelope), use_bin_type=True)`, which raises on a
text of 4 GiB. -/
def packb : Option Bytes :=
  if (utf8 e.requestId).length < 2 ^ 32 ∧ ∀ s ∈ e.error, (utf8 s).length < 2 ^ 32 then
    some (writeMapLen e.fields.length ++ e.fields.flatMap writeField)
  else none

end ResponseEnvelope

/-- The envelope of `_send_error`. -/
def errorEnvelope (requestId message : String) : ResponseEnvelope :=
  ⟨requestId, false, ⟨[0xc0], .nil, fun _ => rfl⟩, some message⟩

def errorFrame (requestId message : String) : Bytes :=
  (errorEnvelope requestId message).packb.getD []

/-! ### The chunks of a large response -/

/-- A response that is written in chunks, with a request id that fits the room beside a full
payload in a frame. -/
structure Chunked (requestId : String) (payload : Bytes) : Prop where
  large : maxFrameBytes < payload.length
  bounded : payload.length ≤ maxChunkedIpcResponseBytes
  requestId : (writeStr requestId).length + 154 ≤ 4 * 1024

section
variable {requestId : String} {payload : Bytes} {i : ℕ}

section

variable (payload i)

theorem piece_length : (piece payload i).length =
    min ipcResponseChunkPayloadBytes (payload.length - i * ipcResponseChunkPayloadBytes) := by
  simp [piece]

theorem piece_length_le : (piece payload i).length ≤ ipcResponseChunkPayloadBytes := by
  rw [piece_length]
  omega

/-- The pieces cover the response: a piece begins within it exactly if its index is one. -/
theorem lt_chunkCount_iff :
    i < chunkCount payload ↔ i * ipcResponseChunkPayloadBytes < payload.length := by
  unfold chunkCount ipcResponseChunkPayloadBytes
  omega

end

theorem writeStr_length (s : String) :
    (writeStr s).length = (strHeader (utf8 s).length).length + (utf8 s).length := length_append

theorem Chunked.utf8_lt (h : Chunked requestId payload) : (utf8 requestId).length < 2 ^ 32 := by
  have hid := h.requestId
  rw [writeStr_length] at hid
  exact lt_of_le_of_lt (by omega : _ ≤ 4096) (by decide)

theorem Chunked.chunkCount_pos (h : Chunked requestId payload) : 0 < chunkCount payload := by
  have hlarge := h.large
  unfold chunkCount ipcResponseChunkPayloadBytes
  omega

theorem chunkCount_le (h : payload.length ≤ maxChunkedIpcResponseBytes) :
    chunkCount payload ≤ 32 := by
  unfold maxChunkedIpcResponseBytes at h
  unfold chunkCount ipcResponseChunkPayloadBytes
  omega

theorem responseChunk_fits (hid : (utf8 requestId).length < 2 ^ 32)
    (hbounded : payload.length ≤ maxChunkedIpcResponseBytes) (hi : i < chunkCount payload)
    (sha256 : Bytes → Digest) : (responseChunk sha256 requestId payload i).Fits := by
  have hcount := chunkCount_le hbounded
  have hpiece := piece_length_le payload i
  have hversion : ipcVersion < 2 ^ 32 := by decide
  have hkind : (utf8 ipcResponseChunkKindV1).length < 2 ^ 32 := by decide +kernel
  refine ⟨hversion, hid, ?_, ?_, ?_, ?_, ?_, hkind⟩
  · exact (sha256 payload).2.trans_lt (by decide)
  · exact lt_of_lt_of_le hi (by omega)
  · exact lt_of_le_of_lt hcount (by decide)
  · exact lt_of_le_of_lt hbounded (by decide)
  · exact lt_of_le_of_lt hpiece (by decide)

theorem writeUint_length_small {v : ℕ} (h : v < 2 ^ 7) : (writeUint v).length = 1 := by
  rw [writeUint, if_pos h]
  rfl

/-- The size of a frame: 154 bytes at most beside the request id and the piece. -/
theorem packb_length (hbounded : payload.length ≤ maxChunkedIpcResponseBytes)
    (hi : i < chunkCount payload) (requestId : String) (sha256 : Bytes → Digest) :
    (responseChunk sha256 requestId payload i).packb.length ≤
      (writeStr requestId).length + (piece payload i).length + 154 := by
  have hcount := chunkCount_le hbounded
  have hversion := writeUint_length_small (by decide : ipcVersion < 2 ^ 7)
  have hindex : (writeUint i).length = 1 := writeUint_length_small (by omega)
  have hchunks := writeUint_length_small (by omega : chunkCount payload < 2 ^ 7)
  have htotal : (writeUint payload.length).length ≤ 5 :=
    (writeUint_length_mono (hbounded.trans (by decide : _ ≤ 2 ^ 32 - 1))).trans (by decide)
  have hdigest : (writeBin (sha256 payload).1).length = 34 := by
    rw [writeBin, length_append, (sha256 payload).2]
    rfl
  have hbin : (writeBin (piece payload i)).length ≤ (piece payload i).length + 5 := by
    rw [writeBin, length_append]
    unfold binHeader
    split_ifs <;> simp <;> omega
  have hkind : (writeStr ipcResponseChunkKindV1).length = 22 := by decide +kernel
  have hkeys : (writeStr "version").length = 8 ∧ (writeStr "request_id").length = 11 ∧
      (writeStr "transfer_digest").length = 16 ∧ (writeStr "chunk_index").length = 12 ∧
      (writeStr "chunk_count").length = 12 ∧ (writeStr "total_bytes").length = 12 ∧
      (writeStr "payload").length = 8 ∧ (writeStr "kind").length = 5 := by decide +kernel
  have hmap : (writeMapLen (0 + 1 + 1 + 1 + 1 + 1 + 1 + 1 + 1)).length = 1 := rfl
  simp only [IpcResponseChunkV1.packb, IpcResponseChunkV1.fields, responseChunk, writeField,
    flatMap_cons, flatMap_nil, length_append, length_cons, length_nil]
  omega

theorem Chunked.packb_length_le (h : Chunked requestId payload) (sha256 : Bytes → Digest)
    (hi : i < chunkCount payload) : (responseChunk sha256 requestId payload i).packb.length ≤
      ipcResponseChunkPayloadBytes + 4 * 1024 := by
  have hid := h.requestId
  have hlen := packb_length h.bounded hi requestId sha256
  have hpiece := piece_length_le payload i
  omega

theorem writeChunks_eq {chunks : List IpcResponseChunkV1}
    (h : ∀ c ∈ chunks, c.packb.length ≤ maxFrameBytes) :
    writeChunks chunks = ⟨chunks.map IpcResponseChunkV1.packb, none⟩ := by
  induction chunks with
  | nil => rfl
  | cons c chunks ih =>
    have hc := h c mem_cons_self
    rw [writeChunks, if_neg (by omega), ih fun x hx => h x (mem_cons_of_mem _ hx)]
    rfl

theorem mem_writeChunks {chunks : List IpcResponseChunkV1} {frame : Bytes}
    (h : frame ∈ (writeChunks chunks).frames) : ∃ c ∈ chunks, frame = c.packb := by
  induction chunks with
  | nil => cases h
  | cons c chunks ih =>
    rw [writeChunks] at h
    split at h
    case isTrue => cases h
    case isFalse =>
      rcases mem_cons.mp h with rfl | h
      · exact ⟨c, mem_cons_self, rfl⟩
      · obtain ⟨c', hc', heq⟩ := ih h
        exact ⟨c', mem_cons_of_mem _ hc', heq⟩

/-- **A large response is written in chunks**, and no chunk frame is refused. -/
theorem Chunked.writeResponseEnvelope_eq (h : Chunked requestId payload) (sha256 : Bytes → Digest)
    (errorFrame : String → String → Bytes) :
    writeResponseEnvelope sha256 errorFrame true requestId payload =
      ⟨(range (chunkCount payload)).map fun i =>
        (responseChunk sha256 requestId payload i).packb, none⟩ := by
  have hlarge := h.large
  have hmax : chunkCount payload ≤ maxIpcResponseChunks :=
    (chunkCount_le h.bounded).trans (by decide)
  rw [writeResponseEnvelope, if_neg (by omega), if_neg (by simp),
    if_neg (by have := h.bounded; omega), writeChunks_eq, map_map]
  · rfl
  · intro c hc
    obtain ⟨i, hi, rfl⟩ := mem_map.mp hc
    exact (h.packb_length_le sha256 (mem_range.mp hi)).trans (by decide)

end

end Sie.Server
