import Sie.Wire.IpcResponseChunk

/-!
# Putting chunked responses together

Model of the sidecar's `protocol/response_chunks.rs`: the process-wide byte budget, and the
assembler that turns the response frames of one request into one response.

SHA-256 is a parameter, and so is whether an allocation succeeds.  The hasher is kept as the
bytes it was fed.  A budget's `checked_add` cannot overflow without exceeding the limit, which is
a `usize`, so sums are natural numbers.
-/

namespace Sie.Sidecar

open Sie.Lib.Msgpack Sie.Wire IpcResponseChunkV1

def ipcResponseChunkPayloadBytes : ℕ := 4 * 1024 * 1024

def maxChunkedIpcResponseBytes : ℕ := 128 * 1024 * 1024

def maxIpcResponseChunks : ℕ := 64

def legacyIpcResponseFrameBytes : ℕ := 32 * 1024 * 1024

def responseDecodeHeadroomBytes : ℕ := 4 * 1024

structure ResponseChunkLimits where
  legacyFrameBytes : ℕ
  maxChunkPayloadBytes : ℕ
  maxChunkedBytes : ℕ
  maxChunks : ℕ
  deriving DecidableEq

def ResponseChunkLimits.production : ResponseChunkLimits where
  legacyFrameBytes := legacyIpcResponseFrameBytes
  maxChunkPayloadBytes := ipcResponseChunkPayloadBytes
  maxChunkedBytes := maxChunkedIpcResponseBytes
  maxChunks := maxIpcResponseChunks

def ResponseChunkLimits.maxChunkFrameBytes (l : ResponseChunkLimits) : ℕ :=
  l.maxChunkPayloadBytes + responseDecodeHeadroomBytes

inductive ResponseChunkError
  | malformedEnvelope
  | missingRequestId
  | requestIdMismatch
  | malformedChunk
  | versionMismatch
  | missingFirstChunk
  | outOfOrder
  | layoutMismatch
  | invalidBounds
  | invalidDigest
  | globalBudgetExceeded
  | legacyDuringTransfer
  | allocationFailed
  deriving DecidableEq

/-! ### The budget -/

structure ResponseChunkBudget where
  used : ℕ
  limit : ℕ
  deriving DecidableEq

/-- `reserve`: the loop ends with one atomic update, or with an error. -/
def ResponseChunkBudget.reserve (b : ResponseChunkBudget) (bytes : ℕ) :
    Option ResponseChunkBudget :=
  if b.used + bytes > b.limit then none else some { b with used := b.used + bytes }

/-- The drop of a reservation. -/
def ResponseChunkBudget.release (b : ResponseChunkBudget) (bytes : ℕ) : ResponseChunkBudget :=
  { b with used := b.used - bytes }

/-! ### Frames -/

def responseFrameHead (limits : ResponseChunkLimits) (frame : Bytes) :
    Except ResponseChunkError ResponseFrameHead :=
  match ResponseFrameHead.fromSlice frame with
  | none => .error .malformedEnvelope
  | some head =>
    if head.kind = some ipcResponseChunkKindV1 ∧ frame.length > limits.maxChunkFrameBytes then
      .error .invalidBounds
    else .ok head

/-- The route of a frame whose first three keys are those of a response or of a chunk. -/
def canonicalResponseFrameRoute : Bytes → Option (String × Bool)
  | [] => none
  | byte :: data =>
    match Marker.ofByte byte with
    | .fixMap entries =>
      if entries < 3 then none
      else do
        let (versionKey, rest) ← readStr data
        if versionKey ≠ "version" ∨ rest.head? ≠ some (UInt8.ofNat ipcVersion) then none
        else
          let (requestIdKey, rest) ← readStr (rest.drop 1)
          if requestIdKey ≠ "request_id" then none
          else
            let (requestId, rest) ← readStr rest
            let (thirdKey, _) ← readStr rest
            if thirdKey = "ok" then some (requestId, false)
            else if thirdKey = "transfer_digest" then some (requestId, true)
            else none
    | _ => none

structure ResponseFrameRoute where
  requestId : String
  requiresChunkParser : Bool
  deriving DecidableEq

def responseFrameRoute (limits : ResponseChunkLimits) (frame : Bytes) :
    Except ResponseChunkError ResponseFrameRoute :=
  match canonicalResponseFrameRoute frame with
  | some (requestId, requiresChunkParser) =>
    if requestId = "" then .error .missingRequestId
    else .ok ⟨requestId, requiresChunkParser⟩
  | none =>
    match responseFrameHead limits frame with
    | .error e => .error e
    | .ok head =>
      if head.requestId = "" then .error .missingRequestId
      else .ok ⟨head.requestId, head.kind = some ipcResponseChunkKindV1⟩

/-! ### The assembler -/

structure TransferState where
  digest : Bytes
  chunkCount : ℕ
  totalBytes : ℕ
  nextIndex : ℕ
  bytes : Bytes
  hasher : Bytes
  reservation : ℕ
  deriving DecidableEq

/-- A response with the reservation that is charged until it is dropped. -/
structure AssembledResponse where
  bytes : Bytes
  reservation : Option ℕ
  chunkCount : Option ℕ
  deriving DecidableEq

inductive ResponseFrameStatus
  | pending
  | complete (response : AssembledResponse)
  deriving DecidableEq

structure ResponseAssembler where
  expectedRequestId : String
  transfer : Option TransferState
  deriving DecidableEq

abbrev FrameResult := Except ResponseChunkError ResponseFrameStatus

/-- What a push leaves: the budget, the assembler, and the result. -/
structure Pushed where
  budget : ResponseChunkBudget
  assembler : ResponseAssembler
  result : FrameResult

/-- What is reserved for a transfer. -/
def reservedBytes (totalBytes : ℕ) : ℕ := 2 * totalBytes + responseDecodeHeadroomBytes

/-- The bounds of a chunk. -/
def withinBounds (limits : ResponseChunkLimits) (c : IpcResponseChunkV1) : Bool :=
  ¬ (c.chunkCount = 0 ∨ c.chunkCount > limits.maxChunks ∨ c.totalBytes = 0 ∨
    c.totalBytes ≤ limits.legacyFrameBytes ∨ c.totalBytes > limits.maxChunkedBytes ∨
    c.payload = [] ∨ c.payload.length > limits.maxChunkPayloadBytes ∨
    c.payload.length > c.totalBytes ∨ c.chunkCount > c.totalBytes ∨ c.transferDigest.length ≠ 32)

/-- The state of a transfer before its first chunk. -/
def newTransfer (c : IpcResponseChunkV1) : TransferState where
  digest := c.transferDigest
  chunkCount := c.chunkCount
  totalBytes := c.totalBytes
  nextIndex := 0
  bytes := []
  hasher := []
  reservation := reservedBytes c.totalBytes

/-- A transfer starts with the chunk of index zero, if the budget allows it. -/
def openTransfer (allocates : Bool) (b : ResponseChunkBudget) (c : IpcResponseChunkV1) :
    Except ResponseChunkError (ResponseChunkBudget × TransferState) :=
  if c.chunkIndex ≠ 0 then .error .missingFirstChunk
  else
    match b.reserve (reservedBytes c.totalBytes) with
    | none => .error .globalBudgetExceeded
    -- A failed allocation drops the reservation.
    | some b' => if allocates then .ok (b', newTransfer c) else .error .allocationFailed

/-- The chunk belongs to the transfer and is the next one. -/
def TransferState.append (t : TransferState) (c : IpcResponseChunkV1) :
    Except ResponseChunkError TransferState :=
  if c.chunkCount ≠ t.chunkCount ∨ c.totalBytes ≠ t.totalBytes ∨ c.transferDigest ≠ t.digest then
    .error .layoutMismatch
  else if c.chunkIndex ≠ t.nextIndex then .error .outOfOrder
  else if t.bytes.length + c.payload.length > t.totalBytes then .error .invalidBounds
  else .ok { t with
    hasher := t.hasher ++ c.payload
    bytes := t.bytes ++ c.payload
    nextIndex := t.nextIndex + 1 }

namespace ResponseAssembler
variable (limits : ResponseChunkLimits) (sha256 : Bytes → Digest) (allocates : Bool)

section

variable (b : ResponseChunkBudget) (a : ResponseAssembler)

/-- The transfer after a chunk: it goes on, or it is complete and verified. -/
def settle (t : TransferState) : Pushed :=
  let kept : ResponseAssembler := { a with transfer := some t }
  let taken : ResponseAssembler := { a with transfer := none }
  if t.nextIndex < t.chunkCount then
    if t.bytes.length = t.totalBytes then ⟨b, kept, .error .invalidBounds⟩
    else ⟨b, kept, .ok .pending⟩
  else if t.nextIndex ≠ t.chunkCount ∨ t.bytes.length ≠ t.totalBytes then
    ⟨b, kept, .error .invalidBounds⟩
  else if (sha256 t.hasher).1 ≠ t.digest then
    ⟨b.release t.reservation, taken, .error .invalidDigest⟩
  else ⟨b, taken, .ok (.complete ⟨t.bytes, some t.reservation, some t.chunkCount⟩)⟩

/-- The transfer a chunk goes to. -/
def transferFor (c : IpcResponseChunkV1) :
    Except ResponseChunkError (ResponseChunkBudget × TransferState) :=
  match a.transfer with
  | some t => .ok (b, t)
  | none => openTransfer allocates b c

def pushChunk (c : IpcResponseChunkV1) : Pushed :=
  if c.version ≠ ipcVersion then ⟨b, a, .error .versionMismatch⟩
  else if c.requestId ≠ a.expectedRequestId then ⟨b, a, .error .requestIdMismatch⟩
  else if !withinBounds limits c then ⟨b, a, .error .invalidBounds⟩
  else
    match transferFor allocates b a c with
    | .error e => ⟨b, a, .error e⟩
    | .ok (b, t) =>
      match t.append c with
      | .error e => ⟨b, { a with transfer := some t }, .error e⟩
      | .ok t => settle sha256 b a t

end

def pushLegacy (a : ResponseAssembler) (frame : Bytes) : FrameResult :=
  if a.transfer.isSome then .error .legacyDuringTransfer
  else .ok (.complete ⟨frame, none, none⟩)

def push (b : ResponseChunkBudget) (a : ResponseAssembler) (frame : Bytes) : Pushed :=
  match responseFrameHead limits frame with
  | .error e => ⟨b, a, .error e⟩
  | .ok head =>
    if head.requestId = "" then ⟨b, a, .error .missingRequestId⟩
    else if head.requestId ≠ a.expectedRequestId then ⟨b, a, .error .requestIdMismatch⟩
    else if head.kind ≠ some ipcResponseChunkKindV1 then ⟨b, a, a.pushLegacy frame⟩
    else
      match fromSlice frame with
      | none => ⟨b, a, .error .malformedChunk⟩
      | some c => pushChunk limits sha256 allocates b a c

variable {limits sha256 allocates} {b b' : ResponseChunkBudget} {a : ResponseAssembler}
  {c : IpcResponseChunkV1} {t t' : TransferState} {frame : Bytes}

theorem settle_eq_complete (hindex : t.nextIndex = t.chunkCount)
    (hlen : t.bytes.length = t.totalBytes) (hdigest : (sha256 t.hasher).1 = t.digest) :
    a.settle sha256 b t = ⟨b, { a with transfer := none },
      .ok (.complete ⟨t.bytes, some t.reservation, some t.chunkCount⟩)⟩ := by
  rw [settle, if_neg hindex.not_lt, if_neg (by simp [hindex, hlen]), if_neg (by simp [hdigest])]

/-- A frame with a chunk of the request that is within bounds and the next one. -/
theorem push_eq_settle (hhead : responseFrameHead limits frame =
      .ok ⟨some ipcResponseChunkKindV1, a.expectedRequestId⟩)
    (hne : a.expectedRequestId ≠ "") (hc : fromSlice frame = some c)
    (hversion : c.version = ipcVersion) (hid : c.requestId = a.expectedRequestId)
    (hbounds : withinBounds limits c = true) (ht : a.transferFor allocates b c = .ok (b', t))
    (happend : t.append c = .ok t') :
    a.push limits sha256 allocates b frame = a.settle sha256 b' t' := by
  rw [push, hhead]
  dsimp only
  rw [if_neg hne, if_neg (by simp), if_neg (by simp), hc]
  dsimp only
  rw [pushChunk, if_neg (by simp [hversion]), if_neg (by simp [hid]), if_neg (by simp [hbounds]),
    ht]
  dsimp only
  rw [happend]

end ResponseAssembler

/-! ### What pushing a frame does -/

/-- The reservation of an assembler. -/
def ResponseAssembler.reserved (a : ResponseAssembler) : ℕ :=
  (a.transfer.map TransferState.reservation).getD 0

/-- The reservation of a response. -/
def AssembledResponse.reserved (r : AssembledResponse) : ℕ := r.reservation.getD 0

/-- The transfer is under way, or begins with the chunk and its reservation. -/
inductive TransferSpec (b : ResponseChunkBudget) (a : ResponseAssembler) (c : IpcResponseChunkV1) :
    ResponseChunkBudget → TransferState → Prop
  | running {t : TransferState} (h : a.transfer = some t) : TransferSpec b a c b t
  | opened {b' : ResponseChunkBudget} (h : a.transfer = none) (hindex : c.chunkIndex = 0)
      (hreserve : b.reserve (reservedBytes c.totalBytes) = some b') :
      TransferSpec b a c b' (newTransfer c)

/-- What the append of a chunk says. -/
structure AppendSpec (t : TransferState) (c : IpcResponseChunkV1) (t' : TransferState) : Prop where
  count : c.chunkCount = t.chunkCount
  total : c.totalBytes = t.totalBytes
  digest : c.transferDigest = t.digest
  index : c.chunkIndex = t.nextIndex
  le : t.bytes.length + c.payload.length ≤ t.totalBytes
  eq : t' = { t with
    hasher := t.hasher ++ c.payload
    bytes := t.bytes ++ c.payload
    nextIndex := t.nextIndex + 1 }

/-- The frame carries the request id and is not marked as a chunk. -/
def LegacyFrame (requestId : String) (frame : Bytes) : Prop :=
  ∃ head, ResponseFrameHead.fromSlice frame = some head ∧ head.requestId = requestId ∧
    head.kind ≠ some ipcResponseChunkKindV1

/-- The outcomes of a frame: nothing changes; a chunk is refused or appended; the last chunk
drops the transfer or completes it; or the frame is a whole response. -/
inductive PushSpec (sha256 : Bytes → Digest) (b : ResponseChunkBudget) (a : ResponseAssembler)
    (frame : Bytes) : Pushed → Prop
  | refused (e : ResponseChunkError) : PushSpec sha256 b a frame ⟨b, a, .error e⟩
  | whole (h : a.transfer = none) (hframe : LegacyFrame a.expectedRequestId frame) :
      PushSpec sha256 b a frame ⟨b, a, .ok (.complete ⟨frame, none, none⟩)⟩
  | chunkRefused {c : IpcResponseChunkV1} {b' : ResponseChunkBudget} {t : TransferState}
      (hc : fromSlice frame = some c) (ht : TransferSpec b a c b' t)
      (e : ResponseChunkError) :
      PushSpec sha256 b a frame ⟨b', { a with transfer := some t }, .error e⟩
  | appended {c : IpcResponseChunkV1} {b' : ResponseChunkBudget} {t t' : TransferState}
      (hc : fromSlice frame = some c) (hid : c.requestId = a.expectedRequestId)
      (ht : TransferSpec b a c b' t) (happend : AppendSpec t c t') (r : FrameResult)
      (hr : ∀ response, r ≠ .ok (.complete response)) :
      PushSpec sha256 b a frame ⟨b', { a with transfer := some t' }, r⟩
  | dropped {c : IpcResponseChunkV1} {b' : ResponseChunkBudget} {t t' : TransferState}
      (hc : fromSlice frame = some c) (hid : c.requestId = a.expectedRequestId)
      (ht : TransferSpec b a c b' t) (happend : AppendSpec t c t') :
      PushSpec sha256 b a frame
        ⟨b'.release t'.reservation, { a with transfer := none }, .error .invalidDigest⟩
  | completed {c : IpcResponseChunkV1} {b' : ResponseChunkBudget} {t t' : TransferState}
      (hc : fromSlice frame = some c) (hid : c.requestId = a.expectedRequestId)
      (ht : TransferSpec b a c b' t) (happend : AppendSpec t c t')
      (hlast : t'.nextIndex = t'.chunkCount) (hlen : t'.bytes.length = t'.totalBytes)
      (hdigest : (sha256 t'.hasher).1 = t'.digest) :
      PushSpec sha256 b a frame ⟨b', { a with transfer := none },
        .ok (.complete ⟨t'.bytes, some t'.reservation, some t'.chunkCount⟩)⟩

section
variable {limits : ResponseChunkLimits} {sha256 : Bytes → Digest} {allocates : Bool}
  {b b' : ResponseChunkBudget} {a : ResponseAssembler} {c : IpcResponseChunkV1}
  {t t' : TransferState} {frame : Bytes}

theorem transferFor_eq_ok (h : a.transferFor allocates b c = .ok (b', t)) :
    TransferSpec b a c b' t := by
  unfold ResponseAssembler.transferFor at h
  split at h
  case h_1 t' ht =>
    cases h
    exact .running ht
  case h_2 hnone =>
    unfold openTransfer at h
    split at h
    · cases h
    split at h
    · cases h
    split at h
    · cases h
      exact .opened hnone (by omega) (by assumption)
    · cases h

theorem append_eq_ok (h : t.append c = .ok t') : AppendSpec t c t' := by
  unfold TransferState.append at h
  split at h
  · cases h
  rename_i hlayout
  push Not at hlayout
  split at h
  · cases h
  split at h
  · cases h
  · cases h
    exact ⟨hlayout.1, hlayout.2.1, hlayout.2.2, by omega, by omega, rfl⟩

theorem pushChunk_spec (hc : fromSlice frame = some c) :
    PushSpec sha256 b a frame (a.pushChunk limits sha256 allocates b c) := by
  unfold ResponseAssembler.pushChunk
  split
  · exact .refused _
  split
  · exact .refused _
  rename_i hid
  split
  · exact .refused _
  split
  · exact .refused _
  rename_i b' t ht
  have htransfer := transferFor_eq_ok ht
  split
  · exact .chunkRefused hc htransfer _
  rename_i t' happend
  have happend := append_eq_ok happend
  have hid : c.requestId = a.expectedRequestId := by simpa using hid
  unfold ResponseAssembler.settle
  dsimp only
  split
  · split
    · exact .appended hc hid htransfer happend _ (by simp)
    · exact .appended hc hid htransfer happend _ (by simp)
  split
  · exact .appended hc hid htransfer happend _ (by simp)
  rename_i hlast
  push Not at hlast
  split_ifs with hdigest
  · exact .dropped hc hid htransfer happend
  · exact .completed hc hid htransfer happend hlast.1 hlast.2 (by simpa using hdigest)

theorem responseFrameHead_eq_ok {head : ResponseFrameHead}
    (h : responseFrameHead limits frame = .ok head) :
    ResponseFrameHead.fromSlice frame = some head := by
  unfold responseFrameHead at h
  split at h
  case h_1 => cases h
  case h_2 _ hhead =>
    split at h
    · cases h
    · cases h
      exact hhead

/-- **What pushing a frame does.** -/
theorem push_spec : PushSpec sha256 b a frame (a.push limits sha256 allocates b frame) := by
  unfold ResponseAssembler.push
  split
  · exact .refused _
  rename_i head hhead
  split
  · exact .refused _
  split
  · exact .refused _
  rename_i hid
  split_ifs with hkind
  · unfold ResponseAssembler.pushLegacy
    split_ifs with hnone
    · exact .refused _
    · exact .whole (by simpa using hnone)
        ⟨head, responseFrameHead_eq_ok hhead, by simpa using hid, hkind⟩
  · split
    · exact .refused _
    · exact pushChunk_spec (by assumption)

end

/-! ### Reservations -/

/-- What a result takes along. -/
def FrameResult.reserved : FrameResult → ℕ
  | .ok (.complete r) => r.reserved
  | _ => 0

section
variable {sha256 : Bytes → Digest} {b b' : ResponseChunkBudget} {a : ResponseAssembler}
  {c : IpcResponseChunkV1} {t t' : TransferState} {frame : Bytes} {p : Pushed}

theorem reserve_eq_some {bytes : ℕ} (h : b.reserve bytes = some b') :
    b'.used = b.used + bytes ∧ b'.limit = b.limit ∧ b'.used ≤ b'.limit := by
  unfold ResponseChunkBudget.reserve at h
  split at h <;> cases h
  case isFalse => exact ⟨rfl, rfl, by dsimp only; omega⟩

/-- The reservation of a transfer comes from the budget. -/
theorem TransferSpec.used (h : TransferSpec b a c b' t) (hle : b.used ≤ b.limit) :
    b'.used + a.reserved = b.used + t.reservation ∧ b'.limit = b.limit ∧ b'.used ≤ b.limit := by
  cases h with
  | running h => simp [ResponseAssembler.reserved, h, hle]
  | opened h _ hreserve =>
    obtain ⟨hused, hlimit, _⟩ := reserve_eq_some hreserve
    have hnone : a.reserved = 0 := by simp [ResponseAssembler.reserved, h]
    exact ⟨by rw [hused, hnone]; rfl, hlimit, by omega⟩

theorem AppendSpec.reservation (h : AppendSpec t c t') : t'.reservation = t.reservation := by
  rw [h.eq]

/-- **Every byte is charged once**: what a push takes from the budget is what the assembler and
the response hold more than the assembler held. -/
theorem PushSpec.used (h : PushSpec sha256 b a frame p) (hheld : a.reserved ≤ b.used)
    (hle : b.used ≤ b.limit) :
    p.budget.used + a.reserved = b.used + p.assembler.reserved + p.result.reserved ∧
      p.budget.limit = b.limit ∧ p.budget.used ≤ b.limit := by
  cases h with
  | refused | whole => exact ⟨rfl, rfl, hle⟩
  | chunkRefused _ ht => exact ht.used hle
  | appended _ _ ht happend r hr =>
    have hres : FrameResult.reserved r = 0 := by
      unfold FrameResult.reserved
      split
      · exact absurd rfl (hr _)
      · rfl
    obtain ⟨hused, hlimit, hle'⟩ := ht.used hle
    refine ⟨?_, hlimit, hle'⟩
    dsimp only
    rw [hused, hres, ← happend.reservation]
    rfl
  | dropped _ _ ht happend =>
    obtain ⟨hused, hlimit, hle'⟩ := ht.used hle
    have hres := happend.reservation
    refine ⟨?_, hlimit, ?_⟩
    · change _ - _ + a.reserved = b.used + 0 + 0
      omega
    · simp only [ResponseChunkBudget.release]
      omega
  | completed _ _ ht happend =>
    obtain ⟨hused, hlimit, hle'⟩ := ht.used hle
    refine ⟨?_, hlimit, hle'⟩
    have hres := happend.reservation
    change _ + a.reserved = b.used + 0 + _
    simp only [FrameResult.reserved, AssembledResponse.reserved, Option.getD_some]
    omega

/-- A frame for an assembler that is a whole response. -/
theorem pushLegacy_books (a : ResponseAssembler) (b : ResponseChunkBudget) (frame : Bytes)
    (hle : b.used ≤ b.limit) :
    b.used + a.reserved = b.used + a.reserved + (a.pushLegacy frame).reserved ∧
      b.limit = b.limit ∧ b.used ≤ b.limit := by
  refine ⟨?_, rfl, hle⟩
  unfold ResponseAssembler.pushLegacy
  split <;> rfl

end

variable {requestId : String} {t : TransferState} {chunks : List IpcResponseChunkV1}

/-! ### The chunks of a transfer -/

/-- The chunk is the one of the given index in a transfer with the layout. -/
structure HasLayout (requestId : String) (count total : ℕ) (digest : Bytes) (i : ℕ)
    (c : IpcResponseChunkV1) : Prop where
  requestId : c.requestId = requestId
  index : c.chunkIndex = i
  count : c.chunkCount = count
  total : c.totalBytes = total
  digest : c.transferDigest = digest

/-- The transfer holds the payloads of the chunks, which have its layout and come in order. -/
structure Collected (requestId : String) (t : TransferState) (chunks : List IpcResponseChunkV1) :
    Prop where
  length : chunks.length = t.nextIndex
  layout : ∀ i c, chunks[i]? = some c →
    HasLayout requestId t.chunkCount t.totalBytes t.digest i c
  bytes : t.bytes = chunks.flatMap payload
  hasher : t.hasher = t.bytes
  reservation : t.reservation = reservedBytes t.totalBytes

theorem Collected.append {t' : TransferState} {c : IpcResponseChunkV1}
    (h : Collected requestId t chunks) (hid : c.requestId = requestId)
    (happend : AppendSpec t c t') : Collected requestId t' (chunks ++ [c]) := by
  obtain ⟨hcount, htotal, hdigest, hindex, -, rfl⟩ := happend
  refine ⟨by simp [h.length], fun i x hx => ?_, by simp [h.bytes], by simp [h.hasher],
    h.reservation⟩
  rcases Nat.lt_trichotomy i chunks.length with hi | hi | hi
  · rw [List.getElem?_append_left hi] at hx
    exact h.layout i x hx
  · subst hi
    rw [List.getElem?_concat_length] at hx
    cases hx
    exact ⟨hid, by rw [hindex, h.length], hcount, htotal, hdigest⟩
  · rw [List.getElem?_eq_none (by simp; omega)] at hx
    cases hx

/-- The response is what the chunks declare: as long, with the digest, and made of their
payloads in order. -/
structure Declared (sha256 : Bytes → Digest) (requestId : String)
    (chunks : List IpcResponseChunkV1) (r : AssembledResponse) : Prop where
  count : r.chunkCount = some chunks.length
  layout : ∀ i c, chunks[i]? = some c →
    HasLayout requestId chunks.length r.bytes.length (sha256 r.bytes).1 i c
  bytes : r.bytes = chunks.flatMap payload
  reservation : r.reservation = some (reservedBytes r.bytes.length)

theorem Collected.declared {sha256 : Bytes → Digest} (h : Collected requestId t chunks)
    (hlast : t.nextIndex = t.chunkCount) (hlen : t.bytes.length = t.totalBytes)
    (hdigest : (sha256 t.hasher).1 = t.digest) :
    Declared sha256 requestId chunks ⟨t.bytes, some t.reservation, some t.chunkCount⟩ := by
  refine ⟨by rw [h.length, hlast], fun i c hc => ?_, h.bytes, ?_⟩
  · have hlayout := h.layout i c hc
    rwa [← hlast, ← h.length, ← hlen, ← hdigest, h.hasher] at hlayout
  · rw [h.reservation, hlen]

/-! ### What an assembler holds and hands out -/

/-- The transfer under way, if there is one, is made of chunks with the property. -/
def ResponseAssembler.Holds (P : IpcResponseChunkV1 → Prop) (a : ResponseAssembler) : Prop :=
  ∀ t, a.transfer = some t →
    ∃ chunks, Collected a.expectedRequestId t chunks ∧ ∀ c ∈ chunks, P c

/-- What a frame may give: nothing, one of the frames that may be whole responses, or what chunks
with the property declare. -/
inductive Gives (sha256 : Bytes → Digest) (P : IpcResponseChunkV1 → Prop) (W : Bytes → Prop)
    (requestId : String) : FrameResult → Prop
  | nothing {r : FrameResult} (h : ∀ response, r ≠ .ok (.complete response)) :
      Gives sha256 P W requestId r
  | whole {frame : Bytes} (h : W frame) :
      Gives sha256 P W requestId (.ok (.complete ⟨frame, none, none⟩))
  | declared {chunks : List IpcResponseChunkV1} {r : AssembledResponse}
      (h : Declared sha256 requestId chunks r) (hP : ∀ c ∈ chunks, P c) :
      Gives sha256 P W requestId (.ok (.complete r))

section
variable {sha256 : Bytes → Digest} {P Q : IpcResponseChunkV1 → Prop} {W V : Bytes → Prop}
  {frame : Bytes} {b b' : ResponseChunkBudget} {a : ResponseAssembler}
  {c : IpcResponseChunkV1} {t' : TransferState} {p : Pushed} {r : FrameResult}

theorem ResponseAssembler.Holds.mono (h : a.Holds P) (hPQ : ∀ c, P c → Q c) : a.Holds Q := by
  intro t ht
  obtain ⟨chunks, hchunks, hP⟩ := h t ht
  exact ⟨chunks, hchunks, fun c hc => hPQ c (hP c hc)⟩

theorem Gives.mono (h : Gives sha256 P W requestId r) (hPQ : ∀ c, P c → Q c)
    (hWV : ∀ frame, W frame → V frame) : Gives sha256 Q V requestId r := by
  cases h with
  | nothing h => exact .nothing h
  | whole h => exact .whole (hWV _ h)
  | declared h hP => exact .declared h fun c hc => hPQ c (hP c hc)

/-- The chunks of the transfer a chunk goes to. -/
theorem TransferSpec.collected (h : TransferSpec b a c b' t) (hmade : a.Holds P) :
    ∃ chunks, Collected a.expectedRequestId t chunks ∧ ∀ c ∈ chunks, P c := by
  cases h with
  | running h => exact hmade t h
  | opened => exact ⟨[], ⟨rfl, by simp, rfl, rfl, rfl⟩, by simp⟩

/-- One chunk more. -/
theorem TransferSpec.collected_append (ht : TransferSpec b a c b' t) (happend : AppendSpec t c t')
    (hid : c.requestId = a.expectedRequestId) (hc : P c) (hmade : a.Holds P) :
    ∃ chunks, Collected a.expectedRequestId t' chunks ∧ ∀ c ∈ chunks, P c := by
  obtain ⟨chunks, hchunks, hP⟩ := ht.collected hmade
  refine ⟨chunks ++ [c], hchunks.append hid happend, fun x hx => ?_⟩
  rcases List.mem_append.mp hx with hx | hx
  · exact hP x hx
  · rwa [List.mem_singleton.mp hx]

theorem pushLegacy_gives (hW : W frame) : Gives sha256 P W requestId (a.pushLegacy frame) := by
  unfold ResponseAssembler.pushLegacy
  split
  · exact .nothing (by simp)
  · exact .whole hW

/-- **What pushing a frame keeps and gives.** -/
theorem PushSpec.gives (h : PushSpec sha256 b a frame p) (hP : ∀ c, fromSlice frame = some c → P c)
    (hW : LegacyFrame a.expectedRequestId frame → W frame) (hmade : a.Holds P) :
    p.assembler.Holds P ∧ p.assembler.expectedRequestId = a.expectedRequestId ∧
      Gives sha256 P W a.expectedRequestId p.result := by
  cases h with
  | refused => exact ⟨hmade, rfl, .nothing (by simp)⟩
  | whole _ hframe => exact ⟨hmade, rfl, .whole (hW hframe)⟩
  | chunkRefused _ ht =>
    refine ⟨fun t' ht' => ?_, rfl, .nothing (by simp)⟩
    cases ht'
    exact ht.collected hmade
  | appended hc hid ht happend _ hr =>
    refine ⟨fun t' ht' => ?_, rfl, .nothing hr⟩
    cases ht'
    exact ht.collected_append happend hid (hP _ hc) hmade
  | dropped => exact ⟨by simp [ResponseAssembler.Holds], rfl, .nothing (by simp)⟩
  | completed hc hid ht happend hlast hlen hdigest =>
    obtain ⟨_, hchunks, hall⟩ := ht.collected_append happend hid (hP _ hc) hmade
    exact ⟨by simp [ResponseAssembler.Holds], rfl, .declared
        (hchunks.declared hlast hlen hdigest) hall⟩

end

end Sie.Sidecar
