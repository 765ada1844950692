import Sie.Lib.Ledger
import Sie.Lib.Run
import Sie.Server.IpcServer
import Sie.Sidecar.ResponseAssembler

/-!
# Responses over the IPC socket

The engine's writer and the sidecar's assembler together: what the one writes in chunks, the
other puts together again; whatever else comes in, a response that is put together is what its
chunks declare; and the memory budget counts what is live.  A frame of the writer is routed by
its first keys as by its whole header, but a chunk over the limit only by its first keys.
-/

namespace Sie.Sidecar

open Sie.Lib Sie.Wire List ResponseAssembler AList ResponseChunkBudget Msgpack
  Server.ResponseEnvelope
open Server (Chunked responseChunk piece chunkCount lt_chunkCount_iff writeResponseEnvelope
  errorFrame)

/-! ### Assemblers that share a budget -/

/-- The assemblers are numbered in the order they are made. -/
structure Assembly where
  budget : ResponseChunkBudget
  made : ℕ
  assemblers : AList fun _ : ℕ => ResponseAssembler
  held : List AssembledResponse

inductive AssemblyEvent
  | new (k : ℕ) (requestId : String)
  | push (k : ℕ) (frame : Bytes) (allocates : Bool)
  | pushLegacy (k : ℕ) (frame : Bytes)
  | drop (k : ℕ)
  | dropResponse (i : ℕ)
  deriving DecidableEq

/-- The responses a result hands out. -/
def FrameResult.responses : FrameResult → List AssembledResponse
  | .ok (.complete r) => [r]
  | _ => []

namespace Assembly
variable (limits : ResponseChunkLimits) (sha256 : Bytes → Digest)

def start (limit : ℕ) : Assembly := ⟨⟨0, limit⟩, 0, ∅, []⟩

/-- The state after a frame went to the assembler `k`. -/
def pushed (s : Assembly) (k : ℕ) (p : Pushed) : Assembly where
  budget := p.budget
  made := s.made
  assemblers := s.assemblers.insert k p.assembler
  held := s.held ++ p.result.responses

def step (s : Assembly) : AssemblyEvent → Option (Assembly × List (ℕ × FrameResult))
  | .new k requestId =>
    if k = s.made then
      some ({ s with
        made := s.made + 1
        assemblers := s.assemblers.insert k ⟨requestId, none⟩ }, [])
    else none
  | .push k frame allocates =>
    match s.assemblers.lookup k with
    | none => none
    | some a =>
      let p := a.push limits sha256 allocates s.budget frame
      some (s.pushed k p, [(k, p.result)])
  | .pushLegacy k frame =>
    match s.assemblers.lookup k with
    | none => none
    | some a =>
      some (s.pushed k ⟨s.budget, a, a.pushLegacy frame⟩, [(k, a.pushLegacy frame)])
  | .drop k =>
    match s.assemblers.lookup k with
    | none => none
    | some a =>
      some ({ s with
        budget := s.budget.release a.reserved
        assemblers := s.assemblers.erase k }, [])
  | .dropResponse i =>
    match s.held[i]? with
    | none => none
    | some r =>
      some ({ s with
        budget := s.budget.release r.reserved
        held := s.held.eraseIdx i }, [])

end Assembly

/-! ### The budget -/

/-- The budget counts the reservations of assemblers and responses, within its limit. -/
structure Assembly.Books (limit : ℕ) (s : Assembly) : Prop where
  limit_eq : s.budget.limit = limit
  fresh : ∀ k, s.made ≤ k → s.assemblers.lookup k = none
  used : s.budget.used =
    total reserved s.assemblers + (s.held.map AssembledResponse.reserved).sum
  le : s.budget.used ≤ limit

theorem FrameResult.sum_responses (r : FrameResult) :
    (r.responses.map AssembledResponse.reserved).sum = r.reserved := by
  cases r with
  | error => rfl
  | ok status => cases status <;> simp [responses, reserved]

section
variable {limits : ResponseChunkLimits} {sha256 : Bytes → Digest} {limit : ℕ} {s s' : Assembly}
  {e : AssemblyEvent} {os : List (ℕ × FrameResult)} {k : ℕ} {es : List AssemblyEvent}
  {a : ResponseAssembler}

theorem sum_eraseIdx {held : List AssembledResponse} {i : ℕ} {r : AssembledResponse}
    (h : held[i]? = some r) : (held.map AssembledResponse.reserved).sum =
      r.reserved + ((held.eraseIdx i).map AssembledResponse.reserved).sum := by
  obtain ⟨hi, rfl⟩ := List.getElem?_eq_some_iff.mp h
  exact ((getElem_cons_eraseIdx_perm hi).map AssembledResponse.reserved).sum_eq.symm

/-- A frame for an assembler. -/
theorem Assembly.Books.pushed {p : Pushed} (h : s.Books limit) (hk : s.assemblers.lookup k = some a)
    (hp : a.reserved ≤ s.budget.used → s.budget.used ≤ s.budget.limit →
      p.budget.used + a.reserved = s.budget.used + p.assembler.reserved + p.result.reserved ∧
        p.budget.limit = s.budget.limit ∧ p.budget.used ≤ s.budget.limit) :
    (s.pushed k p).Books limit := by
  have herase := total_erase reserved hk
  have hused := h.used
  have hmax := h.limit_eq
  obtain ⟨_, hlimit, hle⟩ := hp (by omega) (by rw [hmax]; exact h.le)
  refine ⟨hlimit.trans hmax, fun j hj => ?_, ?_, hle.trans_eq hmax⟩
  · have hjk : j ≠ k := by
      rintro rfl
      rw [h.fresh j hj] at hk
      cases hk
    rw [Assembly.pushed, lookup_insert_ne hjk, h.fresh j hj]
  simp only [Assembly.pushed, total_insert, map_append, sum_append, FrameResult.sum_responses]
  omega

theorem Assembly.Books.next (h : s.Books limit) (hstep : s.step limits sha256 e = some (s', os)) :
    s'.Books limit := by
  have hused := h.used
  have hle := h.le
  cases e with
  | new k =>
    simp only [step] at hstep
    split at hstep
    case isFalse => cases hstep
    case isTrue hk =>
      cases hstep
      refine ⟨h.limit_eq, fun j hj => ?_, ?_, hle⟩
      · dsimp only at hj ⊢
        rw [lookup_insert_ne (by omega), h.fresh j (by omega)]
      · rw [total_insert, total_erase_of_lookup_eq_none _ (h.fresh k hk.ge)]
        simpa [reserved] using hused
  | push =>
    simp only [step] at hstep
    split at hstep <;> cases hstep
    case h_2 a hk => exact h.pushed hk push_spec.used
  | pushLegacy _ frame =>
    simp only [step] at hstep
    split at hstep <;> cases hstep
    case h_2 a hk => exact h.pushed hk fun _ hle => pushLegacy_books a s.budget frame hle
  | drop k =>
    simp only [step] at hstep
    split at hstep <;> cases hstep
    case h_2 a hk =>
      have herase := total_erase reserved hk
      refine ⟨h.limit_eq, fun j hj => ?_, by simp only [release]; omega,
        by simp only [release]; omega⟩
      by_cases hjk : j = k
      · rw [hjk, lookup_erase]
      · rw [lookup_erase_ne hjk, h.fresh j hj]
  | dropResponse =>
    simp only [step] at hstep
    split at hstep <;> cases hstep
    case h_2 r hr =>
      have hsum := sum_eraseIdx hr
      exact ⟨h.limit_eq, h.fresh, by simp only [release]; omega,
        by simp only [release]; omega⟩

/-! ### Where a response comes from -/

section

variable (es)

/-- The chunk came in a frame for the assembler `k`. -/
def CameTo (k : ℕ) (c : IpcResponseChunkV1) : Prop :=
  ∃ frame allocates, .push k frame allocates ∈ es ∧ IpcResponseChunkV1.fromSlice frame = some c

/-- Every assembler was made for its request, and its transfer holds chunks that came to it. -/
def Assembly.Made (s : Assembly) : Prop :=
  ∀ k a, s.assemblers.lookup k = some a →
    .new k a.expectedRequestId ∈ es ∧ a.Holds (CameTo es k)

/-- The frame came to the assembler `k`, not marked as a chunk or as a legacy one. -/
def CameWhole (k : ℕ) (requestId : String) (frame : Bytes) : Prop :=
  (∃ allocates, .push k frame allocates ∈ es ∧ LegacyFrame requestId frame) ∨
    .pushLegacy k frame ∈ es

end

/-- What a result may hand out: nothing, a whole frame that came to the assembler, or what chunks
that came to it for its request declare. -/
def Handed (sha256 : Bytes → Digest) (es : List AssemblyEvent) (k : ℕ) (r : FrameResult) : Prop :=
  ∃ requestId, .new k requestId ∈ es ∧
    Gives sha256 (CameTo es k) (CameWhole es k requestId) requestId r

theorem CameTo.mono {c : IpcResponseChunkV1} (h : CameTo es k c) (e : AssemblyEvent) :
    CameTo (es ++ [e]) k c := by
  obtain ⟨frame, allocates, hmem, hc⟩ := h
  exact ⟨frame, allocates, mem_append_left _ hmem, hc⟩

theorem CameWhole.mono {requestId : String} {frame : Bytes} (h : CameWhole es k requestId frame)
    (e : AssemblyEvent) : CameWhole (es ++ [e]) k requestId frame := by
  rcases h with ⟨allocates, hmem, hframe⟩ | hmem
  · exact .inl ⟨allocates, mem_append_left _ hmem, hframe⟩
  · exact .inr (mem_append_left _ hmem)

theorem Handed.mono {r : FrameResult} (h : Handed sha256 es k r) (e : AssemblyEvent) :
    Handed sha256 (es ++ [e]) k r := by
  obtain ⟨requestId, hnew, hgives⟩ := h
  exact ⟨requestId, mem_append_left _ hnew,
    hgives.mono (fun _ hc => hc.mono e) fun _ hframe => hframe.mono e⟩

theorem Assembly.Made.mono (h : s.Made es) (e : AssemblyEvent) : s.Made (es ++ [e]) := by
  intro k a hk
  obtain ⟨hnew, hholds⟩ := h k a hk
  exact ⟨mem_append_left _ hnew, hholds.mono fun _ hc => hc.mono e⟩

/-- A frame for an assembler keeps what the others hold. -/
theorem Assembly.Made.insert (h : s.Made es) (hnew : .new k a.expectedRequestId ∈ es)
    (ha : a.Holds (CameTo es k)) (hs' : s'.assemblers = s.assemblers.insert k a) : s'.Made es := by
  intro j b hj
  rw [hs'] at hj
  by_cases hjk : j = k
  · subst hjk
    rw [lookup_insert] at hj
    cases hj
    exact ⟨hnew, ha⟩
  · rw [lookup_insert_ne hjk] at hj
    exact h j b hj

/-- What a step hands out came to the assembler by then. -/
theorem Assembly.Made.next (h : s.Made es) (hstep : s.step limits sha256 e = some (s', os)) :
    s'.Made (es ++ [e]) ∧ ∀ o ∈ os, Handed sha256 (es ++ [e]) o.1 o.2 := by
  have hmono := h.mono e
  cases e with
  | new _ requestId =>
    simp only [step] at hstep
    split at hstep
    case isFalse => cases hstep
    case isTrue hk =>
      cases hstep
      exact ⟨hmono.insert (a := ⟨requestId, none⟩) (by simp)
        (by simp [ResponseAssembler.Holds]) rfl, by simp⟩
  | push k frame allocates =>
    simp only [step] at hstep
    split at hstep <;> cases hstep
    case h_2 a hk =>
      obtain ⟨hnew, hmade⟩ := hmono k a hk
      have hmem : .push k frame allocates ∈ es ++ [.push k frame allocates] := by simp
      have hpush : PushSpec sha256 s.budget a frame
        (a.push limits sha256 allocates s.budget frame) := push_spec
      obtain ⟨hholds, hid, hgives⟩ := hpush.gives (fun c hc => ⟨frame, allocates, hmem, hc⟩)
        (W := CameWhole (es ++ [.push k frame allocates]) k a.expectedRequestId)
        (fun hframe => .inl ⟨allocates, hmem, hframe⟩) hmade
      refine ⟨hmono.insert (by rwa [hid]) hholds rfl, ?_⟩
      simp only [mem_singleton, forall_eq]
      exact ⟨_, hnew, hgives⟩
  | pushLegacy k =>
    simp only [step] at hstep
    split at hstep <;> cases hstep
    case h_2 a hk =>
      obtain ⟨hnew, hmade⟩ := hmono k a hk
      refine ⟨hmono.insert hnew hmade rfl, ?_⟩
      simp only [mem_singleton, forall_eq]
      exact ⟨_, hnew, pushLegacy_gives (.inr (by simp))⟩
  | drop k =>
    simp only [step] at hstep
    split at hstep <;> cases hstep
    case h_2 a hk =>
      refine ⟨fun j b hj => ?_, by simp⟩
      by_cases hjk : j = k
      · subst hjk
        rw [lookup_erase] at hj
        cases hj
      · rw [lookup_erase_ne hjk] at hj
        exact hmono j b hj
  | dropResponse =>
    simp only [step] at hstep
    split at hstep <;> cases hstep
    case h_2 => exact ⟨hmono, by simp⟩

/-- The books and the origin of responses over a whole run. -/
theorem runs_books (h : runs (Assembly.step limits sha256) (.start limit) es = some (s, os)) :
    s.Books limit ∧ s.Made es ∧ ∀ o ∈ os, Handed sha256 es o.1 o.2 := by
  refine runs_induction
      (fun es os s => s.Books limit ∧ s.Made es ∧ ∀ o ∈ os, Handed sha256 es o.1 o.2)
    ⟨⟨rfl, by simp [Assembly.start], rfl, Nat.zero_le _⟩, by simp [Assembly.Made, Assembly.start],
      by simp⟩ ?_ es os s h
  rintro es os s e s' _ _ ⟨hbooks, hmade, hhanded⟩ hstep
  obtain ⟨hmade', hhanded'⟩ := hmade.next hstep
  refine ⟨hbooks.next hstep, hmade', fun o ho => ?_⟩
  rcases mem_append.mp ho with ho | ho
  · exact (hhanded o ho).mono e
  · exact hhanded' o ho

end

/-! ### The round trip -/

/-- The transfer of a response after its first chunks. -/
def partTransfer (sha256 : Bytes → Digest) (payload : Bytes) (i : ℕ) : TransferState where
  digest := (sha256 payload).1
  chunkCount := chunkCount payload
  totalBytes := payload.length
  nextIndex := i
  bytes := payload.take (i * ipcResponseChunkPayloadBytes)
  hasher := payload.take (i * ipcResponseChunkPayloadBytes)
  reservation := reservedBytes payload.length

section
variable {sha256 : Bytes → Digest} {requestId : String} {payload : Bytes} {i : ℕ}
  {b b' : ResponseChunkBudget} {a : ResponseAssembler} {s : Assembly} {k : ℕ}

/-- A chunk of a response is within the bounds of the assembler. -/
theorem withinBounds_responseChunk (h : Chunked requestId payload)
    (hi : i < chunkCount payload) :
    withinBounds .production (responseChunk sha256 requestId payload i) = true := by
  have hcount := Server.chunkCount_le h.bounded
  have hlarge := h.large
  have hbounded := h.bounded
  have hstart := (lt_chunkCount_iff payload i).mp hi
  have hlen := Server.piece_length payload i
  have hne : piece payload i ≠ [] := by
    intro hnil
    rw [hnil, length_nil] at hlen
    unfold Server.ipcResponseChunkPayloadBytes at hlen hstart
    omega
  have hdigest := (sha256 payload).2
  unfold Server.maxFrameBytes at hlarge
  unfold Server.maxChunkedIpcResponseBytes at hbounded
  unfold Server.ipcResponseChunkPayloadBytes at hlen
  rw [withinBounds, decide_eq_true_iff]
  push Not
  simp only [responseChunk, ResponseChunkLimits.production, legacyIpcResponseFrameBytes,
    ipcResponseChunkPayloadBytes, maxChunkedIpcResponseBytes, maxIpcResponseChunks]
  refine ⟨by omega, by omega, by omega, by omega, by omega, hne, by omega, by omega, by omega,
    hdigest⟩

theorem append_responseChunk (sha256 : Bytes → Digest) (requestId : String) (payload : Bytes)
    (i : ℕ) :
    (partTransfer sha256 payload i).append (responseChunk sha256 requestId payload i) =
      .ok (partTransfer sha256 payload (i + 1)) := by
  have htake : payload.take (i * ipcResponseChunkPayloadBytes) ++ piece payload i =
      payload.take ((i + 1) * ipcResponseChunkPayloadBytes) := by
    rw [piece, Nat.succ_mul, take_add]
    rfl
  have hle : (payload.take (i * ipcResponseChunkPayloadBytes)).length +
      (piece payload i).length ≤ payload.length := by
    rw [← length_append, htake]
    exact length_take_le' _ _
  have hbound : ¬ (partTransfer sha256 payload i).bytes.length +
      (responseChunk sha256 requestId payload i).payload.length >
        (partTransfer sha256 payload i).totalBytes := not_lt.mpr hle
  rw [TransferState.append, if_neg (by simp [responseChunk, partTransfer]),
    if_neg (by simp [responseChunk, partTransfer]), if_neg hbound]
  simp [partTransfer, responseChunk, htake]

/-- A chunk of a response brings the transfer forward. -/
theorem push_responseChunk (h : Chunked requestId payload) (hne : requestId ≠ "")
    (hi : i < chunkCount payload) (hid : a.expectedRequestId = requestId)
    (ht : a.transferFor true b (responseChunk sha256 requestId payload i) =
      .ok (b', partTransfer sha256 payload i)) :
    a.push .production sha256 true b (responseChunk sha256 requestId payload i).packb =
      a.settle sha256 b' (partTransfer sha256 payload (i + 1)) := by
  subst hid
  have hfits := Server.responseChunk_fits h.utf8_lt h.bounded hi sha256
  have hmax : ResponseChunkLimits.production.maxChunkFrameBytes =
      Server.ipcResponseChunkPayloadBytes + 4 * 1024 := by decide
  have hlen := h.packb_length_le sha256 hi
  refine push_eq_settle ?_ hne (fromSlice_packb hfits) rfl rfl
    (withinBounds_responseChunk h hi) ht (append_responseChunk sha256 _ payload i)
  rw [responseFrameHead, head_packb hfits]
  exact if_neg (by omega)

/-- Before the last chunk the transfer goes on. -/
theorem settle_partTransfer_of_lt (hi : i < chunkCount payload) :
    a.settle sha256 b (partTransfer sha256 payload i) =
      ⟨b, { a with transfer := some (partTransfer sha256 payload i) }, .ok .pending⟩ := by
  have hshort : i * ipcResponseChunkPayloadBytes < payload.length :=
    (lt_chunkCount_iff payload i).mp hi
  refine (if_pos hi).trans (if_neg ?_)
  change (payload.take (i * ipcResponseChunkPayloadBytes)).length ≠ payload.length
  rw [length_take]
  omega

/-- With the last chunk the response is complete. -/
theorem settle_partTransfer_chunkCount :
    a.settle sha256 b (partTransfer sha256 payload (chunkCount payload)) =
      ⟨b, { a with transfer := none }, .ok (.complete
        ⟨payload, some (reservedBytes payload.length), some (chunkCount payload)⟩)⟩ := by
  have hcover : payload.length ≤ chunkCount payload * ipcResponseChunkPayloadBytes :=
    not_lt.mp fun hlt => lt_irrefl _ ((lt_chunkCount_iff payload _).mpr hlt)
  have hall : (partTransfer sha256 payload (chunkCount payload)).bytes = payload :=
    take_of_length_le hcover
  have hhasher : (partTransfer sha256 payload (chunkCount payload)).hasher = payload :=
    take_of_length_le hcover
  rw [settle_eq_complete rfl (by rw [hall]; rfl) (by rw [hhasher]; rfl), hall]
  rfl

theorem step_push (limits : ResponseChunkLimits) (hk : s.assemblers.lookup k = some a)
    (frame : Bytes) (allocates : Bool) :
    s.step limits sha256 (.push k frame allocates) =
      some (s.pushed k (a.push limits sha256 allocates s.budget frame),
        [(k, (a.push limits sha256 allocates s.budget frame).result)]) := by
  simp [Assembly.step, hk]

section

variable (sha256) (h : Chunked requestId payload) (hne : requestId ≠ "")
  (hk : s.assemblers.lookup k = some ⟨requestId, none⟩)
  (hroom : s.budget.used + reservedBytes payload.length ≤ s.budget.limit)
include h hne hk hroom

/-- The first chunks of a response, for an assembler that is idle, are pending. -/
theorem runs_pending (n : ℕ) (hn : n + 1 < chunkCount payload) : ∃ s',
      runs (Assembly.step .production sha256) s ((range (n + 1)).map fun i =>
        .push k (responseChunk sha256 requestId payload i).packb true) =
          some (s', replicate (n + 1) (k, .ok .pending)) ∧
        s'.assemblers.lookup k = some ⟨requestId, some (partTransfer sha256 payload (n + 1))⟩ ∧
        s'.budget.used = s.budget.used + reservedBytes payload.length := by
  induction n with
  | zero =>
    have hreserve : s.budget.reserve (reservedBytes payload.length) =
        some { s.budget with used := s.budget.used + reservedBytes payload.length } :=
      if_neg (not_lt.mpr hroom)
    have hopen : transferFor true s.budget ⟨requestId, none⟩
        (responseChunk sha256 requestId payload 0) =
        .ok ({ s.budget with used := s.budget.used + reservedBytes payload.length },
          partTransfer sha256 payload 0) := by
      simp only [transferFor, openTransfer]
      simp [newTransfer, responseChunk, partTransfer, hreserve]
    have hpush := push_responseChunk h hne h.chunkCount_pos rfl hopen
    rw [settle_partTransfer_of_lt hn] at hpush
    refine ⟨_, runs_cons_eq_some.mpr ⟨_, _, _, step_push _ hk _ _, runs_nil _, ?_⟩, ?_, ?_⟩
    · rw [hpush]
      rfl
    · rw [hpush, Assembly.pushed, lookup_insert]
    · rw [hpush, Assembly.pushed]
  | succ n ih =>
    obtain ⟨s', hrun, hk', hused⟩ := ih (by omega)
    have hpush : push .production sha256 true s'.budget _ _ = _ :=
      push_responseChunk h hne (by omega : n + 1 < _) rfl (rfl : transferFor
        true s'.budget ⟨requestId, some (partTransfer sha256 payload (n + 1))⟩ _ = _)
    rw [settle_partTransfer_of_lt hn] at hpush
    rw [range_succ, map_append]
    refine ⟨_, runs_concat_eq_some.mpr ⟨_, _, _, hrun, step_push _ hk' _ _, ?_⟩, ?_, ?_⟩
    · rw [hpush, replicate_succ']
    · rw [hpush, Assembly.pushed, lookup_insert]
    · rw [hpush, Assembly.pushed, hused]

/-- **The frames of a large response, in order**: all but the last are pending, and the last
completes the response. -/
theorem runs_complete : ∃ s',
      runs (Assembly.step .production sha256) s ((range (chunkCount payload)).map
        fun i => .push k (responseChunk sha256 requestId payload i).packb true) =
          some (s', replicate (chunkCount payload - 1) (k, .ok .pending) ++
            [(k, .ok (.complete ⟨payload, some (reservedBytes payload.length),
              some (chunkCount payload)⟩))]) ∧
        s'.assemblers.lookup k = some ⟨requestId, none⟩ ∧
        s'.budget.used = s.budget.used + reservedBytes payload.length := by
  obtain ⟨n, hn⟩ : ∃ n, chunkCount payload = n + 1 + 1 := by
    have hlarge := (lt_chunkCount_iff payload 1).mpr (lt_trans (by decide) h.large)
    exact ⟨chunkCount payload - 2, by omega⟩
  obtain ⟨s', hrun, hk', hused⟩ := runs_pending sha256 h hne hk hroom n (by omega)
  have hpush : push .production sha256 true s'.budget _ _ = _ :=
    push_responseChunk h hne (by omega : n + 1 < _) rfl (rfl : transferFor
      true s'.budget ⟨requestId, some (partTransfer sha256 payload (n + 1))⟩ _ = _)
  rw [← hn, settle_partTransfer_chunkCount] at hpush
  refine ⟨s'.pushed k (push .production sha256 true s'.budget
    ⟨requestId, some (partTransfer sha256 payload (n + 1))⟩
    (responseChunk sha256 requestId payload (n + 1)).packb), ?_, ?_, ?_⟩
  · rw [hn, range_succ, map_append]
    refine runs_concat_eq_some.mpr ⟨_, _, _, hrun, step_push _ hk' _ _, ?_⟩
    rw [hpush, hn]
    rfl
  · rw [hpush, Assembly.pushed, lookup_insert]
  · rw [hpush, Assembly.pushed, hused]

end

end

/-! ### Chunked responses -/

/-- **Chunked responses.**  The frames of a response of more than 32 MiB and at most 128 MiB, fed
in order to an idle assembler for its request with room in the budget, are pending until the last
one completes exactly the response.  In every run of assemblers that share a budget, what comes
out of one is an error, a whole frame that is not marked as a chunk, or the bytes, length and
digest that chunks of its request declare; and the budget counts the reservations of assemblers
and of responses that are still held, within its limit. -/
theorem response_chunking (sha256 : Bytes → Digest) (errorFrame : String → String → Bytes) :
    (∀ requestId payload (s : Assembly) k, Chunked requestId payload → requestId ≠ "" →
      s.assemblers.lookup k = some ⟨requestId, none⟩ →
      s.budget.used + reservedBytes payload.length ≤ s.budget.limit →
      ∃ frames s', writeResponseEnvelope sha256 errorFrame true requestId payload =
          ⟨frames, none⟩ ∧ runs (Assembly.step .production sha256) s (frames.map (.push k · true)) =
          some (s', replicate (frames.length - 1) (k, .ok .pending) ++
            [(k, .ok (.complete ⟨payload, some (reservedBytes payload.length),
              some frames.length⟩))])) ∧
    ∀ limits limit es s os, runs (Assembly.step limits sha256) (.start limit) es = some (s, os) →
        (∀ o ∈ os, Handed sha256 es o.1 o.2) ∧ s.budget.used = total reserved s.assemblers +
          (s.held.map AssembledResponse.reserved).sum ∧ s.budget.used ≤ limit ∧
        (s.assemblers = ∅ → s.held = [] → s.budget.used = 0) := by
  constructor
  · intro requestId payload s k h hne hk hroom
    obtain ⟨s', _, -⟩ := runs_complete sha256 h hne hk hroom
    refine ⟨_, s', h.writeResponseEnvelope_eq sha256 errorFrame, ?_⟩
    rwa [map_map, length_map, length_range]
  · intro limits limit es s os h
    obtain ⟨hbooks, -, hhanded⟩ := runs_books h
    refine ⟨hhanded, hbooks.used, hbooks.le, fun hnone hheld => ?_⟩
    rw [hbooks.used, hnone, hheld]
    rfl

namespace LargeResponse

/-- A response of one byte more than a frame holds. -/
def payload : Bytes := replicate (Server.maxFrameBytes + 1) 0

theorem payload_length : payload.length = Server.maxFrameBytes + 1 := length_replicate

theorem chunked : Chunked "r" payload where
  large := by
    rw [payload_length]
    exact Nat.lt_succ_self _
  bounded := by
    rw [payload_length]
    decide
  requestId := by decide +kernel

/-- One assembler, for the request of the response. -/
def idle : Assembly := ⟨⟨0, 256 * 1024 * 1024⟩, 1, (∅ : AList _).insert 0 ⟨"r", none⟩, []⟩

theorem idle_room : idle.budget.used + reservedBytes payload.length ≤ idle.budget.limit := by
  rw [payload_length]
  decide

theorem response_chunking_payload :
    ∃ frames s', writeResponseEnvelope padded (fun _ _ => []) true "r" payload =
        ⟨frames, none⟩ ∧
      runs (Assembly.step .production padded) idle (frames.map (.push 0 · true)) =
        some (s', replicate (frames.length - 1) (0, .ok .pending) ++
          [(0, .ok (.complete ⟨payload, some (reservedBytes payload.length),
            some frames.length⟩))]) :=
  (response_chunking padded fun _ _ => []).1 "r" payload idle 0 chunked (by decide)
    (lookup_insert _) idle_room

/-- A chunk of a response, but of another kind. -/
def otherKind : IpcResponseChunkV1 where
  version := ipcVersion
  requestId := "r"
  transferDigest := replicate 32 0
  chunkIndex := 0
  chunkCount := 9
  totalBytes := Server.maxFrameBytes + 1
  payload := [0]
  kind := "ipc_response_chunk_v2"

/-- A chunk whose kind is not the expected one comes out as a whole response, with another length
than it declares; and a complete response keeps its reservation when its assembler is dropped. -/
theorem chunks_not_as_declared :
    ((Assembly.start 1024).step .production padded (.new 0 "r")).bind (fun p =>
        (p.1.step .production padded (.push 0 otherKind.packb true)).map Prod.snd) =
      some [(0, .ok (.complete ⟨otherKind.packb, none, none⟩))] ∧
    otherKind.packb.length ≠ otherKind.totalBytes ∧
    ∃ es s os, runs (Assembly.step .production padded) idle (es ++ [.drop 0]) = some (s, os) ∧
      s.assemblers.lookup 0 = none ∧ s.budget.used ≠ 0 := by
  refine ⟨by decide +kernel, by decide +kernel, ?_⟩
  obtain ⟨s, hrun, hk, hused⟩ := runs_complete padded chunked (by decide)
    (lookup_insert _ : idle.assemblers.lookup 0 = _) idle_room
  refine ⟨_, { s with
      budget := s.budget.release 0
      assemblers := s.assemblers.erase 0 }, _,
    runs_concat_eq_some.mpr ⟨s, _, [], hrun, ?_, rfl⟩, lookup_erase _ _, ?_⟩
  · simp only [Assembly.step, hk]
    rfl
  · have hpos : ∀ used bytes, used + reservedBytes bytes - 0 ≠ 0 := by
      simp [reservedBytes, responseDecodeHeadroomBytes]
    change s.budget.used - 0 ≠ 0
    rw [hused]
    exact hpos _ _

end LargeResponse

/-! ### The route of a frame -/

section
variable {requestId : String} {payload frame : Bytes} {e : Server.ResponseEnvelope}

/-- A map that begins as a response or a chunk does. -/
theorem canonicalResponseFrameRoute_eq {n : ℕ} {third : String} (hn : 3 ≤ n ∧ n < 2 ^ 4)
    (hid : (utf8 requestId).length < 2 ^ 32) (hthird : (utf8 third).length < 2 ^ 32)
    (rest : Bytes) :
    canonicalResponseFrameRoute (writeMapLen n ++ (writeStr "version" ++ (writeUint ipcVersion ++
      (writeStr "request_id" ++ (writeStr requestId ++ (writeStr third ++ rest)))))) =
      if third = "ok" then some (requestId, false)
      else if third = "transfer_digest" then some (requestId, true) else none := by
  have hversion : (utf8 "version").length < 2 ^ 32 := by decide +kernel
  have hkey : (utf8 "request_id").length < 2 ^ 32 := by decide +kernel
  have hone : writeUint ipcVersion = [UInt8.ofNat ipcVersion] := rfl
  rw [writeMapLen, if_pos hn.2, hone]
  simp only [cons_append, nil_append, canonicalResponseFrameRoute, ofByte_fixMap hn.2,
    if_neg (not_lt.mpr hn.1)]
  simp [readStr_writeStr hversion, readStr_writeStr hkey, readStr_writeStr hid,
    readStr_writeStr hthird]

/-- The header says this kind, and the fast path reads the request id and the class of it. -/
def Routed (requestId : String) (kind : Option String) (frame : Bytes) : Prop :=
  ResponseFrameHead.fromSlice frame = some ⟨kind, requestId⟩ ∧
    canonicalResponseFrameRoute frame =
      some (requestId, decide (kind = some ipcResponseChunkKindV1))

theorem routed_chunk {c : IpcResponseChunkV1} (hfits : c.Fits) (hversion : c.version = ipcVersion)
    (hkind : c.kind = ipcResponseChunkKindV1) : Routed c.requestId (some c.kind) c.packb := by
  refine ⟨head_packb hfits, ?_⟩
  have hthird : (utf8 "transfer_digest").length < 2 ^ 32 := by decide +kernel
  have hroute := canonicalResponseFrameRoute_eq (n := 8) (by decide) hfits.requestId hthird
  simp [IpcResponseChunkV1.packb, IpcResponseChunkV1.fields, writeField, hversion]
  exact (hroute _).trans (by simp [hkind])

theorem routed_envelope (h : e.packb = some payload) : Routed e.requestId none payload := by
  rw [packb] at h
  split at h <;> cases h
  case isTrue hfits =>
    constructor
    · have hkeys : ∀ f ∈ e.fields, (utf8 f.1).length < 2 ^ 32 := by
        simp [fields]
        decide +kernel
      have hok : Reads 1023 [if e.ok then 0xc3 else 0xc2] (.bool e.ok) := by
        intro rest
        cases e.ok <;> rfl
      have herror : Reads 1023 (e.error.elim [0xc0] writeStr) (e.error.elim .nil .str) := by
        intro rest
        cases herr : e.error with
        | none => rfl
        | some s => exact decode_writeStr (hfits.2 s herr)
      have hreads := decode_writeMap (by simp [fields]) hkeys
        (.cons (fun _ => decode_writeUint (by decide : ipcVersion < 2 ^ 64))
          (.cons (fun _ => decode_writeStr hfits.1)
            (.cons hok (.cons e.body.reads (.cons herror .nil))))) []
      have hdepth : rmpDepth = 1022 + 2 := rfl
      rw [append_nil] at hreads
      rw [ResponseFrameHead.fromSlice, hdepth, hreads]
      rfl
    · have hthird : (utf8 "ok").length < 2 ^ 32 := by decide +kernel
      have hroute := canonicalResponseFrameRoute_eq (n := 5) (by decide) hfits.1 hthird
      exact (hroute _).trans (by simp)

theorem routed_errorFrame {message : String} (hid : (utf8 requestId).length < 2 ^ 32)
    (hmessage : (utf8 message).length < 2 ^ 32) :
    Routed requestId none (errorFrame requestId message) := by
  refine routed_envelope (e := Server.errorEnvelope requestId message) ?_
  rw [errorFrame, packb, if_pos]
  · rfl
  · refine ⟨hid, fun s hs => ?_⟩
    cases hs
    exact hmessage

/-- **The fast path reads what the header says.**  For every frame that is written for a response,
whole or a chunk, the two give the same request id and the same class; with its check of the
size, the header parse gives them for every frame but a chunk over the limit. -/
theorem fast_route_agrees (sha256 : Bytes → Digest) (accepts : Bool)
    (hpack : e.packb = some payload) (hframe : frame ∈
      (writeResponseEnvelope sha256 errorFrame accepts e.requestId payload).frames) :
    ∃ kind, Routed e.requestId kind frame ∧ ∀ limits : ResponseChunkLimits,
      (kind = some ipcResponseChunkKindV1 → frame.length ≤ limits.maxChunkFrameBytes) →
      responseFrameHead limits frame = .ok ⟨kind, e.requestId⟩ := by
  have hid : (utf8 e.requestId).length < 2 ^ 32 := by
    rw [packb] at hpack
    split at hpack <;> cases hpack
    case isTrue hfits => exact hfits.1
  have hrouted : ∃ kind, Routed e.requestId kind frame := by
    rw [writeResponseEnvelope] at hframe
    split at hframe
    case isTrue =>
      rw [mem_singleton.mp hframe]
      exact ⟨_, routed_envelope hpack⟩
    split at hframe
    case isTrue =>
      rw [mem_singleton.mp hframe]
      exact ⟨_, routed_errorFrame hid (by decide +kernel)⟩
    split at hframe
    case isTrue =>
      rw [mem_singleton.mp hframe]
      exact ⟨_, routed_errorFrame hid (by decide +kernel)⟩
    case isFalse hbounds =>
      push Not at hbounds
      obtain ⟨c, hc, rfl⟩ := Server.mem_writeChunks hframe
      obtain ⟨i, hi, rfl⟩ := mem_map.mp hc
      have hfits := Server.responseChunk_fits hid hbounds.1 (mem_range.mp hi) sha256
      exact ⟨_, routed_chunk hfits rfl rfl⟩
  obtain ⟨kind, hrouted⟩ := hrouted
  refine ⟨kind, hrouted, fun limits hle => ?_⟩
  rw [responseFrameHead, hrouted.1]
  exact if_neg fun h => (hle h.1).not_gt h.2

end

namespace LongRequestId

/-- A request id of 4 KiB leaves no room beside a full payload. -/
def requestId : String := (fun s => s ++ s)^[12] "r"

def envelope : Server.ResponseEnvelope where
  requestId := requestId
  ok := true
  body := ⟨writeBin LargeResponse.payload, .bin LargeResponse.payload,
    fun _ => decode_writeBin (by rw [LargeResponse.payload_length]; decide)⟩
  error := none

theorem utf8_requestId : (utf8 requestId).length = 4096 := by
  have hone : (utf8 "r").length = 1 := by decide +kernel
  have htwice : ∀ s : String, (utf8 (s ++ s)).length = (utf8 s).length + (utf8 s).length := by
    simp [utf8]
  simp only [requestId, Function.iterate_succ_apply', Function.iterate_zero_apply, htwice, hone]

theorem writeStr_requestId : (writeStr requestId).length = 4099 := by
  rw [Server.writeStr_length, utf8_requestId]
  rfl

theorem utf8_lt : (utf8 requestId).length < 2 ^ 32 := by
  rw [utf8_requestId]
  decide

/-- The response is written in chunks. -/
theorem packb_envelope : ∃ payload, envelope.packb = some payload ∧
    Server.maxFrameBytes < payload.length ∧
    payload.length ≤ Server.maxChunkedIpcResponseBytes := by
  refine ⟨_, if_pos ⟨utf8_lt, by simp [envelope]⟩, ?_⟩
  have hdata := LargeResponse.payload_length
  have hbin : (writeBin LargeResponse.payload).length = LargeResponse.payload.length + 5 := by
    rw [writeBin, length_append, hdata]
    rfl
  have hid := writeStr_requestId
  have hkeys : (writeStr "version").length = 8 ∧ (writeStr "request_id").length = 11 ∧
      (writeStr "ok").length = 3 ∧ (writeStr "body").length = 5 ∧
      (writeStr "error").length = 6 := by decide +kernel
  have hversion : (writeUint ipcVersion).length = 1 := rfl
  have hmap : (writeMapLen (0 + 1 + 1 + 1 + 1 + 1)).length = 1 := rfl
  simp only [fields, envelope, writeField, flatMap_cons, flatMap_nil, length_append, length_cons,
    length_nil, Option.elim_none, if_pos, Server.maxFrameBytes,
    Server.maxChunkedIpcResponseBytes] at *
  omega

/-- The first chunk is among the frames. -/
theorem chunk_written {payload : Bytes} (hlarge : Server.maxFrameBytes < payload.length)
    (hbounded : payload.length ≤ Server.maxChunkedIpcResponseBytes) :
    0 < chunkCount payload ∧ (responseChunk padded requestId payload 0).packb ∈
      (writeResponseEnvelope padded errorFrame true requestId payload).frames := by
  have hid := writeStr_requestId
  have hmax : Server.maxFrameBytes = 8 * Server.ipcResponseChunkPayloadBytes := rfl
  have hpos : 0 < chunkCount payload := (lt_chunkCount_iff payload 0).mpr (by omega)
  have hcount : chunkCount payload ≤ Server.maxIpcResponseChunks :=
    (Server.chunkCount_le hbounded).trans (by decide)
  refine ⟨hpos, ?_⟩
  rw [writeResponseEnvelope, if_neg (by omega), if_neg (by simp), if_neg (by omega),
    Server.writeChunks_eq]
  · exact mem_map_of_mem (mem_map_of_mem (mem_range.mpr hpos))
  · intro c hc
    obtain ⟨i, hi, rfl⟩ := mem_map.mp hc
    have hlen := Server.packb_length hbounded (mem_range.mp hi) requestId padded
    have hpiece := Server.piece_length_le payload i
    unfold Server.ipcResponseChunkPayloadBytes at hmax hpiece
    omega

/-- An error frame and the first chunk of a response. -/
theorem fast_route_agrees_frames : (∃ kind, Routed "r" kind (errorFrame "r" "no")) ∧
    ∃ payload kind, envelope.packb = some payload ∧
      Routed requestId kind (responseChunk padded requestId payload 0).packb := by
  constructor
  · have hpack : (Server.errorEnvelope "r" "no").packb = some (errorFrame "r" "no") := by
      decide +kernel
    obtain ⟨kind, hrouted, -⟩ := fast_route_agrees padded true hpack (mem_singleton_self _)
    exact ⟨kind, hrouted⟩
  · obtain ⟨payload, hpack, hlarge, hbounded⟩ := packb_envelope
    obtain ⟨kind, hrouted, -⟩ :=
      fast_route_agrees padded true hpack (chunk_written hlarge hbounded).2
    exact ⟨payload, kind, hpack, hrouted⟩

/-- The first chunk is over the limit of the header parse, which the fast path does not check. -/
theorem oversized_chunk_routed : ∃ payload frame, envelope.packb = some payload ∧
    frame ∈ (writeResponseEnvelope padded errorFrame true requestId payload).frames ∧
    canonicalResponseFrameRoute frame = some (requestId, true) ∧
    responseFrameHead .production frame = .error .invalidBounds := by
  obtain ⟨payload, hpack, hlarge, hbounded⟩ := packb_envelope
  obtain ⟨hpos, hwritten⟩ := chunk_written hlarge hbounded
  obtain ⟨hhead, hroute⟩ :=
    routed_chunk (Server.responseChunk_fits utf8_lt hbounded hpos padded) rfl rfl
  refine ⟨payload, _, hpack, hwritten, hroute, ?_⟩
  have hid := writeStr_requestId
  have hmax : Server.maxFrameBytes = 8 * Server.ipcResponseChunkPayloadBytes := rfl
  have hpiece := Server.piece_length payload 0
  have hlimit : ResponseChunkLimits.production.maxChunkFrameBytes =
      Server.ipcResponseChunkPayloadBytes + 4 * 1024 := by decide
  have hlen : (writeStr requestId).length + (piece payload 0).length ≤
      (responseChunk padded requestId payload 0).packb.length := by
    simp only [IpcResponseChunkV1.packb, IpcResponseChunkV1.fields, responseChunk,
      writeField, writeBin, flatMap_cons, length_append]
    omega
  rw [responseFrameHead, hhead]
  exact if_pos ⟨rfl, by omega⟩

end LongRequestId

end Sie.Sidecar
