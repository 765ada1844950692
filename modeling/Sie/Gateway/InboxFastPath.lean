import Mathlib.Algebra.Order.Group.Nat
import Sie.Lib.Msgpack.Value

/-!
# The fast path of the inbox

Model of `inbox_work_for_payload` and the scanner it peeks the request id with
(`extract_request_id_fast`, `scan_map_for_request_id`, `skip_msgpack_value`) in
`sie_gateway/src/queue/publisher.rs`, against the full decoder (`rmp_serde` into a value, then
`rmpv::ext::from_value` into an envelope).

The recursion of `skip_msgpack_value` consumes a byte before each nested call, so it is modelled
with the length of the data as fuel; as much nesting is enough for the decoder too
(`decode_enough`), and with one nesting the scanner leaves what the decoder leaves
(`skipValue_eq`).
The decoding of the fields of an envelope other than `request_id` is a parameter, and so is the
nesting the full decoder allows.
-/

namespace Sie.Gateway.Inbox

open Sie.Lib.Msgpack Option Function Marker

/-! ### The scanner -/

/-- `data.get(k..)`. -/
def getFrom (k : ℕ) (data : List UInt8) : Option (List UInt8) :=
  if k ≤ data.length then some (data.drop k) else none

/-- The length of the given width at the front of the data. -/
def lengthAt (width : ℕ) (data : List UInt8) : Option ℕ :=
  if data.length < width then none else some (beNat (data.take width))

/-- Skip a length of the given width, `extra` bytes, and as many bytes as the length says. -/
def skipSized (width extra : ℕ) (rest : List UInt8) : Option (List UInt8) :=
  (lengthAt width rest).bind fun len => getFrom (width + extra + len) rest

/-- `for _ in 0..n { d = skip(d)?; }` -/
def skipMany (skip : List UInt8 → Option (List UInt8)) : ℕ → List UInt8 → Option (List UInt8)
  | 0, d => some d
  | n + 1, d => (skip d).bind (skipMany skip n)

/-- A key and its value. -/
def skipEntry (skip : List UInt8 → Option (List UInt8)) (d : List UInt8) : Option (List UInt8) :=
  (skip d).bind skip

def skipValue : ℕ → List UInt8 → Option (List UInt8)
  | _, [] => none
  | 0, _ :: _ => none
  | fuel + 1, byte :: rest =>
    match ofByte byte with
    | .null | .bool _ => some rest
    | .fixPos _ | .fixNeg _ => some rest
    | .uint width | .int width | .float width => getFrom width rest
    | .fixStr len => getFrom len rest
    | .str width => skipSized width 0 rest
    | .bin width => skipSized width 0 rest
    | .fixArray n => skipMany (skipValue fuel) n rest
    | .array width =>
      (lengthAt width rest).bind fun n => skipMany (skipValue fuel) n (rest.drop width)
    | .fixMap n => skipMany (skipEntry (skipValue fuel)) n rest
    | .map width =>
      (lengthAt width rest).bind fun n =>
        skipMany (skipEntry (skipValue fuel)) n (rest.drop width)
    | .fixExt len => getFrom (1 + len) rest
    | .ext width => skipSized width 1 rest
    | .reserved => none

def skipMsgpackValue (data : List UInt8) : Option (List UInt8) := skipValue data.length data

def scanMapForRequestId : ℕ → List UInt8 → Option String
  | 0, _ => none
  | n + 1, data => do
      let (key, data) ← readStr data
      if key = "request_id" then (readStr data).map Prod.fst
      else scanMapForRequestId n (← skipMsgpackValue data)

/-- The second item of an array whose items begin at `data`. -/
def secondItem (data : List UInt8) : Option String :=
  (skipMsgpackValue data).bind fun data => (readStr data).map Prod.fst

def extractRequestIdFast : List UInt8 → Option String
  | [] => none
  | byte :: rest =>
    match ofByte byte with
    -- The order of the fields of `WorkResult`: work_item_id, request_id, …
    | .fixArray n => if 2 ≤ n then secondItem rest else none
    | .array width =>
      (lengthAt width rest).bind fun n => if n < 2 then none else secondItem (rest.drop width)
    | .fixMap n => scanMapForRequestId n rest
    | .map width =>
      (lengthAt width rest).bind fun n => scanMapForRequestId n (rest.drop width)
    | _ => none

/-! ### The full decoder -/

/-- The envelopes of the inbox. -/
inductive EnvelopeType
  | workResult
  | chunkEnvelope
  | nakEnvelope
  | resultChunkV1
  deriving DecidableEq

/-- The fields of an envelope, in the order of the source. -/
def EnvelopeType.fields : EnvelopeType → List String
  | .workResult => ["work_item_id", "request_id", "item_index", "success", "result_msgpack",
      "error", "error_code", "inference_ms", "queue_ms", "processing_ms", "worker_id",
      "tokenization_ms", "postprocessing_ms", "payload_fetch_ms", "units", "worker_direct",
      "executed_bundle_config_hash", "execution_identity_sha256", "execution_binding_sha256",
      "retry_after_s"]
  | .chunkEnvelope => ["kind", "request_id", "attempt_id", "seq", "text_delta", "done", "is_first",
      "finish_reason", "usage", "ttft_ms", "error", "tool_calls", "logprobs", "candidates",
      "choice_index", "executed_bundle_config_hash", "execution_identity_sha256",
      "execution_binding_sha256", "reasoning_delta"]
  | .nakEnvelope => ["kind", "request_id", "attempt_id", "reason"]
  | .resultChunkV1 => ["kind", "work_item_id", "request_id", "item_index", "transfer_digest",
      "chunk_index", "chunk_count", "total_bytes", "payload"]

/-- The index of `request_id`. -/
def EnvelopeType.requestIdIndex : EnvelopeType → ℕ
  | .workResult | .chunkEnvelope | .nakEnvelope => 1
  | .resultChunkV1 => 2

/-- A decoded envelope: its request id, and its other fields. -/
structure Envelope (ρ : Type) where
  requestId : String
  body : ρ
  deriving DecidableEq

section
variable {ρ : Type} (body : EnvelopeType → (ℕ → Option Value) → Option ρ) (maxDepth : ℕ)

/-- `rmpv::ext::from_value`: `request_id` is a required string; `body` decodes the other
fields. -/
def fromValue (ty : EnvelopeType) (value : Value) : Option (Envelope ρ) := do
  let s ← slots ty.fields value
  let requestId ← (s ty.requestIdIndex).bind asString
  return { requestId, body := ← body ty s }

def envelopeKind : Value → Option String
  | .map entries =>
    match entries.find? fun e => match e.1 with | .str s => s = "kind" | _ => false with
    | some (_, .str s) => some s
    | _ => none
  | _ => none

inductive InboxWork (ρ : Type)
  | resultChunk (chunk : Envelope ρ)
  | resultChunkDecodeFailure (requestId : String)
  | chunk (chunk : Envelope ρ)
  | nak (nak : Envelope ρ)
  | result (result : Envelope ρ)
  deriving DecidableEq

def InboxWork.shardKey {ρ : Type} : InboxWork ρ → String
  | .resultChunk e => e.requestId
  | .resultChunkDecodeFailure requestId => requestId
  | .chunk e => e.requestId
  | .nak e => e.requestId
  | .result e => e.requestId

/-- The work of a decoded value, with the id the fast path found. -/
def workForValue (requestIdHint : Option String) (value : Value) : Option (InboxWork ρ) :=
  match envelopeKind value with
  | some "result_chunk_v1" =>
    match fromValue body .resultChunkV1 value with
    | some chunk => some (.resultChunk chunk)
    | none => requestIdHint.map .resultChunkDecodeFailure
  | some "chunk" => (fromValue body .chunkEnvelope value).map .chunk
  | some "nak" => (fromValue body .nakEnvelope value).map .nak
  | _ => (fromValue body .workResult value).map .result

def inboxWorkForPayload (payload : List UInt8) (isTracked : String → Bool) : Option (InboxWork ρ) :=
  let requestIdHint := extractRequestIdFast payload
  if requestIdHint.any (fun id => !isTracked id) then none
  else (decode maxDepth payload).bind fun v => workForValue body requestIdHint v.1

/-- The work of a payload by the full decoder alone. -/
def slowWork (payload : List UInt8) : Option (InboxWork ρ) :=
  (decode maxDepth payload).bind fun v => workForValue body none v.1

end

/-! ### The scanner leaves what the decoder leaves -/

section
variable {α : Type} {one : List UInt8 → Option (α × List UInt8)}
  {skip : List UInt8 → Option (List UInt8)}

theorem getFrom_eq (n : ℕ) (data : List UInt8) :
    getFrom n data = (readBytes n data).map Prod.snd := by
  unfold getFrom readBytes
  split_ifs <;> rfl

theorem getFrom_eq_readUint (width : ℕ) (data : List UInt8) :
    getFrom width data = (readUint width data).map Prod.snd := by
  rw [getFrom_eq, readUint, map_map]
  rfl

theorem lengthAt_bind {β : Type} (width : ℕ) (data : List UInt8)
    (next : ℕ → List UInt8 → Option β) :
    ((lengthAt width data).bind fun len => next len (data.drop width)) =
      (readUint width data).bind fun r => next r.1 r.2 := by
  unfold lengthAt readUint readBytes
  by_cases h : width ≤ data.length
  · rw [if_neg (by omega), if_pos h]
    rfl
  · rw [if_pos (by omega), if_neg h]
    rfl

theorem skipSized_eq (width extra : ℕ) (data : List UInt8) :
    skipSized width extra data =
      (readUint width data).bind fun r => (readBytes (extra + r.1) r.2).map Prod.snd := by
  rw [← lengthAt_bind width data fun len rest => (readBytes (extra + len) rest).map Prod.snd,
    skipSized]
  cases hlen : lengthAt width data with
  | none => rfl
  | some len =>
    have hwidth : width ≤ data.length := by
      by_contra hlt
      rw [lengthAt, if_pos (by omega)] at hlen
      cases hlen
    rw [bind_some, bind_some, ← getFrom_eq, getFrom, getFrom, List.length_drop, List.drop_drop]
    by_cases hle : width + extra + len ≤ data.length
    · rw [if_pos hle, if_pos (by omega), add_assoc]
    · rw [if_neg hle, if_neg (by omega)]

theorem skipMany_eq (h : ∀ data, skip data = (one data).map Prod.snd) (n : ℕ)
    (data : List UInt8) : skipMany skip n data = (readMany one n data).map Prod.snd := by
  induction n generalizing data with
  | zero => rfl
  | succ n ih =>
    rw [skipMany, h, readMany]
    cases one data with
    | none => rfl
    | some r =>
      rw [map_some, bind_some, ih]
      cases hmany : readMany one n r.2 <;> simp [hmany]

theorem skipEntry_eq (h : ∀ data, skip data = (one data).map Prod.snd) (data : List UInt8) :
    skipEntry skip data = (readEntry one data).map Prod.snd := by
  rw [skipEntry, h, readEntry]
  cases one data with
  | none => rfl
  | some r =>
    rw [map_some, bind_some, h]
    cases hone : one r.2 <;> simp [hone]

theorem skipValue_eq (depth : ℕ) (data : List UInt8) :
    skipValue depth data = (decode depth data).map Prod.snd := by
  induction depth generalizing data with
  | zero => cases data <;> rfl
  | succ depth ih =>
    cases data with
    | nil => rfl
    | cons byte data =>
      rw [skipValue, decode]
      generalize ofByte byte = marker
      cases marker with
      | null | bool | fixPos | fixNeg | reserved => rfl
      | uint | int | float => simp [getFrom_eq_readUint, comp_def]
      | fixStr | fixExt => simp [getFrom_eq, comp_def]
      | str | bin => simp [skipSized_eq, readSized, Option.map_bind, comp_def]
      | ext => simp [skipSized_eq, Option.map_bind, comp_def]
      | fixArray => simp [skipMany_eq ih, comp_def]
      | fixMap => simp [skipMany_eq (skipEntry_eq ih), comp_def]
      | array width =>
        refine (lengthAt_bind width data (skipMany (skipValue depth))).trans ?_
        simp [skipMany_eq ih, Option.map_bind, comp_def]
      | map width =>
        refine (lengthAt_bind width data (skipMany (skipEntry (skipValue depth)))).trans ?_
        simp [skipMany_eq (skipEntry_eq ih), Option.map_bind, comp_def]

end

/-! ### Readers -/

/-- What is read stands at the front, and what follows does not matter. -/
def IsReader {α : Type} (one : List UInt8 → Option (α × List UInt8)) : Prop :=
  ∀ data x rest, one data = some (x, rest) →
    ∃ bytes, data = bytes ++ rest ∧ ∀ rest', one (bytes ++ rest') = some (x, rest')

section
variable {α β : Type} {one : List UInt8 → Option (α × List UInt8)}

theorem IsReader.bind {next : α → List UInt8 → Option (β × List UInt8)} (h : IsReader one)
    (hnext : ∀ x, IsReader (next x)) :
    IsReader fun data => (one data).bind fun r => next r.1 r.2 := by
  intro data y rest hread
  obtain ⟨⟨x, data'⟩, hx, hy⟩ := bind_eq_some_iff.mp hread
  obtain ⟨bytes, rfl, hone⟩ := h data x data' hx
  obtain ⟨bytes', rfl, htwo⟩ := hnext x data' y rest hy
  refine ⟨bytes ++ bytes', by rw [List.append_assoc], fun rest' => ?_⟩
  simp [hone, htwo]

theorem IsReader.map (h : IsReader one) (f : α → β) :
    IsReader fun data => (one data).map fun r => (f r.1, r.2) := by
  intro data y _ hread
  obtain ⟨⟨x, data'⟩, hx, ⟨⟩⟩ := map_eq_some_iff.mp hread
  obtain ⟨bytes, rfl, hone⟩ := h data x data' hx
  exact ⟨bytes, rfl, fun rest' => by simp only [hone, map_some]⟩

theorem isReader_pure (x : α) : IsReader fun data => some (x, data) := by
  intro data y _ hread
  cases hread
  exact ⟨[], rfl, fun _ => rfl⟩

theorem isReader_none : IsReader fun _ => (none : Option (α × List UInt8)) := by
  intro _ x _ hread
  cases hread

theorem isReader_readBytes (n : ℕ) : IsReader (readBytes n) := by
  intro data _ _ hread
  obtain ⟨hle, rfl, rfl⟩ := readBytes_eq_some hread
  refine ⟨data.take n, (List.take_append_drop n data).symm, fun rest' => ?_⟩
  have hlen : (data.take n).length = n := by simpa using hle
  rw [readBytes, if_pos (by simp [hlen]), List.take_left' hlen, List.drop_left' hlen]

theorem isReader_readUint (width : ℕ) : IsReader (readUint width) :=
  (isReader_readBytes width).map beNat

theorem IsReader.entry (h : IsReader one) : IsReader (readEntry one) :=
  h.bind fun k => h.bind fun v => isReader_pure (k, v)

theorem IsReader.many (h : IsReader one) (n : ℕ) : IsReader (readMany one n) := by
  induction n with
  | zero => exact isReader_pure []
  | succ n ih => exact h.bind fun x => ih.bind fun xs => isReader_pure (x :: xs)

/-- The decoder behind a marker. -/
theorem isReader_decode_cons (depth : ℕ) (h : IsReader (decode depth)) (byte : UInt8) :
    IsReader fun data => decode (depth + 1) (byte :: data) := by
  simp only [decode]
  cases ofByte byte with
  | null | bool | fixPos | fixNeg => exact isReader_pure _
  | reserved => exact isReader_none
  | uint width => exact (isReader_readUint width).map fun n => Value.int n
  | int width => exact (isReader_readUint width).map fun n => Value.int (signed width n)
  | float width => exact (isReader_readUint width).map fun n => Value.float width n
  | fixStr len => exact (isReader_readBytes len).map strValue
  | str width => exact ((isReader_readUint width).bind isReader_readBytes).map strValue
  | bin width => exact ((isReader_readUint width).bind isReader_readBytes).map Value.bin
  | fixArray len => exact (h.many len).map Value.arr
  | array width => exact (isReader_readUint width).bind fun len => (h.many len).map Value.arr
  | fixMap len => exact (h.entry.many len).map Value.map
  | map width => exact (isReader_readUint width).bind fun len => (h.entry.many len).map Value.map
  | fixExt len => exact (isReader_readBytes (1 + len)).map extValue
  | ext width =>
    exact (isReader_readUint width).bind fun len => (isReader_readBytes (1 + len)).map extValue

theorem isReader_decode (depth : ℕ) : IsReader (decode depth) := by
  induction depth with
  | zero => exact isReader_none
  | succ depth ih =>
    intro data value rest hread
    cases data with
    | nil => cases hread
    | cons byte data =>
      obtain ⟨bytes, rfl, hbytes⟩ := isReader_decode_cons depth ih byte data value rest hread
      exact ⟨byte :: bytes, rfl, hbytes⟩

end

/-! ### Nesting

Every nested value is shorter than the value it is in, so that nesting as deep as the data is
long is enough. -/

section
variable {α : Type} {f n : ℕ} {one two : List UInt8 → Option (α × List UInt8)} {data : List UInt8}

theorem IsReader.length_le {x : α} {rest : List UInt8} (h : IsReader one)
    (hread : one data = some (x, rest)) : rest.length ≤ data.length := by
  obtain ⟨_, rfl, -⟩ := h data x rest hread
  simp

section

variable (hone : IsReader one)
  (h : ∀ data r, data.length ≤ f → one data = some r → two data = some r)
include hone h

theorem readMany_enough {r : List α × List UInt8} (hdata : data.length ≤ f)
    (hread : readMany one n data = some r) : readMany two n data = some r := by
  induction n generalizing data r with
  | zero => exact hread
  | succ n ih =>
    obtain ⟨ys, _⟩ := r
    obtain ⟨x, xs, _, rfl, hx, hxs⟩ := readMany_succ_eq_some hread
    simp [readMany, h _ _ hdata hx, ih ((hone.length_le hx).trans hdata) hxs]

theorem readEntry_enough (data : List UInt8) (r : (α × α) × List UInt8) (hdata : data.length ≤ f)
    (hread : readEntry one data = some r) : readEntry two data = some r := by
  obtain ⟨_, hk, hv⟩ := readEntry_eq_some hread
  simp [readEntry, h _ _ hdata hk, h _ _ ((hone.length_le hk).trans hdata) hv]

end

end

theorem decode_enough {depth f : ℕ} {data : List UInt8} {r : Value × List UInt8}
    (h : decode depth data = some r) (hdata : data.length ≤ f) : decode f data = some r := by
  induction depth generalizing data r f with
  | zero => cases h
  | succ depth ih =>
    cases data with
    | nil => cases h
    | cons byte data =>
      obtain ⟨f, rfl⟩ := Nat.exists_eq_add_of_lt (Nat.lt_of_lt_of_le (Nat.succ_pos _) hdata)
      rw [zero_add] at hdata ⊢
      have hshort : data.length ≤ f := by simpa using hdata
      have hone : ∀ data r, data.length ≤ f → decode depth data = some r → decode f data = some r :=
        fun _ _ hle h => ih h hle
      have hentry := readEntry_enough (isReader_decode depth) hone
      rw [decode] at h ⊢
      generalize ofByte byte = marker at h ⊢
      cases marker with
      | fixArray len =>
        obtain ⟨xs, hxs, hr⟩ := map_eq_some_iff.mp h
        simp only [readMany_enough (isReader_decode depth) hone hshort hxs, map_some, hr]
      | fixMap len =>
        obtain ⟨xs, hxs, hr⟩ := map_eq_some_iff.mp h
        simp only [readMany_enough (isReader_decode depth).entry hentry hshort hxs, map_some, hr]
      | array width =>
        obtain ⟨len, hlen, h⟩ := bind_eq_some_iff.mp h
        obtain ⟨xs, hxs, hr⟩ := map_eq_some_iff.mp h
        have hle := ((isReader_readUint width).length_le hlen).trans hshort
        simp [hlen, readMany_enough (isReader_decode depth) hone hle hxs, hr]
      | map width =>
        obtain ⟨len, hlen, h⟩ := bind_eq_some_iff.mp h
        obtain ⟨xs, hxs, hr⟩ := map_eq_some_iff.mp h
        have hle := ((isReader_readUint width).length_le hlen).trans hshort
        simp [hlen, readMany_enough (isReader_decode depth).entry hentry hle hxs, hr]
      | _ => exact h

/-! ### The scanner and the decoder -/

section
variable {f n width len : ℕ} {data rest : List UInt8}

/-- Where a reader succeeds on short data, skipping leaves what the reader leaves. -/
def SkipsRead {α : Type} (f : ℕ) (skip : List UInt8 → Option (List UInt8))
    (one : List UInt8 → Option (α × List UInt8)) : Prop :=
  ∀ data x rest, one data = some (x, rest) → data.length ≤ f →
    skip data = some rest ∧ rest.length ≤ data.length

/-- **The scanner skips what the decoder reads.** -/
theorem skipsRead_decode (f depth : ℕ) : SkipsRead f (skipValue f) (decode depth) := by
  intro _ v _ h hdata
  refine ⟨?_, (isReader_decode depth).length_le h⟩
  rw [skipValue_eq, decode_enough h hdata, map_some]

theorem lengthAt_of_readUint (h : readUint width data = some (len, rest)) :
    lengthAt width data = some len ∧ rest = data.drop width := by
  obtain ⟨_, rfl, rfl⟩ := readUint_eq_some h
  rw [lengthAt, if_neg (by omega)]
  exact ⟨rfl, rfl⟩

variable {depth : ℕ} {bytes data' : List UInt8} {v : Value} {id : String}
  {entries : List (Value × Value)} {items : List Value}

theorem skipMsgpackValue_of_decode (h : decode depth data = some (v, rest)) :
    skipMsgpackValue data = some rest := (skipsRead_decode data.length depth data v rest h le_rfl).1

/-- The id found in a map is the value of an entry with the key `request_id`. -/
theorem scan_mem (h : readMany (readEntry (decode depth)) n data = some (entries, rest))
    (hscan : scanMapForRequestId n data = some id) : (.str "request_id", .str id) ∈ entries := by
  induction n generalizing data entries with
  | zero => cases hscan
  | succ n ih =>
    obtain ⟨⟨k, v⟩, _, _, rfl, he, hentries⟩ := readMany_succ_eq_some h
    obtain ⟨_, hk, hv⟩ := readEntry_eq_some he
    obtain ⟨⟨_, _⟩, hkey, hscan⟩ := bind_eq_some_iff.mp hscan
    obtain ⟨rfl, rfl⟩ := decode_of_readStr hkey hk
    dsimp only at hscan
    split at hscan
    case isTrue hreq =>
      obtain ⟨⟨_, _⟩, hvalue, rfl⟩ := map_eq_some_iff.mp hscan
      obtain ⟨rfl, -⟩ := decode_of_readStr hvalue hv
      subst hreq
      exact List.mem_cons_self
    case isFalse =>
      rw [skipMsgpackValue_of_decode hv] at hscan
      exact List.mem_cons_of_mem _ (ih hentries hscan)

/-- The id found in an array is its second item. -/
theorem secondItem_eq (h : readMany (decode depth) n data = some (items, rest))
    (hn : 2 ≤ n) (hid : secondItem data = some id) : items[1]? = some (.str id) := by
  obtain ⟨n, rfl⟩ : ∃ m, n = m + 2 := ⟨n - 2, by omega⟩
  obtain ⟨x, _, _, rfl, hx, hitems⟩ := readMany_succ_eq_some h
  obtain ⟨y, _, _, rfl, hy, -⟩ := readMany_succ_eq_some hitems
  rw [secondItem, skipMsgpackValue_of_decode hx, bind_some] at hid
  obtain ⟨⟨s, _⟩, hs, rfl⟩ := map_eq_some_iff.mp hid
  obtain ⟨rfl, -⟩ := decode_of_readStr hs hy
  rfl

/-- The id is where the fast path looks: the second item of an array, or the value of an entry
with the key `request_id`. -/
def Found (id : String) (v : Value) : Prop :=
  (∃ items, v = .arr items ∧ items[1]? = some (.str id)) ∨
    ∃ entries, v = .map entries ∧ (.str "request_id", .str id) ∈ entries

/-- What the fast path finds in a payload the decoder reads. -/
theorem found_of_extract (h : decode depth data = some (v, rest))
    (hid : extractRequestIdFast data = some id) : Found id v := by
  cases data with
  | nil => cases hid
  | cons byte data =>
    cases depth with
    | zero => cases h
    | succ depth =>
      rw [decode] at h
      rw [extractRequestIdFast] at hid
      generalize ofByte byte = marker at h hid
      cases marker with
      | fixArray =>
        obtain ⟨⟨items, rest'⟩, hitems, ⟨⟩⟩ := map_eq_some_iff.mp h
        dsimp only at hid
        split at hid
        case isTrue hn => exact .inl ⟨items, rfl, secondItem_eq hitems hn hid⟩
        case isFalse => cases hid
      | array =>
        obtain ⟨⟨n, data'⟩, hlen, h⟩ := bind_eq_some_iff.mp h
        obtain ⟨⟨items, rest'⟩, hitems, ⟨⟩⟩ := map_eq_some_iff.mp h
        obtain ⟨hat, rfl⟩ := lengthAt_of_readUint hlen
        dsimp only at hid
        rw [hat, bind_some] at hid
        split at hid
        case isTrue => cases hid
        case isFalse hn =>
          exact .inl ⟨items, rfl, secondItem_eq hitems (by omega) hid⟩
      | fixMap =>
        obtain ⟨⟨entries, rest'⟩, hentries, ⟨⟩⟩ := map_eq_some_iff.mp h
        exact .inr ⟨entries, rfl, scan_mem hentries hid⟩
      | map =>
        obtain ⟨⟨n, data'⟩, hlen, h⟩ := bind_eq_some_iff.mp h
        obtain ⟨⟨entries, rest'⟩, hentries, ⟨⟩⟩ := map_eq_some_iff.mp h
        obtain ⟨hat, rfl⟩ := lengthAt_of_readUint hlen
        dsimp only at hid
        rw [hat, bind_some] at hid
        exact .inr ⟨entries, rfl, scan_mem hentries hid⟩
      | _ => cases hid

end

/-! ### Envelopes -/

section
variable {ρ : Type} {body : EnvelopeType → (ℕ → Option Value) → Option ρ} {maxDepth : ℕ}
  {payload : List UInt8} {id : String} {ty : EnvelopeType} {v : Value} {e : Envelope ρ}
  {entries : List (Value × Value)} {items : List Value}

theorem fromValue_eq_some (h : fromValue body ty v = some e) :
    ∃ s, slots ty.fields v = some s ∧ (s ty.requestIdIndex).bind asString = some e.requestId := by
  simp only [fromValue, bind_eq_bind, bind_eq_some_iff] at h
  obtain ⟨s, hs, _, hid, b, -, ⟨⟩⟩ := h
  exact ⟨s, hs, bind_eq_some_iff.mpr hid⟩

/-- The id of an envelope read from a map. -/
theorem requestId_of_map (h : fromValue body ty (.map entries) = some e)
    (hmem : (.str "request_id", .str id) ∈ entries) : e.requestId = id := by
  obtain ⟨s, hs, hid⟩ := fromValue_eq_some h
  rw [slots_of_mem hs hmem (show _ = some (some ty.requestIdIndex) by cases ty <;> rfl)] at hid
  exact (some.inj hid).symm

/-- The id of an envelope read from an array in which it is the second field. -/
theorem requestId_of_arr (hty : ty ≠ .resultChunkV1) (h : fromValue body ty (.arr items) = some e)
    (hitem : items[1]? = some (.str id)) : e.requestId = id := by
  have hindex : ty.requestIdIndex = 1 := by
    cases ty <;> first | rfl | exact absurd rfl hty
  obtain ⟨s, hs, hid⟩ := fromValue_eq_some h
  rw [hindex, slots_of_arr hs, hitem] at hid
  exact (some.inj hid).symm

theorem Found.requestId (hfound : Found id v) (hty : ty ≠ .resultChunkV1)
    (h : fromValue body ty v = some e) : e.requestId = id := by
  rcases hfound with ⟨_, rfl, hitem⟩ | ⟨_, rfl, hmem⟩
  · exact requestId_of_arr hty h hitem
  · exact requestId_of_map h hmem

/-- The work of a value is that of the request whose id the fast path found. -/
theorem Found.shardKey {w : InboxWork ρ} (hfound : Found id v)
    (h : workForValue body none v = some w) : w.shardKey = id := by
  unfold workForValue at h
  split at h
  case h_1 hkind =>
    split at h <;> cases h
    case h_1 _ hchunk =>
      -- Only a map has a kind.
      rcases hfound with ⟨_, rfl, -⟩ | ⟨_, rfl, hmem⟩
      · cases hkind
      · exact requestId_of_map hchunk hmem
  case h_2 =>
    obtain ⟨e, he, rfl⟩ := map_eq_some_iff.mp h
    exact hfound.requestId (by decide) he
  case h_3 =>
    obtain ⟨e, he, rfl⟩ := map_eq_some_iff.mp h
    exact hfound.requestId (by decide) he
  case h_4 =>
    obtain ⟨e, he, rfl⟩ := map_eq_some_iff.mp h
    exact hfound.requestId (by decide) he

/-- What the full decoder makes of a value does not depend on the hint. -/
theorem workForValue_of_none {w : InboxWork ρ} (hint : Option String)
    (h : workForValue body none v = some w) : workForValue body hint v = some w := by
  unfold workForValue at h ⊢
  split at h
  case h_1 =>
    split at h
    case h_1 => exact h
    case h_2 => cases h
  all_goals exact h

/-- **The fast path agrees with the full decoder.**  Where the fast path finds an id and the full
decoder reads the payload as a result, a chunk or a NAK, the id is that of the envelope.  A
message that the full decoder hands to a tracked request is neither dropped nor handed to
another request. -/
theorem fast_path_agrees (body : EnvelopeType → (ℕ → Option Value) → Option ρ) (maxDepth : ℕ)
    (payload : List UInt8) :
    (∀ id v rest ty e, extractRequestIdFast payload = some id →
        decode maxDepth payload = some (v, rest) → ty ≠ .resultChunkV1 →
        fromValue body ty v = some e → e.requestId = id) ∧
      ∀ isTracked w, slowWork body maxDepth payload = some w → (isTracked w.shardKey = true →
          inboxWorkForPayload body maxDepth payload isTracked = some w) ∧
        ∀ w', inboxWorkForPayload body maxDepth payload isTracked = some w' → w' = w := by
  refine ⟨fun id v rest ty e hid hv hty he => ?_, fun isTracked w hslow => ?_⟩
  · exact Found.requestId (found_of_extract hv hid) hty he
  · obtain ⟨⟨v, rest⟩, hv, hw⟩ := bind_eq_some_iff.mp hslow
    have hwork := workForValue_of_none (extractRequestIdFast payload) hw
    constructor
    · intro htracked
      have hkept : (extractRequestIdFast payload).any (fun id => !isTracked id) = false := by
        cases hid : extractRequestIdFast payload with
        | none => rfl
        | some id =>
          rw [← Found.shardKey (found_of_extract hv hid) hw, any_some, htracked]
          rfl
      simp [inboxWorkForPayload, hkept, hv, hwork]
    · intro w' hw'
      unfold inboxWorkForPayload at hw'
      dsimp only at hw'
      split at hw'
      case isTrue => cases hw'
      case isFalse =>
        rw [hv, bind_some, hwork] at hw'
        exact (some.inj hw').symm

end

/-! ### Skipping one value

Bytes encode a value if the decoder, with nesting deep enough, reads them to their end as the
value.  Every length encoding the format has is one the decoder reads.
-/

/-- The bytes are an encoding of the value. -/
def Encodes (value : Value) (bytes : List UInt8) : Prop :=
  ∃ depth, decode depth bytes = some (value, [])

/-- Bytes encode one value at most. -/
theorem Encodes.unique {value value' : Value} {bytes : List UInt8} (h : Encodes value bytes)
    (h' : Encodes value' bytes) : value = value' := by
  obtain ⟨_, hdepth⟩ := h
  obtain ⟨_, hdepth'⟩ := h'
  cases (decode_enough hdepth le_rfl).symm.trans (decode_enough hdepth' le_rfl)
  rfl

/-- The scanner skips the encoding of a value; and what it skips is the encoding of one value. -/
theorem skip_exact :
    (∀ value bytes rest, Encodes value bytes → skipMsgpackValue (bytes ++ rest) = some rest) ∧
    ∀ data rest, skipMsgpackValue data = some rest →
      ∃ bytes, bytes ≠ [] ∧ data = bytes ++ rest ∧ ∃! value, Encodes value bytes := by
  constructor
  · rintro value bytes rest ⟨depth, hdepth⟩
    obtain ⟨_, hbytes, hread⟩ := isReader_decode depth bytes value [] hdepth
    rw [List.append_nil] at hbytes
    subst hbytes
    exact (skipsRead_decode _ depth _ value rest (hread rest) le_rfl).1
  · intro data rest hskip
    rw [skipMsgpackValue, skipValue_eq] at hskip
    obtain ⟨⟨value, rest'⟩, hread, ⟨⟩⟩ := map_eq_some_iff.mp hskip
    obtain ⟨bytes, hdata, hbytes⟩ := isReader_decode _ data value rest' hread
    have henc : Encodes value bytes := ⟨data.length, by simpa using hbytes []⟩
    refine ⟨bytes, ?_, hdata, value, henc, fun value' h => h.unique henc⟩
    rintro rfl
    obtain ⟨depth, hdepth⟩ := henc
    cases depth <;> cases hdepth

theorem skip_exact_array : skipMsgpackValue ([0x91, 0xc0] ++ [0xff]) = some [0xff] := by
  have harray : ofByte 0x91 = .fixArray 1 := rfl
  have hnull : ofByte 0xc0 = .null := rfl
  exact skip_exact.1 (.arr [.nil]) _ _ ⟨2, by simp [decode, readMany, harray, hnull]⟩

/-! ### A payload -/

namespace OneChunk

/-- A chunk envelope with a nested field before the request id. -/
def payload : List UInt8 :=
  [0x83, 0xa4, 0x6b, 0x69, 0x6e, 0x64, 0xa5, 0x63, 0x68, 0x75, 0x6e, 0x6b,
    0xa1, 0x78, 0x92, 0x81, 0xa1, 0x79, 0xc0, 0xcd, 0x01, 0x00,
    0xaa, 0x72, 0x65, 0x71, 0x75, 0x65, 0x73, 0x74, 0x5f, 0x69, 0x64, 0xa2, 0x72, 0x31]

/-- An envelope whose other fields are not looked at. -/
def body : EnvelopeType → (ℕ → Option Value) → Option Unit := fun _ _ => some ()

/-- At a chunk for a tracked request: it is handed on. -/
theorem fast_path_agrees_chunk : extractRequestIdFast payload = some "r1" ∧
    inboxWorkForPayload body 1024 payload (· = "r1") = some (.chunk ⟨"r1", ()⟩) :=
  ⟨by decide +kernel, ((fast_path_agrees body 1024 payload).2 (· = "r1") (.chunk ⟨"r1", ()⟩)
    (by decide +kernel)).1 (by decide)⟩

end OneChunk

end Sie.Gateway.Inbox
