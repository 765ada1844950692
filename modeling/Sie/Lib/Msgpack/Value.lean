import Mathlib.Algebra.Order.Ring.Int
import Mathlib.Data.List.Basic

/-!
# MessagePack values and records

A decoder of MessagePack values from bytes, with a bound on the nesting, and the way a record
with named fields is read from a value: by position from an array, by key from a map, where a
field that comes twice is an error.

## Main definitions

* `Marker` — what the first byte of a value says.
* `decode` — the value at the front of the bytes.
* `readStr` — the string at the front of the bytes.
* `slots` — the values of the fields of a record.
* `slots_of_mem` — in a record that is read, the value of a field is the one the map gives it.
-/

namespace Sie.Lib.Msgpack

open Option

/-! ### Markers -/

/-- What the first byte of a value says.  The numbers are lengths, or widths in bytes of the
length or number that follows: `str 1` is `Str8`, `str 2` is `Str16`, `str 4` is `Str32`. -/
inductive Marker
  | null
  | bool (b : Bool)
  | fixPos (n : ℕ)
  | fixNeg (n : ℕ)
  | uint (width : ℕ)
  | int (width : ℕ)
  | float (width : ℕ)
  | fixStr (len : ℕ)
  | str (width : ℕ)
  | bin (width : ℕ)
  | fixArray (len : ℕ)
  | array (width : ℕ)
  | fixMap (len : ℕ)
  | map (width : ℕ)
  | fixExt (len : ℕ)
  | ext (width : ℕ)
  | reserved
  deriving DecidableEq

def Marker.ofByte (byte : UInt8) : Marker :=
  let n := byte.toNat
  if n < 0x80 then .fixPos n
  else if n < 0x90 then .fixMap (n - 0x80)
  else if n < 0xa0 then .fixArray (n - 0x90)
  else if n < 0xc0 then .fixStr (n - 0xa0)
  else
    match n with
    | 0xc0 => .null
    | 0xc1 => .reserved
    | 0xc2 => .bool false
    | 0xc3 => .bool true
    | 0xc4 => .bin 1
    | 0xc5 => .bin 2
    | 0xc6 => .bin 4
    | 0xc7 => .ext 1
    | 0xc8 => .ext 2
    | 0xc9 => .ext 4
    | 0xca => .float 4
    | 0xcb => .float 8
    | 0xcc => .uint 1
    | 0xcd => .uint 2
    | 0xce => .uint 4
    | 0xcf => .uint 8
    | 0xd0 => .int 1
    | 0xd1 => .int 2
    | 0xd2 => .int 4
    | 0xd3 => .int 8
    | 0xd4 => .fixExt 1
    | 0xd5 => .fixExt 2
    | 0xd6 => .fixExt 4
    | 0xd7 => .fixExt 8
    | 0xd8 => .fixExt 16
    | 0xd9 => .str 1
    | 0xda => .str 2
    | 0xdb => .str 4
    | 0xdc => .array 2
    | 0xdd => .array 4
    | 0xde => .map 2
    | 0xdf => .map 4
    | n => .fixNeg (256 - n)

/-! ### Values -/

/-- A value.  A string that is not UTF-8 is kept as bytes. -/
inductive Value
  | nil
  | bool (b : Bool)
  | int (n : ℤ)
  | float (width bits : ℕ)
  | str (s : String)
  | bin (bytes : List UInt8)
  | arr (items : List Value)
  | map (entries : List (Value × Value))
  | ext (kind : ℕ) (bytes : List UInt8)

/-- The first `n` bytes, and the rest. -/
def readBytes (n : ℕ) (data : List UInt8) : Option (List UInt8 × List UInt8) :=
  if n ≤ data.length then some (data.take n, data.drop n) else none

/-- A number from its bytes, highest first. -/
def beNat (bytes : List UInt8) : ℕ := bytes.foldl (fun n b => 256 * n + b.toNat) 0

def readUint (width : ℕ) (data : List UInt8) : Option (ℕ × List UInt8) :=
  (readBytes width data).map fun r => (beNat r.1, r.2)

/-- Bytes behind a length of the given width. -/
def readSized (width : ℕ) (data : List UInt8) : Option (List UInt8 × List UInt8) :=
  (readUint width data).bind fun r => readBytes r.1 r.2

def utf8? (bytes : List UInt8) : Option String := String.fromUTF8? ⟨bytes.toArray⟩

def strValue (bytes : List UInt8) : Value :=
  match utf8? bytes with
  | some s => .str s
  | none => .bin bytes

/-- An extension from its type and its bytes. -/
def extValue (bytes : List UInt8) : Value := .ext (beNat (bytes.take 1)) (bytes.drop 1)

def signed (width n : ℕ) : ℤ :=
  if n < 2 ^ (8 * width - 1) then n else (n : ℤ) - 2 ^ (8 * width)

/-- `n` things, one after the other. -/
def readMany {α : Type} (one : List UInt8 → Option (α × List UInt8)) :
    ℕ → List UInt8 → Option (List α × List UInt8)
  | 0, data => some ([], data)
  | n + 1, data => do
      let (x, data) ← one data
      let (xs, data) ← readMany one n data
      return (x :: xs, data)

/-- A key and its value. -/
def readEntry {α : Type} (one : List UInt8 → Option (α × List UInt8)) (data : List UInt8) :
    Option ((α × α) × List UInt8) := do
  let (k, data) ← one data
  let (v, data) ← one data
  return ((k, v), data)

/-- The value at the front of the bytes and what follows it, with values nested `depth` deep at
most. -/
def decode : (depth : ℕ) → List UInt8 → Option (Value × List UInt8)
  | 0, _ => none
  | _ + 1, [] => none
  | depth + 1, byte :: rest =>
    match Marker.ofByte byte with
    | .null => some (.nil, rest)
    | .bool b => some (.bool b, rest)
    | .fixPos n => some (.int n, rest)
    | .fixNeg n => some (.int (-n), rest)
    | .uint width => (readUint width rest).map fun r => (.int r.1, r.2)
    | .int width => (readUint width rest).map fun r => (.int (signed width r.1), r.2)
    | .float width => (readUint width rest).map fun r => (.float width r.1, r.2)
    | .fixStr len => (readBytes len rest).map fun r => (strValue r.1, r.2)
    | .str width => (readSized width rest).map fun r => (strValue r.1, r.2)
    | .bin width => (readSized width rest).map fun r => (.bin r.1, r.2)
    | .fixArray len => (readMany (decode depth) len rest).map fun r => (.arr r.1, r.2)
    | .array width => do
        let (len, rest) ← readUint width rest
        (readMany (decode depth) len rest).map fun r => (.arr r.1, r.2)
    | .fixMap len => (readMany (readEntry (decode depth)) len rest).map fun r => (.map r.1, r.2)
    | .map width => do
        let (len, rest) ← readUint width rest
        (readMany (readEntry (decode depth)) len rest).map fun r => (.map r.1, r.2)
    | .fixExt len => (readBytes (1 + len) rest).map fun r => (extValue r.1, r.2)
    | .ext width => do
        let (len, rest) ← readUint width rest
        (readBytes (1 + len) rest).map fun r => (extValue r.1, r.2)
    | .reserved => none

/-- The bytes of a string behind its marker. -/
def readStrBytes (rest : List UInt8) : Marker → Option (List UInt8 × List UInt8)
  | .fixStr len => readBytes len rest
  | .str width => readSized width rest
  | _ => none

/-- The string at the front of the bytes and what follows it. -/
def readStr : List UInt8 → Option (String × List UInt8)
  | [] => none
  | byte :: rest => do
      let (bytes, rest) ← readStrBytes rest (Marker.ofByte byte)
      return (← utf8? bytes, rest)

/-! ### Records -/

/-- The field a key names: by its name, as a string or as bytes, or by its index.  `none` if the
key can name no field, `some none` if it names a field that the record does not have. -/
def fieldOf (fields : List String) : Value → Option (Option ℕ)
  | .str s => some (fields.findIdx? fun f => f = s)
  | .bin bytes => some (fields.findIdx? fun f => f.toUTF8.data.toList = bytes)
  | .int n => if 0 ≤ n then some (if n < fields.length then some n.toNat else none) else none
  | _ => none

/-- The values of the fields from the entries of a map; a field that comes twice is an error. -/
def collect (fields : List String) :
    List (Value × Value) → (ℕ → Option Value) → Option (ℕ → Option Value)
  | [], slots => some slots
  | (k, v) :: rest, slots =>
    match fieldOf fields k with
    | none => none
    | some none => collect fields rest slots
    | some (some i) =>
      if (slots i).isSome then none else collect fields rest (Function.update slots i (some v))

/-- The values of the fields of a record. -/
def slots (fields : List String) : Value → Option (ℕ → Option Value)
  | .arr items => if items.length ≤ fields.length then some (fun i => items[i]?) else none
  | .map entries => collect fields entries fun _ => none
  | _ => none

/-- A value read as a string. -/
def asString : Value → Option String
  | .str s => some s
  | .bin bytes => utf8? bytes
  | _ => none

/-! ### What the readers leave -/

section
variable {α : Type} {n width : ℕ} {data rest bytes : List UInt8}
  {one : List UInt8 → Option (α × List UInt8)}

theorem readBytes_eq_some (h : readBytes n data = some (bytes, rest)) :
    n ≤ data.length ∧ bytes = data.take n ∧ rest = data.drop n := by
  unfold readBytes at h
  split at h <;> cases h
  case isTrue hle => exact ⟨hle, rfl, rfl⟩

theorem readUint_eq_some {len : ℕ} (h : readUint width data = some (len, rest)) :
    width ≤ data.length ∧ len = beNat (data.take width) ∧ rest = data.drop width := by
  obtain ⟨⟨_, _⟩, hbytes, hr⟩ := map_eq_some_iff.mp h
  obtain ⟨hle, rfl, rfl⟩ := readBytes_eq_some hbytes
  cases hr
  exact ⟨hle, rfl, rfl⟩

theorem readMany_succ_eq_some {xs : List α} (h : readMany one (n + 1) data = some (xs, rest)) :
    ∃ x xs' data', xs = x :: xs' ∧ one data = some (x, data') ∧
      readMany one n data' = some (xs', rest) := by
  simp only [readMany, bind_eq_bind, bind_eq_some_iff] at h
  obtain ⟨⟨x, data'⟩, hx, ⟨xs', _⟩, hxs, ⟨⟩⟩ := h
  exact ⟨x, xs', data', rfl, hx, hxs⟩

theorem readEntry_eq_some {e : α × α} (h : readEntry one data = some (e, rest)) :
    ∃ data', one data = some (e.1, data') ∧ one data' = some (e.2, rest) := by
  simp only [readEntry, bind_eq_bind, bind_eq_some_iff] at h
  obtain ⟨⟨k, data'⟩, hk, ⟨v, _⟩, hv, ⟨⟩⟩ := h
  exact ⟨data', hk, hv⟩

/-- Where a string is read, the decoder reads that string. -/
theorem decode_readStr {s : String} (h : readStr data = some (s, rest)) (depth : ℕ) :
    decode (depth + 1) data = some (.str s, rest) := by
  cases data with
  | nil => cases h
  | cons _ data =>
    simp only [readStr, bind_eq_bind, bind_eq_some_iff] at h
    obtain ⟨⟨bytes, _⟩, hbytes, s', hutf8, ⟨⟩⟩ := h
    have hvalue : strValue bytes = .str s := by rw [strValue, hutf8]
    rw [decode]
    unfold readStrBytes at hbytes
    split at hbytes
    case h_1 _ hmarker => simp [hmarker, hbytes, hvalue]
    case h_2 _ hmarker => simp [hmarker, hbytes, hvalue]
    case h_3 => cases hbytes

theorem decode_of_readStr {depth : ℕ} {v : Value} {rest' : List UInt8} {s : String}
    (hs : readStr data = some (s, rest')) (h : decode depth data = some (v, rest)) :
    v = .str s ∧ rest = rest' := by
  cases depth with
  | zero => cases h
  | succ depth =>
    cases (decode_readStr hs depth).symm.trans h
    exact ⟨rfl, rfl⟩

end

/-! ### What a record holds -/

section
variable {fields : List String} {k v : Value} {i : ℕ} {entries : List (Value × Value)}
  {s s' : ℕ → Option Value}

/-- A field that has a value keeps it. -/
theorem collect_keeps (h : collect fields entries s = some s') (hi : s i = some v) :
    s' i = some v := by
  induction entries generalizing s with
  | nil =>
    cases h
    exact hi
  | cons e entries ih =>
    rw [collect] at h
    split at h
    case h_1 => cases h
    case h_2 => exact ih h hi
    case h_3 j _ =>
      split at h
      case isTrue => cases h
      case isFalse hj =>
        refine ih h ?_
        by_cases hij : i = j
        · subst hij
          simp [hi] at hj
        · rw [Function.update_of_ne hij, hi]

theorem collect_of_mem (h : collect fields entries s = some s') (hmem : (k, v) ∈ entries)
    (hk : fieldOf fields k = some (some i)) : s' i = some v := by
  induction entries generalizing s with
  | nil => cases hmem
  | cons e entries ih =>
    rcases List.mem_cons.mp hmem with heq | hmem
    · cases heq
      rw [collect, hk] at h
      dsimp only at h
      split at h
      case isTrue => cases h
      case isFalse => exact collect_keeps h (by simp)
    rw [collect] at h
    split at h
    case h_1 => cases h
    case h_2 => exact ih h hmem
    case h_3 j =>
      split at h
      case isTrue => cases h
      case isFalse => exact ih h hmem

/-- **A record read from a map holds what the map gives the field.** -/
theorem slots_of_mem (h : slots fields (.map entries) = some s) (hmem : (k, v) ∈ entries)
    (hk : fieldOf fields k = some (some i)) : s i = some v := collect_of_mem h hmem hk

/-- A record read from an array holds the items in order. -/
theorem slots_of_arr {items : List Value} (h : slots fields (.arr items) = some s) :
    s i = items[i]? := by
  rw [slots] at h
  split at h <;> cases h
  case isTrue => rfl

end

end Sie.Lib.Msgpack
