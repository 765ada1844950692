import Sie.Lib.Msgpack
import Sie.Lib.Msgpack.Value

/-!
# What the writers write is what the decoder reads

The decoder at the bytes of a written value gives the value back and leaves what follows it.

## Main definitions

* `decode_writeUint`, `decode_writeStr`, `decode_writeBin` — the scalars.
* `Reads`, `decode_writeMap` — the fields of a map.
-/

namespace Sie.Lib.Msgpack

open List Option Marker

variable {w v n : ℕ} {bytes : List UInt8}

/-! ### Bytes -/

theorem foldl_bigEndian (w v acc : ℕ) :
    (bigEndian w v).foldl (fun n b => 256 * n + b.toNat) acc = acc * 256 ^ w + v % 256 ^ w := by
  induction w generalizing acc with
  | zero => simp [bigEndian, Nat.mod_one]
  | succ w ih =>
    have hbyte : (UInt8.ofNat (v / 256 ^ w)).toNat = v / 256 ^ w % 256 := by simp
    rw [bigEndian, foldl_cons, ih, hbyte, pow_succ, Nat.mod_mul]
    ring

theorem readBytes_append (bytes rest : List UInt8) :
    readBytes bytes.length (bytes ++ rest) = some (bytes, rest) := by
  rw [readBytes, if_pos (by simp), take_left, drop_left]

theorem readUint_append (h : v < 256 ^ w) (rest : List UInt8) :
    readUint w (bigEndian w v ++ rest) = some (v, rest) := by
  have hread := readBytes_append (bigEndian w v) rest
  rw [bigEndian_length] at hread
  rw [readUint, hread, map_some, beNat, foldl_bigEndian, zero_mul, zero_add, Nat.mod_eq_of_lt h]

theorem readSized_append (h : bytes.length < 256 ^ w) (rest : List UInt8) :
    readSized w (bigEndian w bytes.length ++ bytes ++ rest) = some (bytes, rest) := by
  rw [append_assoc, readSized, readUint_append h, Option.bind_some, readBytes_append]

/-! ### Markers -/

theorem toNat_byte (h : n < 256) : (UInt8.ofNat n).toNat = n :=
  UInt8.toNat_ofNat_of_lt h

theorem ofByte_fixPos (h : n < 0x80) : ofByte (UInt8.ofNat n) = .fixPos n := by
  have hn : (UInt8.ofNat n).toNat = n := toNat_byte (by omega)
  simp [ofByte, hn, if_pos h]

theorem ofByte_fixStr (h : n < 0x20) : ofByte (UInt8.ofNat (0xa0 + n)) = .fixStr n := by
  have hn : (UInt8.ofNat (0xa0 + n)).toNat = 0xa0 + n := toNat_byte (by omega)
  simp only [ofByte, hn]
  rw [if_neg (by omega), if_neg (by omega), if_neg (by omega), if_pos (by omega),
    Nat.add_sub_cancel_left]

theorem ofByte_fixMap (h : n < 0x10) : ofByte (UInt8.ofNat (0x80 + n)) = .fixMap n := by
  have hn : (UInt8.ofNat (0x80 + n)).toNat = 0x80 + n := toNat_byte (by omega)
  simp only [ofByte, hn]
  rw [if_neg (by omega), if_pos (by omega), Nat.add_sub_cancel_left]

/-! ### Scalars -/

section
variable {d : ℕ} {rest : List UInt8}

theorem decode_writeUint {v : ℕ} (h : v < 2 ^ 64) :
    decode (d + 1) (writeUint v ++ rest) = some (.int v, rest) := by
  unfold writeUint
  split
  case isTrue hv => simp [cons_append, nil_append, decode, ofByte_fixPos hv]
  split
  case isTrue hv =>
    have hread := readUint_append (w := 1) hv rest
    have hmarker : ofByte 0xcc = .uint 1 := rfl
    simp [decode, hmarker, hread]
  split
  case isTrue hv =>
    have hread := readUint_append (w := 2) hv rest
    have hmarker : ofByte 0xcd = .uint 2 := rfl
    simp [decode, hmarker, hread]
  split
  case isTrue hv =>
    have hread := readUint_append (w := 4) hv rest
    have hmarker : ofByte 0xce = .uint 4 := rfl
    simp [decode, hmarker, hread]
  case isFalse =>
    have hread := readUint_append (w := 8) h rest
    have hmarker : ofByte 0xcf = .uint 8 := rfl
    simp [decode, hmarker, hread]

theorem decode_writeBin (h : bytes.length < 2 ^ 32) :
    decode (d + 1) (writeBin bytes ++ rest) = some (.bin bytes, rest) := by
  unfold writeBin binHeader
  split
  case isTrue hv =>
    have hread := readSized_append (w := 1) hv rest
    have hmarker : ofByte 0xc4 = .bin 1 := rfl
    simp only [cons_append, decode, hmarker, hread, map_some]
  split
  case isTrue hv =>
    have hread := readSized_append (w := 2) hv rest
    have hmarker : ofByte 0xc5 = .bin 2 := rfl
    simp only [cons_append, decode, hmarker, hread, map_some]
  case isFalse =>
    have hread := readSized_append (w := 4) h rest
    have hmarker : ofByte 0xc6 = .bin 4 := rfl
    simp only [cons_append, decode, hmarker, hread, map_some]

/-- The UTF-8 bytes of a string. -/
def utf8 (s : String) : List UInt8 := s.toUTF8.data.toList

theorem utf8?_utf8 (s : String) : utf8? (utf8 s) = some s := by
  have hbytes : (⟨(utf8 s).toArray⟩ : ByteArray) = s.toUTF8 := by
    simp [utf8]
  have hvalid : s.toUTF8.IsValidUTF8 := s.isValidUTF8
  rw [utf8?, hbytes, String.fromUTF8?, dif_pos hvalid]
  rfl

theorem readStr_cons {byte : UInt8} {data : List UInt8} {s : String}
    (h : readStrBytes data (ofByte byte) = some (utf8 s, rest)) :
    readStr (byte :: data) = some (s, rest) := by
  simp [readStr, h, utf8?_utf8]

theorem readStr_writeStr {s : String} (h : (utf8 s).length < 2 ^ 32) (rest : List UInt8) :
    readStr (writeStr s ++ rest) = some (s, rest) := by
  change readStr (strHeader (utf8 s).length ++ utf8 s ++ rest) = _
  unfold strHeader
  split
  case isTrue hv =>
    apply readStr_cons
    rw [ofByte_fixStr hv]
    exact readBytes_append _ rest
  split
  case isTrue hv => exact readStr_cons (readSized_append (w := 1) hv rest)
  split
  case isTrue hv => exact readStr_cons (readSized_append (w := 2) hv rest)
  case isFalse => exact readStr_cons (readSized_append (w := 4) h rest)

theorem decode_writeStr {s : String} (h : (utf8 s).length < 2 ^ 32) :
    decode (d + 1) (writeStr s ++ rest) = some (.str s, rest) :=
  decode_readStr (readStr_writeStr h rest) d

end

variable {d : ℕ} {fs : List (String × List UInt8)} {vs : List Value}

/-! ### Maps -/

/-- Whatever follows them, the bytes are read as the value. -/
def Reads (d : ℕ) (bytes : List UInt8) (v : Value) : Prop :=
  ∀ rest, decode d (bytes ++ rest) = some (v, rest)

/-- A field of a map as its bytes. -/
def writeField (f : String × List UInt8) : List UInt8 := writeStr f.1 ++ f.2

theorem readMany_fields (hkeys : ∀ f ∈ fs, (utf8 f.1).length < 2 ^ 32)
    (hvs : List.Forall₂ (fun f v => Reads (d + 1) f.2 v) fs vs) (rest : List UInt8) :
    readMany (readEntry (decode (d + 1))) fs.length (fs.flatMap writeField ++ rest) =
      some ((fs.map fun f => Value.str f.1).zip vs, rest) := by
  induction hvs with
  | nil => rfl
  | @cons f v fs vs hf _ ih =>
    have hkey := hkeys f mem_cons_self
    have hrest := ih fun g hg => hkeys g (mem_cons_of_mem _ hg)
    have hentry : readEntry (decode (d + 1)) ((f :: fs).flatMap writeField ++ rest) =
        some ((.str f.1, v), fs.flatMap writeField ++ rest) := by
      rw [flatMap_cons, writeField, append_assoc, append_assoc]
      simp [readEntry, decode_writeStr hkey, hf _, Option.bind_eq_bind, Option.bind_some,
        Option.pure_def]
    rw [length_cons, readMany]
    simp only [hentry, hrest, Option.bind_eq_bind, Option.bind_some, Option.pure_def,
      map_cons, zip_cons_cons]

/-- A map of up to fifteen fields is read field by field. -/
theorem decode_writeMap (hlen : fs.length < 2 ^ 4) (hkeys : ∀ f ∈ fs, (utf8 f.1).length < 2 ^ 32)
    (hvs : List.Forall₂ (fun f v => Reads (d + 1) f.2 v) fs vs) (rest : List UInt8) :
    decode (d + 2) (writeMapLen fs.length ++ fs.flatMap writeField ++ rest) =
      some (.map ((fs.map fun f => Value.str f.1).zip vs), rest) := by
  rw [writeMapLen, if_pos hlen]
  simp only [cons_append, nil_append, decode, ofByte_fixMap hlen,
    readMany_fields hkeys hvs, map_some]

end Sie.Lib.Msgpack
