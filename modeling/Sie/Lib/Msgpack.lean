import Mathlib.Tactic.Ring

/-!
# MessagePack writers

The shortest MessagePack encodings of unsigned integers, strings, byte strings and
map headers, as bytes.  What is proved is about sizes: an encoded value only grows
with the value, so the size of one encoding bounds the sizes of all smaller ones.

## Main definitions

* `bigEndian n v` — the lowest `n` bytes of `v`.
* `writeUint`, `writeStr`, `writeBin`, `writeMapLen` — the writers.
* `writeUint_length_mono`, `writeBin_length_mono` — sizes grow with what is written.
-/

namespace Sie.Lib.Msgpack

/-- The lowest `n` bytes of a number, highest first. -/
def bigEndian : ℕ → ℕ → List UInt8
  | 0, _ => []
  | n + 1, v => UInt8.ofNat (v / 256 ^ n) :: bigEndian n v

@[simp] theorem bigEndian_length (n v : ℕ) : (bigEndian n v).length = n := by
  induction n with
  | zero => rfl
  | succ n ih => rw [bigEndian, List.length_cons, ih]

/-- An unsigned integer in the shortest form that holds it. -/
def writeUint (v : ℕ) : List UInt8 :=
  if v < 2 ^ 7 then [UInt8.ofNat v]
  else if v < 2 ^ 8 then 0xcc :: bigEndian 1 v
  else if v < 2 ^ 16 then 0xcd :: bigEndian 2 v
  else if v < 2 ^ 32 then 0xce :: bigEndian 4 v
  else 0xcf :: bigEndian 8 v

/-- The header of a string of `n` bytes. -/
def strHeader (n : ℕ) : List UInt8 :=
  if n < 2 ^ 5 then [UInt8.ofNat (0xa0 + n)]
  else if n < 2 ^ 8 then 0xd9 :: bigEndian 1 n
  else if n < 2 ^ 16 then 0xda :: bigEndian 2 n
  else 0xdb :: bigEndian 4 n

/-- A string as its UTF-8 bytes behind their header. -/
def writeStr (s : String) : List UInt8 :=
  strHeader s.toUTF8.data.toList.length ++ s.toUTF8.data.toList

/-- The header of a byte string of `n` bytes. -/
def binHeader (n : ℕ) : List UInt8 :=
  if n < 2 ^ 8 then 0xc4 :: bigEndian 1 n
  else if n < 2 ^ 16 then 0xc5 :: bigEndian 2 n
  else 0xc6 :: bigEndian 4 n

def writeBin (bytes : List UInt8) : List UInt8 := binHeader bytes.length ++ bytes

/-- The header of a map of `n` entries. -/
def writeMapLen (n : ℕ) : List UInt8 :=
  if n < 2 ^ 4 then [UInt8.ofNat (0x80 + n)]
  else if n < 2 ^ 16 then 0xde :: bigEndian 2 n
  else 0xdf :: bigEndian 4 n

theorem writeUint_length_mono {v w : ℕ} (h : v ≤ w) :
    (writeUint v).length ≤ (writeUint w).length := by
  unfold writeUint
  split_ifs <;> simp [bigEndian_length] <;> omega

theorem binHeader_length_mono {v w : ℕ} (h : v ≤ w) :
    (binHeader v).length ≤ (binHeader w).length := by
  unfold binHeader
  split_ifs <;> simp only [List.length_cons, bigEndian_length] <;> omega

theorem writeBin_length_mono {a b : List UInt8} (h : a.length ≤ b.length) :
    (writeBin a).length ≤ (writeBin b).length := by
  have hheader := binHeader_length_mono h
  simp only [writeBin, List.length_append]
  omega

end Sie.Lib.Msgpack
