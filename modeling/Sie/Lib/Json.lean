import Mathlib.Data.List.Basic

/-!
# JSON values

The values of `serde_json`, with objects as lists of fields in insertion order
(the `preserve_order` feature is on) and the accessors the gateway reads them with.
-/

namespace Sie.Lib

/-- A JSON number as `serde_json` keeps it: `posInt n` is `n`, `negInt n` is `-(n + 1)`,
and a float is kept by its bits. -/
inductive JsonNumber
  | posInt (n : ℕ)
  | negInt (n : ℕ)
  | float (bits : BitVec 64)
  deriving DecidableEq

/-- A JSON value. -/
inductive Json
  | null
  | bool (b : Bool)
  | num (n : JsonNumber)
  | str (s : String)
  | arr (items : List Json)
  | obj (fields : List (String × Json))

namespace Json

mutual

/-- Equality of two values, decided. -/
def same : Json → Json → Bool
  | .null, .null => true
  | .bool a, .bool b => a == b
  | .num a, .num b => a == b
  | .str a, .str b => a == b
  | .arr a, .arr b => sameItems a b
  | .obj a, .obj b => sameFields a b
  | _, _ => false

def sameItems : List Json → List Json → Bool
  | [], [] => true
  | a :: as, b :: bs => same a b && sameItems as bs
  | _, _ => false

def sameFields : List (String × Json) → List (String × Json) → Bool
  | [], [] => true
  | (k, a) :: as, (l, b) :: bs => k == l && same a b && sameFields as bs
  | _, _ => false

end

mutual

theorem same_iff : ∀ a b : Json, same a b = true ↔ a = b
  | .null, b => by cases b <;> simp [same]
  | .bool a, b => by cases b <;> simp [same]
  | .num a, b => by cases b <;> simp [same]
  | .str a, b => by cases b <;> simp [same]
  | .arr a, b => by cases b <;> simp [same, sameItems_iff a]
  | .obj a, b => by cases b <;> simp [same, sameFields_iff a]

theorem sameItems_iff : ∀ a b : List Json, sameItems a b = true ↔ a = b
  | [], b => by cases b <;> simp [sameItems]
  | a :: as, b => by cases b <;> simp [sameItems, same_iff a, sameItems_iff as]

theorem sameFields_iff : ∀ a b : List (String × Json), sameFields a b = true ↔ a = b
  | [], b => by cases b <;> simp [sameFields]
  | (k, a) :: as, b => by
      cases b <;> simp [sameFields, same_iff a, sameFields_iff as, Prod.ext_iff]

end

instance : DecidableEq Json := fun a b => decidable_of_iff _ (same_iff a b)

/-- The value of a field, if this is an object with that field. -/
def get (value : Json) (key : String) : Option Json :=
  match value with
  | .obj fields => fields.lookup key
  | _ => none

def asStr : Json → Option String
  | .str s => some s
  | _ => none

def asU64 : Json → Option ℕ
  | .num (.posInt n) => some n
  | _ => none

def asArray : Json → Option (List Json)
  | .arr items => some items
  | _ => none

def isObject : Json → Bool
  | .obj _ => true
  | _ => false

/-- The field of an object that is a string. -/
def getStr (value : Json) (key : String) : Option String := (value.get key).bind asStr

/-- The items of a field that is an array. -/
def getItems (value : Json) (key : String) : List Json :=
  ((value.get key).bind asArray).getD []

/-- A number that is no float and not negative. -/
def nat (n : ℕ) : Json := .num (.posInt n)

end Json

end Sie.Lib
