import Sie.Lib.Json

/-!
# JSON pointers

A pointer (RFC 6901) names a part of a JSON value by the keys and indices on the way to it.

## Main definitions

* `Json.child` — the part one token leads to.
* `Json.pointer` — the part a pointer leads to, as `serde_json` reads it.
-/

namespace Sie.Lib

namespace Json

/-! ### Reading a pointer -/

/-- An index without sign and without leading zeros. -/
def parseIndex (token : List Char) : Option ℕ :=
  if token = [] ∨ (token.head? = some '0' ∧ token.length ≠ 1) ∨ ¬ token.all Char.isDigit then none
  else some (token.foldl (fun n c => 10 * n + (c.toNat - '0'.toNat)) 0)

/-- The part a token leads to. -/
def child (v : Json) (token : List Char) : Option Json :=
  match v with
  | .obj fields => fields.lookup (String.ofList token)
  | .arr items => (parseIndex token).bind (items[·]?)
  | _ => none

/-- `~c` read as `d`, from left to right. -/
def unescape (c d : Char) : List Char → List Char
  | '~' :: x :: rest => if x = c then d :: unescape c d rest else '~' :: unescape c d (x :: rest)
  | x :: rest => x :: unescape c d rest
  | [] => []

/-- The pieces of a text between slashes. -/
def pieces : List Char → List (List Char)
  | [] => [[]]
  | c :: rest =>
    if c = '/' then [] :: pieces rest
    else
      match pieces rest with
      | [] => [[c]]
      | piece :: more => (c :: piece) :: more

/-- The tokens of a pointer; a pointer is empty or begins with a slash. -/
def tokens (pointer : List Char) : Option (List (List Char)) :=
  match pointer with
  | [] => some []
  | '/' :: rest => some ((pieces rest).map fun p => unescape '0' '~' (unescape '1' '/' p))
  | _ => none

/-- The part the tokens lead to. -/
def descend (v : Json) : List (List Char) → Option Json
  | [] => some v
  | token :: rest => (v.child token).bind fun c => c.descend rest

/-- The part a pointer leads to. -/
def pointer (v : Json) (p : String) : Option Json := (tokens p.toList).bind v.descend

end Json

end Sie.Lib
