import Mathlib.Data.Set.Card
import Sie.Lib.JsonPointer

/-!
# The meaning of a JSON Schema

A schema (draft 2020-12) as a predicate on instances.  The keywords that apply subschemas are
read as the draft says; every other keyword is read by a `Vocabulary`, so that what is proved
here holds whatever these keywords assert.

A schema with references has a meaning where its references are well founded, so meaning is a
relation: `Means V b part m` reads a part of a document whose `#…` references start at the
value `b`, the nearest enclosing schema with an `$id`.

## Main definitions

* `Position`, `Position.child` — what a value of a schema document stands for.
* `Vocabulary.keyword` — what a keyword says, given the meaning of its subschemas.
* `percentDecode`, `resolve` — the target of a reference.
* `Means` — the meaning of a part of a document; `Valid` — an instance is valid.
* `SchemaObject` — the objects that stand in a schema position of a document.
-/

namespace Sie.Lib.JsonSchema

/-! ### Positions -/

/-- What a value of a schema document stands for: a schema, a table of schemas by names, a list
of schemas, or data that is no schema. -/
inductive Position
  | schema
  | schemaMap
  | schemaArray
  | other
  deriving DecidableEq

/-- What the value of a field stands for. -/
def Position.child (p : Position) (key : String) : Position :=
  match p with
  | .schema =>
    if key ∈ ["properties", "patternProperties", "$defs", "definitions", "dependentSchemas"] then
      .schemaMap
    else if key ∈ ["oneOf", "anyOf", "allOf", "prefixItems"] then .schemaArray
    else if key ∈ ["items", "additionalProperties", "contains", "propertyNames", "not", "if",
      "then", "else"] then .schema
    else .other
  | .schemaMap => .schema
  | .schemaArray => .other
  | .other => .other

/-- What an item of an array stands for. -/
def Position.item : Position → Position
  | .schema => .schema
  | .schemaArray => .schema
  | .schemaMap => .other
  | .other => .other

/-- The object stands in a schema position of the value. -/
inductive SchemaObject : Position → Json → List (String × Json) → Prop
  | here (fs : List (String × Json)) : SchemaObject .schema (.obj fs) fs
  | field {p : Position} {fs gs : List (String × Json)} {k : String} {v : Json}
      (hmem : (k, v) ∈ fs) (h : SchemaObject (p.child k) v gs) : SchemaObject p (.obj fs) gs
  | item {p : Position} {vs : List Json} {v : Json} {gs : List (String × Json)} (hmem : v ∈ vs)
      (h : SchemaObject p.item v gs) : SchemaObject p (.arr vs) gs

/-- Data holds no schema. -/
theorem not_schemaObject_other {v : Json} {gs : List (String × Json)} :
    ¬ SchemaObject .other v gs := by
  intro h
  generalize hp : Position.other = p at h
  induction h with
  | here => cases hp
  | field _ _ ih | item _ _ ih =>
    subst hp
    exact ih rfl

/-! ### Keywords -/

/-- The meaning of a part of a schema document: data, a predicate on instances, a list of
predicates, or a table of meanings by names. -/
inductive Meaning
  | payload (j : Json)
  | schema (holds : Json → Prop)
  | list (all : List (Json → Prop))
  | named (fields : List (String × Meaning))

/-- What the draft's applicators leave open: which names a pattern matches, what all other
keywords assert (given the keywords beside them), and what a value says that stands in place of
a schema and is none. -/
structure Vocabulary where
  matchesName : String → String → Prop
  reads : List (String × Meaning) → String → Meaning → Json → Prop
  stands : Json → Json → Prop
  tuple : List (Json → Prop) → Json → Prop

section
variable (beside : List (String × Meaning))

/-- The names of a table of schemas among the keywords. -/
def namesOf (key : String) : List String :=
  match beside.lookup key with
  | some (.named fields) => fields.map Prod.fst
  | _ => []

/-- The number a keyword gives. -/
def numberOf (key : String) : Option ℕ :=
  match beside.lookup key with
  | some (.payload (.num (.posInt n))) => some n
  | _ => none

/-- How many items at the front have schemas of their own. -/
def prefixLength : ℕ :=
  match beside.lookup "prefixItems" with
  | some (.list all) => all.length
  | _ => 0

/-- The keyword, if it is there, holds for the instance. -/
def appliesTo (key : String) (i : Json) : Prop :=
  match beside.lookup key with
  | some (.schema holds) => holds i
  | _ => True

end

variable {text : List Char} {base v : Json}

/-- The fields of an instance that is an object. -/
def fieldsOf : Json → List (String × Json)
  | .obj fs => fs
  | _ => []

/-- The items of an instance that is an array. -/
def itemsOf : Json → List Json
  | .arr vs => vs
  | _ => []

section

variable (V : Vocabulary)

/-- What a keyword with the meaning `m` says about an instance, among the keywords `beside`. -/
def Vocabulary.keyword (beside : List (String × Meaning)) (key : String)
    (m : Meaning) (i : Json) : Prop :=
  match key, m with
  | "allOf", .list all => ∀ holds ∈ all, holds i
  | "anyOf", .list all => ∃ holds ∈ all, holds i
  | "oneOf", .list all => ∃! n : Fin all.length, all.get n i
  | "not", .schema holds => ¬ holds i
  | "if", .schema holds =>
    (holds i → appliesTo beside "then" i) ∧ (¬ holds i → appliesTo beside "else" i)
  | "then", .schema _ => True
  | "else", .schema _ => True
  | "dependentSchemas", .named fields =>
    ∀ f ∈ fields, (fieldsOf i).lookup f.1 ≠ none → appliesTo fields f.1 i
  | "properties", .named fields =>
    ∀ f ∈ fields, ∀ v, (fieldsOf i).lookup f.1 = some v → appliesTo fields f.1 v
  | "patternProperties", .named fields =>
    ∀ f ∈ fields, ∀ g ∈ fieldsOf i, V.matchesName f.1 g.1 → appliesTo fields f.1 g.2
  | "additionalProperties", .schema holds =>
    ∀ g ∈ fieldsOf i, g.1 ∉ namesOf beside "properties" →
      (∀ pattern ∈ namesOf beside "patternProperties", ¬ V.matchesName pattern g.1) → holds g.2
  | "propertyNames", .schema holds => ∀ g ∈ fieldsOf i, holds (.str g.1)
  | "prefixItems", .list all => ∀ x ∈ all.zip (itemsOf i), x.1 x.2
  | "items", .schema holds => ∀ v ∈ (itemsOf i).drop (prefixLength beside), holds v
  | "contains", .schema holds =>
    ∀ vs, i = .arr vs →
      let found := Set.ncard {n : Fin vs.length | holds (vs.get n)}
      (numberOf beside "minContains").getD 1 ≤ found ∧
        ∀ most, numberOf beside "maxContains" = some most → found ≤ most
  | key, m => V.reads beside key m i

/-- An instance satisfies a schema object if all its keywords hold. -/
def Vocabulary.object (keywords : List (String × Meaning)) (i : Json) : Prop :=
  ∀ k ∈ keywords, V.keyword keywords k.1 k.2 i

theorem Vocabulary.object_nil (i : Json) : V.object [] i := by
  intro k hk
  cases hk

/-- A schema whose only keyword is `allOf` says what its two schemas say. -/
theorem Vocabulary.object_allOf (P Q : Json → Prop) (i : Json) :
    V.object [("allOf", .list [P, Q])] i ↔ P i ∧ Q i := by
  have hkeyword : V.keyword [("allOf", .list [P, Q])] "allOf" (.list [P, Q]) i =
      ∀ holds ∈ [P, Q], holds i := rfl
  rw [object, List.forall_mem_singleton, hkeyword, List.forall_mem_cons, List.forall_mem_singleton]

end

/-! ### References -/

/-- The value of a hexadecimal digit. -/
def hexDigit (c : Char) : Option ℕ :=
  if '0' ≤ c ∧ c ≤ '9' then some (c.toNat - '0'.toNat)
  else if 'a' ≤ c ∧ c ≤ 'f' then some (c.toNat - 'a'.toNat + 10)
  else if 'A' ≤ c ∧ c ≤ 'F' then some (c.toNat - 'A'.toNat + 10)
  else none

/-- An escaped byte at the front of a text. -/
def escapedByte : List Char → Option (ℕ × List Char)
  | '%' :: a :: b :: rest => do
      let high ← hexDigit a
      let low ← hexDigit b
      return (16 * high + low, rest)
  | _ => none

/-- The low bits of `n` escaped continuation bytes, added to `high`. -/
def continuation (high : ℕ) : ℕ → List Char → Option (ℕ × List Char)
  | 0, rest => some (high, rest)
  | n + 1, rest => do
      let (byte, rest) ← escapedByte rest
      if byte / 64 = 2 then continuation (64 * high + byte % 64) n rest else none

/-- An escaped character at the front of a text, from its UTF-8 bytes. -/
def escapedChar (text : List Char) : Option (Char × List Char) := do
  let (byte, rest) ← escapedByte text
  let (n, rest) ←
    if byte < 128 then some (byte, rest)
    else if byte / 32 = 6 then continuation (byte % 32) 1 rest
    else if byte / 16 = 14 then continuation (byte % 16) 2 rest
    else if byte / 8 = 30 then continuation (byte % 8) 3 rest
    else none
  return (Char.ofNat n, rest)

/-- The fragment of a URI with its escapes read, with fuel for the length of the text. -/
def percentDecodeFrom : ℕ → List Char → Option (List Char)
  | _, [] => some []
  | 0, _ => none
  | n + 1, c :: text =>
    if c = '%' then do
      let (d, rest) ← escapedChar (c :: text)
      return d :: (← percentDecodeFrom n rest)
    else do
      return c :: (← percentDecodeFrom n text)

def percentDecode (text : List Char) : Option (List Char) := percentDecodeFrom text.length text

theorem percentDecodeFrom_plain (h : '%' ∉ text) :
    ∀ {n}, text.length ≤ n → percentDecodeFrom n text = some text := by
  induction text with
  | nil =>
    intro n _
    cases n <;> rfl
  | cons c text ih =>
    intro n hn
    obtain ⟨hc, htext⟩ := not_or.mp (fun hmem => h (List.mem_cons.mpr hmem))
    cases n with
    | zero => simp at hn
    | succ n =>
      rw [percentDecodeFrom, if_neg (Ne.symm hc), ih htext (by simpa using hn)]
      rfl

/-- Where the references of a value start: at the value itself if it has an `$id`. -/
def scope (base v : Json) : Json := if (v.getStr "$id").isSome then v else base

/-- The part the tokens lead to, and where its references start. -/
def locate (base v : Json) : List (List Char) → Option (Json × Json)
  | [] => some (base, v)
  | token :: rest => (v.child token).bind fun c => locate (scope base c) c rest

/-- The target of a reference within a document, and where its references start. -/
def resolve (base : Json) (ref : String) : Option (Json × Json) :=
  match ref.toList with
  | '#' :: fragment => do
      let decoded ← percentDecode fragment
      let ts ← Json.tokens decoded
      locate base base ts
  | _ => none

theorem scope_eq_self (h : v.getStr "$id" = none) : scope base v = base := by
  simp [scope, h]

/-- No part on the way to where the tokens lead has an `$id`. -/
def idFree (v : Json) : List (List Char) → Bool
  | [] => true
  | token :: rest =>
    match v.child token with
    | some c => (c.getStr "$id").isNone && idFree c rest
    | none => true

/-- References start at the end of such a way where they start at its beginning. -/
theorem locate_of_descend {c : Json} {ts : List (List Char)} (h : v.descend ts = some c)
    (hid : idFree v ts = true) : locate base v ts = some (base, c) := by
  induction ts generalizing v with
  | nil =>
    cases h
    rfl
  | cons _ _ ih =>
    obtain ⟨d, hd, hrest⟩ := Option.bind_eq_some_iff.mp h
    simp only [idFree, hd, Bool.and_eq_true, Option.isNone_iff_eq_none] at hid
    rw [locate, hd, Option.bind_some, scope_eq_self hid.1]
    exact ih hrest hid.2

/-! ### Meaning -/

/-- What of a document is read: a value, the items of a list of schemas, or the fields of an
object at a position. -/
inductive Part
  | value (p : Position) (v : Json)
  | items (vs : List Json)
  | fields (p : Position) (fs : List (String × Json))

/-- The keywords of a schema object that assert something by themselves: references are followed,
and definitions are there only to be referred to. -/
def assertions (fs : List (String × Json)) : List (String × Json) :=
  fs.filter fun f => f.1 ∉ ["$ref", "$defs", "definitions"]

/-- The part of a document has the meaning, with references that start at the first value. -/
inductive Means (V : Vocabulary) : Json → Part → Meaning → Prop
  | payload (b v : Json) : Means V b (.value .other v) (.payload v)
  | bool (b : Json) (x : Bool) : Means V b (.value .schema (.bool x)) (.schema fun _ => x = true)
  | scalar (b : Json) {v : Json} (hbool : ∀ x, v ≠ .bool x) (harr : ∀ vs, v ≠ .arr vs)
      (hobj : ∀ fs, v ≠ .obj fs) : Means V b (.value .schema v) (.schema (V.stands v))
  | tuple {b : Json} {vs : List Json} {all : List (Json → Prop)}
      (h : Means V b (.items vs) (.list all)) :
      Means V b (.value .schema (.arr vs)) (.schema (V.tuple all))
  | list {b : Json} {vs : List Json} {all : List (Json → Prop)}
      (h : Means V b (.items vs) (.list all)) : Means V b (.value .schemaArray (.arr vs))
      (.list all)
  | notList (b : Json) {v : Json} (harr : ∀ vs, v ≠ .arr vs) :
      Means V b (.value .schemaArray v) (.payload v)
  | map {b : Json} {fs : List (String × Json)} {ms : List (String × Meaning)}
      (h : Means V b (.fields .schemaMap fs) (.named ms)) :
      Means V b (.value .schemaMap (.obj fs)) (.named ms)
  | notMap (b : Json) {v : Json} (hobj : ∀ fs, v ≠ .obj fs) :
      Means V b (.value .schemaMap v) (.payload v)
  | object {b : Json} {fs : List (String × Json)} {ms : List (String × Meaning)}
      (href : fs.lookup "$ref" = none)
      (h : Means V (scope b (.obj fs)) (.fields .schema (assertions fs)) (.named ms)) :
      Means V b (.value .schema (.obj fs)) (.schema (V.object ms))
  | ref {b b' target : Json} {fs : List (String × Json)} {r : String} {holds : Json → Prop}
      {ms : List (String × Meaning)} (href : fs.lookup "$ref" = some (.str r))
      (hres : resolve (scope b (.obj fs)) r = some (b', target))
      (htarget : Means V b' (.value .schema target) (.schema holds))
      (h : Means V (scope b (.obj fs)) (.fields .schema (assertions fs)) (.named ms)) :
      Means V b (.value .schema (.obj fs)) (.schema fun i => holds i ∧ V.object ms i)
  | itemsNil (b : Json) : Means V b (.items []) (.list [])
  | itemsCons {b v : Json} {vs : List Json} {holds : Json → Prop} {all : List (Json → Prop)}
      (hv : Means V b (.value .schema v) (.schema holds)) (h : Means V b (.items vs) (.list all)) :
      Means V b (.items (v :: vs)) (.list (holds :: all))
  | fieldsNil (b : Json) (p : Position) : Means V b (.fields p []) (.named [])
  | fieldsCons {b v : Json} {p : Position} {k : String} {m : Meaning}
      {fs : List (String × Json)} {ms : List (String × Meaning)}
      (hv : Means V b (.value (p.child k) v) m) (h : Means V b (.fields p fs) (.named ms)) :
      Means V b (.fields p ((k, v) :: fs)) (.named ((k, m) :: ms))

section
variable {V : Vocabulary} {b : Json} {m : Meaning}

/-- At a schema position stands a predicate. -/
theorem Means.eq_schema {v : Json} (h : Means V b (.value .schema v) m) :
    ∃ holds, m = .schema holds := by
  cases h <;> exact ⟨_, rfl⟩

theorem Means.eq_list {vs : List Json} (h : Means V b (.items vs) m) : ∃ all, m = .list all := by
  cases h <;> exact ⟨_, rfl⟩

theorem Means.eq_named {p : Position} {fs : List (String × Json)}
    (h : Means V b (.fields p fs) m) : ∃ ms, m = .named ms := by
  cases h <;> exact ⟨_, rfl⟩

end

/-- A part of a document has at most one meaning. -/
theorem Means.unique {V : Vocabulary} {b : Json} {part : Part} {m m' : Meaning}
    (h : Means V b part m) (h' : Means V b part m') : m = m' := by
  induction h generalizing m' with
  | payload => cases h' with | payload => rfl
  | bool _ x =>
    cases h' with
    | bool => rfl
    | scalar _ hbool => exact absurd rfl (hbool x)
  | scalar _ hbool harr hobj =>
    cases h' with
    | bool _ x => exact absurd rfl (hbool x)
    | scalar => rfl
    | tuple => exact absurd rfl (harr _)
    | object | ref => exact absurd rfl (hobj _)
  | tuple _ ih =>
    cases h' with
    | scalar _ _ harr => exact absurd rfl (harr _)
    | tuple h' => cases ih h'; rfl
  | list _ ih =>
    cases h' with
    | list h' => exact ih h'
    | notList _ harr => exact absurd rfl (harr _)
  | notList _ harr =>
    cases h' with
    | list => exact absurd rfl (harr _)
    | notList => rfl
  | map _ ih =>
    cases h' with
    | map h' => exact ih h'
    | notMap _ hobj => exact absurd rfl (hobj _)
  | notMap _ hobj =>
    cases h' with
    | map => exact absurd rfl (hobj _)
    | notMap => rfl
  | object href _ ih =>
    cases h' with
    | scalar _ _ _ hobj => exact absurd rfl (hobj _)
    | object _ h' => cases ih h'; rfl
    | ref href' => cases href.symm.trans href'
  | ref href hres _ _ ihtarget ih =>
    cases h' with
    | scalar _ _ _ hobj => exact absurd rfl (hobj _)
    | object href' => cases href.symm.trans href'
    | ref href' hres' htarget' h' =>
      cases href.symm.trans href'
      cases hres.symm.trans hres'
      cases ihtarget htarget'
      cases ih h'
      rfl
  | itemsNil => cases h' with | itemsNil => rfl
  | itemsCons _ _ ihv ih =>
    cases h' with
    | itemsCons hv' h' =>
      cases ihv hv'
      cases ih h'
      rfl
  | fieldsNil => cases h' with | fieldsNil => rfl
  | fieldsCons _ _ ihv ih =>
    cases h' with
    | fieldsCons hv' h' =>
      cases ihv hv'
      cases ih h'
      rfl

/-- The document is a schema, and the instance is valid under it. -/
def Valid (V : Vocabulary) (doc i : Json) : Prop :=
  ∃ holds, Means V doc (.value .schema doc) (.schema holds) ∧ holds i

theorem Means.valid_iff {V : Vocabulary} {doc : Json} {holds : Json → Prop}
    (h : Means V doc (.value .schema doc) (.schema holds)) (i : Json) :
    Valid V doc i ↔ holds i := by
  constructor
  · rintro ⟨_, h', hi⟩
    cases h.unique h'
    exact hi
  · exact fun hi => ⟨holds, h, hi⟩

end Sie.Lib.JsonSchema
