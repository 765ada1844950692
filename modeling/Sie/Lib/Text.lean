import Mathlib.Data.List.Destutter
import Mathlib.Data.List.Sort
import Mathlib.Data.String.Basic

/-!
# Texts

The string operations the components share, on the characters of a string, and texts that
lose characters.

## Main definitions

* `isWhitespace`, `isBlank`, `trim`, `toAsciiLowercase` — Rust's operations on `str`.
* `DropsOnly p as bs` — `bs` is `as` without some elements, all of which satisfy `p`.
-/

namespace Sie.Lib

/-- The characters `str::trim` removes: those with the property White_Space. -/
def isWhitespace (c : Char) : Bool :=
  let n := c.toNat
  (9 ≤ n && n ≤ 13) || n == 0x20 || n == 0x85 || n == 0xA0 || n == 0x1680 ||
    (0x2000 ≤ n && n ≤ 0x200A) || n == 0x2028 || n == 0x2029 || n == 0x202F || n == 0x205F ||
    n == 0x3000

/-- `text.trim().is_empty()`. -/
def isBlank (text : String) : Bool := text.toList.all isWhitespace

@[simp] theorem isBlank_empty : isBlank "" = true := rfl

@[simp] theorem isBlank_append (a b : String) : isBlank (a ++ b) = (isBlank a && isBlank b) := by
  simp [isBlank]

/-- `str::trim`. -/
def trim (s : String) : String :=
  String.ofList ((s.toList.dropWhile isWhitespace).reverse.dropWhile isWhitespace).reverse

/-- `str::to_ascii_lowercase`. -/
def toAsciiLowercase (s : String) : String := String.ofList (s.toList.map Char.toLower)

/-- `sort` and then `dedup`. -/
def sortDedup (texts : List String) : List String :=
  (texts.insertionSort (· ≤ ·)).destutter (· ≠ ·)

universe u
variable {α : Type u} {p : α → Bool}

/-- The second list is the first one without some elements that satisfy `p`. -/
inductive DropsOnly (p : α → Bool) : List α → List α → Prop
  | nil : DropsOnly p [] []
  | keep (a : α) {as bs : List α} (h : DropsOnly p as bs) : DropsOnly p (a :: as) (a :: bs)
  | drop {a : α} (ha : p a = true) {as bs : List α} (h : DropsOnly p as bs) :
      DropsOnly p (a :: as) bs

namespace DropsOnly

variable {as bs : List α}

theorem refl (as : List α) : DropsOnly p as as := by
  induction as with
  | nil => exact .nil
  | cons a as ih => exact .keep a ih

theorem append {as' bs' : List α} (h : DropsOnly p as bs) (h' : DropsOnly p as' bs') :
    DropsOnly p (as ++ as') (bs ++ bs') := by
  induction h with
  | nil => exact h'
  | keep a _ ih => exact .keep a ih
  | drop ha _ ih => exact .drop ha ih

/-- What is kept before the end stays when the end is dropped. -/
theorem of_append {cs : List α} (h : DropsOnly p as (bs ++ cs)) (hcs : cs.all p = true) :
    DropsOnly p as bs := by
  induction bs generalizing as with
  | nil =>
    rw [List.nil_append] at h
    induction h with
    | nil => exact .nil
    | keep _ _ ih =>
      rw [List.all_cons, Bool.and_eq_true] at hcs
      exact .drop hcs.1 (ih hcs.2)
    | drop ha _ ih => exact .drop ha (ih hcs)
  | cons b bs ih =>
    rw [List.cons_append] at h
    generalize hl : b :: (bs ++ cs) = l at h
    induction h with
    | nil => simp at hl
    | keep _ hrest =>
      obtain ⟨rfl, rfl⟩ := List.cons.inj hl
      exact .keep b (ih hrest)
    | drop ha _ ih' => exact .drop ha (ih' hl)

/-- The elements that do not satisfy `p` are all kept. -/
theorem filter_eq (h : DropsOnly p as bs) :
    as.filter (fun a => !p a) = bs.filter (fun a => !p a) := by
  induction h with
  | nil => rfl
  | keep a _ ih => by_cases ha : p a = true <;> simp [ha, ih]
  | drop ha _ ih => simp [ha, ih]

end DropsOnly

end Sie.Lib
