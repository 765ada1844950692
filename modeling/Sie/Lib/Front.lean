import Mathlib.Data.List.Sort

/-!
# Lists with the members of a predicate in front

A sort whose order puts the members of `p` ahead of the others leaves a list
that `takeWhile p` cuts exactly at the end of them.  Only the comparison across
the two groups matters, so the order inside a group need not be a linear one.

## Main definitions

* `FrontLoaded p l` — no member of `p` stands behind a non-member.
* `frontLoaded_insertionSort` — a sort that separates the groups is front-loaded.
-/

namespace Sie.Lib

open List

universe u
variable {α : Type u} {p : α → Bool} {r : α → α → Prop} {l : List α}

/-- No element with `p` stands behind one without it. -/
def FrontLoaded (p : α → Bool) (l : List α) : Prop := l.Pairwise fun a b => p b → p a

theorem frontLoaded_orderedInsert [DecidableRel r] (hr : ∀ a b, p a → ¬p b → r a b ∧ ¬r b a) (a : α)
    (hl : FrontLoaded p l) : FrontLoaded p (l.orderedInsert r a) := by
  induction l with
  | nil => exact pairwise_singleton _ _
  | cons b rest ih =>
    obtain ⟨hb, hrest⟩ := pairwise_cons.mp hl
    by_cases hab : r a b
    · rw [orderedInsert_cons_of_le r rest hab]
      refine pairwise_cons.mpr ⟨fun c hc hpc => ?_, hl⟩
      -- a member behind `b` makes `b` a member, which `a` then may not precede
      have hpb : p b := by
        rcases mem_cons.mp hc with rfl | hc
        · exact hpc
        · exact hb c hc hpc
      by_contra hpa
      exact (hr b a hpb hpa).2 hab
    · rw [orderedInsert_of_not_le r rest hab]
      refine pairwise_cons.mpr ⟨fun c hc hpc => ?_, ih hrest⟩
      rcases mem_cons.mp ((perm_orderedInsert r a rest).mem_iff.mp hc) with rfl | hc
      · by_contra hpb
        exact hab (hr c b hpc hpb).1
      · exact hb c hc hpc

/-- A sort by an order that separates the two groups is front-loaded. -/
theorem frontLoaded_insertionSort [DecidableRel r] (hr : ∀ a b, p a → ¬p b → r a b ∧ ¬r b a)
    (l : List α) : FrontLoaded p (l.insertionSort r) := by
  induction l with
  | nil => exact List.Pairwise.nil
  | cons a _ ih => exact frontLoaded_orderedInsert hr a ih

/-- What `takeWhile` leaves of a front-loaded list has no member. -/
theorem FrontLoaded.not_of_mem_dropWhile (hl : FrontLoaded p l) {x : α} (hx : x ∈ l.dropWhile p) :
    p x = false := by
  induction l with
  | nil => simp at hx
  | cons a _ ih =>
    obtain ⟨ha, hrest⟩ := pairwise_cons.mp hl
    by_cases hpa : p a
    · rw [dropWhile_cons_of_pos hpa] at hx
      exact ih hrest hx
    rw [dropWhile_cons_of_neg hpa] at hx
    by_contra hpx
    rcases mem_cons.mp hx with rfl | hx
    · exact hpa (by simpa using hpx)
    · exact hpa (ha x hx (by simpa using hpx))

end Sie.Lib
