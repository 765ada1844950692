import Mathlib.Algebra.Order.BigOperators.Group.Finset
import Mathlib.Data.List.AList
import Mathlib.Tactic.Abel

/-!
# A ledger of reservations

Accounts reserve amounts from one common limit and give them back, one reservation at
a time or all at once when an account is closed.  A release is possible only for a
reservation that the account holds, so a list of entries that can be posted releases
nothing twice and never more than is there.

## Main definitions

* `total f l` — the sum of a quantity over the values of a map.
* `Ledger`, `Entry`, `Ledger.post`, `Ledger.posts` — the ledger and its entries.
* `Ledger.Sound` — the balance is the sum of the accounts, within the limits.
* `Ledger.posts_conserve` — what was reserved was released, closed, or is held.
-/

namespace Sie.Lib

open List Function

universe u v w

/-! ## Totals over a map -/

section Total

variable {α : Type u} {β : Type v} {M : Type w} [DecidableEq α] [AddCommMonoid M] {a : α}
  {l : AList fun _ : α => β}

/-- The sum of a quantity over the values of a map. -/
def total (f : β → M) (l : AList fun _ : α => β) : M := (l.entries.map fun e => f e.2).sum

omit [DecidableEq α] in
@[simp] theorem total_empty (f : β → M) : total f (∅ : AList fun _ : α => β) = 0 := rfl

section

variable (f : β → M)

theorem sum_kerase {b : β} {l : List (Sigma fun _ : α => β)} (h : l.dlookup a = some b) :
    (l.map fun e => f e.2).sum = f b + ((l.kerase a).map fun e => f e.2).sum := by
  induction l with
  | nil => simp at h
  | cons e l ih =>
    rcases e with ⟨k, v⟩
    by_cases hk : a = k
    · subst hk
      rw [dlookup_cons_eq] at h
      cases h
      simp [kerase_cons_eq]
    rw [dlookup_cons_ne _ _ hk] at h
    rw [kerase_cons_ne hk]
    simp only [map_cons, sum_cons, ih h]
    exact add_left_comm _ _ _

/-- A value's part of a total, and the rest. -/
theorem total_erase {b : β} (h : l.lookup a = some b) : total f l = f b + total f (l.erase a) :=
  sum_kerase f h

theorem total_insert (l : AList fun _ : α => β) (a : α) (b : β) :
    total f (l.insert a b) = f b + total f (l.erase a) := by
  rfl

theorem total_erase_of_lookup_eq_none (h : l.lookup a = none) :
    total f (l.erase a) = total f l := by
  have hentries : (l.erase a).entries = l.entries :=
    kerase_of_notMem_keys (AList.lookup_eq_none.mp h)
  rw [total, total, hentries]

end

end Total

/-! ## The ledger -/

/-- What is held of one reservation of `n`; a reservation of nothing is none. -/
def lot (n : ℕ) : Multiset ℕ := if n = 0 then 0 else {n}

@[simp] theorem sum_lot (n : ℕ) : (lot n).sum = n := by
  unfold lot
  split_ifs with h
  · simp [h]
  · simp

@[simp] theorem lot_zero : lot 0 = 0 := rfl

theorem lot_of_ne_zero {n : ℕ} (h : n ≠ 0) : lot n = {n} := if_neg h

variable {κ : Type u} [DecidableEq κ]

/-- Reservations by account, within a limit for all and one for each. -/
structure Ledger (κ : Type u) where
  limit : ℕ
  cap : ℕ
  balance : ℕ
  held : κ → Multiset ℕ

inductive Entry (κ : Type u)
  | reserve (k : κ) (n : ℕ)
  | release (k : κ) (n : ℕ)
  /-- Give back all that an account holds, `n` together. -/
  | close (k : κ) (n : ℕ)

def Entry.key : Entry κ → κ
  | .reserve k _ => k
  | .release k _ => k
  | .close k _ => k

namespace Ledger

variable {l l₁ : Ledger κ} {S : Finset κ} {e : Entry κ} {es : List (Entry κ)}

def new (limit cap : ℕ) : Ledger κ := ⟨limit, cap, 0, fun _ => 0⟩

/-- Post one entry, if it is a legal one. -/
def post (l : Ledger κ) : Entry κ → Option (Ledger κ)
  | .reserve k n =>
    if (l.held k).sum + n ≤ l.cap ∧ l.balance + n ≤ l.limit then
      some { l with
        balance := l.balance + n
        held := update l.held k (n ::ₘ l.held k) }
    else none
  | .release k n =>
    if n ∈ l.held k then
      some { l with
        balance := l.balance - n
        held := update l.held k ((l.held k).erase n) }
    else none
  | .close k n =>
    if (l.held k).sum = n then
      some { l with balance := l.balance - n, held := update l.held k 0 }
    else none

/-- Post a list of entries, all of them legal where they come. -/
def posts (l : Ledger κ) (es : List (Entry κ)) : Option (Ledger κ) := es.foldlM post l

@[simp] theorem posts_singleton (l : Ledger κ) (e : Entry κ) : l.posts [e] = l.post e := by
  simp [posts]

theorem posts_append_eq_some {l₂ : Ledger κ} {es₁ es₂ : List (Entry κ)} :
    l.posts (es₁ ++ es₂) = some l₂ ↔ ∃ l₁, l.posts es₁ = some l₁ ∧ l₁.posts es₂ = some l₂ := by
  simp [posts, Option.bind_eq_some_iff]

theorem limit_of_post (h : l.post e = some l₁) : l₁.limit = l.limit := by
  cases e <;> simp only [post] at h <;> split_ifs at h <;> obtain rfl := Option.some.inj h <;> rfl

theorem limit_of_posts (h : l.posts es = some l₁) : l₁.limit = l.limit := by
  induction es using reverseRecOn generalizing l₁ with
  | nil =>
    cases h
    rfl
  | append_singleton _ _ ih =>
    obtain ⟨l', hes, he⟩ := posts_append_eq_some.mp h
    rw [posts_singleton] at he
    exact (limit_of_post he).trans (ih hes)

/-- The balance is the sum of the accounts of `S`, and is within the limits. -/
structure Sound (S : Finset κ) (l : Ledger κ) : Prop where
  balance_eq : l.balance = ∑ k ∈ S, (l.held k).sum
  balance_le : l.balance ≤ l.limit
  held_le : ∀ k, (l.held k).sum ≤ l.cap
  held_of_notMem : ∀ k, k ∉ S → l.held k = 0

omit [DecidableEq κ] in
theorem sound_new (limit cap : ℕ) : (new limit cap : Ledger κ).Sound ∅ where
  balance_eq := by simp [new]
  balance_le := Nat.zero_le _
  held_le k := by simp [new]
  held_of_notMem k _ := rfl

omit [DecidableEq κ] in
/-- More accounts may be counted. -/
theorem Sound.mono {T : Finset κ} (h : l.Sound S) (hsub : S ⊆ T) : l.Sound T where
  balance_eq := by
    rw [h.balance_eq]
    refine Finset.sum_subset hsub fun k _ hk => ?_
    rw [h.held_of_notMem k hk, Multiset.sum_zero]
  balance_le := h.balance_le
  held_le := h.held_le
  held_of_notMem k hk := h.held_of_notMem k fun hS => hk (hsub hS)

section

variable (h : l.Sound S)
include h

theorem Sound.le_balance (k : κ) : (l.held k).sum ≤ l.balance := by
  by_cases hk : k ∈ S
  · rw [h.balance_eq]
    exact Finset.single_le_sum (f := fun j => (l.held j).sum) (fun _ _ => Nat.zero_le _) hk
  · simp [h.held_of_notMem k hk]

/-- An account's holdings and the balance change by the same amount. -/
theorem Sound.update {k : κ} (hk : k ∈ S) {m : Multiset ℕ} {b : ℕ}
    (hb : b + (l.held k).sum = l.balance + m.sum) (hlimit : b ≤ l.limit) (hcap : m.sum ≤ l.cap) :
    Sound S { l with balance := b, held := Function.update l.held k m } where
  balance_eq := by
    have hsum := h.balance_eq
    rw [← Finset.add_sum_erase S _ hk] at hsum ⊢
    have hothers : ∑ j ∈ S.erase k, (Function.update l.held k m j).sum =
        ∑ j ∈ S.erase k, (l.held j).sum :=
      Finset.sum_congr rfl fun j hj => by
        rw [update_of_ne (Finset.ne_of_mem_erase hj)]
    simp only [update_self, hothers]
    omega
  balance_le := hlimit
  held_le j := by
    by_cases hj : j = k
    · subst hj
      simpa using hcap
    · simpa [update_of_ne hj] using h.held_le j
  held_of_notMem j hj := by
    have hne : j ≠ k := fun heq => hj (heq ▸ hk)
    simpa [update_of_ne hne] using h.held_of_notMem j hj

theorem Sound.post (hkey : e.key ∈ S) (hpost : l.post e = some l₁) : l₁.Sound S := by
  cases e with
  | reserve k =>
    change k ∈ S at hkey
    simp only [Ledger.post] at hpost
    split_ifs at hpost with hle
    cases hpost
    refine h.update hkey ?_ hle.2 ?_
    · rw [Multiset.sum_cons]
      omega
    · rw [Multiset.sum_cons]
      omega
  | release k =>
    change k ∈ S at hkey
    simp only [Ledger.post] at hpost
    split_ifs at hpost with hmem
    cases hpost
    have hsum := Multiset.sum_erase hmem
    have hbalance := h.le_balance k
    have hlimit := h.balance_le
    have hcap := h.held_le k
    exact h.update hkey (by omega) (by omega) (by omega)
  | close k =>
    change k ∈ S at hkey
    simp only [Ledger.post] at hpost
    split_ifs at hpost with hsum
    cases hpost
    have hbalance := h.le_balance k
    have hlimit := h.balance_le
    refine h.update hkey ?_ (by omega) (by simp)
    rw [Multiset.sum_zero]
    omega

theorem Sound.posts (hkeys : ∀ e ∈ es, e.key ∈ S) (hposts : l.posts es = some l₁) : l₁.Sound S := by
  induction es generalizing l with
  | nil =>
    cases hposts
    exact h
  | cons e es ih =>
    obtain ⟨l', hpost, hrest⟩ :=
      posts_append_eq_some.mp (show l.posts ([e] ++ es) = some l₁ from hposts)
    rw [posts_singleton] at hpost
    exact ih (h.post (hkeys e (by simp)) hpost) (fun e he => hkeys e (by simp [he])) hrest

end

end Ledger

/-! ## Conservation -/

section Conservation

variable (k : κ)

/-- What an entry reserves for an account. -/
def Entry.reserved : Entry κ → Multiset ℕ
  | .reserve j n => if j = k then {n} else 0
  | _ => 0

/-- What an entry releases of an account, one reservation. -/
def Entry.released : Entry κ → Multiset ℕ
  | .release j n => if j = k then {n} else 0
  | _ => 0

/-- What an entry gives back by closing an account. -/
def Entry.closed : Entry κ → ℕ
  | .close j n => if j = k then n else 0
  | _ => 0

section

variable (es : List (Entry κ))

def reservations : Multiset ℕ := (es.map (Entry.reserved k)).sum

def releases : Multiset ℕ := (es.map (Entry.released k)).sum

def closings : ℕ := (es.map (Entry.closed k)).sum

end

variable {k}

/-- A posted entry moves reservations and loses none. -/
theorem Ledger.post_conserve {l l₁ : Ledger κ} {e : Entry κ} (hpost : l.post e = some l₁) :
    ∃ closed : Multiset ℕ, e.reserved k + l.held k = e.released k + closed + l₁.held k ∧
      closed.sum = e.closed k := by
  cases e with
  | reserve j =>
    simp only [Ledger.post] at hpost
    split_ifs at hpost with hle
    cases hpost
    refine ⟨0, ?_, rfl⟩
    by_cases hj : j = k
    · subst hj
      simp [Entry.reserved, Entry.released]
    · simp [Entry.reserved, Entry.released, hj, update_of_ne (Ne.symm hj)]
  | release j =>
    simp only [Ledger.post] at hpost
    split_ifs at hpost with hmem
    cases hpost
    refine ⟨0, ?_, rfl⟩
    by_cases hj : j = k
    · subst hj
      simp [Entry.reserved, Entry.released, Multiset.cons_erase hmem]
    · simp [Entry.reserved, Entry.released, hj, update_of_ne (Ne.symm hj)]
  | close j =>
    simp only [Ledger.post] at hpost
    split_ifs at hpost with hsum
    cases hpost
    by_cases hj : j = k
    · subst hj
      exact ⟨l.held j, by simp [Entry.reserved, Entry.released], by simp [Entry.closed, hsum]⟩
    · refine ⟨0, ?_, by simp [Entry.closed, hj]⟩
      simp [Entry.reserved, Entry.released, update_of_ne (Ne.symm hj)]

/-- Every reservation of an account was released, went with a closing, or is held:
none is given back twice. -/
theorem Ledger.posts_conserve {limit cap : ℕ} {es : List (Entry κ)} {l : Ledger κ}
    (h : (Ledger.new limit cap).posts es = some l) :
    ∃ closed : Multiset ℕ, reservations k es = releases k es + closed + l.held k ∧
      closed.sum = closings k es := by
  induction es using reverseRecOn generalizing l with
  | nil =>
    cases h
    exact ⟨0, by simp [reservations, releases, Ledger.new], by simp [closings]⟩
  | append_singleton es e ih =>
    obtain ⟨l₁, h₁, hpost⟩ := Ledger.posts_append_eq_some.mp h
    rw [Ledger.posts_singleton] at hpost
    obtain ⟨closed₁, heq₁, hsum₁⟩ := ih h₁
    obtain ⟨closed₂, heq₂, hsum₂⟩ := Ledger.post_conserve (k := k) hpost
    refine ⟨closed₁ + closed₂, ?_, ?_⟩
    · simp [reservations, releases] at heq₁ ⊢
      calc _ = (es.map (Entry.released k)).sum + closed₁ + (e.reserved k + l₁.held k) := by
            rw [heq₁]; abel
        _ = _ := by rw [heq₂]; abel
    · simp [closings, hsum₁, hsum₂]

end Conservation

end Sie.Lib
