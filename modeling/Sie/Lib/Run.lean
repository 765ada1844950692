import Mathlib.Data.List.Induction
import Mathlib.Data.Option.Basic

/-!
# Runs of a step function

A component is a partial step function `step : σ → ε → Option (σ × List ω)`: an
event takes a state to the next one and emits outputs, or is not possible there
(`none`: the guard fails, or the code panics).  `runs` folds it over a list of
events and collects what was emitted, in order.

Every statement over whole runs in this development goes through the two rules
here: `runs_induction`, whose invariant may mention the events so far and the
outputs so far, and `runs_append_eq_some`, which cuts a run in two.

## Main definitions

* `runs step s es` — the state and the outputs after the events `es`.
* `runs_induction` — what one step preserves holds after every run.
* `runs_invariant` — the same for a predicate on states alone.
* `Along step P s es` — every event meets a condition where it comes;
  `runs_induction_along` and `runs_invariant_along` — what such steps keep.
-/

namespace Sie.Lib

universe u v w
variable {σ : Type u} {ε : Type v} {ω : Type w}

/-- The state and the collected outputs after a list of events, if each event
was possible where it came. -/
def runs (step : σ → ε → Option (σ × List ω)) : σ → List ε → Option (σ × List ω)
  | s, [] => some (s, [])
  | s, e :: es =>
    match step s e with
    | none => none
    | some (s₁, o₁) =>
      match runs step s₁ es with
      | none => none
      | some (s₂, o₂) => some (s₂, o₁ ++ o₂)

variable {step : σ → ε → Option (σ × List ω)} {s t : σ} {es : List ε} {os : List ω}
  {P : σ → ε → Prop} {es₁ es₂ : List ε} {s₀ : σ}

@[simp] theorem runs_nil (s : σ) : runs step s [] = some (s, []) := rfl

theorem runs_cons_eq_some {e : ε} :
    runs step s (e :: es) = some (t, os) ↔
      ∃ s₁ o₁ o₂, step s e = some (s₁, o₁) ∧ runs step s₁ es = some (t, o₂) ∧ os = o₁ ++ o₂ := by
  constructor
  · intro h
    simp only [runs] at h
    split at h
    · cases h
    rename_i s₁ o₁ hstep
    split at h
    · cases h
    next s₂ o₂ hrest =>
      obtain ⟨rfl, rfl⟩ : s₂ = t ∧ o₁ ++ o₂ = os := by simpa using h
      exact ⟨s₁, o₁, o₂, hstep, hrest, rfl⟩
  · rintro ⟨s₁, o₁, o₂, hstep, hrest, rfl⟩
    simp [runs, hstep, hrest]

/-- Where a run that goes through ends, and what it emits. -/
def reached (step : σ → ε → Option (σ × List ω)) (s : σ) (es : List ε)
    (h : (runs step s es).isSome = true) : σ × List ω := (runs step s es).get h

theorem runs_eq_reached (h : (runs step s es).isSome = true) :
    runs step s es = some (reached step s es h) := (Option.some_get h).symm

/-- A run over two lists of events is a run over the first, then one over the
second. -/
theorem runs_append_eq_some :
    runs step s (es₁ ++ es₂) = some (t, os) ↔
      ∃ s₁ o₁ o₂, runs step s es₁ = some (s₁, o₁) ∧ runs step s₁ es₂ = some (t, o₂) ∧
        os = o₁ ++ o₂ := by
  induction es₁ generalizing s os with
  | nil => simp
  | cons e es₁ ih =>
    simp only [List.cons_append, runs_cons_eq_some, ih]
    constructor
    · rintro ⟨s₁, o₁, o₂, hstep, ⟨s₂, o₃, o₄, h₁, h₂, rfl⟩, rfl⟩
      exact ⟨s₂, o₁ ++ o₃, o₄, ⟨s₁, o₁, o₃, hstep, h₁, rfl⟩, h₂, by simp⟩
    · rintro ⟨s₂, o₁, o₂, ⟨s₁, o₃, o₄, hstep, h₁, rfl⟩, h₂, rfl⟩
      exact ⟨s₁, o₃, o₄ ++ o₂, hstep, ⟨s₂, o₄, o₂, h₁, h₂, rfl⟩, by simp⟩

/-- The last event of a run. -/
theorem runs_concat_eq_some {e : ε} :
    runs step s (es ++ [e]) = some (t, os) ↔
      ∃ s₁ o₁ o₂, runs step s es = some (s₁, o₁) ∧ step s₁ e = some (t, o₂) ∧ os = o₁ ++ o₂ := by
  rw [runs_append_eq_some]
  constructor
  · rintro ⟨s₁, o₁, o₂, h₁, h₂, rfl⟩
    obtain ⟨s₂, o₃, o₄, hstep, hnil, rfl⟩ := runs_cons_eq_some.mp h₂
    obtain ⟨rfl, rfl⟩ : s₂ = t ∧ o₄ = [] := by
      simpa [eq_comm] using hnil
    exact ⟨s₁, o₁, o₃, h₁, hstep, by simp⟩
  · rintro ⟨s₁, o₁, o₂, h₁, hstep, rfl⟩
    exact ⟨s₁, o₁, o₂, h₁, runs_cons_eq_some.mpr ⟨t, o₂, [], hstep, rfl, by simp⟩, rfl⟩

/-- **Induction along a run.**  A predicate on the events so far, the outputs so
far and the current state that holds at the start and is kept by one step holds
after every run. -/
theorem runs_induction (P : List ε → List ω → σ → Prop) (start : P [] [] s₀)
    (next : ∀ es os s e t o, runs step s₀ es = some (s, os) → P es os s →
      step s e = some (t, o) → P (es ++ [e]) (os ++ o) t) :
    ∀ es os t, runs step s₀ es = some (t, os) → P es os t := by
  intro es
  induction es using List.reverseRecOn with
  | nil =>
    intro os t h
    obtain ⟨rfl, rfl⟩ : s₀ = t ∧ [] = os := by simpa using h
    exact start
  | append_singleton es e ih =>
    intro os t h
    obtain ⟨s₁, o₁, o₂, h₁, hstep, rfl⟩ := runs_concat_eq_some.mp h
    exact next es o₁ s₁ e t o₂ h₁ (ih o₁ s₁ h₁) hstep

/-- A predicate on states that every step keeps holds after every run from a
state where it holds. -/
theorem runs_invariant {P : σ → Prop} (next : ∀ s e t o, P s → step s e = some (t, o) → P t)
    (hs : P s) (h : runs step s es = some (t, os)) : P t :=
  runs_induction (fun _ _ x => P x) hs (fun _ _ s e t o _ hP hstep => next s e t o hP hstep)
    es os t h

/-- Every event of a run meets the condition `P` in the state it comes to. -/
def Along (step : σ → ε → Option (σ × List ω)) (P : σ → ε → Prop) : σ → List ε → Prop
  | _, [] => True
  | s, e :: es => P s e ∧ ∀ t o, step s e = some (t, o) → Along step P t es

instance decidableAlong (step : σ → ε → Option (σ × List ω)) (P : σ → ε → Prop)
    [∀ s e, Decidable (P s e)] : ∀ s es, Decidable (Along step P s es)
  | _, [] => inferInstanceAs (Decidable True)
  | s, e :: es =>
    match h : step s e with
    | none => decidable_of_iff (P s e) (by simp [Along, h])
    | some (t, _) =>
      have := decidableAlong step P t es
      decidable_of_iff (P s e ∧ Along step P t es) (by simp [Along, h])

theorem along_append (hall : Along step P s (es₁ ++ es₂)) (h : runs step s es₁ = some (t, os)) :
    Along step P s es₁ ∧ Along step P t es₂ := by
  induction es₁ generalizing s os with
  | nil =>
    obtain ⟨rfl, -⟩ : s = t ∧ [] = os := by simpa using h
    exact ⟨trivial, hall⟩
  | cons e es₁ ih =>
    obtain ⟨s₁, o₁, o₂, hstep, hrest, -⟩ := runs_cons_eq_some.mp h
    have hnext := ih (hall.2 s₁ o₁ hstep) hrest
    refine ⟨⟨hall.1, fun t' o' hstep' => ?_⟩, hnext.2⟩
    cases hstep.symm.trans hstep'
    exact hnext.1

theorem Along.and {Q : σ → ε → Prop} (hP : Along step P s es) (hQ : Along step Q s es) :
    Along step (fun s e => P s e ∧ Q s e) s es := by
  induction es generalizing s with
  | nil => trivial
  | cons e es ih =>
    exact ⟨⟨hP.1, hQ.1⟩, fun t o hstep => ih (hP.2 t o hstep) (hQ.2 t o hstep)⟩

/-- **Induction along a run whose steps all meet a condition.** -/
theorem runs_induction_along {C : σ → ε → Prop} (P : List ω → σ → Prop) (start : P [] s₀)
    (next : ∀ os s e t o, P os s → C s e → step s e = some (t, o) → P (os ++ o) t) :
    ∀ es os t, Along step C s₀ es → runs step s₀ es = some (t, os) → P os t := by
  intro es os t hall h
  refine runs_induction (fun es os s => Along step C s₀ es → P os s) (fun _ => start) ?_
    es os t h hall
  intro es os s e t o hrun hP hstep hall
  obtain ⟨hbefore, hlast⟩ := along_append hall hrun
  exact next os s e t o (hP hbefore) hlast.1 hstep

/-- What every step that meets the condition keeps holds after every run whose
steps all meet it. -/
theorem runs_invariant_along {Q : σ → Prop}
    (next : ∀ s e t o, Q s → P s e → step s e = some (t, o) → Q t) (hs : Q s)
    (hall : Along step P s es) (h : runs step s es = some (t, os)) : Q t :=
  runs_induction_along (fun _ x => Q x) hs
    (fun _ s e t o hQ hP hstep => next s e t o hQ hP hstep) es os t hall h

end Sie.Lib
