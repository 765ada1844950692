import Mathlib.Tactic.Linarith
import Sie.Lib.Run
import Sie.Sidecar.Lane

/-!
# How long a gather can hold work back

The lane over any sequence of calls.  A run carries the lane, the latest end of a gather
that the last return to empty the lane allows (`bound`), and emits the echoes that the calls
score.  No order of the clock readings is assumed.
-/

namespace Sie.Sidecar.Lane

open Sie.Lib

/-- A call on the lane. -/
inductive Call
  | arrival (now : Instant) (requests : ℕ)
  | dispatch (leavesRemainder : Bool)
  | back (now : Instant) (answered roundTrip quiet longest : ℕ)
  | verdict (now : Instant) (full : Option FlushReason)
  | isIdle (now : Instant)

/-- The echo that `closeWatch` scores. -/
def closes (l : Lane) : List Bool := l.watch.toList.map fun w => decide (w.needed ≤ w.seen)

/-- The echo that `settleWatch` scores. -/
def settles (l : Lane) (now : Instant) : List Bool :=
  if l.watch.any fun w => decide (w.deadline ≤ now) then l.closes else []

/-- The echo that an arrival scores. -/
def arrives (l : Lane) (now : Instant) (requests : ℕ) : List Bool :=
  match l.watch with
  | none => []
  | some w =>
    if w.deadline ≤ now then l.settles now
    else if w.needed ≤ w.seen + requests then [true] else []

/-- A call, with the end of the gather that the last return to empty the lane allows. -/
def step (x : Lane × Option Instant) : Call → Option ((Lane × Option Instant) × List Bool)
  | .arrival now requests =>
    some ((x.1.onArrival now requests, x.2), x.1.arrives now requests)
  | .dispatch leavesRemainder => some ((x.1.onDispatch leavesRemainder, x.2), [])
  | .back now answered roundTrip quiet longest =>
    let l := x.1.onReturn now answered roundTrip quiet longest
    if 0 < l.inFlight then some ((l, x.2), [])
    else some ((l, some (now + min longest (roundTrip / 2))), x.1.closes)
  | .verdict now full =>
    some (((x.1.verdict now full).2, x.2),
      if full.isSome ∨ 0 < x.1.inFlight then [] else x.1.settles now)
  | .isIdle now => some (((x.1.isIdle now).2, x.2), x.1.settles now)

/-- The running average after one echo. -/
def score (x : ℚ) (cameBack : Bool) : ℚ :=
  x + echoScoreWeight * ((if cameBack then 1 else 0) - x)

theorem score_mem {x : ℚ} (h : 0 ≤ x ∧ x ≤ 1) (b : Bool) : 0 ≤ score x b ∧ score x b ≤ 1 := by
  cases b <;> simp only [score, echoScoreWeight] <;> constructor <;> norm_num <;> linarith

theorem foldl_score_mem (os : List Bool) : 0 ≤ os.foldl score 1 ∧ os.foldl score 1 ≤ 1 := by
  induction os using List.reverseRecOn with
  | nil => norm_num
  | append_singleton _ b ih => simpa using score_mem ih b

/-- Three misses in a row leave less than the share at which the lane gathers. -/
theorem foldl_score_misses (pre : List Bool) :
    (pre ++ [false, false, false]).foldl score 1 < echoScoreGatherAt := by
  have h := (foldl_score_mem pre).2
  simp [score, echoScoreWeight, echoScoreGatherAt]
  linarith

/-! ### What the calls score -/

theorem closeWatch_score (l : Lane) :
    l.closeWatch.echoScore = l.closes.foldl score l.echoScore := by
  unfold closeWatch closes
  cases l.watch <;> rfl

section

variable (l : Lane) (now : Instant)

theorem settleWatch_score :
    (l.settleWatch now).echoScore = (l.settles now).foldl score l.echoScore := by
  unfold settleWatch settles
  split_ifs
  · exact closeWatch_score l
  · rfl

theorem onArrival_score (requests : ℕ) :
    (l.onArrival now requests).echoScore = (l.arrives now requests).foldl score l.echoScore := by
  unfold onArrival arrives
  cases l.watch with
  | none => rfl
  | some w =>
    simp only
    split_ifs
    · exact settleWatch_score l now
    · rfl
    · rfl

theorem onReturn_score (answered roundTrip quiet longest : ℕ) :
    (l.onReturn now answered roundTrip quiet longest).echoScore =
      (if 0 < l.inFlight - 1 then [] else l.closes).foldl score l.echoScore := by
  unfold onReturn
  simp only
  split_ifs
  · rfl
  · exact closeWatch_score { l with inFlight := l.inFlight - 1 }
  · exact closeWatch_score { l with inFlight := l.inFlight - 1 }

theorem verdict_score (full : Option FlushReason) :
    (l.verdict now full).2.echoScore =
      (if full.isSome ∨ 0 < l.inFlight then [] else l.settles now).foldl score l.echoScore := by
  cases full with
  | some => rfl
  | none =>
    by_cases hbusy : 0 < l.inFlight
    · simp [verdict, hbusy]
    · simp [verdict, if_neg hbusy, ← settleWatch_score]
      grind

end

/-! ### The watch -/

/-- An open watch belongs to the last return that emptied the lane. -/
def Bounded (x : Lane × Option Instant) : Prop :=
  ∀ w, x.1.watch = some w → ∃ b, x.2 = some b ∧ w.latest ≤ b

theorem settleWatch_watch (l : Lane) (now : Instant) :
    (l.settleWatch now).watch = none ∨
      (l.settleWatch now).watch = l.watch ∧ ∀ w, l.watch = some w → now < w.deadline := by
  unfold settleWatch
  split_ifs with h
  · unfold closeWatch
    cases hw : l.watch <;> simp [hw, recordEcho]
  · right
    refine ⟨rfl, fun w hw => ?_⟩
    simpa [hw] using h

/-- The three verdicts. -/
theorem verdict_cases (l : Lane) (now : Instant) (full : Option FlushReason) :
    (∃ reason, (l.verdict now full).1 = .send reason) ∨
      0 < l.inFlight ∧ (l.verdict now full).1 = .hold ∨
      l.inFlight = 0 ∧ ∃ w, l.watch = some w ∧ now < w.deadline ∧
        (l.verdict now full).1 = .waitUntil w.deadline := by
  have hsettled := settleWatch_watch l now
  cases full with
  | some reason => exact .inl ⟨reason, rfl⟩
  | none =>
    simp only [verdict]
    grind

theorem bounded_step {x y : Lane × Option Instant} {e : Call} {o : List Bool} (hx : Bounded x)
    (h : step x e = some (y, o)) : Bounded y := by
  obtain ⟨l, _⟩ := x
  cases e with
  | arrival now =>
    cases h
    intro w hw
    have hsettled := settleWatch_watch l now
    simp only [onArrival] at hw
    grind [Bounded, recordEcho]
  | dispatch =>
    cases h
    exact hx
  | back =>
    simp only [step, onReturn_counts] at h
    split_ifs at h with hbusy
    · cases h
      intro w hw
      exact hx w (by simpa [onReturn, hbusy] using hw)
    cases h
    intro w hw
    simp only [onReturn, if_neg hbusy] at hw
    grind [closeWatch, recordEcho]
  | verdict now =>
    cases h
    intro w hw
    have hsettled := settleWatch_watch l now
    simp only [verdict] at hw
    grind [Bounded]
  | isIdle now =>
    cases h
    intro w hw
    have hsettled := settleWatch_watch l now
    simp only [isIdle] at hw
    grind [Bounded]

theorem score_step {x y : Lane × Option Instant} {e : Call} {o : List Bool}
    (h : step x e = some (y, o)) : y.1.echoScore = o.foldl score x.1.echoScore := by
  cases e with
  | arrival =>
    cases h
    exact onArrival_score _ _ _
  | dispatch =>
    cases h
    rfl
  | back now answered roundTrip quiet longest =>
    have hscore := onReturn_score x.1 now answered roundTrip quiet longest
    simp only [step, onReturn_counts] at h
    split_ifs at h with hbusy
    · cases h
      simpa only [if_pos hbusy] using hscore
    · cases h
      simpa only [if_neg hbusy] using hscore
  | verdict =>
    cases h
    exact verdict_score _ _ _
  | isIdle =>
    cases h
    exact settleWatch_score _ _

/-- **The bound on gathering.**  After any run of a new lane, the verdict on pending work is
to wait only with nothing at the engine and only up to the bound of the last return that
emptied the lane, and to hold only while a batch is with the engine; past the bound with an
empty engine the work is sent.  The echo score is the running average of the echoes, lies in
`[0, 1]`, and gathering is off after three misses in a row. -/
theorem gather_bounded (es : List Call) (l : Lane) (bound : Option Instant) (os : List Bool)
    (h : runs step (default, none) es = some ((l, bound), os)) :
    (∀ now full d, (l.verdict now full).1 = .waitUntil d →
      l.inFlight = 0 ∧ ∃ b, bound = some b ∧ d ≤ b) ∧
    (∀ now full, (l.verdict now full).1 = .hold → 0 < l.inFlight) ∧
    (∀ now full, l.inFlight = 0 → (∀ b, bound = some b → b ≤ now) →
      ∃ reason, (l.verdict now full).1 = .send reason) ∧
    l.echoScore = os.foldl score 1 ∧ 0 ≤ l.echoScore ∧ l.echoScore ≤ 1 ∧
    ∀ pre, os = pre ++ [false, false, false] → l.gathers = false := by
  have hbounded : Bounded (l, bound) :=
    runs_invariant (fun _ _ _ _ => bounded_step) (fun w hw => by cases hw) h
  have hscore : l.echoScore = os.foldl score 1 := by
    refine runs_induction (fun _ os x => x.1.echoScore = os.foldl score 1) rfl ?_ es os _ h
    intro _ os x _ y o _ hx hstep
    rw [score_step hstep, hx, List.foldl_append]
  refine ⟨fun now full d hd => ?_, fun now full hhold => ?_, fun now full hidle hpast => ?_,
    hscore, hscore ▸ (foldl_score_mem os).1, hscore ▸ (foldl_score_mem os).2, ?_⟩
  · obtain ⟨reason, hv⟩ | ⟨_, hv⟩ | ⟨hidle, w, hw, _, hv⟩ := verdict_cases l now full <;>
      rw [hv] at hd <;> cases hd
    obtain ⟨b, hb, hle⟩ := hbounded w hw
    exact ⟨hidle, b, hb, (min_le_left _ _).trans hle⟩
  · obtain ⟨reason, hv⟩ | ⟨hbusy, _⟩ | ⟨_, w, _, _, hv⟩ := verdict_cases l now full
    · simp [hv] at hhold
    · exact hbusy
    · simp [hv] at hhold
  · obtain hsend | ⟨hbusy, _⟩ | ⟨_, w, hw, hlt, _⟩ := verdict_cases l now full
    · exact hsend
    · omega
    · obtain ⟨b, hb, hle⟩ := hbounded w hw
      exact absurd (((min_le_left _ _).trans hle).trans (hpast b hb)) (not_le.mpr hlt)
  · rintro pre rfl
    have hlt := foldl_score_misses pre
    rw [← hscore] at hlt
    simpa [gathers] using hlt

/-- A batch returns, its callers do not come back, and the lane stops gathering at the third
such return. -/
def quietReturns : List Call :=
  [.dispatch false, .back 1000000 1 8000000 1000000 4000000, .verdict 1500000 none,
    .dispatch false, .back 9000000 1 8000000 1000000 4000000,
    .dispatch false, .back 19000000 1 8000000 1000000 4000000, .isIdle 29000000]

theorem gather_bounded_quiet :
    (reached step (default, none) quietReturns (by decide +kernel)).1.1.gathers = false :=
  (gather_bounded quietReturns _ _ _ (runs_eq_reached (by decide +kernel))).2.2.2.2.2.2 []
    (by decide +kernel)

end Sie.Sidecar.Lane
