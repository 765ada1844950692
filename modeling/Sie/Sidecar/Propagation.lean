import Sie.Sidecar.Engine

/-!
# Config propagation

The three writers of the scheduler's caps in `scheduler/engine.rs`, at lock
granularity: `record_completion` (an adaptive step), `adopt_cost_budget` (a
re-base on a new budget) and the first use of a batcher in `get_or_create`.

Two locks are held across awaits: the controller's by the first two, for their
whole length, and the batcher map's by the third while it reads the caps.  So the
state carries where the holder of each lock is; a task that waits for a lock, or
that returned from an unlocked check, has changed nothing.  The config lock is
taken and released within one step.  What the adaptive controller computes is a
parameter.

Two ghost fields remember the budget that the controller was built from and the
budget that the scheduler's caps were computed from.
-/

namespace Sie.Sidecar

open Sie.Lib

universe u v w
variable {I : Type u} {T : Type v} {C Obs : Type w}

/-- The adaptive controller, as far as the scheduler uses it. -/
structure Adaptive (C Obs : Type w) where
  /-- Result of `AdaptiveBatchController::from_batch_config_and_lookup`. -/
  fromBatchConfig : BatchConfig → C
  /-- The new state with the wait and the cost cap it computed. -/
  step : C → Obs → C × ℚ × ℕ
  currentBatchCost : C → ℕ

/-- Where the holder of the controller lock is. -/
inductive ControllerSection
  /-- The lock is held by `record_completion`. -/
  | record
  /-- It has stepped the controller; the caps were computed from `budget`. -/
  | stepped (waitMs : ℚ) (cost budget : ℕ)
  /-- The lock is held by `adopt_cost_budget`. -/
  | adopt (maxBatchTokens : ℕ)
  /-- It has rebuilt the controller. -/
  | rebuilt (maxBatchTokens : ℕ) (config : BatchConfig)
  /-- It has written the caps, and not yet the budget. -/
  | written (maxBatchTokens : ℕ) (config : BatchConfig)
  /-- Next, `propagate_config` stores the gather windows. -/
  | propagate (config : BatchConfig)
  /-- It is about to read the batcher map. -/
  | snapshot (config : BatchConfig)
  /-- It has these batchers left to update. -/
  | pushing (config : BatchConfig) (left : List BatcherKey)
  deriving DecidableEq

/-- Where the holder of the batcher map's write lock is. -/
inductive MapSection
  | locked (key : BatcherKey)
  /-- It has read the caps for the new batcher. -/
  | read (key : BatcherKey) (config : BatchConfig)
  deriving DecidableEq

/-- The scheduler's shared state with its two held locks. -/
structure Shared (I : Type u) (T : Type v) (C : Type w) where
  scheduler : Scheduler I T
  initialConfig : BatchConfig
  controller : C
  costBudget : ℕ
  inController : Option ControllerSection
  inMap : Option MapSection
  /-- Budget the controller was built from. -/
  controllerBudget : ℕ
  /-- Budget the scheduler's caps were computed from. -/
  configBudget : ℕ

/-- A lock taken by a new task, or the next step of a lock's holder. -/
inductive Move (Obs : Type w)
  | recordCompletion
  | adoptCostBudget (maxBatchTokens : ℕ)
  | getOrCreate (key : BatcherKey)
  /-- The holder of the controller lock goes on; `obs` is what the trackers say. -/
  | controller (obs : Obs)
  /-- The holder of the map's write lock goes on. -/
  | map

namespace Shared

variable (ctl : Adaptive C Obs)

/-- A built scheduler; without a controller of the caller's, one is derived and the
cost cap starts at its starting cost. -/
def build (config : BatchConfig) (controller : Option C) (epoch : Instant) : Shared I T C where
  scheduler := Scheduler.new
    (match controller with
      | some _ => config
      | none =>
        { config with maxBatchCost := ctl.currentBatchCost (ctl.fromBatchConfig config) })
    epoch
  initialConfig := config
  controller := controller.getD (ctl.fromBatchConfig config)
  costBudget := config.maxBatchCost
  inController := none
  inMap := none
  controllerBudget := config.maxBatchCost
  configBudget := config.maxBatchCost

section

variable (s : Shared I T C)

/-- Write the scheduler's caps. -/
def writeConfig (config : BatchConfig) (budget : ℕ)
    (next : ControllerSection) : Shared I T C :=
  { s with
    scheduler := { s.scheduler with config }
    configBudget := budget
    inController := some next }

/-- Push the caps to one batcher. -/
def push (config : BatchConfig) (key : BatcherKey) : Scheduler I T :=
  match s.scheduler.batchers.lookup key with
  | none => s.scheduler
  | some former => s.scheduler.putBatcher key (former.updateConfig config)

/-- The next step of the holder of the controller lock. -/
def controllerStep (obs : Obs) : ControllerSection → Option (Shared I T C)
  | .record =>
    let (controller, waitMs, cost) := ctl.step s.controller obs
    some { s with
      controller
      inController := some (.stepped waitMs cost s.controllerBudget) }
  | .stepped waitMs cost budget =>
    let config := { s.scheduler.config with maxBatchWaitMs := waitMs, maxBatchCost := cost }
    some (s.writeConfig config budget (.propagate config))
  | .adopt maxBatchTokens =>
    -- the unlocked check is repeated under the lock
    if s.costBudget = maxBatchTokens then some { s with inController := none }
    else
      let budgetConfig := { s.initialConfig with maxBatchCost := maxBatchTokens }
      let controller := ctl.fromBatchConfig budgetConfig
      some { s with
        controller
        controllerBudget := maxBatchTokens
        inController := some (.rebuilt maxBatchTokens
          { budgetConfig with maxBatchCost := ctl.currentBatchCost controller }) }
  | .rebuilt maxBatchTokens config =>
    some (s.writeConfig config maxBatchTokens (.written maxBatchTokens config))
  | .written maxBatchTokens config =>
    some { s with costBudget := maxBatchTokens, inController := some (.propagate config) }
  | .propagate config =>
    some { s with
      scheduler := { s.scheduler with
        gatherQuietUs := wholeMicros config.effectiveCoalesceMs
        gatherLongestUs := wholeMicros config.maxBatchWaitMs }
      inController := some (.snapshot config) }
  | .snapshot config =>
    if s.inMap.isSome then none
    else some { s with inController := some (.pushing config s.scheduler.batchers.keys) }
  | .pushing _ [] => some { s with inController := none }
  | .pushing config (key :: left) =>
    some { s with
      scheduler := s.push config key
      inController := some (.pushing config left) }

/-- The next step of the holder of the map's write lock. -/
def mapStep : MapSection → Shared I T C
  | .locked key =>
    if (s.scheduler.batchers.lookup key).isSome then { s with inMap := none }
    else { s with inMap := some (.read key s.scheduler.config) }
  | .read key config =>
    { s with
      scheduler :=
        s.scheduler.putBatcher key (BatchFormer.withEpoch config s.scheduler.epoch)
      inMap := none }

/-- One move, if the lock is free or held as it needs. -/
def step : Move Obs → Option (Shared I T C × List Unit)
  | .recordCompletion =>
    if s.inController.isSome then none
    else some ({ s with inController := some .record }, [])
  | .adoptCostBudget maxBatchTokens =>
    if s.inController.isSome then none
    else some ({ s with inController := some (.adopt maxBatchTokens) }, [])
  | .getOrCreate key =>
    if s.inMap.isSome then none else some ({ s with inMap := some (.locked key) }, [])
  | .controller obs =>
    match s.inController with
    | none => none
    | some section' => (s.controllerStep ctl obs section').map fun t => (t, [])
  | .map =>
    match s.inMap with
    | none => none
    | some section' => some (s.mapStep section', [])

/-- A propagation is running, from the write of the caps to the last push. -/
def propagating : Bool :=
  match s.inController with
  | some (.written _ _) | some (.propagate _) | some (.snapshot _) | some (.pushing _ _) => true
  | _ => false

/-- The budget of a re-base that has written its caps and not yet the budget. -/
def rebasing : Option ℕ :=
  match s.inController with
  | some (.written maxBatchTokens _) => some maxBatchTokens
  | _ => none

end

/-! ## The invariant -/

/-- Every batcher has the scheduler's caps, those still to be pushed apart; so has
the one that is being created. -/
structure Current (s : Shared I T C) (left : List BatcherKey) : Prop where
  batchers : ∀ key former, s.scheduler.batchers.lookup key = some former → key ∉ left →
    former.inner.config = s.scheduler.config
  created : ∀ key config, s.inMap = some (.read key config) → config = s.scheduler.config

/-- What holds while the controller lock's holder is at a place. -/
def SectionInv (s : Shared I T C) : Option ControllerSection → Prop
  | none | some .record | some (.adopt _) =>
    s.Current [] ∧ s.controllerBudget = s.costBudget ∧ s.configBudget = s.costBudget
  | some (.stepped _ _ budget) =>
    s.Current [] ∧ s.controllerBudget = s.costBudget ∧ s.configBudget = s.costBudget ∧
      budget = s.costBudget
  | some (.rebuilt maxBatchTokens _) =>
    s.Current [] ∧ s.controllerBudget = maxBatchTokens ∧ s.configBudget = s.costBudget
  | some (.written maxBatchTokens config) =>
    s.scheduler.config = config ∧ s.controllerBudget = maxBatchTokens ∧
      s.configBudget = maxBatchTokens
  | some (.propagate config) | some (.snapshot config) =>
    s.scheduler.config = config ∧ s.controllerBudget = s.costBudget ∧
      s.configBudget = s.costBudget
  | some (.pushing config left) =>
    s.scheduler.config = config ∧ s.controllerBudget = s.costBudget ∧
      s.configBudget = s.costBudget ∧ s.Current left

variable {ctl} {s t : Shared I T C} {left : List BatcherKey}

@[simp] theorem push_config (s : Shared I T C) (config : BatchConfig) (key : BatcherKey) :
    (s.push config key).config = s.scheduler.config := by
  unfold push
  split <;> rfl

/-- After a push the batcher has the caps and the others are as before. -/
theorem push_lookup (s : Shared I T C) (config : BatchConfig) {key key' : BatcherKey}
    {former : BatchFormer I T} (h : (s.push config key).batchers.lookup key' = some former) :
    (key' = key ∧ former.inner.config = config) ∨
      (key' ≠ key ∧ s.scheduler.batchers.lookup key' = some former) := by
  unfold push at h
  by_cases heq : key' = key
  · subst heq
    left
    split at h
    next hnone => exact absurd h (by simp [hnone])
    · rw [Scheduler.putBatcher_lookup, if_pos rfl] at h
      cases h
      exact ⟨rfl, rfl⟩
  · right
    refine ⟨heq, ?_⟩
    split at h
    · exact h
    · rwa [Scheduler.putBatcher_lookup, if_neg heq] at h

/-! ### The map's lock -/

@[simp] theorem mapStep_config (s : Shared I T C) (m : MapSection) :
    (s.mapStep m).scheduler.config = s.scheduler.config := by
  cases m with
  | locked => simp only [mapStep]; split <;> rfl
  | read => rfl

@[simp] theorem mapStep_budgets (s : Shared I T C) (m : MapSection) :
    (s.mapStep m).controllerBudget = s.controllerBudget ∧
      (s.mapStep m).configBudget = s.configBudget ∧ (s.mapStep m).costBudget = s.costBudget ∧
      (s.mapStep m).inController = s.inController := by
  cases m with
  | locked => simp only [mapStep]; split <;> exact ⟨rfl, rfl, rfl, rfl⟩
  | read => exact ⟨rfl, rfl, rfl, rfl⟩

/-- A new batcher gets the caps that are current when it is put into the map. -/
theorem mapStep_current {m : MapSection} (hm : s.inMap = some m) (h : s.Current left) :
    (s.mapStep m).Current left := by
  cases m with
  | locked =>
    simp only [mapStep]
    split
    · exact ⟨h.batchers, by simp⟩
    · refine ⟨h.batchers, fun key' config heq => ?_⟩
      simp at heq
      exact heq.2.symm
  | read key config =>
    refine ⟨fun key' former hlook hleft => ?_, by simp [mapStep]⟩
    simp only [mapStep, Scheduler.putBatcher_lookup] at hlook
    split at hlook
    · cases hlook
      exact h.created key config hm
    · exact h.batchers key' former hlook hleft

/-! ### The controller's lock -/

theorem controllerStep_sectionInv {obs : Obs} {c : ControllerSection} (hinv : s.SectionInv (some c))
    (h : s.controllerStep ctl obs c = some t) : t.SectionInv t.inController := by
  cases c with
  | record =>
    cases h
    obtain ⟨hcur, hctl, hcfg⟩ := hinv
    exact ⟨{ hcur with }, hctl, hcfg, hctl⟩
  | stepped =>
    cases h
    obtain ⟨-, hctl, -, hbudget⟩ := hinv
    exact ⟨rfl, hctl, hbudget⟩
  | adopt =>
    simp only [controllerStep] at h
    obtain ⟨hcur, hctl, hcfg⟩ := hinv
    split at h
    · cases h
      exact ⟨{ hcur with }, hctl, hcfg⟩
    · cases h
      exact ⟨{ hcur with }, rfl, hcfg⟩
  | rebuilt =>
    cases h
    exact ⟨rfl, hinv.2.1, rfl⟩
  | written | propagate =>
    cases h
    exact hinv
  | snapshot config =>
    simp only [controllerStep] at h
    split at h
    · cases h
    rename_i hfree
    cases h
    obtain ⟨hconfig, hctl, hcfg⟩ := hinv
    refine ⟨hconfig, hctl, hcfg, fun key former hlook hleft => ?_, fun key config heq => ?_⟩
    · -- the map is not being written: the snapshot holds every batcher
      exact absurd (AList.mem_keys.mpr (AList.lookup_isSome.mp (by simp [hlook]))) hleft
    · exact absurd (Option.isSome_iff_exists.mpr ⟨_, heq⟩) hfree
  | pushing config left =>
    obtain ⟨hconfig, hctl, hcfg, hcur⟩ := hinv
    cases left with
    | nil =>
      cases h
      exact ⟨{ hcur with }, hctl, hcfg⟩
    | cons key left =>
      cases h
      refine ⟨(push_config s config key).trans hconfig, hctl, hcfg,
        fun key' former hlook hleft => ?_, fun key' config' heq => ?_⟩
      · simp only [push_config]
        rcases push_lookup s config hlook with ⟨-, hnew⟩ | ⟨hne, hold⟩
        · exact hnew.trans hconfig.symm
        · exact hcur.batchers key' former hold (by simp [hne, hleft])
      · simp only [push_config]
        exact hcur.created key' config' heq

/-- A move that leaves the caps and the budgets alone and no batcher behind keeps
what holds at every place. -/
theorem SectionInv.of_current {c : Option ControllerSection} (hinv : s.SectionInv c)
    (hconfig : t.scheduler.config = s.scheduler.config)
    (hctl : t.controllerBudget = s.controllerBudget) (hcfg : t.configBudget = s.configBudget)
    (hcost : t.costBudget = s.costBudget) (hcur : ∀ left, s.Current left → t.Current left) :
    t.SectionInv c := by
  rcases c with _ | c
  · exact ⟨hcur [] hinv.1, by rw [hctl, hcost]; exact hinv.2.1, by rw [hcfg, hcost]; exact hinv.2.2⟩
  · cases c <;> simp only [SectionInv, hconfig, hctl, hcfg, hcost] at hinv ⊢ <;> grind

/-- What every move keeps. -/
theorem step_sectionInv {m : Move Obs} {o : List Unit} (hinv : s.SectionInv s.inController)
    (h : s.step ctl m = some (t, o)) : t.SectionInv t.inController := by
  cases m with
  | recordCompletion =>
    obtain ⟨hfree, rfl, -⟩ : s.inController = none ∧
        { s with inController := some .record } = t ∧ [] = o := by simpa [step] using h
    rw [hfree] at hinv
    exact ⟨{ hinv.1 with }, hinv.2⟩
  | adoptCostBudget maxBatchTokens =>
    obtain ⟨hfree, rfl, -⟩ : s.inController = none ∧
        { s with inController := some (.adopt maxBatchTokens) } = t ∧ [] = o := by
      simpa [step] using h
    rw [hfree] at hinv
    exact ⟨{ hinv.1 with }, hinv.2⟩
  | getOrCreate key =>
    obtain ⟨hfree, rfl, -⟩ : s.inMap = none ∧
        { s with inMap := some (.locked key) } = t ∧ [] = o := by simpa [step] using h
    exact hinv.of_current rfl rfl rfl rfl fun left hcur => ⟨hcur.batchers, by simp⟩
  | controller =>
    simp only [step] at h
    split at h
    · cases h
    rename_i c hc
    rw [hc] at hinv
    obtain ⟨t', ht', heq⟩ := Option.map_eq_some_iff.mp h
    obtain ⟨rfl, -⟩ := Prod.mk.inj heq
    exact controllerStep_sectionInv hinv ht'
  | map =>
    simp only [step] at h
    split at h
    · cases h
    rename_i m hm
    obtain ⟨rfl, -⟩ := Prod.mk.inj (Option.some.inj h)
    obtain ⟨hctl, hcfg, hcost, hsec⟩ := mapStep_budgets s m
    rw [hsec]
    exact hinv.of_current (mapStep_config s m) hctl hcfg hcost fun _ =>
      mapStep_current hm

theorem build_sectionInv (config : BatchConfig) (controller : Option C) (epoch : Instant) :
    (build ctl config controller epoch : Shared I T C).SectionInv none :=
  ⟨⟨fun key former hlook _ => absurd hlook (by simp [build, Scheduler.new]), by simp [build]⟩,
    rfl, rfl⟩

theorem runs_sectionInv {config : BatchConfig} {controller : Option C} {epoch : Instant}
    {ms : List (Move Obs)} {os : List Unit}
    (h : runs (step ctl) (build ctl config controller epoch) ms = some (t, os)) :
    t.SectionInv t.inController :=
  runs_invariant (P := fun s : Shared I T C => s.SectionInv s.inController)
    (fun _ _ _ _ hinv hstep => step_sectionInv hinv hstep)
    (build_sectionInv config controller epoch) h

theorem SectionInv.current (hinv : t.SectionInv t.inController) (hquiet : t.propagating = false) :
    t.Current [] := by
  unfold propagating at hquiet
  rcases hc : t.inController with _ | c
  · rw [hc] at hinv
    exact hinv.1
  rw [hc] at hinv hquiet
  cases c with
  | record | stepped | adopt | rebuilt => exact hinv.1
  | written | propagate | snapshot | pushing => simp at hquiet

theorem SectionInv.configBudget (hinv : t.SectionInv t.inController) :
    t.configBudget = t.rebasing.getD t.costBudget := by
  unfold rebasing
  rcases hc : t.inController with _ | c
  · rw [hc] at hinv
    exact hinv.2.2
  rw [hc] at hinv
  cases c with
  | record | adopt | rebuilt | written | propagate | snapshot => exact hinv.2.2
  | stepped | pushing => exact hinv.2.2.1

/-- **Config propagation.**  In every interleaving of adaptive steps, re-bases and
first uses of a batcher: while no propagation runs, every batcher has the scheduler's
caps; an adaptive step that has computed its caps computed them from the budget in
force; and the scheduler's caps are those of the budget in force, or of the budget
that a re-base is about to put in force. -/
theorem config_propagates (ctl : Adaptive C Obs) (config : BatchConfig) (controller : Option C)
    (epoch : Instant) (ms : List (Move Obs)) (os : List Unit) (t : Shared I T C)
    (h : runs (step ctl) (build ctl config controller epoch) ms = some (t, os)) :
    (t.propagating = false → ∀ key former, t.scheduler.batchers.lookup key = some former →
        former.inner.config = t.scheduler.config) ∧
      (∀ waitMs cost budget, t.inController = some (.stepped waitMs cost budget) →
        budget = t.costBudget) ∧ t.configBudget = t.rebasing.getD t.costBudget := by
  have hinv := runs_sectionInv h
  refine ⟨fun hquiet key former hlook => ?_, fun waitMs cost budget heq => ?_, ?_⟩
  · exact (hinv.current hquiet).batchers key former hlook (by simp)
  · rw [heq] at hinv
    exact hinv.2.2.2
  · exact hinv.configBudget

namespace Race

/-- A controller whose state is its cost; it adds what it observes. -/
def counting : Adaptive ℕ ℕ where
  fromBatchConfig config := config.maxBatchCost
  step cost obs := (cost + obs, 1, cost + obs)
  currentBatchCost cost := cost

def config : BatchConfig := ⟨10, 8, 5, 1, 0, 4⟩

def key : BatcherKey := (.encode, .base)

/-- A batcher is created with the caps from before an adaptive step and put into the
map after the step wrote its own; then a re-base runs. -/
def moves : List (Move ℕ) :=
  [.getOrCreate key, .map, .recordCompletion, .controller 3, .controller 0, .map,
    .controller 0, .controller 0, .controller 0, .controller 0, .adoptCostBudget 40,
    .controller 0, .controller 0, .controller 0, .controller 0, .controller 0, .controller 0,
    .controller 0]

theorem goes : (runs (step counting) (build counting config none 0 : Shared StubItem ℕ ℕ)
    moves).isSome = true := by decide +kernel

def final : Shared StubItem ℕ ℕ × List Unit := reached _ _ _ goes

end Race

theorem config_propagates_raced :
    Race.final.1.inController = none ∧ Race.final.1.costBudget = 40 ∧
      Race.final.1.configBudget = 40 ∧
      ∃ former, Race.final.1.scheduler.batchers.lookup Race.key = some former ∧
        former.inner.config = Race.final.1.scheduler.config := by
  have hrun : runs (step Race.counting) (build Race.counting Race.config none 0) Race.moves =
      some (Race.final.1, Race.final.2) := runs_eq_reached Race.goes
  have h := config_propagates Race.counting Race.config none 0 Race.moves _ _ hrun
  refine ⟨by decide +kernel, by decide +kernel, h.2.2.trans (by decide +kernel), ?_⟩
  obtain ⟨former, hlook⟩ : ∃ former,
      Race.final.1.scheduler.batchers.lookup Race.key = some former :=
    Option.isSome_iff_exists.mp (by decide +kernel)
  exact ⟨former, hlook, h.1 (by decide +kernel) Race.key former hlook⟩

end Shared

end Sie.Sidecar
