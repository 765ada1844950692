import Sie.Lib.Run
import Sie.Server.BatchFormer

/-!
# The process loop of a worker

The single-batch loop of the worker's `core/worker/model_worker.py`.  Every LoRA has a batcher of
its own; a turn selects the batcher whose first request is the oldest, forms a batch, runs it and
then drains what is pending when the first forward ends.  Requests come in at any await, also
during every forward.

A batcher's first-request time is reset only by an extraction that leaves its queue empty, so a
batcher that is refilled during the forwards of a long drain keeps its old time and is selected
again.  `EmptiesInTurn` excludes that, and then every other batcher has at most one turn before
the one that waits.
-/

namespace Sie.Server

open Sie.Lib List Function

/-- The name of a LoRA; `none` is the base model. -/
abbrev LoraKey := Option String

instance : LawfulBEq LoraKey := inferInstanceAs (LawfulBEq (Option String))

/-- Where the loop is.  From `forming` on a turn is under way: `oldestTime` is the time it was
selected by, and `drainBudget` is what is left to drain, once the first forward is done. -/
inductive LoopPhase
  | selecting (wasIdle : Bool)
  | forming (lora : LoraKey) (oldestTime : Option ℚ) (wasIdle : Bool)
  | formed (lora : LoraKey) (oldestTime : Option ℚ) (wasIdle : Bool) (size : ℕ)
  | forwarding (lora : LoraKey) (oldestTime : Option ℚ) (wasIdle : Bool) (size : ℕ)
      (drained : Bool) (drainBudget : Option ℕ)
  deriving DecidableEq

/-- The batcher whose turn it is, and the time it was selected by. -/
def LoopPhase.turn : LoopPhase → Option (LoraKey × Option ℚ)
  | .selecting _ => none
  | .forming lora time _ | .formed lora time _ _ | .forwarding lora time _ _ _ _ =>
    some (lora, time)

/-- `loras` are the keys of the batchers in the order they were made, the base model first. -/
structure ProcessLoop (μ : Type) where
  loras : List LoraKey
  batcher : LoraKey → BatchFormer μ
  config : BatchConfig
  idleCoalesceMs : ℚ
  clock : ℚ
  phase : LoopPhase

/-- `activate` is the adapter's answer to `set_active_lora`; `forwarded` is the end of
`_process_batch`, `raised` its exception; `adapt` is a write of the adaptive controller. -/
inductive LoopEvent (μ : Type)
  | submit (lora : LoraKey) (arrivals : List (BatchFormer.Arrival μ))
  | select
  | form (now : ℚ)
  | activate (ok : Bool)
  | forwarded
  | raised
  | adapt (config : BatchConfig)

inductive LoopOutput
  | selected (lora : LoraKey)
  | took (lora : LoraKey) (size : ℕ)
  deriving DecidableEq

namespace ProcessLoop

variable {μ : Type}

def new (config : BatchConfig) (idleCoalesceMs : ℚ) : ProcessLoop μ where
  loras := [none]
  batcher := fun _ => .new
  config := config
  idleCoalesceMs := idleCoalesceMs
  clock := 0
  phase := .selecting true

/-- The readings of a submit, one after the other. -/
def increasing (clock : ℚ) : List (BatchFormer.Arrival μ) → Bool
  | [] => true
  | a :: arrivals => clock < a.arrivalTime && a.arrivalTime < a.now && increasing a.now arrivals

def lastReading (clock : ℚ) : List (BatchFormer.Arrival μ) → ℚ
  | [] => clock
  | a :: arrivals => lastReading a.now arrivals

def setBatcher (s : ProcessLoop μ) (lora : LoraKey) (b : BatchFormer μ) : ProcessLoop μ :=
  { s with batcher := update s.batcher lora b }

def submitStep (s : ProcessLoop μ) (lora : LoraKey) (arrivals : List (BatchFormer.Arrival μ)) :
    Option (ProcessLoop μ × List LoopOutput) :=
  if increasing s.clock arrivals = true then
    some ({ s.setBatcher lora ((s.batcher lora).submitMany arrivals) with
      loras := if lora ∈ s.loras then s.loras else s.loras ++ [lora]
      clock := lastReading s.clock arrivals }, [])
  else none

/-- The scan of `_get_next_batch_fcfs`; no time yet is the float infinity. -/
def scan (batcher : LoraKey → BatchFormer μ) (oldest : LoraKey × Option ℚ) :
    List LoraKey → LoraKey × Option ℚ
  | [] => oldest
  | lora :: loras =>
    match (batcher lora).pending, (batcher lora).firstRequestTime with
    | _ :: _, some first =>
      if oldest.2.all (first < ·) = true then scan batcher (lora, some first) loras
      else scan batcher oldest loras
    | _, _ => scan batcher oldest loras

section

variable (s : ProcessLoop μ)

/-- The batcher that is selected: `None` is both the base model and the scan without a hit. -/
def oldestLora : Option LoraKey :=
  match (scan s.batcher (none, none) s.loras).1 with
  | some lora => some (some lora)
  | none => if (s.batcher none).pending.isEmpty then none else some none

def selectStep : Option (ProcessLoop μ × List LoopOutput) :=
  match s.phase with
  | .selecting wasIdle =>
    match s.oldestLora with
    | some lora =>
      some ({ s with phase := .forming lora (s.batcher lora).firstRequestTime wasIdle },
        [.selected lora])
    -- nothing is pending: the loop waits for work
    | none => some ({ s with phase := .selecting true }, [])
  | _ => none

/-- `get_batch` yields. -/
def yields (lora : LoraKey) (wasIdle : Bool) (now : ℚ) : Bool :=
  if wasIdle = true ∧ 0 < s.idleCoalesceMs then
    (s.batcher lora).shouldYieldBatch s.config (some s.idleCoalesceMs) now
  else
    (s.batcher lora).shouldYieldBatch s.config none now ||
      (wasIdle && !(s.batcher lora).pending.isEmpty)

def formStep (now : ℚ) : Option (ProcessLoop μ × List LoopOutput) :=
  match s.phase with
  | .forming lora time wasIdle =>
    if s.clock < now ∧ s.yields lora wasIdle now = true then
      let size := ((s.batcher lora).taken s.config none).length
      some ({ s.setBatcher lora ((s.batcher lora).extractBatch s.config none) with
        clock := now
        phase := .formed lora time wasIdle size }, [.took lora size])
    else none
  | _ => none

/-- A batch whose LoRA cannot be made active fails, and the turn is over. -/
def activateStep (ok : Bool) : Option (ProcessLoop μ × List LoopOutput) :=
  match s.phase with
  | .formed lora time wasIdle size =>
    if ok = true then
      some ({ s with phase := .forwarding lora time wasIdle size false none }, [])
    else some ({ s with phase := .selecting true }, [])
  | _ => none

/-- The next round of the drain, or the end of the turn. -/
def drainStep (lora : LoraKey) (time : Option ℚ) (wasIdle : Bool) (size : ℕ)
    (drained : Bool) (budget : ℕ) : ProcessLoop μ × List LoopOutput :=
  if budget = 0 ∨ (s.batcher lora).pending = [] then
    ({ s with phase := .selecting (!drained && decide (size ≤ 1)) }, [])
  else
    let n := ((s.batcher lora).taken s.config (some budget)).length
    ({ s.setBatcher lora ((s.batcher lora).extractBatch s.config (some budget)) with
      phase := .forwarding lora time wasIdle size true (some (budget - n)) }, [.took lora n])

def forwardedStep : Option (ProcessLoop μ × List LoopOutput) :=
  match s.phase with
  | .forwarding lora time wasIdle size drained budget =>
    some (s.drainStep lora time wasIdle size drained (budget.getD (s.batcher lora).pending.length))
  | _ => none

def raisedStep : Option (ProcessLoop μ × List LoopOutput) :=
  match s.phase with
  | .forwarding _ _ wasIdle _ _ _ => some ({ s with phase := .selecting wasIdle }, [])
  | _ => none

def step : LoopEvent μ → Option (ProcessLoop μ × List LoopOutput)
  | .submit lora arrivals => s.submitStep lora arrivals
  | .select => s.selectStep
  | .form now => s.formStep now
  | .activate ok => s.activateStep ok
  | .forwarded => s.forwardedStep
  | .raised => s.raisedStep
  | .adapt config => some ({ s with config := config }, [])

end

/-! ## What a step does -/

/-- The event ends the turn: the batch fails, or there is nothing left to drain. -/
def EndsTurn (s : ProcessLoop μ) : LoopEvent μ → Prop
  | .activate ok => ok = false
  | .forwarded =>
    match s.phase with
    | .forwarding lora _ _ _ _ budget =>
      budget.getD (s.batcher lora).pending.length = 0 ∨ (s.batcher lora).pending = []
    | _ => False
  | .raised => True
  | .submit _ _ | .select | .form _ | .adapt _ => False

instance (s : ProcessLoop μ) : DecidablePred s.EndsTurn := fun e => by
  unfold EndsTurn
  repeat' split
  all_goals infer_instance

/-- What one event does to the batchers, the clock and the turn. -/
inductive Turn (s : ProcessLoop μ) : LoopEvent μ → ProcessLoop μ → List LoopOutput → Prop
  | submitted {lora : LoraKey} {arrivals : List (BatchFormer.Arrival μ)} {loras : List LoraKey}
      (hincreasing : increasing s.clock arrivals = true)
      (hloras : loras = if lora ∈ s.loras then s.loras else s.loras ++ [lora]) :
      Turn s (.submit lora arrivals)
        { s.setBatcher lora ((s.batcher lora).submitMany arrivals) with
          loras := loras
          clock := lastReading s.clock arrivals } []
  | selected {lora : LoraKey} {wasIdle : Bool} (hphase : s.phase = .selecting wasIdle)
      (holdest : s.oldestLora = some lora) :
      Turn s .select { s with phase := .forming lora (s.batcher lora).firstRequestTime wasIdle }
        [.selected lora]
  | waited {wasIdle : Bool} (hphase : s.phase = .selecting wasIdle) :
      Turn s .select { s with phase := .selecting true } []
  | took {e : LoopEvent μ} {lora : LoraKey} {time : Option ℚ} {maxItems : Option ℕ} {now : ℚ}
      {phase : LoopPhase} {size : ℕ} (hturn : s.phase.turn = some (lora, time))
      (hnow : s.clock ≤ now) (hphase : phase.turn = some (lora, time)) :
      Turn s e
        { s.setBatcher lora ((s.batcher lora).extractBatch s.config maxItems) with
          clock := now
          phase := phase } [.took lora size]
  | activated {lora : LoraKey} {time : Option ℚ} {phase : LoopPhase}
      (hturn : s.phase.turn = some (lora, time)) (hphase : phase.turn = some (lora, time)) :
      Turn s (.activate true) { s with phase := phase } []
  | ended {e : LoopEvent μ} {lora : LoraKey} {time : Option ℚ} {wasIdle : Bool}
      (hturn : s.phase.turn = some (lora, time)) (hends : s.EndsTurn e) :
      Turn s e { s with phase := .selecting wasIdle } []
  | adapted {config : BatchConfig} : Turn s (.adapt config) { s with config := config } []

variable {s t : ProcessLoop μ} {e : LoopEvent μ} {o : List LoopOutput}

theorem turn_of_forwarded (h : s.forwardedStep = some (t, o)) : Turn s .forwarded t o := by
  unfold forwardedStep drainStep at h
  split at h
  next lora time wasIdle size drained budget hphase =>
    have hturn : s.phase.turn = some (lora, time) := by rw [hphase]; rfl
    split_ifs at h with hends
    · cases h
      exact .ended hturn (by simpa only [EndsTurn, hphase] using hends)
    · cases h
      exact .took hturn le_rfl rfl
  next => cases h

/-- Every step is a turn. -/
theorem turn_of_step (h : s.step e = some (t, o)) : Turn s e t o := by
  cases e with
  | submit =>
    simp only [step, submitStep] at h
    split_ifs at h with hincreasing <;> cases h
    · exact .submitted hincreasing (if_pos ‹_›).symm
    · exact .submitted hincreasing (if_neg ‹_›).symm
  | select =>
    simp only [step, selectStep] at h
    split at h
    next wasIdle hphase =>
      split at h <;> cases h
      next lora holdest => exact .selected hphase holdest
      next => exact .waited hphase
    next => cases h
  | form =>
    simp only [step, formStep] at h
    split at h
    next lora time wasIdle hphase =>
      split_ifs at h with hyields
      cases h
      exact .took (by rw [hphase]; rfl) hyields.1.le rfl
    next => cases h
  | activate ok =>
    simp only [step, activateStep] at h
    split at h
    next lora time wasIdle size hphase =>
      have hturn : s.phase.turn = some (lora, time) := by rw [hphase]; rfl
      cases ok with
      | true => cases h; exact .activated hturn rfl
      | false => cases h; exact .ended hturn rfl
    next => cases h
  | forwarded => exact turn_of_forwarded h
  | raised =>
    simp only [step, raisedStep] at h
    split at h
    next lora time wasIdle size drained budget hphase =>
      have hturn : s.phase.turn = some (lora, time) := by rw [hphase]; rfl
      cases h
      exact .ended hturn trivial
    next => cases h
  | adapt => cases h; exact .adapted

/-! ## The queues and their times -/

/-- The batchers keep their times, and a LoRA without a batcher has nothing pending. -/
structure Tidy (s : ProcessLoop μ) : Prop where
  timed : ∀ lora, (s.batcher lora).Timed
  known : ∀ lora, lora ∉ s.loras → (s.batcher lora).pending = []

theorem Tidy.next (h : Tidy s) (hturn : Turn s e t o) : Tidy t := by
  cases hturn with
  | @submitted lora arrivals loras _ hloras =>
    have hmem : lora ∈ loras := by
      rw [hloras]
      split_ifs with hin
      · exact hin
      · exact mem_append_right _ (.head _)
    have hsub : ∀ l ∈ s.loras, l ∈ loras := by
      intro l hl
      rw [hloras]
      split_ifs
      · exact hl
      · exact mem_append_left _ hl
    constructor
    · intro l
      by_cases hl : l = lora
      · subst hl
        simpa [setBatcher] using (h.timed l).submitMany arrivals
      · simpa [setBatcher, update_of_ne hl] using h.timed l
    · intro l hl
      have hne : l ≠ lora := fun heq => hl (heq ▸ hmem)
      simpa [setBatcher, update_of_ne hne] using h.known l fun hin => hl (hsub l hin)
  | @took _ lora _ maxItems =>
    constructor
    · intro l
      by_cases hl : l = lora
      · subst hl
        simpa [setBatcher] using (h.timed l).extractBatch s.config
      · simpa [setBatcher, update_of_ne hl] using h.timed l
    · intro l hl
      by_cases heq : l = lora
      · subst heq
        have hperm := (s.batcher l).extractBatch_perm s.config maxItems
        rw [h.known l hl] at hperm
        simpa [setBatcher] using (append_eq_nil_iff.mp (List.Perm.eq_nil hperm)).2
      · simpa [setBatcher, update_of_ne heq] using h.known l hl
  | selected | waited | activated | ended | adapted => exact ⟨h.timed, h.known⟩

theorem tidy_run {config : BatchConfig} {idle : ℚ} {es : List (LoopEvent μ)}
    {os : List LoopOutput} (h : runs step (new config idle) es = some (s, os)) : Tidy s :=
  runs_invariant (fun _ _ _ _ htidy hstep => htidy.next (turn_of_step hstep))
    ⟨fun _ => BatchFormer.timed_new, fun _ _ => rfl⟩ h

/-! ## Selection -/

/-- The scan ends with the least time of all, and with the batcher it is of. -/
structure ScanSpec (batcher : LoraKey → BatchFormer μ) (loras : List LoraKey)
    (oldest result : LoraKey × Option ℚ) : Prop where
  start : ∀ time, oldest.2 = some time → ∃ u ≤ time, result.2 = some u
  least : ∀ lora ∈ loras, (batcher lora).pending ≠ [] → ∀ first,
    (batcher lora).firstRequestTime = some first → ∃ u ≤ first, result.2 = some u
  source : result = oldest ∨ (result.1 ∈ loras ∧ (batcher result.1).pending ≠ [] ∧
    (batcher result.1).firstRequestTime = result.2)

variable {batcher : LoraKey → BatchFormer μ} {loras : List LoraKey} {lora : LoraKey}
  {oldest result : LoraKey × Option ℚ} {os : List LoopOutput} {first clock : ℚ}
  {arrivals : List (BatchFormer.Arrival μ)} {b a : LoraKey}

theorem ScanSpec.skip (h : ScanSpec batcher loras oldest result)
    (hskip : (batcher lora).pending ≠ [] → ∀ first, (batcher lora).firstRequestTime = some first →
      ∃ time ≤ first, oldest.2 = some time) : ScanSpec batcher (lora :: loras) oldest result where
  start := h.start
  least := by
    intro l hl hpending first hfirst
    rcases mem_cons.mp hl with rfl | hl
    · obtain ⟨time, hle, htime⟩ := hskip hpending first hfirst
      obtain ⟨u, hu, hresult⟩ := h.start time htime
      exact ⟨u, le_trans hu hle, hresult⟩
    · exact h.least l hl hpending first hfirst
  source := h.source.imp_right fun hsource => ⟨mem_cons_of_mem _ hsource.1, hsource.2⟩

theorem ScanSpec.hit (h : ScanSpec batcher loras (lora, some first) result)
    (hpending : (batcher lora).pending ≠ []) (hfirst : (batcher lora).firstRequestTime = some first)
    (hlt : ∀ time, oldest.2 = some time → first < time) :
    ScanSpec batcher (lora :: loras) oldest result := by
  obtain ⟨u, hu, hresult⟩ := h.start first rfl
  refine ⟨fun time htime => ⟨u, le_trans hu (hlt time htime).le, hresult⟩, ?_, .inr ?_⟩
  · intro l hl hother first' hfirst'
    rcases mem_cons.mp hl with rfl | hl
    · cases hfirst.symm.trans hfirst'
      exact ⟨u, hu, hresult⟩
    · exact h.least l hl hother first' hfirst'
  · rcases h.source with heq | hsource
    · rw [heq]
      exact ⟨mem_cons_self .., hpending, hfirst⟩
    · exact ⟨mem_cons_of_mem _ hsource.1, hsource.2⟩

theorem scan_spec (batcher : LoraKey → BatchFormer μ) (loras : List LoraKey)
    (oldest : LoraKey × Option ℚ) : ScanSpec batcher loras oldest (scan batcher oldest loras) := by
  induction loras generalizing oldest with
  | nil => exact ⟨fun time h => ⟨time, le_rfl, h⟩, by simp, .inl rfl⟩
  | cons lora loras ih =>
    unfold scan
    split
    next r rest first hpending hfirst =>
      split_ifs with hlt
      · refine (ih (lora, some first)).hit (by simp [hpending]) hfirst ?_
        intro time htime
        simpa [htime] using hlt
      refine (ih oldest).skip fun _ first' hfirst' => ?_
      cases hfirst.symm.trans hfirst'
      cases htime : oldest.2 with
      | none => simp [htime] at hlt
      | some time => exact ⟨time, by simpa [htime] using hlt, rfl⟩
    next hother =>
      refine (ih oldest).skip fun hpending first hfirst => ?_
      obtain ⟨r, rest, hcons⟩ := exists_cons_of_ne_nil hpending
      exact absurd hfirst (hother r rest first hcons)

theorem Tidy.exists_firstRequestTime (h : Tidy s) (hpending : (s.batcher lora).pending ≠ []) :
    ∃ first, (s.batcher lora).firstRequestTime = some first :=
  Option.ne_none_iff_exists'.mp fun hnone => hpending ((h.timed lora).mp hnone)

/-- A batcher with something pending bounds what the scan ends with. -/
theorem Tidy.scan_le (h : Tidy s) (hfirst : (s.batcher lora).firstRequestTime = some first) :
    ∃ u ≤ first, (scan s.batcher (none, none) s.loras).2 = some u := by
  have hpending : (s.batcher lora).pending ≠ [] := by
    intro hnil
    have hnone := (h.timed lora).mpr hnil
    simp [hfirst] at hnone
  have hmem : lora ∈ s.loras := not_not.mp fun hnot => hpending (h.known lora hnot)
  exact (scan_spec s.batcher s.loras (none, none)).least lora hmem hpending first hfirst

theorem oldestLora_eq_some (h : s.oldestLora = some lora) :
    (scan s.batcher (none, none) s.loras).1 = lora ∧
      (lora = none → (s.batcher none).pending ≠ []) := by
  unfold oldestLora at h
  split at h
  next _ hscan =>
    cases h
    exact ⟨hscan, by simp⟩
  next hscan =>
    split_ifs at h with hempty
    cases h
    exact ⟨hscan, fun _ => by simpa using hempty⟩

/-- The selected batcher has the least first-request time. -/
theorem Tidy.oldestLora_spec (h : Tidy s) (hlora : s.oldestLora = some lora) :
    lora ∈ s.loras ∧ ∃ time, (s.batcher lora).firstRequestTime = some time ∧
      ∀ l first, (s.batcher l).firstRequestTime = some first → time ≤ first := by
  obtain ⟨hscan, hbase⟩ := oldestLora_eq_some hlora
  rcases (scan_spec s.batcher s.loras (none, none)).source with hnone | ⟨hmem, hpending, hfirst⟩
  · -- the scan has found nothing, although the base model's batcher has something pending
    rw [hnone] at hscan
    obtain ⟨first, hfirst⟩ := h.exists_firstRequestTime (hbase hscan.symm)
    obtain ⟨u, -, hu⟩ := h.scan_le hfirst
    simp [hnone] at hu
  rw [hscan] at hmem hpending hfirst
  obtain ⟨time, htime⟩ := h.exists_firstRequestTime hpending
  refine ⟨hmem, time, htime, fun l first hl => ?_⟩
  obtain ⟨u, hle, hu⟩ := h.scan_le hl
  cases htime.symm.trans (hfirst.trans hu)
  exact hle

/-- The loop does not wait while something is pending. -/
theorem Tidy.exists_oldestLora (h : Tidy s) (hpending : (s.batcher lora).pending ≠ []) :
    ∃ l, s.oldestLora = some l := by
  obtain ⟨_, hfirst⟩ := h.exists_firstRequestTime hpending
  obtain ⟨u, -, hu⟩ := h.scan_le hfirst
  have hsource := (scan_spec s.batcher s.loras (none, none)).source
  unfold oldestLora
  split
  next name hscan => exact ⟨some name, rfl⟩
  next hscan =>
    rcases hsource with hnone | ⟨-, hbase, -⟩
    · simp [hnone] at hu
    · rw [hscan] at hbase
      exact ⟨none, if_neg (by simpa using hbase)⟩

/-! ## The turns of the others -/

/-- When the event ends the turn of a batcher other than that of `a`, the batcher no longer has
the first-request time it was selected by: its queue was empty once during the turn. -/
def EmptiesInTurn (a : LoraKey) (s : ProcessLoop μ) (e : LoopEvent μ) : Prop :=
  match s.phase.turn with
  | some (lora, time) => s.EndsTurn e → lora ≠ a → (s.batcher lora).firstRequestTime ≠ time
  | none => True

instance (a : LoraKey) (s : ProcessLoop μ) : DecidablePred (EmptiesInTurn a s) := fun e => by
  unfold EmptiesInTurn
  split <;> infer_instance

/-- A batcher that had its turn comes after the time `first`, or is still in that turn. -/
def Served (first : ℚ) (s : ProcessLoop μ) (b : LoraKey) : Prop :=
  (∀ time, (s.batcher b).firstRequestTime = some time → first < time) ∨
    ∃ time, s.phase.turn = some (b, time) ∧ (s.batcher b).firstRequestTime = time

/-- What holds while the batcher of `a` waits since `first`: every other one had one turn at
most, and the ones that had it come later. -/
structure Waits (a : LoraKey) (first : ℚ) (os : List LoopOutput) (s : ProcessLoop μ) : Prop where
  tidy : Tidy s
  since : (s.batcher a).pending ≠ [] → (s.batcher a).firstRequestTime = some first
  clock : first ≤ s.clock
  known : a ∈ s.loras
  once : ∀ b, b ≠ a → os.count (.selected b) ≤ 1
  served : ∀ b, b ≠ a → os.count (.selected b) = 1 → b ∈ s.loras ∧ Served first s b

theorem lt_of_increasing (h : increasing clock arrivals = true) :
    clock ≤ lastReading clock arrivals := by
  induction arrivals generalizing clock with
  | nil => exact le_rfl
  | cons x arrivals ih =>
    simp [increasing] at h
    exact le_trans (h.1.1.trans h.1.2).le (ih h.2)

/-- Items leave a first-request time, or set one after the clock where there was none. -/
theorem submitMany_firstRequestTime (h : increasing clock arrivals = true) (b : BatchFormer μ) :
    (b.submitMany arrivals).firstRequestTime = b.firstRequestTime ∨ (b.firstRequestTime = none ∧
        ∃ time, (b.submitMany arrivals).firstRequestTime = some time ∧ clock < time) := by
  cases hfirst : b.firstRequestTime with
  | some => exact .inl (BatchFormer.submitMany_of_some hfirst arrivals)
  | none =>
    cases arrivals with
    | nil => exact .inl hfirst
    | cons x arrivals =>
      simp [increasing] at h
      exact .inr ⟨rfl, x.now, BatchFormer.submitMany_of_none hfirst x arrivals, h.1.1.trans h.1.2⟩

section

variable (h : Turn s e t o)
include h

theorem Turn.clock_le : s.clock ≤ t.clock := by
  cases h with
  | submitted hincreasing => exact lt_of_increasing hincreasing
  | took _ hnow => exact hnow
  | selected | waited | activated | ended | adapted => exact le_rfl

theorem Turn.known (hlora : lora ∈ s.loras) : lora ∈ t.loras := by
  cases h with
  | submitted _ hloras =>
    simp only [hloras]
    split_ifs
    · exact hlora
    · exact mem_append_left _ hlora
  | took | selected | waited | activated | ended | adapted => exact hlora

/-- A step leaves a first-request time, resets it, or sets it to a later reading. -/
theorem Turn.firstRequestTime (b : LoraKey) :
    (t.batcher b).firstRequestTime = (s.batcher b).firstRequestTime ∨
      (t.batcher b).firstRequestTime = none ∨ ((s.batcher b).firstRequestTime = none ∧
        ∃ time, (t.batcher b).firstRequestTime = some time ∧ s.clock < time) := by
  cases h with
  | @submitted lora _ _ hincreasing =>
    by_cases hb : b = lora
    · subst hb
      simpa [setBatcher] using
        (submitMany_firstRequestTime hincreasing (s.batcher b)).imp_right .inr
    · exact .inl (by simp [setBatcher, update_of_ne hb])
  | @took _ lora _ maxItems =>
    by_cases hb : b = lora
    · subst hb
      simpa [setBatcher, or_assoc] using
        ((s.batcher b).extractBatch_firstRequestTime s.config maxItems).imp_right .inl
    · exact .inl (by simp [setBatcher, update_of_ne hb])
  | selected | waited | activated | ended | adapted => exact .inl rfl

/-- A turn goes on, ends or begins. -/
theorem Turn.turn_eq : t.phase.turn = s.phase.turn ∨ s.EndsTurn e ∨ s.phase.turn = none := by
  cases h with
  | submitted | adapted => exact .inl rfl
  | selected hphase | waited hphase => exact .inr (.inr (by rw [hphase]; rfl))
  | took hturn _ hphase | activated hturn hphase => exact .inl (hphase.trans hturn.symm)
  | ended _ hends => exact .inr (.inl hends)

/-- A selection is the only output of its step, and begins a turn. -/
theorem Turn.of_selected (hb : .selected b ∈ o) :
    o = [.selected b] ∧ s.phase.turn = none ∧ s.oldestLora = some b ∧
      t.phase.turn = some (b, (s.batcher b).firstRequestTime) ∧ t.batcher = s.batcher := by
  cases h with
  | @selected lora _ hphase holdest =>
    obtain rfl : b = lora := by simpa using hb
    exact ⟨rfl, by rw [hphase]; rfl, holdest, rfl, rfl⟩
  | submitted | waited | took | activated | ended | adapted => simp at hb

end

/-- A batcher that had its turn stays behind. -/
theorem Served.next (h : Served first s b) (hclock : first ≤ s.clock) (hb : b ≠ a)
    (hempties : EmptiesInTurn a s e) (hstep : s.step e = some (t, o)) : Served first t b := by
  have hturn := turn_of_step hstep
  rcases hturn.firstRequestTime b with hsame | hnone | ⟨-, time, hsome, hlt⟩
  · rcases h with _ | ⟨time, hphase, hfirst⟩
    · exact .inl (by rwa [hsame])
    rcases hturn.turn_eq with heq | hend | hbegin
    · exact .inr ⟨time, heq.trans hphase, hsame.trans hfirst⟩
    · rw [EmptiesInTurn, hphase] at hempties
      exact absurd hfirst (hempties hend hb)
    · rw [hbegin] at hphase
      cases hphase
  · exact .inl (by simp [hnone])
  · refine .inl fun time' htime' => ?_
    cases hsome.symm.trans htime'
    exact lt_of_le_of_lt hclock hlt

theorem Waits.next (h : Waits a first os s) (hpending : (s.batcher a).pending ≠ [])
    (hempties : EmptiesInTurn a s e) (hstep : s.step e = some (t, o)) :
    Waits a first (os ++ o) t := by
  have hturn := turn_of_step hstep
  have hsince := h.since hpending
  have htidy := h.tidy.next hturn
  -- the one that is selected has not had its turn
  have hfresh : ∀ b, b ≠ a → .selected b ∈ o → os.count (.selected b) = 0 := by
    intro b hb hmem
    obtain ⟨-, hidle, holdest, -, -⟩ := hturn.of_selected hmem
    obtain ⟨-, time, htime, hleast⟩ := h.tidy.oldestLora_spec holdest
    by_contra hcount
    have hone : os.count (.selected b) = 1 := by
      have := h.once b hb
      omega
    rcases (h.served b hb hone).2 with hlater | ⟨_, hphase, -⟩
    · exact absurd (hlater time htime) (not_lt.mpr (hleast a first hsince))
    · rw [hidle] at hphase
      cases hphase
  refine ⟨htidy, ?_, le_trans h.clock hturn.clock_le, hturn.known h.known, ?_, ?_⟩
  · intro hstill
    rcases hturn.firstRequestTime a with hsame | hnone | ⟨hnone, -⟩
    · exact hsame.trans hsince
    · exact absurd ((htidy.timed a).mp hnone) hstill
    · simp [hsince] at hnone
  · intro b hb
    by_cases hmem : .selected b ∈ o
    · obtain ⟨rfl, -⟩ := hturn.of_selected hmem
      simp [hfresh b hb hmem]
    · simpa [count_eq_zero.mpr hmem] using h.once b hb
  · intro b hb hone
    by_cases hmem : .selected b ∈ o
    · obtain ⟨-, -, holdest, hphase, hbatcher⟩ := hturn.of_selected hmem
      exact ⟨hturn.known (h.tidy.oldestLora_spec holdest).1, .inr ⟨_, hphase, by rw [hbatcher]⟩⟩
    have hbefore : os.count (.selected b) = 1 := by
      simpa [count_eq_zero.mpr hmem] using hone
    obtain ⟨hknown, hserved⟩ := h.served b hb hbefore
    exact ⟨hturn.known hknown, hserved.next h.clock hb hempties hstep⟩

/-- A request has come to the empty batcher of `a`. -/
theorem waits_of_submit {x : BatchFormer.Arrival μ} {xs : List (BatchFormer.Arrival μ)} (h : Tidy s)
    (hempty : (s.batcher a).pending = []) (hstep : s.step (.submit a (x :: xs)) = some (t, o)) :
    Waits a x.now [] t := by
  have htidy := h.next (turn_of_step hstep)
  have hfirst := BatchFormer.submitMany_of_none ((h.timed a).mpr hempty) x xs
  simp only [step, submitStep] at hstep
  rw [Option.ite_none_right_eq_some] at hstep
  obtain ⟨hincreasing, heq⟩ := hstep
  simp only [increasing, Bool.and_eq_true] at hincreasing
  cases heq
  refine ⟨htidy, fun _ => by simpa [setBatcher] using hfirst,
    lt_of_increasing hincreasing.2, ?_, by simp, by simp⟩
  split_ifs with hin
  · exact hin
  · exact mem_append_right _ (.head _)

/-- **No batcher starves**, as long as every turn of another batcher empties that batcher's queue
once.  From the moment a request comes to the empty batcher of `a`, and until that batcher's queue
is empty again, every other batcher is selected once at most, which is at most the number of the
others; and the loop does not wait. -/
theorem waits_for_one_turn_each {config : BatchConfig} {idle : ℚ} {es es' : List (LoopEvent μ)}
    {os o os' : List LoopOutput} {s s₁ s₂ : ProcessLoop μ} {a : LoraKey} {x : BatchFormer.Arrival μ}
    {xs : List (BatchFormer.Arrival μ)} (hrun : runs step (new config idle) es = some (s, os))
    (hempty : (s.batcher a).pending = []) (harrives : s.step (.submit a (x :: xs)) = some (s₁, o))
    (hrest : runs step s₁ es' = some (s₂, os'))
    (hwaits : Along step (fun u _ => (u.batcher a).pending ≠ []) s₁ es')
    (hempties : Along step (EmptiesInTurn a) s₁ es') :
    (∀ b, b ≠ a → os'.count (.selected b) ≤ 1 ∧ os'.count (.selected b) ≤ s₂.loras.length - 1) ∧
    ((s₂.batcher a).pending ≠ [] → ∃ b, s₂.oldestLora = some b) := by
  have hstart := waits_of_submit (tidy_run hrun) hempty harrives
  have hend : Waits a x.now os' s₂ := runs_induction_along (Waits a x.now) hstart
      (fun _ _ _ _ _ h hcond hstep => h.next hcond.1 hcond.2 hstep)
      es' os' s₂ (hwaits.and hempties) hrest
  refine ⟨fun b hb => ⟨hend.once b hb, ?_⟩, hend.tidy.exists_oldestLora⟩
  by_cases hone : os'.count (.selected b) = 1
  · -- the batcher that waits and the one that had its turn are two
    have hpair : [a, b].Nodup := by simp [hb.symm]
    have hsub : [a, b] ⊆ s₂.loras := by simp [hend.known, (hend.served b hb hone).1]
    have htwo := (subperm_of_subset hpair hsub).length_le
    simp only [length_cons, length_nil] at htwo
    omega
  · have := hend.once b hb
    omega

namespace Refilled

/-- Batches of one request each. -/
def config : BatchConfig where
  maxBatchCost := 100
  maxBatchRequests := 1
  maxBatchWaitMs := 10
  coalesceMs := 5
  coalesceRatio := 1 / 2

/-- A request that comes in just after `time`. -/
def arrival (time : ℚ) : BatchFormer.Arrival Unit := ⟨1, (), false, time + 1 / 4, time + 1 / 2⟩

/-- Two requests come to the base model. -/
def busy : List (LoopEvent Unit) := [.submit none [arrival 0, arrival 1]]

def french : LoraKey := some "fr"

theorem busy_goes : (runs step (new config 0) busy).isSome = true := by decide +kernel

def beforeArrival : ProcessLoop Unit := (reached step (new config 0) busy busy_goes).1

theorem arrival_goes : (beforeArrival.step (.submit french [arrival 2])).isSome = true := by
  decide +kernel

def afterArrival : ProcessLoop Unit := ((beforeArrival.step (.submit french [arrival 2])).get
  arrival_goes).1

/-- The base model's turn ends with its queue empty, and the LoRA has the next one. -/
def emptied : List (LoopEvent Unit) :=
  [.select, .form 3, .activate true, .forwarded, .forwarded, .submit none [arrival 4], .select]

theorem emptied_goes : (runs step afterArrival emptied).isSome = true := by decide +kernel

theorem waits_for_one_turn_each_emptied :
    (∀ b, b ≠ french → (reached step afterArrival emptied emptied_goes).2.count (.selected b) ≤ 1 ∧
      (reached step afterArrival emptied emptied_goes).2.count (.selected b) ≤
        (reached step afterArrival emptied emptied_goes).1.loras.length - 1) ∧
    (((reached step afterArrival emptied emptied_goes).1.batcher french).pending ≠ [] →
      ∃ b, (reached step afterArrival emptied emptied_goes).1.oldestLora = some b) :=
  waits_for_one_turn_each (runs_eq_reached busy_goes) (by decide +kernel)
    (Option.some_get arrival_goes).symm (runs_eq_reached emptied_goes)
    (by decide +kernel) (by decide +kernel)

/-- A turn of the base model with a request for it during each of its forwards. -/
def refilled (time : ℚ) : List (LoopEvent Unit) :=
  [.select, .form (time + 1), .activate true, .submit none [arrival (time + 2)], .forwarded,
    .submit none [arrival (time + 3)], .forwarded, .submit none [arrival (time + 4)], .forwarded]

/-- The base model has two turns while the one other batcher waits, and is still the one to be
selected: its queue is refilled during every forward. -/
theorem waits_for_two_turns :
    ∃ s os s₁ o s₂ os', runs step (new config 0) busy = some (s, os) ∧
      (s.batcher french).pending = [] ∧ s.step (.submit french [arrival 2]) = some (s₁, o) ∧
      runs step s₁ (refilled 2 ++ refilled 7) = some (s₂, os') ∧
      Along step (fun u _ => (u.batcher french).pending ≠ []) s₁ (refilled 2 ++ refilled 7) ∧
      s₂.loras.length = 2 ∧ os'.count (.selected french) = 0 ∧
      os'.count (.selected none) = 2 ∧ s₂.oldestLora = some none :=
  ⟨_, _, _, _, _, _, runs_eq_reached busy_goes, by decide +kernel,
    (Option.some_get arrival_goes).symm, runs_eq_reached (by decide +kernel), by decide +kernel,
    by decide +kernel, by decide +kernel, by decide +kernel, by decide +kernel⟩

end Refilled

end ProcessLoop

end Sie.Server
