import Mathlib.Data.Int.Notation
import Mathlib.Data.List.Count
import Mathlib.Data.List.Perm.Basic
import Sie.Lib.Run

/-!
# Execution and mutation leases

An execution pins the configuration with a lease that it shares with other
executions; a mutation waits until it is alone.  Both count under the lock of one
`asyncio.Condition`, which a lease takes a second time to be released.

A task runs until it is suspended, so an event here is what one task does between
two suspensions.  The body of an `async with` on the condition is never suspended
while it has the lock (`wait` gives the lock back first), and so no task ever
waits for it: a release cannot be interrupted.  `ExecutionLeases.withCondition`
has the branch in which the lock is taken, and there a cancelled release would
leave its count behind; `Sound.unlocked` and `Sound.quiet` say that no run gets
there.
-/

namespace Sie.Server

open Sie.Lib List

inductive LeaseKind
  | execution
  | mutation
  deriving DecidableEq

/-- What a task does under the condition's lock. -/
inductive LeaseSection
  | enter (k : LeaseKind)
  /-- It was notified, and evaluates its predicate again. -/
  | recheck (k : LeaseKind)
  /-- Its wait was cancelled, or timed out. -/
  | abandon (k : LeaseKind)
  | release (k : LeaseKind)
  deriving DecidableEq

/-- Where a task is suspended. -/
inductive LeasePhase
  | acquiring (c : LeaseSection)
  | waiting (k : LeaseKind) (notified : Bool)
  | holding (k : LeaseKind)
  deriving DecidableEq

namespace LeasePhase

def notify : LeasePhase → LeasePhase
  | .waiting k _ => .waiting k true
  | p => p

def isAcquiring : LeasePhase → Bool
  | .acquiring _ => true
  | _ => false

@[simp]
def isWaiting (k : LeaseKind) : LeasePhase → Bool
  | .waiting k' _ => k' = k
  | _ => false

@[simp]
def isHolding (k : LeaseKind) : LeasePhase → Bool
  | .holding k' => k' = k
  | _ => false

variable {k k' : LeaseKind} {b : Bool} {p : LeasePhase} {c : LeaseSection}

/-! A notification changes no count. -/

@[simp] theorem isWaiting_comp_notify : isWaiting k ∘ notify = isWaiting k :=
  funext fun p => by cases p <;> rfl

@[simp] theorem isHolding_comp_notify : isHolding k ∘ notify = isHolding k :=
  funext fun p => by cases p <;> rfl

@[simp] theorem notify_eq_acquiring : p.notify = acquiring c ↔ p = acquiring c := by
  cases p <;> simp [notify]

end LeasePhase

structure ExecutionLeases where
  locked : Bool := false
  executionReaders : ℤ := 0
  executionWriter : Bool := false
  executionWritersWaiting : ℤ := 0
  tasks : List LeasePhase := []
  deriving DecidableEq

inductive LeaseEvent
  | enter (k : LeaseKind)
  /-- A notified task goes on. -/
  | wake (i : ℕ)
  | timeout (i : ℕ)
  | cancel (i : ℕ)
  /-- What the lease was taken for ends. -/
  | finish (i : ℕ)
  /-- A task that waited for the lock gets it. -/
  | grant (i : ℕ)
  | checkSyncConfigMutation

/-- A synchronous mutation runs, or raises. -/
inductive LeaseOutput
  | applied
  | configurationInUse
  deriving DecidableEq

namespace ExecutionLeases

section

variable (s : ExecutionLeases)

def notifyAll : ExecutionLeases :=
  { s with tasks := s.tasks.map LeasePhase.notify }

/-- `wait_for`, and what follows it where the predicate holds. -/
def waitFor : LeaseKind → ExecutionLeases × Option LeasePhase
  | .execution =>
    if s.executionWriter = false ∧ s.executionWritersWaiting = 0 then
      ({ s with executionReaders := s.executionReaders + 1 }, some (.holding .execution))
    else (s, some (.waiting .execution false))
  | .mutation =>
    if s.executionWriter = false ∧ s.executionReaders = 0 then
      ({ s with
        executionWriter := true
        executionWritersWaiting := s.executionWritersWaiting - 1 }.notifyAll,
        some (.holding .mutation))
    else (s, some (.waiting .mutation false))

/-- The body of an `async with` on the condition, and where the task is after it. -/
def run : LeaseSection → ExecutionLeases × Option LeasePhase
  | .enter .mutation =>
    { s with executionWritersWaiting := s.executionWritersWaiting + 1 }.waitFor .mutation
  | .enter k | .recheck k => s.waitFor k
  | .abandon .execution => (s, none)
  | .abandon .mutation =>
    ({ s with executionWritersWaiting := s.executionWritersWaiting - 1 }.notifyAll, none)
  | .release .execution =>
    ({ s with executionReaders := s.executionReaders - 1 }.notifyAll, none)
  | .release .mutation => ({ s with executionWriter := false }.notifyAll, none)

/-- The body under the lock; when it is over the lock is given back. -/
def runLocked (c : LeaseSection) : ExecutionLeases :=
  let (t, p) := { s with locked := true }.run c
  { t with locked := false, tasks := p.toList ++ t.tasks }

/-- `async with` on the condition. -/
def withCondition (c : LeaseSection) : ExecutionLeases :=
  if s.locked ∨ s.tasks.any LeasePhase.isAcquiring then
    { s with tasks := .acquiring c :: s.tasks }
  else s.runLocked c

def step : LeaseEvent → Option (ExecutionLeases × List LeaseOutput)
  | .enter k => some (s.withCondition (.enter k), [])
  | .wake i =>
    match s.tasks[i]? with
    | some (.waiting k true) =>
      some ({ s with tasks := s.tasks.eraseIdx i }.withCondition (.recheck k), [])
    | _ => none
  | .timeout i =>
    match s.tasks[i]? with
    | some (.waiting .mutation _) =>
      some ({ s with tasks := s.tasks.eraseIdx i }.withCondition (.abandon .mutation), [])
    | _ => none
  | .cancel i =>
    let rest := { s with tasks := s.tasks.eraseIdx i }
    match s.tasks[i]? with
    | some (.waiting k _) => some (rest.withCondition (.abandon k), [])
    | some (.holding k) => some (rest.withCondition (.release k), [])
    -- `wait` takes the lock again whatever happens
    | some (.acquiring (.recheck k)) | some (.acquiring (.abandon k)) =>
      some ({ s with tasks := s.tasks.set i (.acquiring (.abandon k)) }, [])
    -- the body is not run: a release leaves its count behind
    | some (.acquiring _) => some (rest, [])
    | none => none
  | .finish i =>
    match s.tasks[i]? with
    | some (.holding k) =>
      some ({ s with tasks := s.tasks.eraseIdx i }.withCondition (.release k), [])
    | _ => none
  | .grant i =>
    match s.tasks[i]? with
    | some (.acquiring c) =>
      if s.locked then none
      else some ({ s with tasks := s.tasks.eraseIdx i }.runLocked c, [])
    | _ => none
  | .checkSyncConfigMutation =>
    if s.executionReaders ≠ 0 ∨ s.executionWriter = true ∨ s.executionWritersWaiting ≠ 0 then
      some (s, [.configurationInUse])
    else some (s, [.applied])

/-- The leases of a kind that are live. -/
def live (k : LeaseKind) : ℕ := s.tasks.countP (LeasePhase.isHolding k)

/-- The mutations that wait. -/
def waitingMutations : ℕ := s.tasks.countP (LeasePhase.isWaiting .mutation)

end

structure Sound (s : ExecutionLeases) : Prop where
  unlocked : s.locked = false
  quiet : ∀ c, .acquiring c ∉ s.tasks
  readers : s.executionReaders = s.live .execution
  writer : (if s.executionWriter then 1 else 0) = s.live .mutation
  waiting : s.executionWritersWaiting = s.waitingMutations
  alone : s.executionWriter = true → s.executionReaders = 0

variable {s t : ExecutionLeases} {e : LeaseEvent} {o : List LeaseOutput} {i : ℕ}
  {c : LeaseSection} {p : LeasePhase}

/-- Where the task was suspended, and still counts. -/
def suspendedAt : LeaseSection → Option LeasePhase
  | .enter _ => none
  | .recheck k | .abandon k => some (.waiting k true)
  | .release k => some (.holding k)

/-- **One section of a task** takes its count from where it was to where it goes. -/
theorem sound_runLocked (h : Sound { s with tasks := (suspendedAt c).toList ++ s.tasks }) :
    (s.runLocked c).Sound := by
  obtain ⟨-, hquiet, hreaders, hwriter, hwaits, halone⟩ := h
  rcases c with k | k | k | k <;> cases k
  all_goals simp [suspendedAt, live, waitingMutations] at hquiet hreaders hwriter hwaits halone
  all_goals simp only [runLocked, run, waitFor]
  -- a section that evaluates its predicate can go two ways
  all_goals try split_ifs
  all_goals constructor <;> simp [live, waitingMutations, notifyAll, -countP_eq_zero]
  all_goals first | assumption | omega | grind

/-- No task has the lock, so the section begins at once. -/
theorem sound_withCondition (h : Sound { s with tasks := (suspendedAt c).toList ++ s.tasks }) :
    (s.withCondition c).Sound := by
  rw [withCondition, if_neg]
  · exact sound_runLocked h
  · have hquiet : ∀ p ∈ s.tasks, p.isAcquiring = false := by
      intro p hp
      cases p with
      | acquiring c' => exact absurd (mem_append_right _ hp) (h.quiet c')
      | waiting | holding => rfl
    simpa [show s.locked = false from h.unlocked] using hquiet

/-- The task at `i` goes on from where it is suspended. -/
theorem Sound.resumed (h : s.Sound) (hi : s.tasks[i]? = some p) :
    Sound { s with tasks := p.notify :: s.tasks.eraseIdx i } := by
  obtain ⟨hlt, rfl⟩ := List.getElem?_eq_some_iff.mp hi
  have hperm := (getElem_cons_eraseIdx_perm hlt).map LeasePhase.notify
  have hcount : ∀ f : LeasePhase → Bool, f ∘ LeasePhase.notify = f →
      (s.tasks[i].notify :: s.tasks.eraseIdx i).countP f = s.tasks.countP f := by
    intro f hf
    have := hperm.countP_eq f
    rw [countP_map, countP_map, hf] at this
    rw [← this, countP_cons, countP_cons, ← congrFun hf s.tasks[i]]
    rfl
  refine ⟨h.unlocked, fun c hc => ?_, ?_, ?_, ?_, h.alone⟩
  · obtain hc | hc := mem_cons.mp hc
    · exact h.quiet c (LeasePhase.notify_eq_acquiring.mp hc.symm ▸ getElem_mem hlt)
    · exact h.quiet c (mem_of_mem_eraseIdx hc)
  · rw [live, hcount _ LeasePhase.isHolding_comp_notify]
    exact h.readers
  · rw [live, hcount _ LeasePhase.isHolding_comp_notify]
    exact h.writer
  · rw [waitingMutations, hcount _ LeasePhase.isWaiting_comp_notify]
    exact h.waiting

theorem Sound.goesOn (h : s.Sound) (hi : s.tasks[i]? = some p)
    (hc : suspendedAt c = some p.notify) :
    ({ s with tasks := s.tasks.eraseIdx i }.withCondition c).Sound :=
  sound_withCondition (by rw [hc]; exact h.resumed hi)

theorem step_sound (h : s.Sound) (hstep : s.step e = some (t, o)) : t.Sound := by
  cases e with
  | enter k =>
    cases hstep
    exact sound_withCondition (c := .enter k) h
  | wake | timeout | finish =>
    simp only [step] at hstep
    split at hstep <;> cases hstep
    exact h.goesOn ‹_› rfl
  | cancel =>
    simp only [step] at hstep
    split at hstep <;> cases hstep
    · exact h.goesOn ‹_› rfl
    · exact h.goesOn ‹_› rfl
    all_goals exact absurd (mem_of_getElem? ‹_›) (h.quiet _)
  | grant =>
    simp only [step] at hstep
    split at hstep
    · exact absurd (mem_of_getElem? ‹_›) (h.quiet _)
    · cases hstep
  | checkSyncConfigMutation =>
    simp only [step] at hstep
    split at hstep <;> cases hstep <;> exact h

/-- **Leases are counted.**  Whatever the tasks do and wherever they are
cancelled, the counts are those of the tasks, a mutation is alone, and without a
task nothing is left that would keep a new one waiting. -/
theorem leases_counted {events : List LeaseEvent} {out : List LeaseOutput}
    (h : runs step {} events = some (s, out)) :
    s.executionReaders = s.live .execution ∧ s.live .mutation ≤ 1 ∧
      (s.executionWriter = true ↔ s.live .mutation = 1) ∧
      (s.live .mutation = 0 ∨ s.live .execution = 0) ∧
      s.executionWritersWaiting = s.waitingMutations ∧
      (∀ t, s.step .checkSyncConfigMutation = some (t, [.applied]) →
        s.live .execution = 0 ∧ s.live .mutation = 0) ∧ (s.tasks = [] → s = {} ∧
        ∀ k, ∃ t, s.step (.enter k) = some (t, []) ∧ t.tasks = [.holding k]) := by
  have hs : s.Sound := runs_invariant (fun s e t o => step_sound (s := s)) ⟨rfl, by simp, rfl,
    rfl, rfl, by simp⟩ h
  obtain ⟨_, -, hreaders, _, hwaiting, _⟩ := hs
  refine ⟨hreaders, by grind, by grind, by grind, hwaiting, fun t ht => ?_, fun htasks => ?_⟩
  · simp only [step] at ht
    split at ht
    · cases ht
    · grind
  · obtain rfl : s = {} := by
      cases s
      simp_all [live, waitingMutations]
    exact ⟨rfl, fun k => by cases k <;> exact ⟨_, rfl, rfl⟩⟩

/-- A mutation waits for an execution and is cancelled; a second execution, which
waited for it, goes on. -/
theorem leases_counted_overtaken : let s : ExecutionLeases :=
      { executionReaders := 2, tasks := [.holding .execution, .holding .execution] }
    runs step {} [.enter .execution, .enter .mutation, .enter .execution, .cancel 1, .wake 0] =
      some (s, []) ∧ s.executionReaders = s.live .execution :=
  ⟨rfl, (leases_counted (show runs step {} [.enter .execution, .enter .mutation,
    .enter .execution, .cancel 1, .wake 0] = _ from rfl)).1⟩

/-! ### No wake-up is lost -/

/-- The predicate of a wait. -/
def Admits (s : ExecutionLeases) : LeaseKind → Prop
  | .execution => s.executionWriter = false ∧ s.executionWritersWaiting = 0
  | .mutation => s.executionWriter = false ∧ s.executionReaders = 0

/-- A task that was not notified waits for something. -/
def Notified (s : ExecutionLeases) : Prop := ∀ k, .waiting k false ∈ s.tasks → ¬ s.Admits k

/-- **One section of a task** notifies whoever it lets go on. -/
theorem notified_withCondition (h : s.Notified) (hpos : 0 ≤ s.executionReaders ∧
    0 ≤ s.executionWritersWaiting) (c : LeaseSection) : (s.withCondition c).Notified := by
  have hall : ∀ k, .waiting k false ∉ s.tasks.map LeasePhase.notify := by
    intro k hk
    obtain ⟨p, -, hp⟩ := mem_map.mp hk
    cases p <;> cases hp
  intro k hk
  have hk' := h k
  rw [withCondition] at hk ⊢
  split_ifs at hk ⊢
  · exact hk' (by simpa using hk)
  · rcases c with k' | k' | k' | k' <;> cases k' <;> cases k
    all_goals simp only [runLocked, run, waitFor, Admits] at hk hk' ⊢
    all_goals try split_ifs at hk ⊢
    all_goals simp [notifyAll, hall] at hk ⊢
    all_goals grind

theorem step_notified (hs : s.Sound) (h : s.Notified) (hstep : s.step e = some (t, o)) :
    t.Notified := by
  have hpos : 0 ≤ s.executionReaders ∧ 0 ≤ s.executionWritersWaiting := by
    rw [hs.readers, hs.waiting]
    omega
  have hgoesOn : ∀ i c, ({ s with tasks := s.tasks.eraseIdx i }.withCondition c).Notified :=
    fun i => notified_withCondition (fun k hk => h k (mem_of_mem_eraseIdx hk)) hpos
  cases e with
  | enter =>
    cases hstep
    exact notified_withCondition h hpos _
  | wake | timeout | finish | cancel | grant =>
    simp only [step] at hstep
    split at hstep
    all_goals first
      | exact absurd (mem_of_getElem? ‹_›) (hs.quiet _)
      | cases hstep <;> exact hgoesOn _ _
  | checkSyncConfigMutation =>
    simp only [step] at hstep
    split at hstep <;> cases hstep <;> exact h

/-- **No wake-up is lost.**  In every run, a task that waits while no mutation runs and nothing
else it waits for is there (a waiting mutation, for an execution; an execution, for a mutation)
has been notified, and gets its lease when it goes on. -/
theorem no_wakeup_lost {events : List LeaseEvent} {out : List LeaseOutput}
    (h : runs step {} events = some (s, out)) {k : LeaseKind} {notified : Bool}
    (hi : s.tasks[i]? = some (.waiting k notified)) (hwriter : s.live .mutation = 0)
    (hexecution : k = .execution → s.waitingMutations = 0)
    (hmutation : k = .mutation → s.live .execution = 0) :
    notified = true ∧ ∃ t, s.step (.wake i) = some (t, []) ∧ t.live k = s.live k + 1 := by
  obtain ⟨hs, hnotified⟩ := runs_invariant (P := fun s => s.Sound ∧ s.Notified)
    (fun s e t o h hstep => ⟨step_sound h.1 hstep, step_notified h.1 h.2 hstep⟩)
    ⟨⟨rfl, by simp, rfl, rfl, rfl, by simp⟩, by simp [Notified]⟩ h
  have hwrites := hs.writer
  have hadmits : s.Admits k := by
    cases k with
    | execution => exact ⟨by grind, by rw [hs.waiting, hexecution rfl]; rfl⟩
    | mutation => exact ⟨by grind, by rw [hs.readers, hmutation rfl]; rfl⟩
  obtain rfl : notified = true := by
    by_contra hne
    rw [Bool.not_eq_true] at hne
    exact hnotified k (hne ▸ mem_of_getElem? hi) hadmits
  have hstep : s.step (.wake i) = some
      ({ s with tasks := s.tasks.eraseIdx i }.withCondition (.recheck k), []) := by
    simp [step, hi]
  -- the task held no lease before
  have hlive : (s.tasks.eraseIdx i).countP (LeasePhase.isHolding k) = s.live k := by
    obtain ⟨hlt, hget⟩ := List.getElem?_eq_some_iff.mp hi
    have hperm := (getElem_cons_eraseIdx_perm hlt).countP_eq (LeasePhase.isHolding k)
    rwa [hget, countP_cons_of_neg (by simp)] at hperm
  refine ⟨rfl, _, hstep, ?_⟩
  have hquiet := (step_sound hs hstep).quiet (.recheck k)
  rw [withCondition] at hquiet ⊢
  split_ifs at hquiet ⊢
  · exact absurd mem_cons_self hquiet
  · rw [← hlive]
    cases k <;> simp [runLocked, run, waitFor, hadmits.1, hadmits.2, notifyAll, live]

/-- The mutation that an execution waits behind is cancelled: there are two executions then. -/
theorem no_wakeup_lost_overtaken : let s : ExecutionLeases :=
      { executionReaders := 1, tasks := [.waiting .execution true, .holding .execution] }
    ∃ t, s.step (.wake 0) = some (t, []) ∧ t.live .execution = 2 :=
  (no_wakeup_lost (show runs step {} [.enter .execution, .enter .mutation, .enter .execution,
    .cancel 1] = some (_, []) from rfl) (i := 0) rfl rfl (fun _ => rfl) nofun).2

end ExecutionLeases

end Sie.Server
