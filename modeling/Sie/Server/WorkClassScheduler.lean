import Mathlib.Algebra.Order.BigOperators.Group.Finset
import Mathlib.Algebra.Order.Field.Rat
import Mathlib.Data.Prod.Lex
import Sie.Lib.Run

/-!
# Sharing the slots of a worker between work classes

`WorkClassScheduler` (`processors/work_class_scheduler.py`): every class of work has a floor
of slots of its own, and the classes compete for the rest by weight.  An acquire that finds
no slot waits on a future in the queue of its class; `_pump` grants slots to the queues.

The scheduler runs on an event loop, and the tasks that call it are part of the model
(`Pool`).  A task whose future was resolved goes on only when the loop comes to it, and a task
that waits can be cancelled before that: while its future is pending, which cancels the
future and leaves it in the queue, or after it was resolved.
-/

namespace Sie.Server

open Sie.Lib

/-- A validated `pool.fairness` configuration over the class names `κ`. -/
structure FairnessConfig (κ : Type) [Fintype κ] where
  totalSlots : ℕ
  weight : κ → ℚ
  minSlots : κ → ℕ
  /-- The classes in the order of the mapping. -/
  order : List κ
  mem_order : ∀ c, c ∈ order
  one_le_totalSlots : 1 ≤ totalSlots
  order_ne_nil : order ≠ []
  weight_pos : ∀ c, 0 < weight c
  floors_le : ∑ c, minSlots c ≤ totalSlots

/-- A future in the queue of a class, with the task that waits on it. -/
structure Waiter where
  task : ℕ
  cancelled : Bool := false
  deriving DecidableEq

structure ClassState where
  leased : ℕ := 0
  virtualTime : ℚ := 0
  waiters : List Waiter := []
  deriving DecidableEq

inductive GrantKind
  | floor
  | shared
  deriving DecidableEq

section
variable {κ : Type} [Fintype κ]

structure Scheduler (κ : Type) [Fintype κ] where
  cfg : FairnessConfig κ
  classes : κ → ClassState
  /-- The event that `drain` waits for. -/
  idle : Bool

variable [LinearOrder κ]

namespace Scheduler

variable {s : Scheduler κ} {c : κ}

section

variable (s)

def update (c : κ) (f : ClassState → ClassState) : Scheduler κ :=
  { s with classes := Function.update s.classes c (f (s.classes c)) }

def totalLeased : ℕ := ∑ c, (s.classes c).leased

/-- The part of the floors of other classes that is not filled. -/
def reservedForOthers (c : κ) : ℕ :=
  ∑ d ∈ Finset.univ.erase c, (s.cfg.minSlots d - (s.classes d).leased)

/-- The slot that is free for a class now. -/
def grantKind (c : κ) : Option GrantKind :=
  if (s.classes c).leased < s.cfg.minSlots c then some .floor
  else
    let free := (s.cfg.totalSlots : ℤ) - s.totalLeased
    if free - s.reservedForOthers c > 0 then some .shared else none

/-- Account a grant.  Only shared slots advance the virtual time. -/
def grant (c : κ) : Scheduler κ :=
  let kind := s.grantKind c
  s.update c fun st =>
    { st with
      leased := st.leased + 1
      virtualTime :=
        if kind = some .shared then st.virtualTime + 1 / s.cfg.weight c else st.virtualTime }

/-- Whether nothing is leased and nothing waits. -/
def isIdle : Bool :=
  s.totalLeased == 0 && s.cfg.order.all fun c => (s.classes c).waiters.isEmpty

def refreshIdle : Scheduler κ := { s with idle := s.isIdle }

/-- Take the first future of the class, account a grant, and resolve the future if it is
pending: the task that wakes up. -/
def resolveOne (c : κ) : Scheduler κ × List (κ × ℕ) :=
  match (s.classes c).waiters with
  | [] => (s, [])
  | w :: waiters =>
    let popped := s.update c fun st => { st with waiters := waiters }
    (popped.grant c, if w.cancelled then [] else [(c, w.task)])

/-- The first class that waits below its floor. -/
def floorClass : Option κ :=
  s.cfg.order.find? fun c =>
    (s.classes c).waiters ≠ [] ∧ (s.classes c).leased < s.cfg.minSlots c

/-- The classes that wait and may take a shared slot. -/
def eligible : List κ :=
  s.cfg.order.filter fun c => (s.classes c).waiters ≠ [] ∧ s.grantKind c = some .shared

/-- The eligible class with the smallest virtual time, by name where they are equal. -/
def mostOwed : Option κ :=
  (s.eligible.map fun c => toLex ((s.classes c).virtualTime, c)).min?.map fun x => (ofLex x).2

/-- The class the next slot goes to. -/
def nextClass : Option κ := s.floorClass <|> s.mostOwed

/-- The futures in all queues. -/
def queued : ℕ := ∑ c, (s.classes c).waiters.length

end

theorem nextClass_of_floorClass (h : s.floorClass = some c) :
    (s.classes c).waiters ≠ [] ∧ s.grantKind c = some .floor := by
  have hc := List.find?_some h
  simp only [decide_eq_true_eq] at hc
  exact ⟨hc.1, by simp [grantKind, hc.2]⟩

theorem mem_eligible_of_mostOwed (h : s.mostOwed = some c) : c ∈ s.eligible := by
  obtain ⟨x, hx, rfl⟩ := Option.map_eq_some_iff.mp h
  obtain ⟨d, hd, rfl⟩ := List.mem_map.mp (List.min?_mem hx)
  exact hd

/-- A slot goes to a class that waits and may take one. -/
theorem nextClass_eq_some (h : s.nextClass = some c) :
    (s.classes c).waiters ≠ [] ∧ s.grantKind c ≠ none := by
  unfold nextClass at h
  cases hfloor : s.floorClass with
  | some d =>
    rw [hfloor] at h
    cases h
    obtain ⟨hwaits, hkind⟩ := nextClass_of_floorClass hfloor
    exact ⟨hwaits, by simp [hkind]⟩
  | none =>
    rw [hfloor] at h
    have hmem := mem_eligible_of_mostOwed (h : s.mostOwed = some c)
    simp [eligible] at hmem
    exact ⟨hmem.2.1, by simp [hmem.2.2]⟩

/-- Where no class gets a slot, none that waits may take one. -/
theorem nextClass_eq_none (h : s.nextClass = none) (hwaits : (s.classes c).waiters ≠ []) :
    s.grantKind c = none := by
  unfold nextClass at h
  obtain ⟨hfloor, howed⟩ : s.floorClass = none ∧ s.mostOwed = none := by
    cases hfloor : s.floorClass with
    | some d => rw [hfloor] at h; cases h
    | none => rw [hfloor] at h; exact ⟨rfl, h⟩
  have hfull : ¬ (s.classes c).leased < s.cfg.minSlots c := by
    have hc := List.find?_eq_none.mp hfloor c (s.cfg.mem_order c)
    simp only [decide_eq_true_eq, not_and] at hc
    exact hc hwaits
  have hnone : s.eligible = [] := by
    simpa [mostOwed, List.min?_eq_none_iff] using howed
  have hshared : s.grantKind c ≠ some .shared := by
    have hc := List.filter_eq_nil_iff.mp hnone c (s.cfg.mem_order c)
    simp at hc
    exact hc hwaits
  cases hkind : s.grantKind c with
  | none => rfl
  | some kind =>
    cases kind with
    | shared => exact absurd hkind hshared
    | floor => simp [grantKind, hfull] at hkind

theorem queued_resolveOne (h : (s.classes c).waiters ≠ []) :
    (s.resolveOne c).1.queued < s.queued := by
  obtain ⟨w, _, hw⟩ := List.exists_cons_of_ne_nil h
  unfold resolveOne
  rw [hw]
  refine Finset.sum_lt_sum (fun d _ => ?_) ⟨c, Finset.mem_univ c, ?_⟩
  · by_cases hd : d = c
    · subst hd
      simp [grant, update, hw]
    · simp [grant, update, hd]
  · simp [grant, update, hw]

/-- Grant slots to the queues while a class may take one: the tasks that wake up. -/
def pump (s : Scheduler κ) : Scheduler κ × List (κ × ℕ) :=
  match _hnext : s.nextClass with
  | none => (s.refreshIdle, [])
  | some c =>
    let resolved := s.resolveOne c
    let rest := pump resolved.1
    (rest.1, resolved.2 ++ rest.2)
termination_by s.queued
decreasing_by exact queued_resolveOne (nextClass_eq_some _hnext).1

/-- A new future at the end of the queue of a class. -/
def enqueue (s : Scheduler κ) (c : κ) (task : ℕ) : Scheduler κ :=
  { s.update c fun st => { st with waiters := st.waiters ++ [{ task := task }] } with
    idle := false }

/-- One slot of a class less. -/
def giveBack (s : Scheduler κ) (c : κ) : Scheduler κ :=
  s.update c fun st => { st with leased := st.leased - 1 }

/-- `drain` returns at once. -/
def drains (s : Scheduler κ) : Bool := s.refreshIdle.idle

end Scheduler

/-! ### The tasks -/

/-- The scheduler, the acquires that returned to their task and were not released, and the
tasks whose future was resolved and that the loop has not come to yet. -/
structure Pool (κ : Type) [Fintype κ] where
  sched : Scheduler κ
  held : List (κ × ℕ) := []
  waking : List (κ × ℕ) := []

/-- The scheduler of a configuration, before any call. -/
def FairnessConfig.start (cfg : FairnessConfig κ) : Pool κ where
  sched := { cfg := cfg, classes := fun _ => {}, idle := true }

/-- What happens on the loop. -/
inductive PoolEvent (κ : Type)
  /-- A task calls `acquire`. -/
  | acquire (c : κ) (task : ℕ)
  /-- The loop comes to a task whose future was resolved: its acquire returns. -/
  | resume (task : ℕ)
  /-- A task that waits in `acquire` is cancelled. -/
  | cancel (task : ℕ)
  /-- A task that holds a slot calls `release`. -/
  | release (task : ℕ)
  deriving DecidableEq

namespace Pool

section

variable (p : Pool κ)

/-- The task is in no call of `acquire` and holds no slot. -/
def fresh (task : ℕ) : Bool :=
  (p.held ++ p.waking).all (fun x => x.2 ≠ task) &&
    p.sched.cfg.order.all fun c => (p.sched.classes c).waiters.all fun w => w.task ≠ task

/-- `acquire`: a slot at once, or a future in the queue.  A future that the pump of the same
call resolves is not waited for. -/
def acquire (c : κ) (task : ℕ) : Pool κ :=
  if (p.sched.classes c).waiters = [] ∧ p.sched.grantKind c ≠ none then
    { p with sched := (p.sched.grant c).refreshIdle, held := p.held ++ [(c, task)] }
  else
    let pumped := (p.sched.enqueue c task).pump
    if (c, task) ∈ pumped.2 then
      { sched := pumped.1
        held := p.held ++ [(c, task)]
        waking := p.waking ++ pumped.2.erase (c, task) }
    else { p with sched := pumped.1, waking := p.waking ++ pumped.2 }

/-- `release` of the slot of a task; none where it raises. -/
def release (c : κ) (task : ℕ) : Option (Pool κ) :=
  if (p.sched.classes c).leased = 0 then none
  else
    let pumped := (p.sched.giveBack c).pump
    some
      { sched := pumped.1.refreshIdle
        held := p.held.erase (c, task)
        waking := p.waking ++ pumped.2 }

/-- The future of a task that waits in a queue is cancelled, and stays there. -/
def cancelWaiter (task : ℕ) : Pool κ :=
  { p with
    sched :=
      { p.sched with
        classes := fun c =>
          { p.sched.classes c with
            waiters := (p.sched.classes c).waiters.map fun w =>
              if w.task = task then { w with cancelled := true } else w } } }

/-- The task waits on a pending future. -/
def waits (task : ℕ) : Bool :=
  p.sched.cfg.order.any fun c =>
    (p.sched.classes c).waiters.any fun w => w.task = task && !w.cancelled

def step : PoolEvent κ → Option (Pool κ × List Unit)
  | .acquire c task => if p.fresh task then some (p.acquire c task, []) else none
  | .resume task =>
    match p.waking.find? fun x => x.2 = task with
    | none => none
    | some x => some ({ p with held := p.held ++ [x], waking := p.waking.erase x }, [])
  | .cancel task =>
    match p.waking.find? fun x => x.2 = task with
    -- the future was resolved: the task is cancelled where the loop comes to it
    | some x => some ({ p with waking := p.waking.erase x }, [])
    | none => if p.waits task then some (p.cancelWaiter task, []) else none
  | .release task =>
    match p.held.find? fun x => x.2 = task with
    | none => none
    | some x => (p.release x.1 task).map fun p' => (p', [])

end

end Pool

end

end Sie.Server
