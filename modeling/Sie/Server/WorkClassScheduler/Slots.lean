import Sie.Server.WorkClassScheduler

/-!
# Who holds the slots

Two invariants of the scheduler hold in every run: `Room` (the floors and what is leased
above them fit in the slots) and `Served` (no class that waits may take a slot).  That the
counts are those of the tasks (`Accounted`) holds as long as no waiting acquire is cancelled:
`_pump` grants a slot to a cancelled future too, and a task that is cancelled between its grant
and its turn does not give its slot back.
-/

namespace Sie.Server

open Sie.Lib Pool Option

variable {κ : Type} [Fintype κ] [LinearOrder κ]

namespace Scheduler
variable {s : Scheduler κ} {c d : κ}

/-! ### One grant -/

/-- The slots that are leased or kept free for a floor fit. -/
def Room (s : Scheduler κ) : Prop :=
  ∑ c, max (s.classes c).leased (s.cfg.minSlots c) ≤ s.cfg.totalSlots

/-- No class that waits may take a slot. -/
def Served (s : Scheduler κ) : Prop :=
  ∀ c, (s.classes c).waiters ≠ [] → s.grantKind c = none

theorem sum_eq (f : κ → ℕ) (c : κ) : ∑ d, f d = f c + ∑ d ∈ Finset.univ.erase c, f d :=
  (Finset.add_sum_erase _ _ (Finset.mem_univ c)).symm

theorem sum_erase_congr {f g : κ → ℕ} (h : ∀ d, d ≠ c → f d = g d) :
    ∑ d ∈ Finset.univ.erase c, f d = ∑ d ∈ Finset.univ.erase c, g d :=
  Finset.sum_congr rfl fun d hd => h d (Finset.ne_of_mem_erase hd)

@[simp] theorem classes_update_self (f : ClassState → ClassState) :
    (s.update c f).classes c = f (s.classes c) := Function.update_self ..

theorem classes_update_of_ne (f : ClassState → ClassState) (h : d ≠ c) :
    (s.update c f).classes d = s.classes d := Function.update_of_ne h ..

@[simp] theorem leased_grant_self : ((s.grant c).classes c).leased = (s.classes c).leased + 1 := by
  simp [grant]

theorem classes_grant_of_ne (h : d ≠ c) : (s.grant c).classes d = s.classes d :=
  Function.update_of_ne h ..

@[simp] theorem waiters_grant : ((s.grant c).classes d).waiters = (s.classes d).waiters := by
  by_cases h : d = c
  · subst h
    simp [grant]
  · rw [classes_grant_of_ne h]

/-- A class has no slot where its floor is full, and the slots that are leased or kept for
others are all there are. -/
theorem grantKind_eq_none_iff : s.grantKind c = none ↔ s.cfg.minSlots c ≤ (s.classes c).leased ∧
      s.cfg.totalSlots ≤ s.totalLeased + s.reservedForOthers c := by
  unfold grantKind
  split
  · simp
    omega
  dsimp only
  split
  · simp
    omega
  · simp
    omega

theorem totalLeased_eq (s : Scheduler κ) (c : κ) : s.totalLeased =
    (s.classes c).leased + ∑ d ∈ Finset.univ.erase c, (s.classes d).leased := sum_eq _ c

/-- What is leased besides a class, and what is kept for floors besides its own. -/
theorem sum_max_eq (s : Scheduler κ) (c : κ) :
    ∑ d, max (s.classes d).leased (s.cfg.minSlots d) = max (s.classes c).leased (s.cfg.minSlots c) +
        (∑ d ∈ Finset.univ.erase c, (s.classes d).leased + s.reservedForOthers c) := by
  rw [sum_eq _ c, reservedForOthers, ← Finset.sum_add_distrib]
  exact congrArg _ (Finset.sum_congr rfl fun d _ => by omega)

/-- **A grant keeps the room**: a floor slot was kept free, and a shared one is free besides
all floors. -/
theorem Room.grant (h : s.Room) (hkind : s.grantKind c ≠ none) : (s.grant c).Room := by
  have hleased : ∑ d ∈ Finset.univ.erase c, ((s.grant c).classes d).leased =
      ∑ d ∈ Finset.univ.erase c, (s.classes d).leased :=
    sum_erase_congr fun d hd => by rw [classes_grant_of_ne hd]
  have hreserved : (s.grant c).reservedForOthers c = s.reservedForOthers c :=
    sum_erase_congr fun d hd => by rw [classes_grant_of_ne hd]; rfl
  rw [Ne, grantKind_eq_none_iff, totalLeased_eq s c] at hkind
  unfold Room at h ⊢
  rw [sum_max_eq _ c] at h ⊢
  rw [hleased, hreserved, leased_grant_self, show (s.grant c).cfg = s.cfg from rfl]
  omega

/-- A grant to one class frees no slot for another. -/
theorem grantKind_grant (hd : d ≠ c) (h : s.grantKind d = none) :
    (s.grant c).grantKind d = none := by
  rw [grantKind_eq_none_iff] at h ⊢
  have hothers : ∀ f : κ → ClassState → ℕ,
      ∑ e ∈ (Finset.univ.erase d).erase c, f e ((s.grant c).classes e) =
        ∑ e ∈ (Finset.univ.erase d).erase c, f e (s.classes e) := fun f =>
    Finset.sum_congr rfl fun e he => by rw [classes_grant_of_ne (Finset.ne_of_mem_erase he)]
  have hmem : c ∈ Finset.univ.erase d := Finset.mem_erase.mpr ⟨Ne.symm hd, Finset.mem_univ c⟩
  have hreserved : s.reservedForOthers d ≤ (s.grant c).reservedForOthers d + 1 := by
    unfold reservedForOthers
    rw [← Finset.add_sum_erase _ _ hmem, ← Finset.add_sum_erase _ _ hmem,
      hothers fun e st => (s.grant c).cfg.minSlots e - st.leased, leased_grant_self]
    have hcfg : (s.grant c).cfg = s.cfg := rfl
    rw [hcfg]
    omega
  have htotal : (s.grant c).totalLeased = s.totalLeased + 1 := by
    rw [totalLeased_eq _ c, totalLeased_eq s c, leased_grant_self,
      sum_erase_congr fun e he => by rw [classes_grant_of_ne he]]
    omega
  rw [classes_grant_of_ne hd, htotal, show (s.grant c).cfg = s.cfg from rfl]
  omega

/-! ### A pump -/

/-- Changes that leave the counts as they are keep the room and the free slots. -/
theorem grantKind_congr {t : Scheduler κ}
    (hleased : ∀ d, (t.classes d).leased = (s.classes d).leased) (hcfg : t.cfg = s.cfg) (c : κ) :
    t.grantKind c = s.grantKind c := by
  have htotal : t.totalLeased = s.totalLeased := by simp [totalLeased, hleased]
  have hreserved : t.reservedForOthers c = s.reservedForOthers c := by
    simp [reservedForOthers, hcfg, hleased]
  unfold grantKind
  rw [htotal, hreserved, hcfg, hleased]

omit [LinearOrder κ] in
theorem Room.congr {t : Scheduler κ} (h : s.Room) (hcfg : t.cfg = s.cfg)
    (hleased : ∀ d, (t.classes d).leased = (s.classes d).leased) : t.Room := by
  simpa [Room, hcfg, hleased] using h

theorem leased_update_waiters (f : List Waiter → List Waiter) :
    ((s.update c fun st => { st with waiters := f st.waiters }).classes d).leased =
      (s.classes d).leased := by
  by_cases h : d = c
  · subst h
    simp
  · rw [classes_update_of_ne _ h]

theorem leased_enqueue {task : ℕ} (d : κ) :
    ((s.enqueue c task).classes d).leased = (s.classes d).leased := by
  exact leased_update_waiters (s := s) (c := c) fun ws => ws ++ [{ task := task }]

theorem leased_giveBack (h : (s.classes c).leased ≠ 0) (d : κ) :
    ((s.giveBack c).classes d).leased + (if c = d then 1 else 0) = (s.classes d).leased := by
  by_cases hd : d = c
  · subst hd
    simp only [giveBack, classes_update_self, if_true]
    omega
  · simp [giveBack, classes_update_of_ne _ hd, if_neg (Ne.symm hd)]

theorem waiters_giveBack (d : κ) : ((s.giveBack c).classes d).waiters = (s.classes d).waiters := by
  by_cases hd : d = c
  · subst hd
    simp [giveBack]
  · simp [giveBack, classes_update_of_ne _ hd]

theorem room_resolveOne (h : s.Room) (hkind : s.grantKind c ≠ none) : (s.resolveOne c).1.Room := by
  unfold resolveOne
  split
  · exact h
  rename_i w waiters _
  let t := s.update c fun st => { st with waiters := waiters }
  have hleased : ∀ d, (t.classes d).leased = (s.classes d).leased :=
    fun d => leased_update_waiters fun _ => waiters
  exact Room.grant (h.congr (t := t) rfl hleased) ((grantKind_congr hleased rfl c).symm ▸ hkind)

theorem room_pump (h : s.Room) : s.pump.1.Room := by
  fun_induction pump s with
  | case1 => exact h
  | case2 _ _ hnext _ _ ih =>
    exact ih (room_resolveOne h (nextClass_eq_some hnext).2)

/-- **A pump goes on until no class that waits may take a slot.** -/
theorem served_pump (s : Scheduler κ) :
    s.pump.1.cfg = s.cfg ∧ s.pump.1.Served ∧ s.pump.1.idle = s.pump.1.isIdle := by
  fun_induction pump s with
  | case1 _ hnext => exact ⟨rfl, fun c hwaits => nextClass_eq_none hnext hwaits, rfl⟩
  | case2 _ _ _ resolved _ ih =>
    refine ⟨ih.1.trans ?_, ih.2⟩
    simp only [resolved, resolveOne]
    split <;> rfl

/-- The grants and tasks of a class. -/
def count (c : κ) (l : List (κ × ℕ)) : ℕ := l.countP fun x => x.1 = c

omit [Fintype κ] in
@[simp] theorem count_append (c : κ) (l l' : List (κ × ℕ)) :
    count c (l ++ l') = count c l + count c l' := List.countP_append ..

omit [Fintype κ] in
theorem count_erase {x : κ × ℕ} {l : List (κ × ℕ)} (h : x ∈ l) (c : κ) :
    count c [x] + count c (l.erase x) = count c l := by
  rw [← count_append]
  exact (List.perm_cons_erase h).symm.countP_eq _

omit [Fintype κ] in
@[simp] theorem count_singleton (c d : κ) (task : ℕ) :
    count c [(d, task)] = if d = c then 1 else 0 := by
  by_cases h : d = c <;> simp [count, h]

/-- No future in a queue is cancelled. -/
def Live (s : Scheduler κ) : Prop := ∀ c, ∀ w ∈ (s.classes c).waiters, w.cancelled = false

theorem live_enqueue (h : s.Live) (c : κ) (task : ℕ) : (s.enqueue c task).Live := by
  intro d w hw
  by_cases hd : d = c
  · subst hd
    simp [enqueue, classes_update_self] at hw
    rcases hw with hw | rfl
    · exact h d w hw
    · rfl
  · simp only [enqueue, classes_update_of_ne _ hd] at hw
    exact h d w hw

/-- A grant to a pending future is a task that wakes up. -/
theorem resolveOne_live (h : s.Live) (hwaits : (s.classes c).waiters ≠ []) :
    (s.resolveOne c).1.Live ∧
      ∀ d, ((s.resolveOne c).1.classes d).leased =
        (s.classes d).leased + count d (s.resolveOne c).2 := by
  obtain ⟨w, _, hw⟩ := List.exists_cons_of_ne_nil hwaits
  have hlive : w.cancelled = false := h c w (by simp [hw])
  unfold resolveOne
  simp only [hw, hlive, Bool.false_eq_true, if_false]
  refine ⟨fun d x hx => ?_, fun d => ?_⟩
  · rw [waiters_grant] at hx
    by_cases hd : d = c
    · subst hd
      refine h d x ?_
      rw [classes_update_self] at hx
      simp only [hw, List.mem_cons]
      exact .inr hx
    · rw [classes_update_of_ne _ hd] at hx
      exact h d x hx
  · by_cases hd : d = c
    · subst hd
      simp [count]
    · rw [classes_grant_of_ne hd, classes_update_of_ne _ hd]
      simp [count, Ne.symm hd]

/-- **Where no future is cancelled, every grant of a pump wakes up a task.** -/
theorem leased_pump (h : s.Live) :
    s.pump.1.Live ∧
      ∀ c, (s.pump.1.classes c).leased = (s.classes c).leased + count c s.pump.2 := by
  fun_induction pump s with
  | case1 => exact ⟨h, fun c => rfl⟩
  | case2 _ _ hnext resolved rest ih =>
    obtain ⟨hlive, hleased⟩ := resolveOne_live h (nextClass_eq_some hnext).1
    obtain ⟨hlive', hleased'⟩ := ih hlive
    refine ⟨hlive', fun d => ?_⟩
    rw [count_append]
    have hone := hleased d
    have hrest := hleased' d
    simp only [resolved, rest] at hone hrest ⊢
    omega

end Scheduler

/-! ### Whole runs -/

namespace Pool
open Scheduler

variable {p : Pool κ}

/-- What holds in every run. -/
structure Sound (cfg : FairnessConfig κ) (p : Pool κ) : Prop where
  config : p.sched.cfg = cfg
  room : p.sched.Room
  served : p.sched.Served
  idle : p.sched.idle = p.sched.isIdle

/-- What holds as long as no waiting acquire is cancelled: every slot that is leased has a
task, that holds it or wakes up to hold it. -/
structure Accounted (p : Pool κ) : Prop where
  live : p.sched.Live
  leased : ∀ c, (p.sched.classes c).leased = count c p.held + count c p.waking

theorem sound_start (cfg : FairnessConfig κ) : Sound cfg cfg.start where
  config := rfl
  room := by simpa [Room, FairnessConfig.start] using cfg.floors_le
  served c h := absurd rfl h
  idle := by simp [FairnessConfig.start, isIdle, totalLeased]

variable {cfg : FairnessConfig κ} {c : κ} {task : ℕ} {p' : Pool κ} {e : PoolEvent κ}
  {o os : List Unit} {es : List (PoolEvent κ)}

/-- After a pump the scheduler is sound, wherever there was room. -/
theorem sound_pump {s : Scheduler κ} (hroom : s.Room) (hcfg : s.cfg = cfg)
    (hp : p.sched = s.pump.1) : Sound cfg p := by
  obtain ⟨hsame, hserved, hidle⟩ := served_pump s
  refine ⟨?_, ?_, ?_, ?_⟩ <;> rw [hp]
  · exact hsame.trans hcfg
  · exact room_pump hroom
  · exact hserved
  · exact hidle

section

variable (h : Sound cfg p)
include h

theorem Sound.acquire (c : κ) (task : ℕ) : Sound cfg (p.acquire c task) := by
  unfold Pool.acquire
  split_ifs with hfast
  · refine ⟨h.config, h.room.grant hfast.2, fun d hwaits => ?_, rfl⟩
    -- the class itself does not wait, and the others get no slot by the grant
    have hd : d ≠ c := by
      rintro rfl
      exact hwaits (waiters_grant.trans hfast.1)
    exact grantKind_grant hd (h.served d (by rwa [← waiters_grant (c := c)]))
  · have hroom := h.room.congr (t := p.sched.enqueue c task) rfl leased_enqueue
    dsimp only
    split
    · exact sound_pump hroom h.config rfl
    · exact sound_pump hroom h.config rfl

theorem Sound.release (hp : p.release c task = some p') : Sound cfg p' := by
  unfold Pool.release at hp
  split at hp
  · cases hp
  cases hp
  have hroom : (p.sched.giveBack c).Room := by
    refine (Finset.sum_le_sum fun d _ => max_le_max ?_ le_rfl).trans h.room
    have hleased := leased_giveBack ‹_› d
    omega
  have hsound := sound_pump (p := { p with sched := (p.sched.giveBack c).pump.1 }) hroom
    h.config rfl
  exact ⟨hsound.config, hsound.room, hsound.served, rfl⟩

/-- A cancelled future stays where it is. -/
theorem Sound.cancelWaiter (task : ℕ) : Sound cfg (p.cancelWaiter task) where
  config := h.config
  room := h.room.congr rfl fun _ => rfl
  served c hwaits :=
    (grantKind_congr (s := p.sched) (fun _ => rfl) rfl c).trans
      (h.served c fun hnil => hwaits (by simp [Pool.cancelWaiter, hnil]))
  idle := by
    rw [show (p.cancelWaiter task).sched.idle = p.sched.idle from rfl, h.idle]
    simp [isIdle, totalLeased, Pool.cancelWaiter]

/-- The tasks that hold slots and wake up do not matter to the scheduler. -/
theorem Sound.tasks (hp : p'.sched = p.sched) : Sound cfg p' :=
  ⟨by rw [hp, h.config], by rw [hp]; exact h.room, by rw [hp]; exact h.served,
    by rw [hp]; exact h.idle⟩

theorem Sound.step (hstep : p.step e = some (p', o)) : Sound cfg p' := by
  cases e with
  | acquire c task =>
    simp [step] at hstep
    obtain ⟨-, rfl, -⟩ := hstep
    exact h.acquire c task
  | resume =>
    simp only [step] at hstep
    split at hstep
    · cases hstep
    · cases hstep
      exact h.tasks rfl
  | cancel task =>
    simp only [step] at hstep
    split at hstep
    · cases hstep
      exact h.tasks rfl
    · simp at hstep
      obtain ⟨-, rfl, -⟩ := hstep
      exact h.cancelWaiter task
  | release =>
    simp only [step] at hstep
    split at hstep
    · cases hstep
    · obtain ⟨_, hrelease, ⟨⟩⟩ := map_eq_some_iff.mp hstep
      exact h.release hrelease

end

theorem leased_grant (s : Scheduler κ) (c d : κ) :
    ((s.grant c).classes d).leased = (s.classes d).leased + if c = d then 1 else 0 := by
  by_cases h : d = c
  · subst h
    simp
  · rw [classes_grant_of_ne h, if_neg (Ne.symm h), Nat.add_zero]

theorem Accounted.acquire (h : Accounted p) (c : κ) (task : ℕ) : Accounted (p.acquire c task) := by
  unfold Pool.acquire
  split
  · refine ⟨fun d w hw => h.live d w (by rwa [← waiters_grant (c := c)]), fun d => ?_⟩
    have hd := h.leased d
    simp only [count_append, count_singleton]
    exact (leased_grant p.sched c d).trans (by omega)
  obtain ⟨hlive, hpump⟩ := leased_pump (live_enqueue h.live c task)
  dsimp only
  split_ifs with hown
  · refine ⟨hlive, fun d => ?_⟩
    have hd := h.leased d
    have herase := count_erase hown d
    have hgranted := hpump d
    rw [leased_enqueue] at hgranted
    simp only [count_append]
    omega
  · refine ⟨hlive, fun d => ?_⟩
    have hd := h.leased d
    have hgranted := hpump d
    rw [leased_enqueue] at hgranted
    simp only [count_append]
    omega

theorem Accounted.release (h : Accounted p) (hx : (c, task) ∈ p.held)
    (hp : p.release c task = some p') : Accounted p' := by
  unfold Pool.release at hp
  split at hp
  · cases hp
  rename_i hpos
  cases hp
  obtain ⟨hlive, hpump⟩ := leased_pump (s := p.sched.giveBack c) fun d w hw =>
    h.live d w (waiters_giveBack d ▸ hw)
  refine ⟨hlive, fun d => ?_⟩
  have hd := h.leased d
  have herase := count_erase hx d
  have hgranted := hpump d
  have hbefore := leased_giveBack hpos d
  rw [count_singleton] at herase
  simp only [count_append, Scheduler.refreshIdle]
  omega

theorem Accounted.step (h : Accounted p) (hcalm : ∀ task, e ≠ .cancel task)
    (hstep : p.step e = some (p', o)) : Accounted p' := by
  cases e with
  | acquire c task =>
    simp [step] at hstep
    obtain ⟨-, rfl, -⟩ := hstep
    exact h.acquire c task
  | resume =>
    simp only [step] at hstep
    split at hstep
    · cases hstep
    rename_i x hx
    cases hstep
    refine ⟨h.live, fun d => ?_⟩
    have hd := h.leased d
    have herase := count_erase (List.mem_of_find?_eq_some hx) d
    simp only [count_append]
    omega
  | cancel task => exact absurd rfl (hcalm task)
  | release task =>
    simp only [step] at hstep
    split at hstep
    · cases hstep
    rename_i x hx
    obtain ⟨_, hrelease, ⟨⟩⟩ := map_eq_some_iff.mp hstep
    have htask : x.2 = task := by simpa using List.find?_some hx
    refine h.release ?_ hrelease
    rw [← htask]
    exact List.mem_of_find?_eq_some hx

theorem sound_run (hrun : runs step cfg.start es = some (p, os)) : Sound cfg p :=
  runs_invariant (fun _ _ _ _ h hstep => Sound.step h hstep) (sound_start cfg) hrun

theorem accounted_run (hrun : runs step cfg.start es = some (p, os))
    (hcalm : ∀ task, .cancel task ∉ es) : Accounted p := by
  refine runs_induction (fun es _ p => (∀ task, .cancel task ∉ es) → Accounted p)
    (fun _ => ⟨fun c w hw => by simp [FairnessConfig.start] at hw, fun _ => rfl⟩) ?_ es os p hrun
    hcalm
  intro es os p e p' o _ h hstep hcalm
  refine (h fun task hmem => hcalm task (by simp [hmem])).step ?_ hstep
  rintro task rfl
  exact hcalm task (by simp)

/-- The futures of a class that are pending. -/
def liveWaiters (p : Pool κ) (c : κ) : List Waiter :=
  (p.sched.classes c).waiters.filter fun w => !w.cancelled

theorem Accounted.waiters_eq (h : Accounted p) (hc : p.liveWaiters c = []) :
    (p.sched.classes c).waiters = [] := by
  rw [liveWaiters, List.filter_eq_nil_iff] at hc
  refine List.eq_nil_iff_forall_not_mem.mpr fun w hw => hc w hw ?_
  simp [h.live c w hw]

/-- **Who holds the slots.**  In every run the total leased does not exceed the slots, and a
class below its floor has no waiter.  In every run in which no waiting acquire is cancelled,
each class's count is the number of its acquires that returned and were not released, and of
those the loop has still to come to; and once there are none of these and no waiter, every
count is 0 and `drain` returns. -/
theorem slots_accounted (cfg : FairnessConfig κ) {es : List (PoolEvent κ)} {p : Pool κ}
    {os : List Unit} (hrun : runs step cfg.start es = some (p, os)) :
    p.sched.totalLeased ≤ cfg.totalSlots ∧
    (∀ c, (p.sched.classes c).leased < cfg.minSlots c → p.liveWaiters c = []) ∧
    ((∀ task, .cancel task ∉ es) →
      (∀ c, (p.sched.classes c).leased = count c p.held + count c p.waking) ∧
      (p.held = [] → p.waking = [] → (∀ c, p.liveWaiters c = []) →
        (∀ c, (p.sched.classes c).leased = 0) ∧ p.sched.idle = true ∧ p.sched.drains = true)) := by
  have hsound := sound_run hrun
  have hcfg := hsound.config
  refine ⟨hcfg ▸ (Finset.sum_le_sum fun _ _ => le_max_left _ _).trans hsound.room,
    fun c hbelow => ?_, fun hcalm => ?_⟩
  · by_contra hlive
    have hwaits : (p.sched.classes c).waiters ≠ [] := by
      intro hnil
      exact hlive (by simp [liveWaiters, hnil])
    have hfull := (grantKind_eq_none_iff.mp (hsound.served c hwaits)).1
    rw [hcfg] at hfull
    omega
  · have haccounted := accounted_run hrun hcalm
    refine ⟨haccounted.leased, fun hheld hwaking hlive => ?_⟩
    have hzero : ∀ c, (p.sched.classes c).leased = 0 := by
      intro c
      rw [haccounted.leased c, hheld, hwaking]
      rfl
    have hidle : p.sched.isIdle = true := by
      have hqueues : ∀ c, (p.sched.classes c).waiters = [] :=
        fun c => haccounted.waiters_eq (hlive c)
      simp [isIdle, totalLeased, hzero, hqueues]
    exact ⟨hzero, hsound.idle.trans hidle, hidle⟩

end Pool

/-! ### The runs that lose a slot -/

namespace CancelledWaiter
open Scheduler

/-- One class with one slot. -/
def cfg : FairnessConfig Unit where
  totalSlots := 1
  weight _ := 1
  minSlots _ := 0
  order := [()]
  mem_order _ := by simp
  one_le_totalSlots := le_rfl
  order_ne_nil := by simp
  weight_pos _ := one_pos
  floors_le := by simp

/-- The second acquire is cancelled while it waits; then the first one releases. -/
def cancelledInQueue : List (PoolEvent Unit) :=
  [.acquire () 0, .acquire () 1, .cancel 1, .release 0]

/-- The second acquire is cancelled after it was granted the slot, before the loop came to
it. -/
def cancelledAfterGrant : List (PoolEvent Unit) :=
  [.acquire () 0, .acquire () 1, .release 0, .cancel 1]

/-- What is left at the end: the tasks, the waiters, the count, and whether `drain` returns. -/
def left (p : Pool Unit) : List (Unit × ℕ) × List (Unit × ℕ) × List Waiter × ℕ × Bool :=
  (p.held, p.waking, p.liveWaiters (), (p.sched.classes ()).leased, p.sched.drains)

/-- The run ends with no task that holds a slot, wakes up or waits, and with a slot leased;
`drain` does not return. -/
def LosesSlot (es : List (PoolEvent Unit)) : Prop :=
  ∃ p os, runs step cfg.start es = some (p, os) ∧ p.held = [] ∧ p.waking = [] ∧
    p.liveWaiters () = [] ∧ (p.sched.classes ()).leased = 1 ∧ p.sched.drains = false

theorem losesSlot_of_left {es : List (PoolEvent Unit)}
    (h : (runs step cfg.start es).map (fun r => left r.1) = some ([], [], [], 1, false)) :
    LosesSlot es := by
  obtain ⟨r, hr, hleft⟩ := map_eq_some_iff.mp h
  simp only [left, Prod.mk.injEq] at hleft
  exact ⟨r.1, r.2, hr, hleft⟩

/-- **A slot is held by nobody**, whether the acquire was cancelled in the queue or after the
grant. -/
theorem slot_lost : LosesSlot cancelledInQueue ∧ LosesSlot cancelledAfterGrant :=
  ⟨losesSlot_of_left (by decide +kernel), losesSlot_of_left (by decide +kernel)⟩

/-- A run in which the second acquire waits and is served. -/
def undisturbed : List (PoolEvent Unit) :=
  [.acquire () 0, .acquire () 1, .release 0, .resume 1, .release 1]

theorem undisturbed_goes : (runs step cfg.start undisturbed).isSome = true := by
  decide +kernel

/-- At a run without cancellation: the slot is free again. -/
theorem slots_accounted_undisturbed :
    (((reached step cfg.start undisturbed undisturbed_goes).1.sched.classes ()).leased = 0) ∧
      (reached step cfg.start undisturbed undisturbed_goes).1.sched.drains = true := by
  obtain ⟨-, -, hcalm⟩ := slots_accounted cfg (runs_eq_reached undisturbed_goes)
  obtain ⟨-, hfree⟩ := hcalm (by simp [undisturbed])
  obtain ⟨hzero, -, hdrains⟩ := hfree (by decide +kernel) (by decide +kernel) (by decide +kernel)
  exact ⟨hzero (), hdrains⟩

end CancelledWaiter

end Sie.Server
