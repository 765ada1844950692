import Mathlib.Algebra.BigOperators.Group.List.Basic
import Sie.Lib.Run
import Sie.Lib.Word

/-!
# Lane admission

The gateway counts the work items in flight on each lane.  `admit` compares the
count with the ceiling and reserves the request's items in one `fetch_update`;
the reservation gives them back in another when it is dropped.  A `fetch_update`
is a load and then compare-exchanges until one succeeds, so the requests race
between the two: every load and every exchange is an event of its own here.
-/

namespace Sie.Gateway

open Sie.Lib Function

/-- The lane a work item is published onto. -/
structure LaneKey where
  pool : String
  machineProfile : String
  bundle : String
  deriving DecidableEq

/-- One lane's reservation; the lane stands for its shared counter. -/
structure LaneReservation where
  lane : LaneKey
  items : ℕ
  deriving DecidableEq

/-- Where a request is; a `fetch_update` carries the value it last observed. -/
inductive LanePhase
  | admitting (current : ℕ)
  | held
  | dropping (current : ℕ)

inductive LaneAdmissionOutcome
  | admitted
  | shedShadow
  | shedEnforced
  deriving DecidableEq

structure LaneAdmission where
  outcome : LaneAdmissionOutcome
  /-- The items on the lane before this request's reservation. -/
  inFlight : ℕ
  threshold : ℕ
  reservation : Option LaneReservation

structure LaneAdmissionControl where
  /-- The counters; a lane without one gets it at zero. -/
  lanes : LaneKey → ℕ := fun _ => 0
  maxInFlightItems : ℕ
  enforce : Bool
  requests : List (LaneReservation × LanePhase) := []

inductive LaneEvent
  /-- A publish enters `admit` and loads the counter. -/
  | publish (lane : LaneKey) (items : ℕ)
  /-- The next round of a request's `fetch_update`; a weak exchange may fail
  although the value matches. -/
  | exchange (k : ℕ) (spurious : Bool)
  /-- A reservation is dropped. -/
  | drop (k : ℕ)

namespace LaneAdmissionControl

/-- The reservation a request has, until its items are given back. -/
def guard? : LaneReservation × LanePhase → Option LaneReservation
  | (_, .admitting _) => none
  | (g, _) => some g

/-- The live reservations. -/
def guards (c : LaneAdmissionControl) : List LaneReservation := c.requests.filterMap guard?

/-- The items the live reservations hold on a lane. -/
def liveItems (gs : List LaneReservation) (lane : LaneKey) : ℕ :=
  ((gs.filter (·.lane = lane)).map (·.items)).sum

section

variable (c : LaneAdmissionControl)

/-- What `admit` makes of the counter; `none` is an enforced shed. -/
def reserve (items current : ℕ) : Option ℕ :=
  if current > c.maxInFlightItems ∧ c.enforce then none else some (saturatingAdd current items)

/-- What `admit` returns, from the value its `fetch_update` ended with. -/
def admission (inFlight : ℕ) (reservation : Option LaneReservation) : LaneAdmission where
  outcome :=
    match decide (inFlight > c.maxInFlightItems), c.enforce with
    | false, _ => .admitted
    | true, false => .shedShadow
    | true, true => .shedEnforced
  inFlight := inFlight
  threshold := c.maxInFlightItems
  reservation := reservation

def step :
    LaneEvent → Option (LaneAdmissionControl × List LaneAdmission)
  | .publish lane items =>
    some ({ c with
      requests := (⟨lane, items⟩, .admitting (c.lanes lane)) :: c.requests }, [])
  | .exchange k spurious =>
    let rest := c.requests.eraseIdx k
    match c.requests[k]? with
    | some (g, .admitting current) =>
      match c.reserve g.items current with
      | none => some ({ c with requests := rest }, [c.admission current none])
      | some next =>
        if spurious ∨ c.lanes g.lane ≠ current then
          some ({ c with requests := (g, .admitting (c.lanes g.lane)) :: rest }, [])
        else
          some ({ c with
            lanes := update c.lanes g.lane next
            requests := (g, .held) :: rest }, [c.admission current (some g)])
    | some (g, .dropping current) =>
      if spurious ∨ c.lanes g.lane ≠ current then
        some ({ c with requests := (g, .dropping (c.lanes g.lane)) :: rest }, [])
      else
        some ({ c with
          lanes := update c.lanes g.lane (current - g.items)
          requests := rest }, [])
    | _ => none
  | .drop k =>
    let rest := c.requests.eraseIdx k
    match c.requests[k]? with
    | some (g, .held) =>
      if g.items = 0 then some ({ c with requests := rest }, [])
      else some ({ c with requests := (g, .dropping (c.lanes g.lane)) :: rest }, [])
    | _ => none

end

variable {c t : LaneAdmissionControl} {e : LaneEvent} {o : List LaneAdmission}
  {gs gs' : List LaneReservation} {g : LaneReservation} {lane : LaneKey}

/-- The guards, by the request an event moves and the others. -/
theorem guards_perm {k : ℕ} {r : LaneReservation × LanePhase} (h : c.requests[k]? = some r) :
    c.guards.Perm ((r :: c.requests.eraseIdx k).filterMap guard?) := by
  obtain ⟨hk, rfl⟩ := List.getElem?_eq_some_iff.mp h
  exact (List.getElem_cons_eraseIdx_perm hk).symm.filterMap _

/-- An event moves no counter, reserves for one request or releases one
reservation. -/
theorem step_cases (h : c.step e = some (t, o)) :
    t.maxInFlightItems = c.maxInFlightItems ∧ t.enforce = c.enforce ∧
      ((t.lanes = c.lanes ∧ t.guards.Perm c.guards ∧ ∀ a ∈ o, a.reservation = none) ∨
      (∃ g, (g, .admitting (c.lanes g.lane)) ∈ c.requests ∧
        (c.enforce = true → c.lanes g.lane ≤ c.maxInFlightItems) ∧
        t.lanes = update c.lanes g.lane (saturatingAdd (c.lanes g.lane) g.items) ∧
        t.guards.Perm (g :: c.guards) ∧ o = [c.admission (c.lanes g.lane) (some g)]) ∨
      ∃ g, t.lanes = update c.lanes g.lane (c.lanes g.lane - g.items) ∧
        c.guards.Perm (g :: t.guards) ∧ o = []) := by
  cases e with
  | publish =>
    cases h
    exact ⟨rfl, rfl, .inl ⟨rfl, .refl _, by simp⟩⟩
  | exchange =>
    simp only [step] at h
    split at h
    next g current hk =>
      have hperm := guards_perm hk
      split at h
      next =>
        cases h
        exact ⟨rfl, rfl, .inl ⟨rfl, hperm.symm, by simp [admission]⟩⟩
      next next hreserve =>
        split at h
        · cases h
          exact ⟨rfl, rfl, .inl ⟨rfl, hperm.symm, by simp⟩⟩
        next hsame =>
        cases h
        obtain rfl : c.lanes g.lane = current := by grind
        unfold reserve at hreserve
        split at hreserve
        · cases hreserve
        · cases hreserve
          exact ⟨rfl, rfl, .inr (.inl ⟨g, List.mem_of_getElem? hk, by grind,
            rfl, hperm.symm.cons g, rfl⟩)⟩
    next g current hk =>
      have hperm := guards_perm hk
      split at h
      · cases h
        exact ⟨rfl, rfl, .inl ⟨rfl, hperm.symm, by simp⟩⟩
      next hsame =>
      cases h
      obtain rfl : c.lanes g.lane = current := by grind
      exact ⟨rfl, rfl, .inr (.inr ⟨g, rfl, hperm, rfl⟩)⟩
    · cases h
  | drop =>
    simp only [step] at h
    split at h
    next g hk =>
      split at h
      · next hzero =>
        cases h
        refine ⟨rfl, rfl, .inr (.inr ⟨g, ?_, guards_perm hk, rfl⟩)⟩
        rw [hzero, Nat.sub_zero, update_eq_self]
      · cases h
        exact ⟨rfl, rfl, .inl ⟨rfl, (guards_perm hk).symm, by simp⟩⟩
    · cases h

theorem liveItems_cons : liveItems (g :: gs) lane =
    (if g.lane = lane then g.items else 0) + liveItems gs lane := by
  unfold liveItems
  split <;> simp [*]

theorem liveItems_perm (h : gs.Perm gs') : liveItems gs lane = liveItems gs' lane :=
  ((h.filter _).map _).sum_eq

/-- With enforcement a lane past the ceiling has one reservation without whose
items it would not be. -/
def Crossed (c : LaneAdmissionControl) : Prop :=
  c.enforce = true → ∀ lane, c.lanes lane ≤ c.maxInFlightItems ∨
    ∃ g ∈ c.guards, g.lane = lane ∧ c.lanes lane ≤ c.maxInFlightItems + g.items

/-- No request being admitted would take its lane's live items past `u64`. -/
def Fits (c : LaneAdmissionControl) (_ : LaneEvent) : Prop :=
  ∀ r ∈ c.requests, guard? r = none → liveItems c.guards r.1.lane + r.1.items ≤ u64Max

instance : DecidableRel Fits := fun c _ => by unfold Fits; infer_instance

theorem step_crossed (hinv : c.Crossed) (h : c.step e = some (t, o)) : t.Crossed := by
  intro henforce lane
  obtain ⟨hmax, hsame, ⟨hcount, hguards, -⟩ | ⟨g, -, hceiling, hcount, hguards, -⟩ |
    ⟨g, hcount, hguards, -⟩⟩ := step_cases h
  all_goals rw [hsame] at henforce; rw [hmax, hcount]
  · simpa [hguards.mem_iff] using hinv henforce lane
  · simp only [hguards.mem_iff]
    by_cases hlane : lane = g.lane
    · subst hlane
      right
      have := hceiling henforce
      refine ⟨g, List.mem_cons_self, rfl, ?_⟩
      rw [update_self, saturatingAdd]
      omega
    · rw [update_of_ne hlane]
      exact (hinv henforce lane).imp_right fun ⟨g', hg', hle⟩ => ⟨g', .tail _ hg', hle⟩
  · have hbefore := hinv henforce lane
    simp only [hguards.mem_iff] at hbefore
    by_cases hlane : lane = g.lane
    · subst hlane
      rw [update_self]
      -- where the crossing reservation itself goes, the lane is back within the ceiling
      obtain hle | ⟨g', hg', hl, hle⟩ := hbefore
      · exact .inl (by omega)
      · obtain rfl | hg' := List.mem_cons.mp hg'
        · exact .inl (by omega)
        · exact .inr ⟨g', hg', hl, by omega⟩
    · rw [update_of_ne hlane]
      refine hbefore.imp_right fun ⟨g', hg', hl, hle⟩ => ⟨g', ?_, hl, hle⟩
      obtain rfl | hg' := List.mem_cons.mp hg'
      · exact absurd hl.symm hlane
      · exact hg'

theorem step_counted (hinv : c.lanes = liveItems c.guards) (hfits : c.Fits e)
    (h : c.step e = some (t, o)) : t.lanes = liveItems t.guards := by
  funext lane
  obtain ⟨-, -, ⟨hcount, hguards, -⟩ | ⟨g, hg, -, hcount, hguards, -⟩ |
    ⟨g, hcount, hguards, -⟩⟩ := step_cases h
  · rw [hcount, hinv, liveItems_perm hguards]
  · have hroom := hfits _ hg rfl
    rw [hcount, hinv, liveItems_perm hguards, liveItems_cons, update_apply]
    grind [saturatingAdd]
  · rw [hcount, hinv, update_apply, liveItems_perm hguards, liveItems_perm hguards]
    grind [liveItems_cons]

theorem le_liveItems (h : g ∈ gs) : g.items ≤ liveItems gs g.lane := by
  rw [liveItems_perm (List.perm_cons_erase h), liveItems_cons, if_pos rfl]
  exact Nat.le_add_right ..

/-- **The accounting of a lane.**  While the live items fit a `u64`, each counter
is the sum of its lane's live reservations, so that no release underflows.  With
enforcement a lane is past the ceiling only by the items of one live reservation.
The next event of any run reserves only within an enforced ceiling, and leaves
every counter alone when it sheds. -/
theorem lane_accounting {max : ℕ} {enforce : Bool} {events : List LaneEvent}
    {out : List LaneAdmission}
    (h : runs step { maxInFlightItems := max, enforce } events = some (c, out)) :
    (Along step Fits { maxInFlightItems := max, enforce } events →
      (∀ lane, c.lanes lane = liveItems c.guards lane) ∧ ∀ g ∈ c.guards, g.items ≤ c.lanes g.lane) ∧
      (enforce = true → ∀ lane, c.lanes lane ≤ max ∨
        ∃ g ∈ c.guards, g.lane = lane ∧ c.lanes lane ≤ max + g.items) ∧
      ∀ e t o, c.step e = some (t, o) → ∀ a ∈ o,
        (a.reservation = none → t.lanes = c.lanes) ∧
          ∀ g, a.reservation = some g → a.inFlight = c.lanes g.lane ∧
            (enforce = true → c.lanes g.lane ≤ max) := by
  obtain ⟨hconfig, hcrossed⟩ := runs_invariant
    (P := fun c => (c.maxInFlightItems = max ∧ c.enforce = enforce) ∧ c.Crossed)
    (fun s e t o hinv hstep => by
      obtain ⟨hmax, henforce, -⟩ := step_cases hstep
      exact ⟨hmax ▸ henforce ▸ hinv.1, step_crossed hinv.2 hstep⟩)
    ⟨⟨rfl, rfl⟩, fun _ _ => .inl (Nat.zero_le _)⟩ h
  obtain ⟨rfl, rfl⟩ := hconfig
  refine ⟨fun hfits => ?_, hcrossed, fun e t o hstep a ha => ?_⟩
  · have hcount : c.lanes = liveItems c.guards := runs_invariant_along
      (Q := fun c => c.lanes = liveItems c.guards)
      (fun s e t o hinv hfits hstep => step_counted hinv hfits hstep) rfl hfits h
    exact ⟨congrFun hcount, fun g hg => hcount ▸ le_liveItems hg⟩
  · obtain ⟨-, -, ⟨hcount, -, hnone⟩ | ⟨g, -, hceiling, -, -, rfl⟩ | ⟨-, -, -, rfl⟩⟩ :=
      step_cases hstep
    · exact ⟨fun _ => hcount, fun g hg => by simp [hnone a ha] at hg⟩
    · obtain rfl := List.mem_singleton.mp ha
      exact ⟨fun hnone => by simp [admission] at hnone, fun g' hg => by
        cases hg
        exact ⟨rfl, hceiling⟩⟩
    · cases ha

/-- Two requests race on one lane. -/
def race : List LaneEvent :=
  [.publish ⟨"p", "a10g", "b"⟩ 2, .publish ⟨"p", "a10g", "b"⟩ 9, .exchange 0 false,
    .exchange 1 false]

theorem lane_accounting_race :
    ∃ c out, runs step { maxInFlightItems := 8, enforce := true } race = some (c, out) ∧
      (∀ lane, c.lanes lane = liveItems c.guards lane) :=
  ⟨_, _, rfl, ((lane_accounting (show runs step _ race = _ from rfl)).1 (by decide +kernel)).1⟩

/-- Two reservations of half the `u64` range each: the counter stops one short of
their sum. -/
theorem lane_counter_saturates :
    ∃ (events : List LaneEvent) (c : LaneAdmissionControl) (out : List LaneAdmission),
      runs step { maxInFlightItems := 8, enforce := false } events = some (c, out) ∧
        ∃ lane, c.lanes lane ≠ liveItems c.guards lane :=
  ⟨[.publish ⟨"p", "a10g", "b"⟩ (2 ^ 63), .exchange 0 false,
    .publish ⟨"p", "a10g", "b"⟩ (2 ^ 63), .exchange 0 false],
    _, _, rfl, ⟨"p", "a10g", "b"⟩, by decide +kernel⟩

end LaneAdmissionControl

end Sie.Gateway
