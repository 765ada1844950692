import Sie.Lib.Front
import Sie.Sidecar.BatchFormer.Extract

/-!
# What a batchable turn owes

A turn that opens owes the oldest requests earlier turns left over, and its
budget covers them (`owedLeftOver_spec`).  Each batch of the turn is packed so
that what is left of the budget still covers what is still owed
(`makeRoomLoop_covered`): the packer and the loop that reorders its input walk the
queue in lockstep, and where the loop stops looking the packer stops taking.
-/

namespace Sie.Sidecar

open Sie.Lib List BatchableTurn

universe u v
variable {I : Type u} {T : Type v} [HasCost I] {t : BatchableTurn} {r : PendingRequest I T}
  {l : List (PendingRequest I T)} {cutoff : Instant}
  {batchCost k maxItems maxRequests room count : ℕ} {rest : List (PendingRequest I T)}
  {g : Instant × ℕ} {carried : Instant}

/-- Cost of the requests of a list that the turn owes. -/
def owedCost (t : BatchableTurn) (l : List (PendingRequest I T)) : ℕ := costSum (l.filter t.owes)

theorem owedCost_cons_of_owes (l : List (PendingRequest I T)) (h : t.owes r) :
    owedCost t (r :: l) = r.cost + owedCost t l := by
  simp [owedCost, h]

theorem owedCost_cons_of_not_owes (l : List (PendingRequest I T)) (h : ¬t.owes r) :
    owedCost t (r :: l) = owedCost t l := by
  simp [owedCost, h]

@[simp] theorem owedCost_append (t : BatchableTurn) (l₁ l₂ : List (PendingRequest I T)) :
    owedCost t (l₁ ++ l₂) = owedCost t l₁ + owedCost t l₂ := by
  simp [owedCost]

theorem owedCost_perm {l₁ l₂ : List (PendingRequest I T)} (h : l₁.Perm l₂) :
    owedCost t l₁ = owedCost t l₂ := costSum_perm (h.filter _)

theorem owedCost_eq_zero (h : ∀ r ∈ l, ¬t.owes r) : owedCost t l = 0 := by
  have hnil : l.filter t.owes = [] := by simpa using h
  simp [owedCost, hnil]

theorem cost_le_owedCost (hr : r ∈ l) (h : t.owes r) : r.cost ≤ owedCost t l :=
  List.single_le_sum (by simp) _ (mem_map_of_mem (mem_filter.mpr ⟨hr, h⟩))

/-! ## The opening -/

instance : Std.Total leftOverLe where
  total a b := by
    rcases lt_trichotomy a.1 b.1 with h | h | h
    · exact .inl (.inl h)
    · rcases le_total a.2 b.2 with hcost | hcost
      · exact .inl (.inr ⟨h, hcost⟩)
      · exact .inr (.inr ⟨h.symm, hcost⟩)
    · exact .inr (.inl h)

instance : IsTrans (Instant × ℕ) leftOverLe where
  trans a b c := by
    rintro (hab | ⟨hab, hcost⟩) (hbc | ⟨hbc, hcost'⟩)
    · exact .inl (hab.trans hbc)
    · exact .inl (hbc ▸ hab)
    · exact .inl (hab ▸ hbc)
    · exact .inr ⟨hab.trans hbc, hcost.trans hcost'⟩

/-- Cost of the arrivals of a list no later than a cutoff. -/
def costUpTo (cutoff : Instant) (l : List (Instant × ℕ)) : ℕ :=
  ((l.filter fun x => decide (x.1 ≤ cutoff)).map Prod.snd).sum

theorem costUpTo_cons (cutoff : Instant) (x : Instant × ℕ) (l : List (Instant × ℕ)) :
    costUpTo cutoff (x :: l) = (if x.1 ≤ cutoff then x.2 else 0) + costUpTo cutoff l := by
  by_cases h : x.1 ≤ cutoff <;> simp [costUpTo, h]

theorem costUpTo_perm {l₁ l₂ : List (Instant × ℕ)} (h : l₁.Perm l₂) :
    costUpTo cutoff l₁ = costUpTo cutoff l₂ := ((h.filter _).map _).sum_eq

theorem costUpTo_eq_zero {l : List (Instant × ℕ)} (h : ∀ x ∈ l, cutoff < x.1) :
    costUpTo cutoff l = 0 := by
  have hnil : l.filter (fun x => decide (x.1 ≤ cutoff)) = [] := by simpa using h
  simp [costUpTo, hnil]

/-- Merging the pops of one instant keeps the cost up to every cutoff. -/
theorem costUpTo_arrivalGroups (cutoff : Instant) (l : List (Instant × ℕ)) :
    costUpTo cutoff (arrivalGroups l) = costUpTo cutoff l := by
  induction l with
  | nil => rfl
  | cons x _ ih =>
    rw [costUpTo_cons, ← ih]
    simp only [arrivalGroups]
    split
    next hnil => rw [hnil, costUpTo_cons]
    rename_i hgroups
    rw [hgroups]
    split_ifs with hnext hle hle
    · subst hnext
      simp only [costUpTo_cons, if_pos hle]
      omega
    · subst hnext
      simp only [costUpTo_cons, if_neg hle]
      omega
    · simp [costUpTo_cons, if_pos hle]
    · simp [costUpTo_cons, if_neg hle]

section

variable {l : List (Instant × ℕ)}

/-- Every group stands for an arrival of the list. -/
theorem mem_of_mem_arrivalGroups (hg : g ∈ arrivalGroups l) : ∃ x ∈ l, x.1 = g.1 := by
  induction l generalizing g with
  | nil => simp [arrivalGroups] at hg
  | cons x rest ih =>
    obtain ⟨arrival, cost⟩ := x
    have later : ∀ {g}, g ∈ arrivalGroups rest → ∃ x ∈ (arrival, cost) :: rest, x.1 = g.1 := by
      intro g hg
      obtain ⟨x, hx, heq⟩ := ih hg
      exact ⟨x, mem_cons_of_mem _ hx, heq⟩
    simp only [arrivalGroups] at hg
    split at hg
    · obtain rfl := mem_singleton.mp hg
      exact ⟨_, mem_cons_self, rfl⟩
    rename_i hgroups
    split_ifs at hg with hnext
    · rcases mem_cons.mp hg with rfl | hg
      · exact ⟨_, mem_cons_self, rfl⟩
      · exact later (by rw [hgroups]; exact mem_cons_of_mem _ hg)
    · rcases mem_cons.mp hg with rfl | hg
      · exact ⟨_, mem_cons_self, rfl⟩
      · exact later (by rw [hgroups]; exact hg)

/-- The groups of a sorted list stand for strictly later and later instants, and
the first for the first of the list. -/
theorem arrivalGroups_sorted (hl : l.Pairwise fun a b => a.1 ≤ b.1) :
    (arrivalGroups l).Pairwise fun a b => a.1 < b.1 := by
  induction l with
  | nil => exact List.Pairwise.nil
  | cons x rest ih =>
    obtain ⟨arrival, _⟩ := x
    obtain ⟨hx, hrest⟩ := pairwise_cons.mp hl
    have hsorted := ih hrest
    have hle : ∀ g ∈ arrivalGroups rest, arrival ≤ g.1 := by
      intro g hg
      obtain ⟨y, hy, heq⟩ := mem_of_mem_arrivalGroups hg
      exact heq ▸ hx y hy
    simp only [arrivalGroups]
    split
    · exact pairwise_singleton _ _
    rename_i next _ _ hgroups
    rw [hgroups] at hsorted hle
    obtain ⟨hnext, hgroups'⟩ := pairwise_cons.mp hsorted
    split_ifs with heq
    · subst heq
      exact pairwise_cons.mpr ⟨hnext, hgroups'⟩
    refine pairwise_cons.mpr ⟨fun g hg => ?_, hsorted⟩
    have hfirst : arrival ≤ next := hle _ mem_cons_self
    rcases mem_cons.mp hg with rfl | hg
    · exact lt_of_le_of_ne hfirst (Ne.symm heq)
    · exact lt_of_le_of_lt hfirst (hnext g hg)

theorem arrivalGroups_eq_nil (h : arrivalGroups l = []) : l = [] := by
  cases l with
  | nil => rfl
  | cons x =>
    simp only [arrivalGroups] at h
    split at h
    · cases h
    · split_ifs at h

end

/-- Owing more never goes past the cost cap, unless the oldest alone does. -/
theorem oweMore_spec (maxCost : ℕ) (owedCutoff : Instant) (owedCost : ℕ)
    (groups : List (Instant × ℕ)) (hsorted : groups.Pairwise fun a b => a.1 < b.1)
    (hlater : ∀ g ∈ groups, owedCutoff < g.1) :
    owedCutoff ≤ oweMore maxCost owedCutoff owedCost groups ∧
      owedCost + costUpTo (oweMore maxCost owedCutoff owedCost groups) groups ≤
        max owedCost maxCost ∧ (oweMore maxCost owedCutoff owedCost groups = owedCutoff ∨
        ∃ g ∈ groups, g.1 = oweMore maxCost owedCutoff owedCost groups) := by
  induction groups generalizing owedCutoff owedCost with
  | nil => simp [oweMore, costUpTo]
  | cons g _ ih =>
    obtain ⟨arrival, cost⟩ := g
    obtain ⟨hfirst, hrest⟩ := pairwise_cons.mp hsorted
    have harrival : owedCutoff < arrival := hlater _ mem_cons_self
    simp only [oweMore]
    split_ifs with hfull
    · refine ⟨le_rfl, ?_, .inl rfl⟩
      rw [costUpTo_eq_zero hlater]
      omega
    obtain ⟨hge, _, hmem⟩ := ih arrival (owedCost + cost) hrest hfirst
    refine ⟨harrival.le.trans hge, ?_, .inr ?_⟩
    · rw [costUpTo_cons, if_pos hge]
      omega
    · rcases hmem with heq | ⟨g, hg, heq⟩
      · exact ⟨(arrival, cost), mem_cons_self, heq.symm⟩
      · exact ⟨g, mem_cons_of_mem _ hg, heq⟩

/-- The first group is the least of a sorted list. -/
theorem arrivalGroups_head_le {l groups : List (Instant × ℕ)} (hl : l.Pairwise fun a b => a.1 ≤ b.1)
    (h : arrivalGroups l = g :: groups) : ∀ x ∈ l, g.1 ≤ x.1 := by
  cases l with
  | nil => simp
  | cons first =>
    have hhead : g.1 = first.1 := by
      have hfst := congrArg (fun groups => groups.head?.map Prod.fst) h
      simp only [arrivalGroups] at hfst
      split at hfst
      · simpa using hfst.symm
      · split_ifs at hfst <;> simpa using hfst.symm
    intro x hx
    rw [hhead]
    rcases mem_cons.mp hx with rfl | hx
    · exact le_rfl
    · exact (pairwise_cons.mp hl).1 x hx

theorem leftOverHeap_sorted (carried : Instant) (pending : List (PendingRequest I T)) :
    (leftOverHeap carried pending).Pairwise fun a b => a.1 ≤ b.1 := by
  refine (pairwise_insertionSort leftOverLe _).imp ?_
  rintro a b (hlt | ⟨heq, -⟩)
  · exact hlt.le
  · exact heq.le

theorem mem_leftOverUpTo :
    r ∈ leftOverUpTo cutoff l ↔ r ∈ l ∧ r.runsAlone = false ∧ r.arrivalTime ≤ cutoff := by
  simp [leftOverUpTo]

theorem costUpTo_map_leftOver (hle : cutoff ≤ carried) (l : List (PendingRequest I T)) :
    costUpTo cutoff ((leftOverUpTo carried l).map fun r => (r.arrivalTime, r.cost)) =
      costSum (leftOverUpTo cutoff l) := by
  induction l with
  | nil => rfl
  | cons r _ ih =>
    simp only [leftOverUpTo] at ih ⊢
    by_cases halone : r.runsAlone
    · simpa [halone] using ih
    by_cases hcut : r.arrivalTime ≤ cutoff
    · simp [halone, hcut, hcut.trans hle, costUpTo_cons, ih]
    · by_cases hcar : r.arrivalTime ≤ carried
      · simpa [halone, hcut, hcar, costUpTo_cons] using ih
      · simpa [halone, hcut, hcar] using ih

/-- **What a turn opened now owes.**  When earlier turns left something over, the
turn owes the oldest of it, and the cap plus the cost it adds for the oldest
covers everything it owes. -/
theorem owedLeftOver_spec {pending : List (PendingRequest I T)}
    (hne : leftOverUpTo carried pending ≠ []) (maxCost : ℕ) :
    ∃ owedCutoff oldestCost,
      owedLeftOver pending (some carried) maxCost = (some owedCutoff, oldestCost) ∧
        owedCutoff ≤ carried ∧ costSum (leftOverUpTo owedCutoff pending) ≤ maxCost + oldestCost ∧
        ∃ r₀ ∈ leftOverUpTo owedCutoff pending,
          oldestCost = costSum (leftOverUpTo r₀.arrivalTime pending) ∧
          ∀ r ∈ leftOverUpTo carried pending, r₀.arrivalTime ≤ r.arrivalTime := by
  have hperm : (leftOverHeap carried pending).Perm _ := perm_insertionSort _ _
  have hsorted := leftOverHeap_sorted carried pending
  have hfrom : ∀ g ∈ arrivalGroups (leftOverHeap carried pending),
      ∃ r ∈ leftOverUpTo carried pending, r.arrivalTime = g.1 := by
    intro g hg
    obtain ⟨x, hx, heq⟩ := mem_of_mem_arrivalGroups hg
    obtain ⟨r, hr, rfl⟩ := mem_map.mp (hperm.mem_iff.mp hx)
    exact ⟨r, hr, heq⟩
  have hgroups := arrivalGroups_sorted hsorted
  cases hcases : arrivalGroups (leftOverHeap carried pending) with
  | nil =>
    rw [arrivalGroups_eq_nil hcases] at hperm
    exact absurd (map_eq_nil_iff.mp (nil_perm.mp hperm)) hne
  | cons g groups =>
    obtain ⟨oldest, oldestCost⟩ := g
    have hleast := arrivalGroups_head_le hsorted hcases
    rw [hcases] at hgroups hfrom
    obtain ⟨hfirst, hrest⟩ := pairwise_cons.mp hgroups
    obtain ⟨hge, _, hmem⟩ := oweMore_spec maxCost oldest oldestCost groups hrest hfirst
    have hcarried : oweMore maxCost oldest oldestCost groups ≤ carried := by
      obtain ⟨g, hg, heq⟩ : ∃ g ∈ (oldest, oldestCost) :: groups,
          g.1 = oweMore maxCost oldest oldestCost groups := by
        rcases hmem with heq | ⟨g, hg, heq⟩
        · exact ⟨_, mem_cons_self, heq.symm⟩
        · exact ⟨g, mem_cons_of_mem _ hg, heq⟩
      obtain ⟨r, hr, hrg⟩ := hfrom g hg
      rw [← heq, ← hrg]
      exact (mem_leftOverUpTo.mp hr).2.2
    refine ⟨_, oldestCost, by simp [owedLeftOver, hcases], hcarried, ?_, ?_⟩
    · rw [← costUpTo_map_leftOver hcarried, ← costUpTo_perm hperm, ← costUpTo_arrivalGroups,
        hcases, costUpTo_cons, if_pos hge]
      omega
    · obtain ⟨r₀, hr₀, heq⟩ := hfrom _ mem_cons_self
      obtain rfl : r₀.arrivalTime = oldest := heq
      obtain ⟨hpend, hbatchable, hle⟩ := mem_leftOverUpTo.mp hr₀
      refine ⟨r₀, mem_leftOverUpTo.mpr ⟨hpend, hbatchable, hge⟩, ?_, fun r hr =>
        hleast _ (hperm.mem_iff.mpr (mem_map.mpr ⟨r, hr, rfl⟩))⟩
      rw [← costUpTo_map_leftOver hle, ← costUpTo_perm hperm, ← costUpTo_arrivalGroups, hcases,
        costUpTo_cons, if_pos le_rfl, costUpTo_eq_zero hfirst, Nat.add_zero]

/-- What holds of a turn when it opens over the queue `pending`. -/
structure Opens (pending : List (PendingRequest I T)) (carried : Option Instant)
    (turn : BatchableTurn) : Prop where
  cutoff_mem : turn.cutoff ∈ pending.map PendingRequest.arrivalTime
  le_cutoff : ∀ r ∈ pending, r.arrivalTime ≤ turn.cutoff
  covered : owedCost turn pending ≤ turn.costLeft
  /-- The turn owes a request no younger than any that an earlier turn left over. -/
  oldest : ∀ c, carried = some c → ∀ r ∈ leftOverUpTo c pending,
    ∃ r₀ ∈ pending, turn.owes r₀ ∧ r₀.arrivalTime ≤ r.arrivalTime

theorem openTurn_eq_some {s t : Inner I T} {maxCost : ℕ} (h : openTurn s maxCost = some t) :
    (opensTurn s = false ∧ t = s) ∨
      opensTurn s = true ∧ ∃ cutoff, latestArrival s.pending = some cutoff ∧
        t = { s with
          batchableTurn := some
            { cutoff
              owedCutoff := (owedLeftOver s.pending s.lastTurnCutoff maxCost).1
              costLeft := saturatingAdd maxCost
                (owedLeftOver s.pending s.lastTurnCutoff maxCost).2
              tookUnowed := false }
          lastTurnCutoff := some (maxCutoff s.lastTurnCutoff cutoff) } := by
  simp only [openTurn] at h
  split_ifs at h with hopens
  · split at h
    · cases h
    next cutoff hcutoff => exact .inr ⟨hopens, cutoff, hcutoff, (Option.some.inj h).symm⟩
  · exact .inl ⟨by simpa using hopens, (Option.some.inj h).symm⟩

/-- An opened turn covers what it owes, and it owes the oldest left-over request. -/
theorem openTurn_opens {s t : Inner I T} {maxCost : ℕ} (hbound : costSum s.pending ≤ u64Max)
    (hopens : opensTurn s = true) (h : openTurn s maxCost = some t) :
    ∃ turn, t.batchableTurn = some turn ∧ Opens s.pending s.lastTurnCutoff turn ∧
      t.lastTurnCutoff = some (maxCutoff s.lastTurnCutoff turn.cutoff) := by
  rcases openTurn_eq_some h with ⟨hfalse, -⟩ | ⟨-, cutoff, hcutoff, rfl⟩
  · exact absurd hopens (by simp [hfalse])
  have hmax := max?_eq_some_iff.mp hcutoff
  have hle : ∀ r ∈ s.pending, r.arrivalTime ≤ cutoff := fun r hr => hmax.2 _ (mem_map_of_mem hr)
  refine ⟨_, rfl, ⟨hmax.1, hle, ?_, ?_⟩, rfl⟩
  · by_cases hleft : ∃ carried, s.lastTurnCutoff = some carried ∧
        leftOverUpTo carried s.pending ≠ []
    · obtain ⟨carried, hcarried, hne⟩ := hleft
      obtain ⟨owedCutoff, oldestCost, heq, -, hcost, -⟩ := owedLeftOver_spec hne maxCost
      rw [hcarried, heq]
      have howed : ∀ r ∈ s.pending, owes
          ⟨cutoff, some owedCutoff, saturatingAdd maxCost oldestCost, false⟩ r =
            (!r.runsAlone && decide (r.arrivalTime ≤ owedCutoff)) := by
        intro r hr
        simp [owes, serves, hle r hr]
      have hcovered : costSum (leftOverUpTo owedCutoff s.pending) ≤ u64Max :=
        le_trans (costSum_filter_le _ _) hbound
      rw [owedCost, filter_congr howed]
      exact le_min hcost hcovered
    · -- nothing was left over, so nothing is owed
      have hnone : (owedLeftOver s.pending s.lastTurnCutoff maxCost).1 = none := by
        cases hcarried : s.lastTurnCutoff with
        | none => rfl
        | some carried =>
          have hnil : leftOverUpTo carried s.pending = [] := by
            by_contra hne
            exact hleft ⟨carried, hcarried, hne⟩
          simp [owedLeftOver, leftOverHeap, hnil, arrivalGroups]
      rw [owedCost_eq_zero]
      · exact Nat.zero_le _
      · simp [owes, hnone]
  · intro carried hcarried r hr
    obtain ⟨owedCutoff, oldestCost, heq, -, -, r₀, hr₀, -, hleast⟩ :=
      owedLeftOver_spec (ne_nil_of_mem hr) maxCost
    obtain ⟨hmem, hbatchable, howed⟩ := mem_leftOverUpTo.mp hr₀
    refine ⟨r₀, hmem, ?_, hleast r hr⟩
    rw [hcarried, heq]
    simp [owes, serves, hbatchable, hle r₀ hmem, howed]

/-! ## Every batch of the turn -/

theorem owedCost_makeRoomLoop (t : BatchableTurn) (room maxTake count batchCost owedLeft : ℕ)
    (l : List (PendingRequest I T)) (hrest : ∀ r ∈ rest, ¬t.owes r) :
    owedCost t (makeRoomLoop t room maxTake count batchCost owedLeft l ++ rest) = owedCost t l := by
  rw [owedCost_append, owedCost_eq_zero hrest,
    owedCost_perm (makeRoomLoop_perm t room maxTake count batchCost owedLeft l)]
  rfl

/-- After `k` more requests of `l` on top of `batchCost`, the budget covers what is
still owed. -/
def Covered (t : BatchableTurn) (batchCost : ℕ) (l : List (PendingRequest I T)) (k : ℕ) : Prop :=
  owedCost t (l.drop k) = 0 ∨
    batchCost + costSum (l.take k) + owedCost t (l.drop k) ≤ t.costLeft

theorem covered_zero (h : batchCost + owedCost t l ≤ t.costLeft) : Covered t batchCost l 0 :=
  .inr (by simpa using h)

theorem covered_succ (h : Covered t (batchCost + r.cost) l k) :
    Covered t batchCost (r :: l) (k + 1) := by
  rcases h with h | h
  · exact .inl h
  · refine .inr ?_
    rw [take_succ_cons, drop_succ_cons, costSum_cons]
    omega

theorem Covered.le (h : Covered t 0 l k) :
    owedCost t (l.drop k) ≤ t.costLeft - costSum (l.take k) := by
  rcases h with h | h <;> omega

/-- Owed requests in front of ones that are not: whatever prefix is taken, the
budget covers the owed ones left. -/
theorem covered_of_owed_first {owed others : List (PendingRequest I T)}
    (howed : ∀ r ∈ owed, t.owes r) (hothers : ∀ r ∈ others, ¬t.owes r)
    (hcover : batchCost + costSum owed ≤ t.costLeft) (k : ℕ) :
    Covered t batchCost (owed ++ others) k := by
  by_cases hk : k ≤ owed.length
  · right
    rw [drop_append_of_le_length hk, take_append_of_le_length hk, owedCost_append,
      owedCost_eq_zero hothers, owedCost,
      filter_eq_self.mpr fun r hr => howed r (mem_of_mem_drop hr)]
    have hsplit : costSum (owed.take k) + costSum (owed.drop k) = costSum owed := by
      rw [← costSum_append, take_append_drop]
    omega
  · left
    rw [drop_append, drop_of_length_le (by omega), nil_append]
    exact owedCost_eq_zero fun r hr => hothers r (mem_of_mem_drop hr)

/-- The packer at one request of a turn: it stops in front of it, right behind
it, or goes on below the request count cap. -/
theorem packLoop_cons_cases
    (h : (packLoop (some t) maxItems maxRequests 0 room count batchCost (r :: l)).1 = count + k) :
    k = 0 ∨ k = 1 ∨ count + 1 < maxRequests ∧ ∃ j, k = j + 1 ∧
      (packLoop (some t) maxItems maxRequests 0 room (count + 1) (batchCost + r.cost) l).1 =
        count + 1 + j := by
  simp only [packLoop] at h
  split_ifs at h with hitems halone hserves hcost hstop
  · left; simpa using h.symm
  · left; simpa using h.symm
  · left; simpa using h.symm
  · left; simpa using h.symm
  · right; left; simpa [eq_comm] using h
  · right; right
    obtain ⟨j, -, hj⟩ := packLoop_spec (some t) maxItems maxRequests 0 room (count + 1)
      (batchCost + r.cost) l
    have hnext : (packLoop (some t) maxItems maxRequests 0 room (count + 1)
        (batchCost + r.cost) l).1 = count + 1 + j := by rw [hj]
    exact ⟨by omega, j, by omega, hnext⟩

/-- Where the loop that makes room stops looking, the packer stops taking. -/
theorem packLoop_stops (l : List (PendingRequest I T)) (hcount : count = 0 ∨ count < maxRequests)
    (hstop : max (min maxItems maxRequests) 1 ≤ count ∨ (room < batchCost + r.cost ∧ 0 < count)) :
    (packLoop (some t) maxItems maxRequests 0 room count batchCost (r :: l)).1 = count := by
  simp only [packLoop]
  split_ifs with hitems halone hserves hcost
  · rfl
  · rfl
  · rfl
  · rfl
  · omega
  · omega

/-- **Packing keeps the owed requests covered.**  The loop that makes room and the
packer walk the served requests together; the invariant is that the batch so far
and what is still owed fit the budget. -/
theorem makeRoomLoop_covered (hrest : ∀ r ∈ rest, ¬t.owes r)
    (l : List (PendingRequest I T)) (hcount : count = 0 ∨ count < maxRequests)
    (hcover : batchCost + owedCost t l ≤ t.costLeft)
    (hpack : (packLoop (some t) maxItems maxRequests 0 room count batchCost
      (makeRoomLoop t room (max (min maxItems maxRequests) 1) count batchCost (owedCost t l) l ++
        rest)).1 = count + k) :
    Covered t batchCost
      (makeRoomLoop t room (max (min maxItems maxRequests) 1) count batchCost (owedCost t l) l ++
        rest) k := by
  induction l generalizing count batchCost k with
  | nil =>
    exact .inl (owedCost_eq_zero fun r hr => hrest r (mem_of_mem_drop hr))
  | cons r l ih =>
    simp only [makeRoomLoop] at hpack ⊢
    split_ifs at hpack ⊢ with hstop howes hroom
    · rw [cons_append, packLoop_stops _ hcount hstop] at hpack
      obtain rfl : k = 0 := by omega
      refine covered_zero ?_
      rwa [owedCost_append, owedCost_eq_zero hrest]
    · have howedLeft : owedCost t (r :: l) - r.cost = owedCost t l := by
        rw [owedCost_cons_of_owes l howes]
        omega
      have hnext : batchCost + r.cost + owedCost t l ≤ t.costLeft := by
        rw [owedCost_cons_of_owes l howes] at hcover
        omega
      rw [howedLeft] at hpack ⊢
      rw [cons_append] at hpack ⊢
      rcases packLoop_cons_cases hpack with rfl | rfl | ⟨hmax, j, rfl, hj⟩
      · refine covered_zero ?_
        rw [owedCost_cons_of_owes _ howes, owedCost_makeRoomLoop _ _ _ _ _ _ _ hrest]
        omega
      · refine covered_succ (covered_zero ?_)
        rwa [owedCost_makeRoomLoop _ _ _ _ _ _ _ hrest]
      · exact covered_succ (ih (.inr hmax) hnext hj)
    · -- the owed requests move ahead of the first that would not leave them room
      rw [append_assoc]
      refine covered_of_owed_first (fun x hx => (mem_filter.mp hx).2) ?_ hcover k
      intro x hx
      rcases mem_append.mp hx with hx | hx
      · simpa using (mem_filter.mp hx).2
      · exact hrest x hx
    · rw [owedCost_cons_of_not_owes l howes] at hpack hroom hcover ⊢
      rw [cons_append] at hpack ⊢
      rcases packLoop_cons_cases hpack with rfl | rfl | ⟨hmax, j, rfl, hj⟩
      · refine covered_zero ?_
        rwa [owedCost_cons_of_not_owes _ howes, owedCost_makeRoomLoop _ _ _ _ _ _ _ hrest]
      · refine covered_succ (covered_zero ?_)
        rw [owedCost_makeRoomLoop _ _ _ _ _ _ _ hrest]
        omega
      · exact covered_succ (ih (.inr hmax) (by omega) hj)

end Sie.Sidecar
