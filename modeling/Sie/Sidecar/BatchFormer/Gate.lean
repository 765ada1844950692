import Mathlib.Data.Finset.Card
import Sie.Sidecar.BatchFormer.Conservation
import Sie.Sidecar.Engine

/-!
# What the gate relies on

Three facts about one queue that the scheduler's dispatch rule rests on: the
published head is zero exactly when the queue is empty, a batch leaves a remainder
exactly when some request of it is still pending, and a queue that is not full and
outside the runs-alone lane leaves whole.
-/

namespace Sie.Sidecar

open Sie.Lib BatchFormer List

universe u v
variable {I : Type u} {T : Type v} [HasCost I] {b : BatchFormer I T} {s t : Inner I T}

/-! ## The published head -/

/-- The books a scheduler reads of one of its queues. -/
structure Sound (b : BatchFormer I T) : Prop where
  total : b.inner.totalCost = costSum b.inner.pending
  bound : b.inner.totalCost ≤ u64Max
  first : b.inner.firstRequestTime = none ↔ b.inner.pending = []
  head : b.fcfsHeadNs = 0 ↔ b.inner.pending = []

theorem timestampNs_pos (epoch instant : Instant) : timestampNs epoch instant ≠ 0 := by
  have : 1 ≤ timestampNs epoch instant := le_max_right _ _
  omega

omit [HasCost I] in
theorem refreshFcfsHead_eq_zero :
    (b.refreshFcfsHead s).fcfsHeadNs = 0 ↔ s.firstRequestTime = none := by
  simp only [refreshFcfsHead]
  cases s.firstRequestTime with
  | none => simp
  | some => simp [timestampNs_pos]

theorem appendItems_first {items : List (I × T × Instant)} (h : appendItems s items = some t)
    (hne : items ≠ []) : t.firstRequestTime ≠ none := by
  induction items generalizing s with
  | nil => exact absurd rfl hne
  | cons x rest ih =>
    simp only [appendItems] at h
    split at h
    · cases h
    rename_i s₁ hs₁
    cases rest with
    | nil =>
      cases h
      simp [(appendItem_eq_some hs₁).2]
    | cons y rest => exact ih h (by simp)

theorem step_sound {t : BatchFormer I T} {call : BatchFormer.Call I T}
    {out : List (FormattedBatch I T)} (hb : Sound b) (h : b.step call = some (t, out)) :
    Sound t := by
  rcases step_cases h with ⟨s, hs, rfl, -, hne, rfl⟩ | ⟨_, -, rfl, rfl⟩ |
    ⟨-, rfl, rfl⟩ | ⟨_, _, _, _, s, -, -, -, -, hs, rfl, rfl⟩
  · have happ := appendItems_spec hs
    have hfirst := appendItems_first hs hne
    have hpending : s.pending ≠ [] := by
      simp [happ.pending, arrivalRequests, hne]
    constructor
    · rw [afterSubmit_inner, happ.totalCost, happ.pending, hb.total, costSum_append,
        costSum_arrivalRequests]
    · rw [afterSubmit_inner]
      exact happ.bound hb.bound
    · simp [hfirst, hpending]
    · rw [afterSubmit_inner]
      refine iff_of_false ?_ hpending
      simp only [afterSubmit]
      split_ifs with hempty
      · exact fun hzero => hfirst (refreshFcfsHead_eq_zero.mp hzero)
      · exact fun hzero => hempty (by simp [hb.head.mp hzero])
  · exact { hb with }
  · exact hb
  · obtain ⟨_, htaken⟩ := extractBatchUpTo_spec hs
    have hcost := costSum_perm htaken.perm
    rw [costSum_append] at hcost
    have htotal := htaken.total
    have hb₁ := hb.total
    have hb₂ := hb.bound
    have hfirst : s.firstRequestTime = none ↔ s.pending = [] := by simp [htaken.first]
    refine ⟨?_, ?_, hfirst, refreshFcfsHead_eq_zero.trans hfirst⟩
    · rw [refreshFcfsHead_inner]
      omega
    · rw [refreshFcfsHead_inner]
      omega

/-! ## The remainder -/

/-- A batch completes fewer requests than it has items of exactly when one of its
requests is still pending. -/
theorem completedRequests_lt_iff (items : List I) (pending : List (PendingRequest I T)) :
    completedRequests items pending < distinctRequests items ↔
      ∃ key, (∃ item ∈ items, HasCost.requestKey item = some key) ∧
        ∃ r ∈ pending, r.requestKey = some key := by
  have hsplit : completedRequests items pending < distinctRequests items ↔
      (((items.filterMap HasCost.requestKey).filter fun key =>
        !(pending.filterMap PendingRequest.requestKey).contains key).toFinset).card <
      ((items.filterMap HasCost.requestKey).toFinset).card := by
    simp only [completedRequests, distinctRequests, card_toFinset]
    omega
  rw [hsplit, toFinset_filter]
  constructor
  · intro hlt
    by_contra hnone
    refine absurd hlt (not_lt.mpr (Finset.card_le_card fun key hkey => ?_))
    obtain ⟨item, hitem, hitemKey⟩ : ∃ item ∈ items, HasCost.requestKey item = some key := by
      simpa using hkey
    refine Finset.mem_filter.mpr ⟨hkey, ?_⟩
    by_contra hpending
    obtain ⟨r, hr, hrkey⟩ : ∃ r ∈ pending, r.requestKey = some key := by
      simpa using hpending
    exact hnone ⟨key, ⟨item, hitem, hitemKey⟩, r, hr, hrkey⟩
  · rintro ⟨key, ⟨item, hitem, hkey⟩, r, hr, hrkey⟩
    refine Finset.card_lt_card (Finset.filter_ssubset.mpr ⟨key, ?_, ?_⟩)
    · simp
      exact ⟨item, hitem, hkey⟩
    · have hmem : key ∈ pending.filterMap PendingRequest.requestKey :=
        mem_filterMap.mpr ⟨r, hr, hrkey⟩
      simpa using hmem

/-! ## A queue that is not full leaves whole -/

/-- Outside turns, with nothing flagged pending and the last batch not a flagged
item. -/
structure OutsideLane (s : Inner I T) : Prop where
  alone : alonePending s = false
  turn : s.batchableTurn = none
  last : s.lastBatchAlone ≠ some true

instance (s : Inner I T) : Decidable (OutsideLane s) :=
  decidable_of_iff (alonePending s = false ∧ s.batchableTurn = none ∧ s.lastBatchAlone ≠ some true)
    ⟨fun h => ⟨h.1, h.2.1, h.2.2⟩, fun h => ⟨h.alone, h.turn, h.last⟩⟩

theorem foldl_saturatingAdd (l : List (PendingRequest I T)) {a : ℕ} (h : a + costSum l ≤ u64Max) :
    l.foldl (fun acc r => saturatingAdd acc r.cost) a = a + costSum l := by
  induction l generalizing a with
  | nil => rfl
  | cons r _ ih =>
    rw [costSum_cons] at h ⊢
    have hadd : saturatingAdd a r.cost = a + r.cost := by
      rw [saturatingAdd, min_eq_left (by omega)]
    rw [foldl_cons, hadd, ih (by omega)]
    omega

/-- With nothing flagged pending, a queue that is not full is below both caps. -/
theorem below_caps_of_not_full (halone : alonePending s = false) (hne : s.pending ≠ [])
    (hbound : costSum s.pending ≤ u64Max) (hfull : fullReason s = none) :
    costSum s.pending < effectiveMaxCost s ∧ s.pending.length < s.config.maxBatchRequests := by
  have hcounted : s.pending.filter (fun r => !(alonePending s && batchablePending s) ||
      !r.runsAlone) = s.pending := by simp [halone]
  have htotal := foldl_saturatingAdd s.pending (a := 0) (by omega)
  simp only [fullReason, halone, Bool.false_and, Bool.false_eq_true, if_false] at hfull hcounted
  rw [hcounted, htotal] at hfull
  have hlen : ¬s.pending.length = 0 := by simpa using hne
  split_ifs at hfull with h₁ h₂ h₃ h₄
  exact ⟨by omega, by omega⟩

theorem packLoop_all {maxItems maxRequests maxCost : ℕ} (headRequestLen : ℕ)
    (l : List (PendingRequest I T)) {count batchCost : ℕ}
    (halone : ∀ r ∈ l, r.runsAlone = false) (hitems : count + l.length ≤ maxItems)
    (hrequests : count + l.length < maxRequests) (hcost : batchCost + costSum l ≤ maxCost) :
    (packLoop none maxItems maxRequests headRequestLen maxCost count batchCost l).1 =
      count + l.length := by
  induction l generalizing count batchCost with
  | nil => rfl
  | cons r _ ih =>
    rw [length_cons] at hitems hrequests ⊢
    rw [costSum_cons] at hcost
    have hr : r.runsAlone = false := halone r mem_cons_self
    simp [packLoop, hr]
    rw [if_neg (by omega), if_neg (by omega), if_neg (by omega),
      ih (fun x hx => halone x (mem_cons_of_mem _ hx)) (by omega) (by omega) (by omega)]
    omega

/-- **A queue that is not full leaves whole** outside the runs-alone lane. -/
theorem extract_all {reason : FlushReason} {now : Instant} {b : FormattedBatch I T}
    (houtside : OutsideLane s) (hbound : costSum s.pending ≤ u64Max)
    (hcount : s.config.maxBatchRequests ≤ usizeMax) (hne : s.pending ≠ [])
    (hfull : fullReason s = none) (h : extractBatchUpTo s reason usizeMax now = some (b, t)) :
    t.pending = [] := by
  obtain ⟨_, _⟩ := below_caps_of_not_full houtside.alone hne hbound hfull
  obtain ⟨alone, ordered, ready, k, hpacks, hdrain⟩ := extractBatchUpTo_eq_some h
  obtain ⟨halone, opened, hopen, hordered⟩ := orderForNextBatch_eq_some.mp hpacks.order
  have hclosed : closeFinishedTurn s = s := by simp [closeFinishedTurn, houtside.turn]
  have hnext : aloneNext s = false := by simp [aloneNext, houtside.alone]
  have hopens : opensTurn s = false := by
    have hlast : (s.lastBatchAlone == some true) = false := by simpa using houtside.last
    simp [opensTurn, houtside.alone, hlast]
  rw [hclosed] at halone hopen
  obtain rfl : s = opened := by simpa [openTurn, hopens] using hopen
  have hbatch : batchTurn alone ordered = none := by
    simp [batchTurn, hordered, halone, hnext, arrange, houtside.turn]
  have hbatchable : ∀ r ∈ ready, r.runsAlone = false := by
    have hany := houtside.alone
    simp only [alonePending, any_eq_false] at hany
    exact fun r hr => by simpa using hany r (hpacks.perm.mem_iff.mp hr)
  obtain ⟨headRequestLen, hpack⟩ := hpacks.outside hbatch
  have hlen := hpacks.perm.length_eq
  have hready : costSum ready = costSum s.pending := costSum_perm hpacks.perm
  have hall : (packLoop none usizeMax s.config.maxBatchRequests headRequestLen
      (effectiveMaxCost s) 0 0 ready).1 = 0 + ready.length :=
    packLoop_all headRequestLen ready hbatchable (by omega) (by omega) (by omega)
  rw [hpack, Nat.zero_add] at hall
  obtain ⟨-, -, rfl⟩ := drainTaken_eq_some hdrain
  rw [(recordBatch_books _ _ _).1]
  exact drop_of_length_le hall.ge

end Sie.Sidecar
