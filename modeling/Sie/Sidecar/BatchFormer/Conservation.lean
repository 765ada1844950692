import Mathlib.Data.Multiset.AddSub
import Sie.Lib.Run
import Sie.Sidecar.BatchFormer.Extract

/-!
# Conservation in the batch former

Nothing is lost, invented or re-paired between `submit` and the batches.  The
queue's running total and its two timers are kept separately from the queue, so
the invariant `Consistent` says that they still describe it; the head published
for the first-come-first-served pick describes it too.

The timers need a clock that does not run backwards.  The running total needs
`u64` sums that do not overflow, which is the only way a call can panic
(`step_isSome`).
-/

namespace Sie.Sidecar.BatchFormer

open Sie.Lib List PendingRequest Call

universe u v
variable {I : Type u} {T : Type v} [HasCost I] {s : Inner I T} {t b : BatchFormer I T}
  {items : List (I × T × Instant)} {call : Call I T} {out batches : List (FormattedBatch I T)}
  {calls : List (Call I T)} {config : BatchConfig}

/-- The arrival instants of what is pending. -/
def pendingArrivals (b : BatchFormer I T) : List Instant :=
  b.inner.pending.map arrivalTime

/-- The total and the two timers of a queue describe what is pending. -/
structure Described (s : Inner I T) : Prop where
  total : s.totalCost = costSum s.pending
  first : s.firstRequestTime = (s.pending.map arrivalTime).min?
  last : s.lastSubmitTime = (s.pending.map arrivalTime).max?

/-- The books of a batch former describe its queue, the published head included. -/
structure Consistent (b : BatchFormer I T) : Prop extends Described b.inner where
  head : b.fcfsHeadNs = (b.pendingArrivals.min?).elim 0 (timestampNs b.epoch)

/-- Publishing the head of a described queue makes the books consistent. -/
theorem consistent_refreshFcfsHead (b : BatchFormer I T) (hs : Described s) :
    Consistent (b.refreshFcfsHead s) := by
  refine ⟨⟨hs.total, hs.first, hs.last⟩, ?_⟩
  simp only [refreshFcfsHead, pendingArrivals, ← hs.first]
  cases s.firstRequestTime <;> rfl

/-! ## Appending -/

/-- The requests a list of arrivals becomes. -/
def arrivalRequests (items : List (I × T × Instant)) : List (PendingRequest I T) :=
  items.map fun x => { item := x.1, metadata := x.2.1, arrivalTime := x.2.2 }

theorem appendItem_eq_some {t : Inner I T} {item : I} {metadata : T} {now : Instant}
    (h : appendItem s item metadata now = some t) :
    s.totalCost + HasCost.cost item ≤ u64Max ∧
      t = { s with
        pending := s.pending ++ [{ item, metadata, arrivalTime := now }]
        totalCost := s.totalCost + HasCost.cost item
        lastSubmitTime := some now
        firstRequestTime := some (s.firstRequestTime.getD now) } := by
  simp only [appendItem, checkedAdd] at h
  split at h
  · cases h
  rename_i total htotal
  obtain ⟨hle, rfl⟩ : s.totalCost + HasCost.cost item ≤ u64Max ∧
      s.totalCost + HasCost.cost item = total := by
    simpa using htotal
  exact ⟨hle, (Option.some.inj h).symm⟩

theorem min?_concat_of_le {l : List ℕ} {n : ℕ} (h : ∀ m ∈ l, m ≤ n) :
    (l ++ [n]).min? = some (l.min?.getD n) := by
  cases hl : l.min? with
  | none =>
    rw [min?_eq_none_iff] at hl
    simp [hl]
  | some m =>
    rw [min?_eq_some_iff] at hl ⊢
    refine ⟨by simp [hl.1], ?_⟩
    intro x hx
    rcases mem_append.mp hx with hx | hx
    · exact hl.2 x hx
    · rw [mem_singleton.mp hx]
      exact h m hl.1

theorem max?_concat_of_le {l : List ℕ} {n : ℕ} (h : ∀ m ∈ l, m ≤ n) : (l ++ [n]).max? = some n := by
  rw [max?_eq_some_iff]
  refine ⟨by simp, ?_⟩
  intro x hx
  rcases mem_append.mp hx with hx | hx
  · exact h x hx
  · exact (mem_singleton.mp hx).le

theorem described_appendItem {t : Inner I T} {item : I} {metadata : T} {now : Instant}
    (hs : Described s) (hnow : ∀ r ∈ s.pending, r.arrivalTime ≤ now)
    (h : appendItem s item metadata now = some t) : Described t := by
  rw [(appendItem_eq_some h).2]
  have hle : ∀ m ∈ s.pending.map arrivalTime, m ≤ now := by
    intro m hm
    obtain ⟨r, hr, rfl⟩ := mem_map.mp hm
    exact hnow r hr
  constructor
  · simp [hs.total, cost]
  · simp [map_append, map_cons, map_nil, min?_concat_of_le hle, hs.first]
  · simp [map_append, map_cons, map_nil, max?_concat_of_le hle]

/-- The total cost of a list of arrivals. -/
def arrivalCost (items : List (I × T × Instant)) : ℕ := (items.map fun x => HasCost.cost x.1).sum

theorem costSum_arrivalRequests (items : List (I × T × Instant)) :
    costSum (arrivalRequests items) = arrivalCost items := by
  simp [arrivalCost, arrivalRequests, costSum, cost, Function.comp_def]

/-- A call that takes no batch puts its arrivals behind what is pending, counts
their cost, and leaves the lanes alone. -/
structure Receives (s t : Inner I T) (items : List (I × T × Instant)) : Prop where
  pending : t.pending = s.pending ++ arrivalRequests items
  totalCost : t.totalCost = s.totalCost + arrivalCost items
  bound : s.totalCost ≤ u64Max → t.totalCost ≤ u64Max
  lastBatchAlone : t.lastBatchAlone = s.lastBatchAlone
  batchableTurn : t.batchableTurn = s.batchableTurn
  lastTurnCutoff : t.lastTurnCutoff = s.lastTurnCutoff

/-- Appending leaves the caps alone too. -/
structure Appends (s t : Inner I T) (items : List (I × T × Instant)) : Prop
    extends Receives s t items where
  config : t.config = s.config

theorem appendItems_spec {t : Inner I T} (h : appendItems s items = some t) :
    Appends s t items := by
  induction items generalizing s with
  | nil =>
    cases h
    exact ⟨⟨by simp [arrivalRequests], rfl, id, rfl, rfl, rfl⟩, rfl⟩
  | cons x _ ih =>
    simp only [appendItems] at h
    split at h
    · cases h
    rename_i s₁ hs₁
    have hrest := ih h
    obtain ⟨hle, heq⟩ := appendItem_eq_some hs₁
    refine ⟨⟨?_, ?_, fun _ => hrest.bound ?_, ?_, ?_, ?_⟩, ?_⟩
    · simpa [heq, arrivalRequests] using hrest.pending
    · simpa [heq, arrivalCost, add_assoc] using hrest.totalCost
    · simpa [heq] using hle
    · simpa [heq] using hrest.lastBatchAlone
    · simpa [heq] using hrest.batchableTurn
    · simpa [heq] using hrest.lastTurnCutoff
    · simpa [heq] using hrest.config

theorem described_appendItems {t : Inner I T} (hs : Described s)
    (hsorted : (items.map fun x => x.2.2).Pairwise (· ≤ ·))
    (hnow : ∀ r ∈ s.pending, ∀ x ∈ items, r.arrivalTime ≤ x.2.2)
    (h : appendItems s items = some t) : Described t := by
  induction items generalizing s with
  | nil =>
    cases h
    exact hs
  | cons x _ ih =>
    simp only [appendItems] at h
    split at h
    · cases h
    rename_i s₁ hs₁
    rw [map_cons, pairwise_cons] at hsorted
    refine ih (described_appendItem hs ?_ hs₁) hsorted.2 ?_ h
    · exact fun r hr => hnow r hr _ mem_cons_self
    · intro r hr x hx
      rw [(appendItem_eq_some hs₁).2] at hr
      rcases mem_append.mp hr with hr | hr
      · exact hnow r hr x (mem_cons_of_mem _ hx)
      · rw [mem_singleton.mp hr]
        exact hsorted.1 _ (mem_map_of_mem hx)

omit [HasCost I] in
/-- Later arrivals leave the oldest pending one as it is. -/
theorem min?_append_of_le {l : List (PendingRequest I T)} (hl : ¬l.isEmpty)
    (hnow : ∀ r ∈ l, ∀ x ∈ items, r.arrivalTime ≤ x.2.2) :
    ((l ++ arrivalRequests items).map arrivalTime).min? = (l.map arrivalTime).min? := by
  cases hmin : (l.map arrivalTime).min? with
  | none =>
    rw [min?_eq_none_iff, map_eq_nil_iff] at hmin
    simp [hmin] at hl
  | some m =>
    rw [min?_eq_some_iff] at hmin ⊢
    obtain ⟨⟨r, hr, rfl⟩, hle⟩ := And.intro (mem_map.mp hmin.1) hmin.2
    refine ⟨mem_map_of_mem (mem_append_left _ hr), ?_⟩
    intro n hn
    obtain ⟨x, hx, rfl⟩ := mem_map.mp hn
    rcases mem_append.mp hx with hx | hx
    · exact hle _ (mem_map_of_mem hx)
    · obtain ⟨y, hy, rfl⟩ := mem_map.mp hx
      exact hnow r hr y hy

theorem appendItems_isSome (h : s.totalCost + arrivalCost items ≤ u64Max) :
    (appendItems s items).isSome := by
  induction items generalizing s with
  | nil => rfl
  | cons x _ ih =>
    obtain ⟨item, _, _⟩ := x
    simp only [arrivalCost, map_cons, sum_cons] at h
    have hadd : checkedAdd s.totalCost (HasCost.cost item) =
        some (s.totalCost + HasCost.cost item) := by
      rw [checkedAdd, if_pos (by omega)]
    simp only [appendItems, appendItem, hadd]
    apply ih
    simp only [arrivalCost]
    omega

/-! ## One call -/

/-- **Inversion of a step.**  A call appends its arrivals, replaces the caps,
changes nothing, or extracts one batch from a nonempty queue. -/
theorem step_cases (h : b.step call = some (t, out)) :
    (∃ s, appendItems b.inner call.arrivals = some s ∧ out = [] ∧
        call.readings = call.arrivals.map (fun x => x.2.2) ∧ call.arrivals ≠ [] ∧
        t = b.afterSubmit s) ∨
      (∃ config, call = .updateConfig config ∧ out = [] ∧ t = b.updateConfig config) ∨
      (call.arrivals = [] ∧ out = [] ∧ t = b) ∨
      ∃ reason maxItems now batch s, call.arrivals = [] ∧ call.readings = [now] ∧
        b.inner.pending ≠ [] ∧ 0 < maxItems ∧
        extractBatchUpTo b.inner reason maxItems now = some (batch, s) ∧
        out = [batch] ∧ t = b.refreshFcfsHead s := by
  have extracted : ∀ {reason maxItems now} {p : BatchFormer I T × FormattedBatch I T},
      b.extract reason maxItems now = some p → p.1 = t → [p.2] = out →
        ∃ batch s, extractBatchUpTo b.inner reason maxItems now = some (batch, s) ∧
          out = [batch] ∧ t = b.refreshFcfsHead s := by
    rintro reason maxItems now ⟨t', batch⟩ hextract rfl rfl
    simp only [extract] at hextract
    split at hextract
    · cases hextract
    next batch' s hs =>
      obtain ⟨rfl, rfl⟩ := Prod.mk.inj (Option.some.inj hextract)
      exact ⟨batch', s, hs, rfl, rfl⟩
  have hgetBatch : ∀ immediate now, (b.getBatch immediate now).map
        (fun p => (p.1, p.2.toList)) = some (t, out) →
      (t = b ∧ out = []) ∨ ∃ reason, b.inner.pending ≠ [] ∧ ∃ batch s,
        extractBatchUpTo b.inner reason usizeMax now = some (batch, s) ∧
          out = [batch] ∧ t = b.refreshFcfsHead s := by
    intro immediate now hget
    simp only [getBatch] at hget
    cases hreason : flushReason b.inner immediate now with
    | none =>
      rw [hreason] at hget
      obtain ⟨rfl, rfl⟩ : b = t ∧ [] = out := by simpa using hget
      exact .inl ⟨rfl, rfl⟩
    | some reason =>
      rw [hreason] at hget
      have hne : b.inner.pending ≠ [] := by
        intro hnil
        simp [flushReason, hnil] at hreason
      simp only [Option.map_map, Option.map_eq_some_iff, Function.comp_apply, Prod.mk.injEq,
        Option.toList_some] at hget
      obtain ⟨p, hextract, ht, hout⟩ := hget
      exact .inr ⟨reason, hne, extracted hextract ht hout⟩
  have husize : 0 < usizeMax := by decide
  cases call with
  | submit =>
    refine .inl ?_
    simp only [step, submit, Option.map_map, Option.map_eq_some_iff] at h
    obtain ⟨s, hs, ⟨⟩⟩ := h
    exact ⟨s, by simp [arrivals, appendItems, hs], rfl, rfl, by simp [arrivals], rfl⟩
  | submitMany =>
    simp only [step, submitMany, Option.map_eq_some_iff] at h
    obtain ⟨t', ht', ⟨⟩⟩ := h
    split at ht'
    · cases ht'
    rename_i s hs
    split at ht'
    next hempty =>
      cases ht'
      exact .inr (.inr (.inl ⟨isEmpty_iff.mp hempty, rfl, rfl⟩))
    next hne =>
      exact .inl ⟨s, hs, rfl, rfl, by simpa [arrivals] using hne, (Option.some.inj ht').symm⟩
  | updateConfig config =>
    cases h
    exact .inr (.inl ⟨config, rfl, rfl, rfl⟩)
  | getBatch _ now | tryGetBatch now =>
    rcases hgetBatch _ now h with ⟨rfl, rfl⟩ | ⟨reason, hne, batch, s, hs⟩
    · exact .inr (.inr (.inl ⟨rfl, rfl, rfl⟩))
    · exact .inr (.inr (.inr ⟨reason, usizeMax, now, batch, s, rfl, rfl, hne, husize, hs⟩))
  | tryDrainUpTo maxItems now =>
    simp only [step, tryDrainUpTo] at h
    split_ifs at h with hzero hempty
    · obtain ⟨rfl, rfl⟩ : b = t ∧ [] = out := by simpa using h
      exact .inr (.inr (.inl ⟨rfl, rfl, rfl⟩))
    · obtain ⟨rfl, rfl⟩ : b = t ∧ [] = out := by simpa using h
      exact .inr (.inr (.inl ⟨rfl, rfl, rfl⟩))
    simp only [Option.map_map, Option.map_eq_some_iff, Function.comp_apply, Prod.mk.injEq,
      Option.toList_some] at h
    obtain ⟨p, hextract, ht, hout⟩ := h
    obtain ⟨batch, s, hs⟩ := extracted hextract ht hout
    exact .inr (.inr (.inr ⟨.drain, maxItems, now, batch, s, rfl, rfl,
      by simpa using hempty, by omega, hs⟩))
  | take _ now =>
    simp only [step, take] at h
    split_ifs at h with hempty
    · obtain ⟨rfl, rfl⟩ : b = t ∧ [] = out := by simpa using h
      exact .inr (.inr (.inl ⟨rfl, rfl, rfl⟩))
    simp only [Option.map_map, Option.map_eq_some_iff, Function.comp_apply, Prod.mk.injEq,
      Option.map_some, Option.toList_some] at h
    obtain ⟨p, hextract, ht, hout⟩ := h
    obtain ⟨batch, s, hs⟩ := extracted hextract ht hout
    exact .inr (.inr (.inr ⟨_, usizeMax, now, batch, s, rfl, rfl,
      by simpa using hempty, husize, hs⟩))

/-- A call panics only when the costs it submits overflow the running total. -/
theorem step_isSome (hb : Described b.inner) (call : Call I T)
    (hcost : costSum b.inner.pending + arrivalCost call.arrivals ≤ u64Max) :
    (b.step call).isSome := by
  have hextract : b.inner.pending ≠ [] → ∀ reason maxItems now,
      (b.extract reason maxItems now).isSome := by
    intro hne reason maxItems now
    obtain ⟨⟨_, s⟩, hs⟩ := Option.isSome_iff_exists.mp
      (extractBatchUpTo_isSome hne hb.total reason maxItems now)
    simp [extract, hs]
  have hget : ∀ immediate now, (b.getBatch immediate now).isSome := by
    intro immediate now
    simp only [getBatch]
    cases hreason : flushReason b.inner immediate now with
    | none => rfl
    | some reason =>
      have hne : b.inner.pending ≠ [] := by
        intro hnil
        simp [flushReason, hnil] at hreason
      simpa using hextract hne reason usizeMax now
  have happend : ∀ items, call.arrivals = items → (appendItems b.inner items).isSome := by
    rintro items rfl
    exact appendItems_isSome (by rw [hb.total]; exact hcost)
  cases call with
  | submit item metadata now =>
    obtain ⟨s, hs⟩ := Option.isSome_iff_exists.mp (happend [(item, metadata, now)] rfl)
    simp only [appendItems] at hs
    split at hs
    · cases hs
    next s₁ hs₁ => simp [step, submit, hs₁]
  | submitMany items =>
    obtain ⟨s, hs⟩ := Option.isSome_iff_exists.mp (happend items rfl)
    simp only [step, submitMany, hs]
    split_ifs <;> rfl
  | updateConfig => rfl
  | getBatch immediate now => simpa [step] using hget immediate now
  | tryGetBatch now => simpa [step, tryGetBatch] using hget false now
  | tryDrainUpTo maxItems now =>
    simp only [step, tryDrainUpTo]
    split_ifs with hzero hempty
    · rfl
    · rfl
    · simpa using hextract (by simpa using hempty) .drain maxItems now
  | take _ now =>
    simp only [step, take]
    split_ifs with hempty
    · rfl
    · simpa using hextract (by simpa using hempty) _ usizeMax now

/-- What every emitted batch looks like. -/
structure WellFormed (batch : FormattedBatch I T) : Prop where
  nonempty : batch.items ≠ []
  length : batch.items.length = batch.metadata.length
  cost : batch.totalCost = (batch.items.map HasCost.cost).sum

theorem wellFormed_of_extracts {t : Inner I T} {maxItems : ℕ} {batch : FormattedBatch I T}
    {taken : List (PendingRequest I T)} (h : Extracts s maxItems batch t taken)
    (hne : s.pending ≠ []) (hmax : 0 < maxItems) : WellFormed batch where
  nonempty := by simpa [h.items] using h.pos hne hmax
  length := by simp [h.items, h.metadata]
  cost := by rw [h.cost, h.items, map_map]; rfl

omit [HasCost I] in
theorem zip_map_item_metadata (taken : List (PendingRequest I T)) :
    (taken.map item).zip (taken.map metadata) = taken.map pair := by
  induction taken with
  | nil => rfl
  | cons r _ ih => simp [ih, pair]

/-- The pairs pending, as a multiset. -/
def pendingPairs (b : BatchFormer I T) : Multiset (I × T) :=
  (b.inner.pending.map pair : List (I × T))

/-- **One step conserves.**  What is submitted goes into the queue, what is
emitted comes out of it, and the pairs stay pairs. -/
theorem step_conserves (h : b.step call = some (t, out)) :
    (call.submitted : Multiset (I × T)) + b.pendingPairs =
        (out.flatMap FormattedBatch.pairs : List (I × T)) + t.pendingPairs ∧
      ∀ batch ∈ out, WellFormed batch := by
  rcases step_cases h with ⟨s, hs, rfl, -, -, rfl⟩ | ⟨_, rfl, rfl, rfl⟩ |
    ⟨hnone, rfl, rfl⟩ | ⟨_, _, _, batch, s, hnone, -, hne, hmax, hs, rfl, rfl⟩
  · have hpend := (appendItems_spec hs).pending
    have hpairs : (b.afterSubmit s).pendingPairs = b.pendingPairs + call.submitted := by
      simp [pendingPairs, hpend, submitted, arrivalRequests, pair, Function.comp_def]
    rw [hpairs, Multiset.add_comm]
    simp
  · simp [submitted, arrivals, pendingPairs, updateConfig]
  · simp [submitted, hnone]
  · obtain ⟨_, htaken⟩ := extractBatchUpTo_spec hs
    refine ⟨?_, by simpa using wellFormed_of_extracts htaken hne hmax⟩
    have hperm := htaken.perm.map pair
    simp only [submitted, hnone, map_nil, Multiset.coe_nil, pendingPairs, refreshFcfsHead,
      flatMap_cons, flatMap_nil, append_nil, FormattedBatch.pairs, htaken.items, htaken.metadata,
      zip_map_item_metadata, Multiset.coe_add, ← map_append]
    exact Multiset.coe_eq_coe.mpr hperm.symm

/-- The books of a consistent batch former stay consistent through a call that
reads the clock no earlier than what is pending. -/
theorem step_consistent (hb : Consistent b) (hsorted : call.readings.Pairwise (· ≤ ·))
    (hclock : ∀ r ∈ b.inner.pending, ∀ now ∈ call.readings, r.arrivalTime ≤ now)
    (h : b.step call = some (t, out)) : Consistent t := by
  rcases step_cases h with ⟨s, hs, rfl, hreadings, -, rfl⟩ | ⟨_, rfl, rfl, rfl⟩ |
    ⟨hnone, rfl, rfl⟩ | ⟨_, _, now, _, s, hnone, -, _, _, hs, rfl, rfl⟩
  · rw [hreadings] at hsorted hclock
    have hnow : ∀ r ∈ b.inner.pending, ∀ x ∈ call.arrivals, r.arrivalTime ≤ x.2.2 :=
      fun r hr x hx => hclock r hr _ (mem_map_of_mem hx)
    have hdesc := described_appendItems hb.toDescribed hsorted hnow hs
    simp only [afterSubmit]
    split_ifs with hempty
    · exact consistent_refreshFcfsHead b hdesc
    refine ⟨hdesc, ?_⟩
    -- what is appended arrives no earlier, so the published head stays the oldest
    have hmin : (s.pending.map arrivalTime).min? = b.pendingArrivals.min? := by
      rw [(appendItems_spec hs).pending]
      exact min?_append_of_le hempty hnow
    have hhead := hb.head
    rwa [← hmin] at hhead
  · exact ⟨⟨hb.total, hb.first, hb.last⟩, hb.head⟩
  · exact hb
  · obtain ⟨_, htaken⟩ := extractBatchUpTo_spec hs
    refine consistent_refreshFcfsHead b ⟨?_, htaken.first, htaken.last⟩
    have hcost := costSum_perm htaken.perm
    have htotal := htaken.total
    rw [costSum_append] at hcost
    rw [hb.total] at htotal
    omega

/-- What is pending after a call was pending before it or arrived with it. -/
theorem step_pending (h : b.step call = some (t, out)) {r : PendingRequest I T}
    (hr : r ∈ t.inner.pending) : r ∈ b.inner.pending ∨ r ∈ arrivalRequests call.arrivals := by
  rcases step_cases h with ⟨s, hs, rfl, _, -, rfl⟩ | ⟨_, rfl, rfl, rfl⟩ |
    ⟨hnone, rfl, rfl⟩ | ⟨_, _, _, _, s, hnone, -, _, _, hs, rfl, rfl⟩
  · rw [afterSubmit_inner, (appendItems_spec hs).pending] at hr
    exact mem_append.mp hr
  · exact .inl hr
  · exact .inl hr
  · obtain ⟨taken, htaken⟩ := extractBatchUpTo_spec hs
    exact .inl (htaken.perm.mem_iff.mp (mem_append_right taken hr))

/-! ## Whole runs -/

/-- The invariant of a run on a clock that does not run backwards. -/
structure RunInvariant (calls : List (Call I T)) (b : BatchFormer I T) : Prop where
  consistent : Consistent b
  clock : ∀ r ∈ b.inner.pending, r.arrivalTime ∈ calls.flatMap readings

section

variable {epoch : Instant} (h : runs step (withEpoch config epoch) calls = some (b, batches))
include epoch h

theorem runs_runInvariant
    (hclock : (calls.flatMap readings).Pairwise (· ≤ ·)) : RunInvariant calls b := by
  revert hclock
  refine runs_induction
    (fun calls _ b => (calls.flatMap readings).Pairwise (· ≤ ·) → RunInvariant calls b)
    ?_ ?_ calls batches b h
  · intro _
    exact ⟨⟨⟨rfl, rfl, rfl⟩, rfl⟩, by simp [withEpoch]⟩
  · intro calls _ s call t _ _ ih hstep hsorted
    rw [flatMap_append, flatMap_singleton, pairwise_append] at hsorted
    obtain ⟨hconsistent, hclock⟩ := ih hsorted.1
    refine ⟨step_consistent hconsistent hsorted.2.1 ?_ hstep, ?_⟩
    · exact fun r hr now hnow => hsorted.2.2 _ (hclock r hr) now hnow
    · intro r hr
      rw [flatMap_append, flatMap_singleton, mem_append]
      rcases step_pending hstep hr with hr | hr
      · exact .inl (hclock r hr)
      refine .inr ?_
      obtain ⟨x, hx, rfl⟩ := mem_map.mp hr
      cases call with
      | submit => simp_all [arrivals, readings]
      | submitMany => exact mem_map_of_mem hx
      | _ => simp [arrivals] at hx

/-- Every pair submitted in a run has been emitted or is pending, and every batch
is well formed. -/
theorem runs_conserve :
    (calls.flatMap submitted : Multiset (I × T)) =
        (batches.flatMap FormattedBatch.pairs : List (I × T)) + b.pendingPairs ∧
      ∀ batch ∈ batches, WellFormed batch := by
  refine runs_induction
    (fun calls batches b => (calls.flatMap submitted : Multiset (I × T)) =
        (batches.flatMap FormattedBatch.pairs : List (I × T)) + b.pendingPairs ∧
      ∀ batch ∈ batches, WellFormed batch) ?_ ?_ calls batches b h
  · exact ⟨rfl, by simp⟩
  · intro calls batches s _ t _ _ ih hstep
    obtain ⟨hpairs, hwf⟩ := step_conserves hstep
    refine ⟨?_, fun batch hbatch => ?_⟩
    · rw [flatMap_append, flatMap_append, flatMap_singleton, ← Multiset.coe_add, ← Multiset.coe_add,
        ih.1, Multiset.add_assoc, Multiset.add_comm s.pendingPairs, hpairs, Multiset.add_assoc]
    · rcases mem_append.mp hbatch with hbatch | hbatch
      · exact ih.2 batch hbatch
      · exact hwf batch hbatch

end

/-- **Conservation in the batch former.**  In every run on a clock that does not
run backwards, the submitted pairs are the emitted ones and the pending ones;
every batch is nonempty, parallel and adds up; the running total is the cost of
what is pending, so no call but an overflowing submit panics; and the timers and
the published head are the oldest, the newest and the oldest pending arrival. -/
theorem batchFormer_conserves {config : BatchConfig} {epoch : Instant} {calls : List (Call I T)}
    {b : BatchFormer I T} {batches : List (FormattedBatch I T)}
    (h : runs step (withEpoch config epoch) calls = some (b, batches))
    (hclock : (calls.flatMap readings).Pairwise (· ≤ ·)) :
    (calls.flatMap submitted : Multiset (I × T)) =
        (batches.flatMap FormattedBatch.pairs : List (I × T)) +
          (b.inner.pending.map pair : List (I × T)) ∧
      (∀ batch ∈ batches, batch.items ≠ [] ∧ batch.items.length = batch.metadata.length ∧
        batch.totalCost = (batch.items.map HasCost.cost).sum) ∧
      b.inner.totalCost = costSum b.inner.pending ∧
      (∀ call, costSum b.inner.pending + arrivalCost call.arrivals ≤ u64Max →
        (b.step call).isSome) ∧ b.inner.firstRequestTime = b.pendingArrivals.min? ∧
      b.inner.lastSubmitTime = b.pendingArrivals.max? ∧
      b.fcfsHeadNs = (b.pendingArrivals.min?).elim 0 (timestampNs b.epoch) ∧
      (b.inner.firstRequestTime = none ↔ b.inner.pending = []) ∧
      (b.inner.lastSubmitTime = none ↔ b.inner.pending = []) ∧
      (b.fcfsHeadNs = 0 ↔ b.inner.pending = []) := by
  obtain ⟨hpairs, hwf⟩ := runs_conserve h
  have hb := (runs_runInvariant h hclock).consistent
  refine ⟨hpairs, fun batch hbatch => ?_, hb.total, step_isSome hb.toDescribed, hb.first, hb.last,
    hb.head, ?_, ?_, ?_⟩
  · exact ⟨(hwf batch hbatch).nonempty, (hwf batch hbatch).length, (hwf batch hbatch).cost⟩
  · simp [hb.first]
  · simp [hb.last]
  · rw [hb.head]
    cases hmin : b.pendingArrivals.min? with
    | none => simpa [pendingArrivals] using hmin
    | some =>
      have hne : b.inner.pending ≠ [] := by
        intro hnil
        simp [pendingArrivals, hnil] at hmin
      simp [timestampNs, hne]

/-- Three items and one batch: two leave, the cost cap keeps the third. -/
def threeItems : List (Call StubItem ℕ) :=
  [.submitMany [(⟨4, none, false, none⟩, 0, 3), (⟨5, none, false, none⟩, 1, 4)],
    .submit ⟨6, none, false, none⟩ 2 5, .take .idleBypass 9]

theorem batchFormer_conserves_threeItems :
    ∃ b batches, runs step (withEpoch ⟨10, 8, 5, 1, 1, 1⟩ 0) threeItems = some (b, batches) ∧
      batches.map FormattedBatch.metadata = [[0, 1]] ∧
      b.inner.totalCost = costSum b.inner.pending := by
  have hmap : (runs step (withEpoch ⟨10, 8, 5, 1, 1, 1⟩ 0) threeItems).map
      (fun p => p.2.map FormattedBatch.metadata) = some [[0, 1]] := by decide +kernel
  obtain ⟨⟨b, batches⟩, hrun, hbatches⟩ := Option.map_eq_some_iff.mp hmap
  exact ⟨b, batches, hrun, hbatches, (batchFormer_conserves hrun (by decide)).2.2.1⟩

end Sie.Sidecar.BatchFormer
