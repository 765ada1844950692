import Sie.Sidecar.BatchFormer.Gate

/-!
# Counting completed requests

`take` says with each batch how many requests it completes.  Over a run in which no item of a
request is submitted once one of its items was taken, that is the number of requests whose
last item the batch takes, and the counts add up to the requests submitted.
-/

namespace Sie.Sidecar.BatchFormer

open Sie.Lib List PendingRequest

universe u v
variable {I : Type u} {T : Type v} [HasCost I]

/-- A call of a queue that is consumed through `take`. -/
inductive TakeCall (I : Type u) (T : Type v)
  | submitMany (items : List (I × T × Instant))
  | updateConfig (config : BatchConfig)
  | take (reason : FlushReason) (now : Instant)

/-- The items a call submits. -/
def TakeCall.items : TakeCall I T → List I
  | .submitMany items => items.map Prod.fst
  | _ => []

/-- The keys of the requests that items came from. -/
def keys (items : List I) : Finset String := (items.filterMap HasCost.requestKey).toFinset

/-- The number of items that are a request of their own. -/
def unkeyed (items : List I) : ℕ := items.countP fun item => (HasCost.requestKey item).isNone

def pendingItems (b : BatchFormer I T) : List I := b.inner.pending.map item

/-- One call of a former from which the items `taken` were taken before; no item of a request
is submitted after one of its items was taken. -/
def takeStep (x : BatchFormer I T × List I) :
    TakeCall I T → Option ((BatchFormer I T × List I) × List (FormattedBatch I T × ℕ))
  | .submitMany items =>
    if Disjoint (keys (items.map Prod.fst)) (keys x.2) then
      (x.1.submitMany items).map fun b => ((b, x.2), [])
    else none
  | .updateConfig config => some ((x.1.updateConfig config, x.2), [])
  | .take reason now =>
    (x.1.take reason now).map fun p =>
      ((p.1, x.2 ++ (p.2.map fun q => q.1.items).getD []), p.2.toList)

variable {items items' : List I} {x y z : BatchFormer I T × List I} {call : TakeCall I T}
  {calls : List (TakeCall I T)} {out os : List (FormattedBatch I T × ℕ)}

theorem keys_append : keys (items ++ items') = keys items ∪ keys items' := by simp [keys]

theorem unkeyed_append : unkeyed (items ++ items') = unkeyed items + unkeyed items' :=
  countP_append

theorem keys_perm (h : items.Perm items') : keys items = keys items' :=
  toFinset_eq_of_perm _ _ (h.filterMap _)

theorem completedRequests_eq (items : List I) (b : BatchFormer I T) :
    completedRequests items b.inner.pending =
      (keys items \ keys b.pendingItems).card + unkeyed items := by
  have hkeys : (b.inner.pending.filterMap requestKey) =
      b.pendingItems.filterMap HasCost.requestKey := by
    rw [pendingItems, filterMap_map]
    rfl
  have hdiff : keys items \ keys b.pendingItems = ((items.filterMap HasCost.requestKey).filter
      fun key => !(b.inner.pending.filterMap requestKey).contains key).toFinset := by
    ext key
    simp [keys, hkeys]
  rw [hdiff, card_toFinset, completedRequests, unkeyed, countP_eq_length_filter]

/-- What a call does: it submits, or it takes a batch. -/
theorem takeStep_cases (h : takeStep x call = some (y, out)) :
    (out = [] ∧ y.2 = x.2 ∧ y.1.pendingItems = x.1.pendingItems ++ call.items ∧
        Disjoint (keys call.items) (keys x.2)) ∨
      ∃ batch, out = [(batch, completedRequests batch.items y.1.inner.pending)] ∧
        call.items = [] ∧ y.2 = x.2 ++ batch.items ∧
        (batch.items ++ y.1.pendingItems).Perm x.1.pendingItems := by
  cases call with
  | submitMany =>
    simp [takeStep] at h
    obtain ⟨hnew, b, hb, rfl, rfl⟩ := h
    refine .inl ⟨rfl, rfl, ?_, hnew⟩
    simp only [submitMany] at hb
    split at hb
    · cases hb
    next s hs =>
    have hpend := (appendItems_spec hs).pending
    split_ifs at hb with hempty
    · cases hb
      simp [TakeCall.items, isEmpty_iff.mp hempty]
    · cases hb
      simp [pendingItems, hpend, arrivalRequests, TakeCall.items, Function.comp_def]
  | updateConfig =>
    cases h
    exact .inl ⟨rfl, rfl, by simp [pendingItems, updateConfig, TakeCall.items],
      by simp [TakeCall.items, keys]⟩
  | take =>
    simp only [takeStep, take, extract] at h
    split_ifs at h with hempty
    · cases h
      exact .inl ⟨rfl, by simp, by simp [TakeCall.items], by simp [TakeCall.items, keys]⟩
    split at h
    · cases h
    next batch s hs =>
    cases h
    obtain ⟨_, htaken⟩ := extractBatchUpTo_spec hs
    refine .inr ⟨batch, rfl, rfl, rfl, ?_⟩
    simpa [pendingItems, htaken.items] using htaken.perm.map item

/-- The items of the batches of a run. -/
def takenItems (os : List (FormattedBatch I T × ℕ)) : List I := os.flatMap fun o => o.1.items

/-- The items submitted in a run. -/
def submittedItems (calls : List (TakeCall I T)) : List I := calls.flatMap TakeCall.items

/-- The calls hand on what they are given, and take up no request that was begun before. -/
def HandsOn (x : BatchFormer I T × List I) (calls : List (TakeCall I T))
    (os : List (FormattedBatch I T × ℕ)) (y : BatchFormer I T × List I) : Prop :=
  y.2 = x.2 ++ takenItems os ∧
    (takenItems os ++ y.1.pendingItems).Perm (x.1.pendingItems ++ submittedItems calls) ∧
    Disjoint (keys (submittedItems calls)) (keys x.2)

theorem runs_handsOn (h : runs takeStep x calls = some (y, os)) : HandsOn x calls os y := by
  refine runs_induction (HandsOn x) ?_ ?_ calls os y h
  · simp [HandsOn, takenItems, submittedItems, keys]
  · rintro calls os y call z _ _ ⟨htaken, hperm, hnew⟩ hstep
    have hsubmitted : submittedItems (calls ++ [call]) = submittedItems calls ++ call.items := by
      simp [submittedItems]
    rw [HandsOn, hsubmitted, keys_append, Finset.disjoint_union_left]
    obtain ⟨rfl, htaken', hpend, hnew'⟩ | ⟨_, rfl, hnone, htaken', hperm'⟩ := takeStep_cases hstep
    · rw [htaken, keys_append, Finset.disjoint_union_right] at hnew'
      refine ⟨by simp [htaken', htaken], ?_, hnew, hnew'.1⟩
      simpa [hpend] using hperm.append_right call.items
    refine ⟨by simp [htaken', htaken, takenItems], ?_, hnew, by simp [hnone, keys]⟩
    rw [hnone, append_nil]
    refine List.Perm.trans ?_ hperm
    simpa [takenItems] using hperm'.append_left (takenItems os)

/-- The requests a run has completed: those begun of which nothing is pending. -/
theorem runs_completes {config : BatchConfig} {epoch : Instant}
    (h : runs takeStep (withEpoch config epoch, []) calls = some (x, os)) :
    (os.map Prod.snd).sum = (keys x.2 \ keys x.1.pendingItems).card + unkeyed x.2 := by
  refine runs_induction (fun _ os x => (os.map Prod.snd).sum =
    (keys x.2 \ keys x.1.pendingItems).card + unkeyed x.2) ?_ ?_ calls os x h
  · simp [keys, unkeyed]
  · intro _ os x _ y _ _ hsum hstep
    obtain ⟨rfl, htaken, hpend, hnew⟩ | ⟨batch, rfl, -, htaken, hperm⟩ := takeStep_cases hstep
    · have hsame : keys y.2 \ keys y.1.pendingItems = keys x.2 \ keys x.1.pendingItems := by
        rw [htaken, hpend, keys_append, Finset.sdiff_union_distrib]
        refine Finset.inter_eq_left.mpr fun key hkey => ?_
        have hmem := (Finset.mem_sdiff.mp hkey).1
        exact Finset.mem_sdiff.mpr ⟨hmem, fun hin => Finset.disjoint_left.mp hnew hin hmem⟩
      rw [hsame, htaken, append_nil, hsum]
    have hkeys := keys_perm hperm
    rw [keys_append] at hkeys
    -- a request is completed before this batch, or by it
    have hsplit : keys y.2 \ keys y.1.pendingItems = (keys x.2 \ keys x.1.pendingItems) ∪
        (keys batch.items \ keys y.1.pendingItems) := by
      rw [htaken, keys_append, ← hkeys]
      grind
    have hdisjoint : Disjoint (keys x.2 \ keys x.1.pendingItems)
        (keys batch.items \ keys y.1.pendingItems) := by
      rw [← hkeys, Finset.disjoint_left]
      grind
    rw [map_append, sum_append, hsum, hsplit, Finset.card_union_of_disjoint hdisjoint, htaken,
      unkeyed_append, map_cons, map_nil, sum_singleton, completedRequests_eq]
    omega

/-- **Completion accounting.**  In a run where no item of a request is submitted once one of
its items was taken: if the queue is empty at the end, the counts of the batches add up to the
requests submitted.  The count of each batch is the number of the requests whose last item it
takes: of which no later batch has an item and none is pending at the end.  The batch has more
requests than it completes just when one of them has an item pending behind it. -/
theorem completion_accounting {config : BatchConfig} {epoch : Instant}
    (h : runs takeStep (withEpoch config epoch, []) calls = some (z, os)) :
    (z.1.inner.pending = [] → (os.map Prod.snd).sum = distinctRequests (submittedItems calls)) ∧
    ∀ calls₁ reason now calls₂ x y os₁ os₂ batch completes,
      calls = calls₁ ++ .take reason now :: calls₂ →
      runs takeStep (withEpoch config epoch, []) calls₁ = some (x, os₁) →
      takeStep x (.take reason now) = some (y, [(batch, completes)]) →
      runs takeStep y calls₂ = some (z, os₂) →
      completes = (keys batch.items \ keys (takenItems os₂ ++ z.1.pendingItems)).card +
          unkeyed batch.items ∧ (completes < distinctRequests batch.items ↔
          ∃ key ∈ keys batch.items, key ∈ keys y.1.pendingItems) := by
  refine ⟨fun hempty => ?_, ?_⟩
  · obtain ⟨htaken, hperm, -⟩ := runs_handsOn h
    have hnone : z.1.pendingItems = [] := by simp [pendingItems, hempty]
    have hall : z.2.Perm (submittedItems calls) := by
      rw [hnone] at hperm
      simpa [htaken, pendingItems, withEpoch] using hperm
    rw [runs_completes h, hnone, keys_perm hall, unkeyed, hall.countP_eq]
    simp [distinctRequests, keys, card_toFinset, countP_eq_length_filter]
  · rintro calls₁ reason now calls₂ x y os₁ os₂ batch completes _ _ hstep h₂
    obtain ⟨hnil, -⟩ | ⟨_, hout, -, htaken, -⟩ := takeStep_cases hstep
    · cases hnil
    cases hout
    obtain ⟨-, hperm, hnew⟩ := runs_handsOn h₂
    rw [htaken, keys_append, Finset.disjoint_union_right] at hnew
    constructor
    · have hsame : keys batch.items \ keys (takenItems os₂ ++ z.1.pendingItems) =
          keys batch.items \ keys y.1.pendingItems := by
        rw [keys_perm hperm, keys_append]
        have := Finset.disjoint_left.mp hnew.2
        grind
      rw [completedRequests_eq, hsame]
    · rw [completedRequests_lt_iff]
      simp [keys, pendingItems, requestKey]

/-- A request cut by the cost cap, beside an item of its own. -/
def cutRequest : List (TakeCall StubItem ℕ) :=
  [.submitMany ([(2, some "a"), (1, none), (3, some "a")].mapIdx fun i x =>
      ({ cost := x.1, cap := none, alone := false, request := x.2 }, i, 0)),
    .take .drain 1, .take .drain 2]

def cutConfig : BatchConfig :=
  { maxBatchCost := 3, maxBatchRequests := 4, maxBatchWaitMs := 5, coalesceMs := 1
    coalesceRatio := 1, maxRequestItems := 1 }

theorem completion_accounting_cutRequest :
    let last := reached takeStep (withEpoch cutConfig 0, []) cutRequest (by decide +kernel)
    last.2.map Prod.snd = [1, 1] ∧
      (last.2.map Prod.snd).sum = distinctRequests (submittedItems cutRequest) :=
  ⟨by decide +kernel, (completion_accounting (runs_eq_reached (by decide +kernel))).1
    (by decide +kernel)⟩

end Sie.Sidecar.BatchFormer
