import Sie.Lib.Run
import Sie.Sidecar.BatchFormer.Batch

/-!
# The caps of one batch

Cost, drain budget, item cap and the runs-alone rule, for an extraction from any queue.  The
item cap gives way only to the request at the head of the queue, and a batch past the cap
holds items of that request alone; the cost cap and the drain budget may still cut it.
-/

namespace Sie.Sidecar

open Sie.Lib List HasCost

universe u v
variable {I : Type u} {T : Type v} [HasCost I] {s t : Inner I T} {l : List (PendingRequest I T)}
  {r : PendingRequest I T}

theorem foldl_min_le (caps : List ℕ) (n : ℕ) :
    caps.foldl min n ≤ n ∧ ∀ cap ∈ caps, caps.foldl min n ≤ cap := by
  induction caps generalizing n with
  | nil => simp
  | cons c caps ih =>
    obtain ⟨hle, hall⟩ := ih (min n c)
    refine ⟨hle.trans (min_le_left _ _), forall_mem_cons.mpr ⟨?_, hall⟩⟩
    exact hle.trans (min_le_right _ _)

/-- The cost cap is within the configured one and the hard cap of every pending request. -/
theorem effectiveMaxCost_le (s : Inner I T) :
    effectiveMaxCost s ≤ s.config.maxBatchCost ∧ ∀ r ∈ s.pending, ∀ cap,
      hardBatchCostCap r.item = some cap → effectiveMaxCost s ≤ cap := by
  obtain ⟨hconfig, hcaps⟩ := foldl_min_le
    (s.pending.filterMap fun r => hardBatchCostCap r.item) s.config.maxBatchCost
  exact ⟨hconfig, fun r hr cap hcap => hcaps cap (mem_filterMap.mpr ⟨r, hr, hcap⟩)⟩

/-- The pack stops at the drain budget, and past the item cap only inside the head request. -/
theorem packLoop_count (turn : Option BatchableTurn)
    (maxItems maxRequests headRequestLen maxCost takeCount batchCost : ℕ)
    (l : List (PendingRequest I T)) (k : ℕ)
    (h : (packLoop turn maxItems maxRequests headRequestLen maxCost takeCount batchCost l).1 = k)
    (hle : takeCount ≤ maxItems) :
    k ≤ maxItems ∧ (k ≤ takeCount ∨ k ≤ max (takeCount + 1) maxRequests ∨ k ≤ headRequestLen) := by
  induction l generalizing takeCount batchCost with
  | nil =>
    simp only [packLoop] at h
    omega
  | cons r _ ih =>
    simp only [packLoop] at h
    split_ifs at h with hitems halone hserves hcost hstop
    · omega
    · omega
    · omega
    · omega
    · omega
    · have hnext := ih _ _ h (by omega)
      omega

/-- What `bringHeadRequestForward` says of a request it brings forward. -/
theorem bringHeadRequestForward_len {n : ℕ} (hn : n ≤ (bringHeadRequestForward s).1)
    (hpos : 0 < n) :
    ∃ key, (s.pending.filter fun r => r.requestKey == some key).length ≤ s.config.maxRequestItems ∧
      ∀ r ∈ (bringHeadRequestForward s).2.take n, r.requestKey = some key := by
  revert hn
  simp only [bringHeadRequestForward]
  split
  · omega
  split
  · omega
  next key _ =>
  split_ifs with hlen
  · omega
  intro hn
  refine ⟨key, by omega, fun r hr => ?_⟩
  rw [take_append_of_le_length hn] at hr
  simpa using (mem_filter.mp (mem_of_mem_take hr)).2

/-- The queue an extraction packs from, with the lane and the pack. -/
theorem extractBatchUpTo_packed {reason : FlushReason} {maxItems : ℕ} {now : Instant}
    {b : FormattedBatch I T} (h : extractBatchUpTo s reason maxItems now = some (b, t)) :
    ∃ alone ordered k ready, Packs s maxItems now alone ordered ready k ∧
      Extracts s maxItems b t (ready.take k) ∧
      (headRequest alone (alonePending s) ordered).2 = ready ∧
      packLoop (batchTurn alone ordered) maxItems s.config.maxBatchRequests
          (headRequest alone (alonePending s) ordered).1
          (batchCostCap (effectiveMaxCost s) (batchTurn alone ordered)) 0 0 ready =
        (k, costSum (ready.take k)) ∧
      (alone = false → ordered.batchableTurn = none → t.batchableTurn = none) := by
  simp only [extractBatchUpTo] at h
  split at h
  · cases h
  next alone ordered horder =>
  obtain ⟨k, hpacks, hpack⟩ := packs_of_order horder
  rw [hpack] at h
  refine ⟨alone, ordered, k, _, hpacks, extracts_of_packs hpacks h, rfl, hpack, ?_⟩
  intro _ hturn
  obtain ⟨-, -, rfl⟩ := drainTaken_eq_some h
  simp only [recordBatch]
  split_ifs <;> simp [hturn]

/-- A batch past the item cap is a part of the request at the head of the queue, which is
brought forward only outside turns with nothing flagged pending. -/
theorem headRequest_len {alone : Bool} {ordered : Inner I T} {n : ℕ}
    (hn : n ≤ (headRequest alone (alonePending s) ordered).1) (hpos : 0 < n)
    (hperm : ordered.pending.Perm s.pending) (hconfig : ordered.config = s.config) :
    alone = false ∧ ordered.batchableTurn = none ∧ alonePending s = false ∧
      ∃ key, (s.pending.filter fun r => r.requestKey == some key).length ≤
          s.config.maxRequestItems ∧
        ∀ r ∈ (headRequest alone (alonePending s) ordered).2.take n, r.requestKey = some key := by
  unfold headRequest at hn ⊢
  split_ifs at hn ⊢ with hcond
  · obtain ⟨key, hlen, hkey⟩ := bringHeadRequestForward_len hn hpos
    rw [(hperm.filter _).length_eq, hconfig] at hlen
    obtain ⟨⟨halone, hturn⟩, hnone⟩ : (alone = false ∧ batchTurn alone ordered = none) ∧
        alonePending s = false := by simpa using hcond
    subst halone
    exact ⟨rfl, hturn, hnone, key, hlen, hkey⟩
  · omega

namespace BatchFormer

/-- **The caps of a batch.**  A batch of more than one item costs no more than the configured
cap and the hard cap of each of its items.  It has no more items than the drain budget, and no
more than the item cap, unless it was formed outside turns with nothing flagged pending and
holds items of one request alone, which has no more pending items than `maxRequestItems`.
A runs-alone item is a batch of its own. -/
theorem batch_caps {b t : BatchFormer I T} {batch : FormattedBatch I T} {reason : FlushReason}
    {maxItems : ℕ} {now : Instant} (hne : b.inner.pending ≠ []) (hmax : 1 ≤ maxItems)
    (h : b.extract reason maxItems now = some (t, batch)) :
    (batch.items.length = 1 ∨ batch.totalCost ≤ b.inner.config.maxBatchCost ∧
      ∀ item ∈ batch.items, ∀ cap, hardBatchCostCap item = some cap → batch.totalCost ≤ cap) ∧
    batch.items.length ≤ maxItems ∧ (batch.items.length ≤ max 1 b.inner.config.maxBatchRequests ∨
      t.inner.batchableTurn = none ∧ alonePending b.inner = false ∧
      ∃ key, (b.inner.pending.filter fun r => r.requestKey == some key).length ≤
          b.inner.config.maxRequestItems ∧ ∀ item ∈ batch.items, requestKey item = some key) ∧
    ∀ item ∈ batch.items, runsAlone item = true → batch.items = [item] := by
  simp only [extract] at h
  split at h
  · cases h
  next _ s hs =>
  cases h
  obtain ⟨_, _, k', hparts⟩ := extract_parts hs hne hmax
  obtain ⟨alone, ordered, k, ready, hpacks, hextracts, hready, hpack, hturn⟩ :=
    extractBatchUpTo_packed hs
  obtain ⟨hperm, hbooks⟩ := orderForNextBatch_books hpacks.order
  have hlen : batch.items.length = k := by
    rw [hextracts.items, length_map, length_take]
    exact min_eq_left hpacks.le_length
  have hpos := hpacks.pos hne hmax
  obtain ⟨hbudget, _⟩ := packLoop_count _ _ _ _ _ _ _ _ _ (congrArg Prod.fst hpack)
    (Nat.zero_le _)
  rw [hlen]
  refine ⟨?_, hbudget, ?_, fun item hitem halone => (hparts.recorded.2.2 item hitem halone).1⟩
  · obtain ⟨x, rest, rfl⟩ : ∃ x rest, ready = x :: rest := by
      refine exists_cons_of_ne_nil fun hnil => ?_
      have := hpacks.le_length
      simp [hnil] at this
      omega
    obtain _ | ⟨-, hcost, -⟩ := packLoop_cases (congrArg Prod.fst hpack)
    · exact .inl (by omega)
    have hcap : batch.totalCost ≤ effectiveMaxCost b.inner := by
      rw [hextracts.cost]
      refine hcost.trans ?_
      cases batchTurn alone ordered with
      | none => exact le_rfl
      | some => exact min_le_left _ _
    obtain ⟨hconfig, hcaps⟩ := effectiveMaxCost_le b.inner
    refine .inr ⟨hcap.trans hconfig, fun item hitem cap hitemCap => ?_⟩
    rw [hextracts.items] at hitem
    obtain ⟨r, hr, rfl⟩ := mem_map.mp hitem
    exact hcap.trans (hcaps r (hpacks.perm.mem_iff.mp (mem_of_mem_take hr)) cap hitemCap)
  · by_cases hover : k ≤ max 1 b.inner.config.maxBatchRequests
    · exact .inl hover
    have hhead : k ≤ (headRequest alone (alonePending b.inner) ordered).1 := by omega
    obtain ⟨rfl, hnone, hflag, key, hitems, hkey⟩ := headRequest_len hhead hpos hperm hbooks.config
    refine .inr ⟨hturn rfl hnone, hflag, key, hitems, fun item hitem => ?_⟩
    rw [hextracts.items, ← hready] at hitem
    obtain ⟨r, hr, rfl⟩ := mem_map.mp hitem
    exact hkey r hr

/-- Three items of one request, one item to a batch, and a cost cap for two of them. -/
def threeOfOne : List (Call StubItem ℕ) :=
  [.submitMany ((range 3).map fun i =>
    ({ cost := 1, cap := none, alone := false, request := some "a" }, i, 0))]

def threeOfOneConfig : BatchConfig :=
  { maxBatchCost := 2, maxBatchRequests := 1, maxBatchWaitMs := 5, coalesceMs := 1
    coalesceRatio := 1, maxRequestItems := 3 }

/-- The former that holds them. -/
def threeOfOneQueue : BatchFormer StubItem ℕ :=
  (reached step (withEpoch threeOfOneConfig 0) threeOfOne (by decide +kernel)).1

/-- A batch goes past the item cap without the rest of its request. -/
theorem head_request_cut :
    runs step (withEpoch threeOfOneConfig 0) threeOfOne = some (threeOfOneQueue, []) ∧
      ∃ t batch, threeOfOneQueue.extract .drain usizeMax 0 = some (t, batch) ∧
        max 1 threeOfOneConfig.maxBatchRequests < batch.items.length ∧
        (∀ item ∈ batch.items, requestKey item = some "a") ∧
        ∃ r ∈ t.inner.pending, r.requestKey = some "a" := by
  refine ⟨by decide +kernel, ?_⟩
  obtain ⟨⟨t, batch⟩, h⟩ := Option.isSome_iff_exists.mp
    (show (threeOfOneQueue.extract .drain usizeMax 0).isSome by decide +kernel)
  have hall : (threeOfOneQueue.extract .drain usizeMax 0).all fun p =>
      decide (1 < p.2.items.length) && p.2.items.all (fun item => item.request == some "a") &&
        p.1.inner.pending.any (fun r => r.requestKey == some "a") := by decide +kernel
  rw [h] at hall
  refine ⟨t, batch, h, ?_⟩
  simpa [and_assoc, threeOfOneConfig, requestKey] using hall

theorem batch_caps_threeOfOne :
    ∃ t batch, threeOfOneQueue.extract .drain usizeMax 0 = some (t, batch) ∧
      batch.items.length = 2 ∧ batch.totalCost ≤ 2 ∧ t.inner.batchableTurn = none ∧
      ∃ key, ∀ item ∈ batch.items, requestKey item = some key := by
  obtain ⟨⟨t, batch⟩, h⟩ := Option.isSome_iff_exists.mp
    (show (threeOfOneQueue.extract .drain usizeMax 0).isSome by decide +kernel)
  have hlen : (threeOfOneQueue.extract .drain usizeMax 0).map (·.2.items.length) = some 2 := by
    decide +kernel
  rw [h, Option.map_some, Option.some.injEq] at hlen
  obtain ⟨hcost, -, hcount, -⟩ := batch_caps (by decide +kernel) (by decide) h
  obtain ⟨hturn, -, key, -, hkey⟩ := hcount.resolve_left (by rw [hlen]; decide +kernel)
  refine ⟨t, batch, h, hlen, ?_, hturn, key, hkey⟩
  exact (hcost.resolve_left (by rw [hlen]; decide)).1.trans (by decide +kernel)

end BatchFormer

end Sie.Sidecar
