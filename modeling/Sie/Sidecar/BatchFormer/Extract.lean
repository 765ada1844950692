import Sie.Sidecar.BatchFormer

/-!
# What an extraction does to the queue

One specification for each function on the way to a batch.  Ordering only
permutes the pending requests and never touches the totals, the timers or the
caps; packing takes a prefix and counts its cost; draining splits the queue in
two.  `extractBatchUpTo_spec` puts them together, and every later result about
the queue cites it instead of the functions.
-/

namespace Sie.Sidecar

open Sie.Lib List PendingRequest

universe u v
variable {I : Type u} {T : Type v} [HasCost I] {maxTake maxCost maxItems k : ℕ}
  {l : List (PendingRequest I T)} {s t : Inner I T} {now : Instant} {alone : Bool}
  {reason : FlushReason} {b : FormattedBatch I T} {o ordered : Inner I T}
  {turn : Option BatchableTurn} {maxRequests headRequestLen takeCount batchCost : ℕ}

/-! ## Ordering permutes -/

theorem getElem?_toList_append_eraseIdx_perm {α : Type*} (l : List α) (i : ℕ) :
    ((l[i]?).toList ++ l.eraseIdx i).Perm l := by
  by_cases hi : i < l.length
  · rw [getElem?_eq_getElem hi]
    simpa using getElem_cons_eraseIdx_perm hi
  · rw [getElem?_eq_none (by omega), eraseIdx_of_length_le (by omega)]
    simp

theorem sortPending_perm (s : Inner I T) (now : Instant) : (sortPending s now).Perm s.pending := by
  simp only [sortPending]
  cases oldestAged s now with
  | none => exact perm_insertionSort _ _
  | some =>
    refine List.Perm.trans (List.Perm.append_left _ (perm_insertionSort _ _)) ?_
    exact getElem?_toList_append_eraseIdx_perm _ _

theorem bringAloneForward_perm (l : List (PendingRequest I T)) : (bringAloneForward l).Perm l := by
  simp only [bringAloneForward]
  cases l.findIdx? runsAlone with
  | none => exact List.Perm.refl _
  | some => exact getElem?_toList_append_eraseIdx_perm _ _

theorem makeRoomLoop_perm (turn : BatchableTurn) (room maxTake : ℕ) :
    ∀ (count batchCost owedLeft : ℕ) (l : List (PendingRequest I T)),
      (makeRoomLoop turn room maxTake count batchCost owedLeft l).Perm l := by
  intro count batchCost owedLeft l
  induction l generalizing count batchCost owedLeft with
  | nil => exact List.Perm.refl _
  | cons r _ ih =>
    simp only [makeRoomLoop]
    split
    · exact List.Perm.refl _
    split
    · exact (ih _ _ _).cons r
    · split
      · exact filter_append_perm _ _
      · exact (ih _ _ _).cons r

theorem makeRoomForOwed_perm {turn : BatchableTurn} {room : ℕ} {l' : List (PendingRequest I T)}
    (h : makeRoomForOwed l turn room maxTake = some l') : l'.Perm l := by
  simp only [makeRoomForOwed] at h
  split at h
  · cases h
    refine (List.Perm.append_right _ (makeRoomLoop_perm turn room maxTake 0 0 _ _)).trans ?_
    rw [takeWhile_append_dropWhile]
  · cases h

/-- Everything but the order of the queue and the turn is as before. -/
structure SameBooks (s t : Inner I T) : Prop where
  totalCost : t.totalCost = s.totalCost
  firstRequestTime : t.firstRequestTime = s.firstRequestTime
  lastSubmitTime : t.lastSubmitTime = s.lastSubmitTime
  lastBatchAlone : t.lastBatchAlone = s.lastBatchAlone
  config : t.config = s.config

omit [HasCost I] in
theorem SameBooks.trans {r : Inner I T} (h₁ : SameBooks s t) (h₂ : SameBooks t r) :
    SameBooks s r where
  totalCost := h₂.totalCost.trans h₁.totalCost
  firstRequestTime := h₂.firstRequestTime.trans h₁.firstRequestTime
  lastSubmitTime := h₂.lastSubmitTime.trans h₁.lastSubmitTime
  lastBatchAlone := h₂.lastBatchAlone.trans h₁.lastBatchAlone
  config := h₂.config.trans h₁.config

theorem closeFinishedTurn_eq (s : Inner I T) :
    closeFinishedTurn s = s ∨ closeFinishedTurn s = { s with batchableTurn := none } := by
  simp only [closeFinishedTurn]
  split
  · exact .inl rfl
  · split
    · exact .inl rfl
    · exact .inr rfl

theorem closeFinishedTurn_books (s : Inner I T) :
    (closeFinishedTurn s).pending = s.pending ∧
      (closeFinishedTurn s).lastTurnCutoff = s.lastTurnCutoff ∧
      SameBooks s (closeFinishedTurn s) := by
  rcases closeFinishedTurn_eq s with h | h <;> rw [h] <;> exact ⟨rfl, rfl, rfl, rfl, rfl, rfl, rfl⟩

theorem openTurn_books (h : openTurn s maxCost = some t) :
    t.pending = s.pending ∧ SameBooks s t := by
  simp only [openTurn] at h
  split at h
  · split at h
    · cases h
    · cases h
      exact ⟨rfl, rfl, rfl, rfl, rfl, rfl⟩
  · cases h
    exact ⟨rfl, rfl, rfl, rfl, rfl, rfl⟩

theorem arrange_books (s : Inner I T) (alone : Bool) (maxCost maxTake : ℕ)
    (sorted : List (PendingRequest I T)) :
    (arrange s alone maxCost maxTake sorted).pending.Perm sorted ∧
      (arrange s alone maxCost maxTake sorted).lastTurnCutoff = s.lastTurnCutoff ∧
      SameBooks s (arrange s alone maxCost maxTake sorted) := by
  simp only [arrange]
  split
  · exact ⟨bringAloneForward_perm sorted, rfl, rfl, rfl, rfl, rfl, rfl⟩
  split
  · exact ⟨List.Perm.refl _, rfl, rfl, rfl, rfl, rfl, rfl⟩
  split
  · split
    next hroom => exact ⟨makeRoomForOwed_perm hroom, rfl, rfl, rfl, rfl, rfl, rfl⟩
    · exact ⟨List.Perm.refl _, rfl, rfl, rfl, rfl, rfl, rfl⟩
  · exact ⟨List.Perm.refl _, rfl, rfl, rfl, rfl, rfl, rfl⟩

/-- The parts of a successful ordering. -/
theorem orderForNextBatch_eq_some :
    orderForNextBatch s maxCost maxTake now = some (alone, o) ↔
      alone = aloneNext (closeFinishedTurn s) ∧
        ∃ opened, openTurn (closeFinishedTurn s) maxCost = some opened ∧
          o = arrange opened alone maxCost maxTake (sortPending opened now) := by
  simp only [orderForNextBatch]
  cases hopen : openTurn (closeFinishedTurn s) maxCost with
  | none => simp
  | some opened =>
    simp
    constructor
    · rintro ⟨rfl, rfl⟩
      exact ⟨rfl, rfl⟩
    · rintro ⟨rfl, rfl⟩
      exact ⟨rfl, rfl⟩

/-- Ordering permutes the queue and leaves its books alone. -/
theorem orderForNextBatch_books (h : orderForNextBatch s maxCost maxTake now = some (alone, o)) :
    o.pending.Perm s.pending ∧ SameBooks s o := by
  obtain ⟨-, opened, hopen, rfl⟩ := orderForNextBatch_eq_some.mp h
  obtain ⟨hpend₁, -, hbooks₁⟩ := closeFinishedTurn_books s
  obtain ⟨hpend₂, hbooks₂⟩ := openTurn_books hopen
  obtain ⟨hperm, -, hbooks₃⟩ := arrange_books opened alone maxCost maxTake (sortPending opened now)
  refine ⟨?_, (hbooks₁.trans hbooks₂).trans hbooks₃⟩
  rw [← hpend₁, ← hpend₂]
  exact hperm.trans (sortPending_perm opened now)

theorem orderForNextBatch_isSome (hne : s.pending ≠ []) (maxCost maxTake : ℕ) (now : Instant) :
    (orderForNextBatch s maxCost maxTake now).isSome := by
  have hpend := (closeFinishedTurn_books s).1
  have hopen : (openTurn (closeFinishedTurn s) maxCost).isSome := by
    simp only [openTurn]
    split
    · split
      next hnone =>
        rw [hpend, latestArrival, max?_eq_none_iff, map_eq_nil_iff] at hnone
        exact absurd hnone hne
      · rfl
    · rfl
  obtain ⟨_, hopened⟩ := Option.isSome_iff_exists.mp hopen
  simp [orderForNextBatch, hopened]

/-! ## Packing takes a prefix -/

/-- The pack takes some number of requests from the front and counts their cost. -/
theorem packLoop_spec (turn : Option BatchableTurn)
    (maxItems maxRequests headRequestLen maxCost : ℕ) (takeCount batchCost : ℕ)
    (l : List (PendingRequest I T)) :
    ∃ k ≤ l.length,
      packLoop turn maxItems maxRequests headRequestLen maxCost takeCount batchCost l =
        (takeCount + k, batchCost + costSum (l.take k)) := by
  induction l generalizing takeCount batchCost with
  | nil => exact ⟨0, le_rfl, by simp [packLoop]⟩
  | cons r rest ih =>
    obtain ⟨k, hk, hpack⟩ := ih (takeCount + 1) (batchCost + r.cost)
    have stop : ∃ k ≤ (r :: rest).length,
        (takeCount, batchCost) = (takeCount + k, batchCost + costSum ((r :: rest).take k)) :=
      ⟨0, Nat.zero_le _, by simp⟩
    simp only [packLoop]
    split_ifs
    · exact stop
    · exact stop
    · exact stop
    · exact stop
    · exact ⟨1, by simp, by simp⟩
    · refine ⟨k + 1, by simpa using hk, ?_⟩
      rw [hpack]
      simp [costSum_cons]
      omega

/-- A nonempty queue yields at least one request, whatever its cost. -/
theorem packLoop_pos (turn : Option BatchableTurn) (maxRequests headRequestLen maxCost : ℕ)
    (hmax : 0 < maxItems) (hne : l ≠ []) :
    0 < (packLoop turn maxItems maxRequests headRequestLen maxCost 0 0 l).1 := by
  cases l with
  | nil => exact absurd rfl hne
  | cons r rest =>
    simp only [packLoop, Nat.lt_irrefl, and_false, if_false, Nat.le_zero_eq, Nat.ne_of_gt hmax]
    split_ifs
    · exact Nat.zero_lt_one
    obtain ⟨k, -, hpack⟩ := packLoop_spec turn maxItems maxRequests headRequestLen maxCost
      (0 + 1) (0 + r.cost) rest
    rw [hpack]
    omega

/-- What the pack takes behind its first request: batchable requests that the turn
serves, within the cost cap. -/
theorem packLoop_taken (hpos : 0 < takeCount)
    (h : (packLoop turn maxItems maxRequests headRequestLen maxCost takeCount batchCost l).1 =
      takeCount + k) :
    (∀ r ∈ l.take k, r.runsAlone = false ∧ ∀ t, turn = some t → t.serves r) ∧
      (k = 0 ∨ batchCost + costSum (l.take k) ≤ maxCost) := by
  induction l generalizing takeCount batchCost k with
  | nil =>
    obtain rfl : k = 0 := by simpa [packLoop] using h.symm
    simp
  | cons r rest ih =>
    simp only [packLoop] at h
    have stop : takeCount = takeCount + k →
        (∀ x ∈ (r :: rest).take k, x.runsAlone = false ∧ ∀ t, turn = some t → t.serves x) ∧
          (k = 0 ∨ batchCost + costSum ((r :: rest).take k) ≤ maxCost) := by
      intro _
      obtain rfl : k = 0 := by omega
      simp
    split_ifs at h with hitems halone hserves hcost hstop
    · exact stop h
    · exact stop h
    · exact stop h
    · exact stop h
    all_goals
      have hbatchable : r.runsAlone = false := by simpa [hpos] using halone
      have hserved : ∀ t, turn = some t → t.serves r := by
        rintro t rfl
        simpa [hpos] using hserves
      have hfits : batchCost + r.cost ≤ maxCost := by
        rw [not_and] at hcost
        by_contra hgt
        exact hcost (by omega) hpos
    · obtain rfl : k = 1 := by omega
      simpa using ⟨⟨hbatchable, hserved⟩, hfits⟩
    · obtain ⟨j, -, hj⟩ := packLoop_spec turn maxItems maxRequests headRequestLen maxCost
        (takeCount + 1) (batchCost + r.cost) rest
      obtain rfl : k = j + 1 := by rw [hj] at h; omega
      obtain ⟨hall, hrest⟩ := ih (Nat.succ_pos _) (by rw [hj])
      rw [take_succ_cons, costSum_cons]
      refine ⟨forall_mem_cons.mpr ⟨⟨hbatchable, hserved⟩, hall⟩, .inr ?_⟩
      rcases hrest with rfl | hrest
      · simpa using hfits
      · omega

/-- What a pack takes: a single request, or batchable ones within the cost cap
that, but for the first, the turn serves. -/
theorem packLoop_cases {r : PendingRequest I T}
    (h : (packLoop turn maxItems maxRequests headRequestLen maxCost 0 0 (r :: l)).1 = k) :
    k ≤ 1 ∨ r.runsAlone = false ∧ costSum ((r :: l).take k) ≤ maxCost ∧
      ∀ x ∈ l.take (k - 1), x.runsAlone = false ∧ ∀ t, turn = some t → t.serves x := by
  simp only [packLoop, Nat.lt_irrefl, and_false, if_false] at h
  split_ifs at h with hitems hstop
  · omega
  · omega
  obtain ⟨j, -, hj⟩ := packLoop_spec turn maxItems maxRequests headRequestLen maxCost
    (0 + 1) (0 + r.cost) l
  obtain rfl : k = j + 1 := by rw [hj] at h; omega
  obtain ⟨hall, hcost⟩ := packLoop_taken (k := j) Nat.one_pos (by rw [hj])
  rcases hcost with rfl | hcost
  · exact .inl le_rfl
  · refine .inr ⟨by simpa using fun h => hstop (.inl h), ?_, hall⟩
    rw [take_succ_cons, costSum_cons]
    omega

theorem bringHeadRequestForward_perm (s : Inner I T) :
    (bringHeadRequestForward s).2.Perm s.pending := by
  simp only [bringHeadRequestForward]
  split
  · exact List.Perm.refl _
  split
  · exact List.Perm.refl _
  · split
    · exact List.Perm.refl _
    · exact filter_append_perm _ _

/-! ## The books after a batch -/

theorem recordBatch_books (s : Inner I T) (takeCount batchCost : ℕ) :
    (recordBatch s takeCount batchCost).pending = s.pending ∧
      (recordBatch s takeCount batchCost).totalCost = s.totalCost ∧
      (recordBatch s takeCount batchCost).config = s.config ∧
      (recordBatch s takeCount batchCost).lastTurnCutoff = s.lastTurnCutoff := by
  simp only [recordBatch]
  split_ifs <;> exact ⟨rfl, rfl, rfl, rfl⟩

omit [HasCost I] in
theorem drainTaken_eq_some (h : drainTaken s takeCount batchCost reason = some (b, t)) :
    batchCost ≤ s.totalCost ∧
      b = { items := (s.pending.take takeCount).map item
            metadata := (s.pending.take takeCount).map metadata
            totalCost := batchCost
            flushReason := reason } ∧
      t = { s with
            pending := s.pending.drop takeCount
            totalCost := s.totalCost - batchCost
            firstRequestTime := ((s.pending.drop takeCount).map arrivalTime).min?
            lastSubmitTime :=
              ((s.pending.drop takeCount).map arrivalTime).max? } := by
  simp only [drainTaken, checkedSub] at h
  by_cases hle : batchCost ≤ s.totalCost
  · rw [if_pos hle] at h
    cases h
    exact ⟨hle, rfl, rfl⟩
  · rw [if_neg hle] at h
    cases h

/-- The requests an extraction packs from, and how many it takes: the ordered
queue, in a turn as the turn left it, otherwise with the head request brought
forward. -/
structure Packs (s : Inner I T) (maxItems : ℕ) (now : Instant) (alone : Bool)
    (ordered : Inner I T) (ready : List (PendingRequest I T)) (k : ℕ) : Prop where
  order : orderForNextBatch s (effectiveMaxCost s)
    (max (min maxItems s.config.maxBatchRequests) 1) now = some (alone, ordered)
  perm : ready.Perm s.pending
  le_length : k ≤ ready.length
  pos : s.pending ≠ [] → 0 < maxItems → 0 < k
  /-- A batch of a turn is packed from the turn's own order. -/
  turn : ∀ t, alone = false → ordered.batchableTurn = some t →
    ready = ordered.pending ∧
      packLoop (some t) maxItems s.config.maxBatchRequests 0
        (min (effectiveMaxCost s) t.costLeft) 0 0 ready = (k, costSum (ready.take k))
  /-- Outside a turn the whole queue is packed, under the batch's own cost cap. -/
  outside : batchTurn alone ordered = none → ∃ headRequestLen,
    packLoop none maxItems s.config.maxBatchRequests headRequestLen (effectiveMaxCost s) 0 0 ready =
      (k, costSum (ready.take k))
  /-- Behind a runs-alone head the queue keeps the order that brought it there. -/
  alone_ready : alone = true → ready = ordered.pending

/-- The pack of an extraction whose ordering succeeded. -/
theorem packs_of_order (horder : orderForNextBatch s (effectiveMaxCost s)
      (max (min maxItems s.config.maxBatchRequests) 1) now = some (alone, ordered)) :
    ∃ k, Packs s maxItems now alone ordered (headRequest alone (alonePending s) ordered).2 k ∧
      packLoop (batchTurn alone ordered) maxItems s.config.maxBatchRequests
          (headRequest alone (alonePending s) ordered).1
          (batchCostCap (effectiveMaxCost s) (batchTurn alone ordered)) 0 0
          (headRequest alone (alonePending s) ordered).2 =
        (k, costSum ((headRequest alone (alonePending s) ordered).2.take k)) := by
  have hbooks := orderForNextBatch_books horder
  have hready : (headRequest alone (alonePending s) ordered).2.Perm s.pending := by
    simp only [headRequest]
    split
    · exact (bringHeadRequestForward_perm ordered).trans hbooks.1
    · exact hbooks.1
  obtain ⟨k, hk, hpack⟩ := packLoop_spec (batchTurn alone ordered) maxItems
    s.config.maxBatchRequests (headRequest alone (alonePending s) ordered).1
    (batchCostCap (effectiveMaxCost s) (batchTurn alone ordered)) 0 0
    (headRequest alone (alonePending s) ordered).2
  rw [Nat.zero_add, Nat.zero_add] at hpack
  refine ⟨k, ⟨horder, hready, hk, ?_, ?_, ?_, ?_⟩, hpack⟩
  · intro hne hmax
    have hne' : (headRequest alone (alonePending s) ordered).2 ≠ [] := fun hnil =>
      hne (by simpa [hnil] using hready.symm)
    have hpos := packLoop_pos (batchTurn alone ordered) s.config.maxBatchRequests
      (headRequest alone (alonePending s) ordered).1
      (batchCostCap (effectiveMaxCost s) (batchTurn alone ordered)) hmax hne'
    rwa [hpack] at hpos
  · intro turn halone hturn
    have hbatch : batchTurn alone ordered = some turn := by simp [batchTurn, halone, hturn]
    have hhead : headRequest alone (alonePending s) ordered = (0, ordered.pending) := by
      simp [headRequest, hbatch]
    rw [hbatch, hhead] at hpack
    rw [hhead]
    exact ⟨rfl, hpack⟩
  · intro hnone
    rw [hnone] at hpack
    exact ⟨_, hpack⟩
  · intro halone
    simp [headRequest, halone]

/-- The parts of a successful extraction. -/
theorem extractBatchUpTo_eq_some (h : extractBatchUpTo s reason maxItems now = some (b, t)) :
    ∃ alone ordered ready k, Packs s maxItems now alone ordered ready k ∧
      drainTaken (recordBatch { ordered with pending := ready } k (costSum (ready.take k))) k
        (costSum (ready.take k)) reason = some (b, t) := by
  simp only [extractBatchUpTo] at h
  split at h
  · cases h
  rename_i alone ordered horder
  obtain ⟨k, hpacks, hpack⟩ := packs_of_order horder
  rw [hpack] at h
  exact ⟨alone, ordered, _, k, hpacks, h⟩

/-- What an extraction does to the queue: `taken` leaves, the rest stays. -/
structure Extracts (s : Inner I T) (maxItems : ℕ) (b : FormattedBatch I T) (t : Inner I T)
    (taken : List (PendingRequest I T)) : Prop where
  perm : (taken ++ t.pending).Perm s.pending
  items : b.items = taken.map item
  metadata : b.metadata = taken.map metadata
  cost : b.totalCost = costSum taken
  total : t.totalCost + costSum taken = s.totalCost
  config : t.config = s.config
  first : t.firstRequestTime = (t.pending.map arrivalTime).min?
  last : t.lastSubmitTime = (t.pending.map arrivalTime).max?
  pos : s.pending ≠ [] → 0 < maxItems → taken ≠ []

/-- The requests packed and drained are what the extraction takes. -/
theorem extracts_of_packs {ready : List (PendingRequest I T)}
    (hpacks : Packs s maxItems now alone ordered ready k)
    (hdrain : drainTaken (recordBatch { ordered with pending := ready } k (costSum (ready.take k)))
        k (costSum (ready.take k)) reason = some (b, t)) :
    Extracts s maxItems b t (ready.take k) := by
  have hbooks := (orderForNextBatch_books hpacks.order).2
  obtain ⟨hpend, htotal, hconfig, -⟩ :=
    recordBatch_books { ordered with pending := ready } k (costSum (ready.take k))
  obtain ⟨hle, rfl, rfl⟩ := drainTaken_eq_some hdrain
  rw [htotal] at hle
  refine ⟨?_, ?_, ?_, rfl, ?_, hconfig.trans hbooks.config, rfl, rfl, ?_⟩
  · simpa [hpend] using hpacks.perm
  · simp [hpend]
  · simp [hpend]
  · simp only [htotal, ← hbooks.totalCost]
    exact Nat.sub_add_cancel hle
  · intro hne hmax hnil
    have hk := hpacks.pos hne hmax
    have hlen := congrArg length hnil
    rw [length_take, length_nil] at hlen
    have := hpacks.le_length
    omega

/-- **Specification of an extraction.** -/
theorem extractBatchUpTo_spec (h : extractBatchUpTo s reason maxItems now = some (b, t)) :
    ∃ taken, Extracts s maxItems b t taken := by
  obtain ⟨_, _, _, k, hpacks, hdrain⟩ := extractBatchUpTo_eq_some h
  exact ⟨_, extracts_of_packs hpacks hdrain⟩

/-- An extraction from a nonempty queue whose total is right never panics. -/
theorem extractBatchUpTo_isSome (hne : s.pending ≠ []) (htotal : s.totalCost = costSum s.pending)
    (reason : FlushReason) (maxItems : ℕ) (now : Instant) :
    (extractBatchUpTo s reason maxItems now).isSome := by
  obtain ⟨⟨alone, ordered⟩, horder⟩ := Option.isSome_iff_exists.mp
    (orderForNextBatch_isSome hne (effectiveMaxCost s)
      (max (min maxItems s.config.maxBatchRequests) 1) now)
  obtain ⟨k, hpacks, hpack⟩ := packs_of_order horder
  simp only [extractBatchUpTo, horder, hpack]
  generalize (headRequest alone (alonePending s) ordered).2 = ready at hpacks hpack
  obtain ⟨-, htotal', -, -⟩ := recordBatch_books { ordered with pending := ready } k
    (costSum (ready.take k))
  have hle : costSum (ready.take k) ≤ costSum s.pending := by
    rw [← costSum_perm hpacks.perm]
    conv_rhs => rw [← take_append_drop k ready, costSum_append]
    omega
  have hsub : checkedSub ordered.totalCost (costSum (ready.take k)) =
      some (ordered.totalCost - costSum (ready.take k)) := by
    rw [checkedSub, if_pos]
    rwa [(orderForNextBatch_books horder).2.totalCost, htotal]
  simp [drainTaken, htotal', hsub]

end Sie.Sidecar
