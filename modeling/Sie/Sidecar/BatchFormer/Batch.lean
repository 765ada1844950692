import Mathlib.Data.List.TakeWhile
import Sie.Sidecar.BatchFormer.Owed

/-!
# One batch of the batch former

Every batch is a runs-alone request by itself, a batch of a batchable turn, or a
batchable batch outside turns with nothing flagged pending (`Extraction.lanes`).
The stable sort keeps runs-alone requests in the order of their arrival, ties
included, so the queue of that lane is first in, first out (`Extraction.fifo`).
-/

namespace Sie.Sidecar

open Sie.Lib List BatchableTurn PendingRequest

universe u v
variable {I : Type u} {T : Type v} [HasCost I] {s opened : Inner I T} {t : BatchableTurn}
  {r : PendingRequest I T} {maxCost : ℕ} {l : List (PendingRequest I T)}

/-! ## The order of a turn's batch -/

/-- The sort of a batch puts the requests the turn serves in front. -/
theorem packCmp_separates (t : BatchableTurn) (a b : PendingRequest I T) (ha : t.serves a)
    (hb : ¬t.serves b) : packCmp (some t) a b ≠ .gt ∧ ¬packCmp (some t) b a ≠ .gt := by
  have halone : a.runsAlone = false := by
    simp [serves] at ha
    exact ha.1
  have hb' : t.serves b = false := by simpa using hb
  simp only [packCmp, Option.any_some, ha, hb', halone]
  have hlt : compare false true = .lt := rfl
  have hgt : compare true false = .gt := rfl
  cases b.runsAlone <;> simp [hlt, hgt]

theorem frontLoaded_sortPending (h : s.batchableTurn = some t) (now : Instant) :
    FrontLoaded t.serves (sortPending s now) := by
  have haged : oldestAged s now = none := by simp [oldestAged, h]
  simp only [sortPending, haged, h]
  exact frontLoaded_insertionSort (packCmp_separates t) s.pending

theorem BatchableTurn.serves_of_owes (h : t.owes r) : t.serves r := by
  simp only [owes, Bool.and_eq_true] at h
  exact h.1

theorem BatchableTurn.batchable_of_serves (h : t.serves r) :
    r.runsAlone = false ∧ r.arrivalTime ≤ t.cutoff := by
  simpa [serves] using h

/-! ## The parts of an extraction -/

/-- The queue as the next batch finds it, with the turn in step. -/
def arranged (s opened : Inner I T) (maxItems : ℕ) (now : Instant) : Inner I T :=
  arrange opened (aloneNext (closeFinishedTurn s)) (effectiveMaxCost s)
    (max (min maxItems s.config.maxBatchRequests) 1) (sortPending opened now)

/-- The parts of an extraction: the turn is closed or opened, the queue arranged,
`k` requests packed from `ready`, and the batch recorded. -/
structure Extraction (s : Inner I T) (maxItems : ℕ) (now : Instant) (b : FormattedBatch I T)
    (s' opened : Inner I T) (ready : List (PendingRequest I T)) (k : ℕ) : Prop where
  nonempty : s.pending ≠ []
  pos : 0 < k
  opens : openTurn (closeFinishedTurn s) (effectiveMaxCost s) = some opened
  packs : Packs s maxItems now (aloneNext (closeFinishedTurn s)) (arranged s opened maxItems now)
    ready k
  extracts : Extracts s maxItems b s' (ready.take k)
  pending : s'.pending = ready.drop k
  cutoff : s'.lastTurnCutoff = opened.lastTurnCutoff
  turn : s'.batchableTurn = (recordBatch { arranged s opened maxItems now with pending := ready } k
    (costSum (ready.take k))).batchableTurn
  lane : s'.lastBatchAlone = (recordBatch { arranged s opened maxItems now with pending := ready } k
    (costSum (ready.take k))).lastBatchAlone

theorem extract_parts {s' : Inner I T} {reason : FlushReason} {maxItems : ℕ} {now : Instant}
    {b : FormattedBatch I T} (h : extractBatchUpTo s reason maxItems now = some (b, s'))
    (hne : s.pending ≠ []) (hmax : 0 < maxItems) :
    ∃ opened ready k, Extraction s maxItems now b s' opened ready k := by
  obtain ⟨_, _, ready, k, hpacks, hdrain⟩ := extractBatchUpTo_eq_some h
  have hextracts := extracts_of_packs hpacks hdrain
  obtain ⟨rfl, opened, hopen, rfl⟩ := orderForNextBatch_eq_some.mp hpacks.order
  obtain ⟨-, -, rfl⟩ := drainTaken_eq_some hdrain
  refine ⟨opened, ready, k, hne, hpacks.pos hne hmax, hopen, hpacks, hextracts, ?_, ?_, rfl, rfl⟩
  · rw [(recordBatch_books _ _ _).1]
  · rw [(recordBatch_books _ _ _).2.2.2]
    exact (arrange_books opened _ _ _ _).2.1

/-! ## The turn of a batch -/

/-- While a request it serves is pending, a turn keeps the lane. -/
theorem aloneNext_eq_false (hopen : openTurn s maxCost = some opened)
    (ht : opened.batchableTurn = some t) (hr : r ∈ s.pending) (hserves : t.serves r) :
    aloneNext s = false := by
  rcases openTurn_eq_some hopen with ⟨-, rfl⟩ | ⟨hopens, -⟩
  · have hbatchable : batchablePending opened = true := by
      simp only [batchablePending, any_eq_true]
      exact ⟨r, hr, by simp [(batchable_of_serves hserves).1]⟩
    simp [aloneNext, hbatchable, ht]
  · simp [opensTurn] at hopens
    exact hopens.1.1

/-- A turn a batch belongs to serves a pending request, which fits what is left of
the budget once the turn has taken one it does not owe. -/
theorem openTurn_serves (hopen : openTurn (closeFinishedTurn s) maxCost = some opened)
    (ht : opened.batchableTurn = some t) (hne : s.pending ≠ []) :
    ∃ r ∈ s.pending, t.serves r ∧ (t.tookUnowed = true → r.cost ≤ t.costLeft) := by
  have hpend := (closeFinishedTurn_books s).1
  rcases openTurn_eq_some hopen with ⟨-, rfl⟩ | ⟨hopens, _, hcutoff, rfl⟩
  · -- the turn was under way and goes on
    cases hturn : s.batchableTurn with
    | none => simp [closeFinishedTurn, hturn] at ht
    | some t₀ =>
      simp only [closeFinishedTurn, hturn] at ht
      split_ifs at ht with hgoes
      · cases hturn.symm.trans ht
        obtain ⟨r, hr, hr'⟩ := any_eq_true.mp hgoes
        simp [goesOn] at hr'
        exact ⟨r, hr, hr'.1, fun htook => hr'.2.resolve_left (by simp [htook])⟩
  · cases ht
    rw [hpend] at hcutoff
    have hbatchable : ∃ r ∈ s.pending, r.runsAlone = false := by
      by_contra hall
      obtain ⟨r, hr⟩ := exists_mem_of_ne_nil _ hne
      have halone : ∀ r ∈ s.pending, r.runsAlone = true := by
        intro r hr
        by_contra hr'
        exact hall ⟨r, hr, by simpa using hr'⟩
      have hnone : batchablePending (closeFinishedTurn s) = false := by
        simpa [batchablePending, hpend] using halone
      have hsome : alonePending (closeFinishedTurn s) = true := by
        simp only [alonePending, hpend, any_eq_true]
        exact ⟨r, hr, halone r hr⟩
      simp [opensTurn, aloneNext, hnone, hsome] at hopens
    obtain ⟨r, hr, hr'⟩ := hbatchable
    refine ⟨r, hr, ?_, by simp⟩
    simp [serves, hr', (max?_eq_some_iff.mp hcutoff).2 _ (mem_map_of_mem hr)]

/-- Outside turns and the runs-alone lane nothing flagged is pending. -/
theorem alonePending_eq_false (hopen : openTurn (closeFinishedTurn s) maxCost = some opened)
    (hturn : opened.batchableTurn = none) (halone : aloneNext (closeFinishedTurn s) = false) :
    alonePending s = false := by
  rcases openTurn_eq_some hopen with ⟨hopens, rfl⟩ | ⟨-, _, -, rfl⟩
  · simp only [opensTurn, halone, hturn, Option.isNone_none, Bool.not_false, Bool.true_and,
      Bool.or_eq_false_iff, alonePending, (closeFinishedTurn_books s).1] at hopens
    exact hopens.1
  · simp at hturn

/-- The queue a turn packs from: the requests it serves, in some order, then the
others; when it owes none that is pending, in the order of the sort. -/
theorem arrange_in_turn (ht : s.batchableTurn = some t) (maxCost maxTake : ℕ)
    (sorted : List (PendingRequest I T)) :
    ∃ front owedCutoff, arrange s false maxCost maxTake sorted = { s with
        pending := front ++ sorted.dropWhile t.serves
        batchableTurn := some { t with owedCutoff } } ∧
      front.Perm (sorted.takeWhile t.serves) ∧
      (owedCutoff = t.owedCutoff ∨ owedCutoff = none ∧ ∀ r ∈ sorted, ¬t.owes r) ∧
      ((∀ r ∈ sorted, ¬t.owes r) → front = sorted.takeWhile t.serves) := by
  have hturn : ∀ l, ({ s with pending := l, batchableTurn := some t } : Inner I T) =
      { s with pending := l } := fun l => by rw [← ht]
  by_cases hsome : t.owedCutoff.isSome
  · by_cases hany : sorted.any t.owes = true
    · refine ⟨_, t.owedCutoff, ?_, makeRoomLoop_perm t (min maxCost t.costLeft) maxTake 0 0
        (costSum (sorted.filter t.owes)) _, .inl rfl, fun hnone => ?_⟩
      · simp [arrange, ht, hsome, makeRoomForOwed, hany, hturn]
      · obtain ⟨r, hr, howes⟩ := any_eq_true.mp hany
        exact absurd howes (hnone r hr)
    · have hnone : ∀ r ∈ sorted, ¬t.owes r := fun r hr howes =>
        hany (any_eq_true.mpr ⟨r, hr, howes⟩)
      refine ⟨_, none, ?_, List.Perm.refl _, .inr ⟨rfl, hnone⟩, fun _ => rfl⟩
      simp [arrange, ht, hsome, makeRoomForOwed, hany]
  · refine ⟨_, t.owedCutoff, ?_, List.Perm.refl _, .inl rfl, fun _ => rfl⟩
    simp [arrange, ht, hsome]

/-! ## One batch -/

/-- A batch of the turn `t`: only requests it serves, charged to its budget. -/
structure OfTurn (s : Inner I T) (t : BatchableTurn) (taken : List (PendingRequest I T))
    (s' : Inner I T) : Prop where
  served : ∀ r ∈ taken, t.serves r
  lane : s'.lastBatchAlone = some false
  next : ∃ owedCutoff, s'.batchableTurn = some { t with
      owedCutoff
      costLeft := t.costLeft - costSum taken
      tookUnowed := t.tookUnowed || taken.any fun r => !t.owes r } ∧
    (owedCutoff = t.owedCutoff ∨ owedCutoff = none ∧ ∀ r ∈ s.pending, ¬t.owes r)

/-- The runs-alone requests of a queue, in its order. -/
def aloneQueue (l : List (PendingRequest I T)) : List (PendingRequest I T) :=
  l.filter runsAlone

@[simp] theorem aloneQueue_append (l₁ l₂ : List (PendingRequest I T)) :
    aloneQueue (l₁ ++ l₂) = aloneQueue l₁ ++ aloneQueue l₂ := filter_append _ _

theorem aloneQueue_eq_nil (h : ∀ r ∈ l, r.runsAlone = false) :
    aloneQueue l = [] := by simpa [aloneQueue] using h

theorem alonePending_eq_false_iff :
    alonePending s = false ↔ ∀ r ∈ s.pending, r.runsAlone = false := by
  simp [alonePending]

/-- The first of a front that is not empty. -/
theorem head_mem_front {front : List (PendingRequest I T)} (hfront : FrontLoaded t.serves l)
    (hperm : front.Perm (l.takeWhile t.serves)) (hr : r ∈ l) (hserves : t.serves r) :
    ∃ x rest, front = x :: rest ∧ t.serves x := by
  have hmem : r ∈ front := by
    rw [← takeWhile_append_dropWhile (p := t.serves) (l := l)] at hr
    rcases mem_append.mp hr with hr | hr
    · exact hperm.mem_iff.mpr hr
    · exact absurd hserves (by simp [hfront.not_of_mem_dropWhile hr])
  obtain ⟨x, rest, rfl⟩ := exists_cons_of_ne_nil (ne_nil_of_mem hmem)
  exact ⟨x, rest, rfl, mem_takeWhile_imp (hperm.mem_iff.mp mem_cons_self)⟩

/-- A runs-alone request brought forward is the first of its lane. -/
theorem bringAloneForward_eq_cons (h : ∃ r ∈ l, r.runsAlone = true) :
    ∃ x rest, bringAloneForward l = x :: rest ∧ x.runsAlone = true ∧
      aloneQueue l = x :: aloneQueue rest := by
  obtain ⟨x, hfind⟩ := Option.isSome_iff_exists.mp (find?_isSome.mpr h)
  obtain ⟨hx, before, after, rfl, hbefore⟩ := find?_eq_some_iff_append.mp hfind
  have hnone : ∀ r ∈ before, r.runsAlone = false := by simpa using hbefore
  have hidx : (before ++ x :: after).findIdx? runsAlone = some before.length := by
    simp [findIdx?_append, findIdx?_eq_none_iff.mpr hnone, findIdx?_cons, hx]
  refine ⟨x, before ++ after, by simp [bringAloneForward, hidx, eraseIdx_append], hx, ?_⟩
  have hcons : aloneQueue (x :: after) = x :: aloneQueue after := by simp [aloneQueue, hx]
  rw [aloneQueue_append, aloneQueue_append, aloneQueue_eq_nil hnone, hcons]
  rfl

section Extraction

variable {s' : Inner I T} {maxItems k : ℕ} {now : Instant} {b : FormattedBatch I T}
  {ready : List (PendingRequest I T)}

section

variable (h : Extraction s maxItems now b s' opened ready k)
include h

theorem Extraction.sorted_perm : (sortPending opened now).Perm s.pending := by
  rw [← (closeFinishedTurn_books s).1, ← (openTurn_books h.opens).1]
  exact sortPending_perm opened now

/-- A batch of the runs-alone lane is one request, the first of that lane. -/
theorem Extraction.ofAlone (halone : aloneNext (closeFinishedTurn s) = true) :
    ∃ x, ready.take k = [x] ∧ x.runsAlone = true ∧ s'.lastBatchAlone = some true ∧
      s'.batchableTurn = none ∧ aloneQueue ready = aloneQueue (sortPending opened now) := by
  have hpos := h.pos
  have hsorted := h.sorted_perm
  obtain ⟨-, -, -, hpacks, -, -, -, hturn, hlane⟩ := h
  rw [arranged, halone] at hpacks hturn hlane
  have hsome : ∃ r ∈ sortPending opened now, r.runsAlone = true := by
    simp [aloneNext, alonePending, (closeFinishedTurn_books s).1] at halone
    obtain ⟨⟨r, hr, hr'⟩, -⟩ := halone
    exact ⟨r, hsorted.mem_iff.mpr hr, hr'⟩
  obtain ⟨x, rest, hbring, hx, hqueue⟩ := bringAloneForward_eq_cons hsome
  obtain rfl : ready = x :: rest := by
    rw [hpacks.alone_ready rfl, ← hbring]
    simp [arrange]
  obtain ⟨_, hpack⟩ := hpacks.outside (by simp [batchTurn])
  obtain rfl : k = 1 := by
    rcases packLoop_cases (congrArg Prod.fst hpack) with _ | ⟨hfalse, -⟩
    · omega
    · rw [hx] at hfalse
      cases hfalse
  refine ⟨x, rfl, hx, by rw [hlane]; simp [recordBatch, hx],
    by rw [hturn]; simp [recordBatch, hx], ?_⟩
  rw [hqueue]
  simp [aloneQueue, hx]

/-- A batch of a turn: only requests it serves, charged to its budget. -/
theorem Extraction.ofTurn {t : BatchableTurn} (ht : opened.batchableTurn = some t) :
    OfTurn s t (ready.take k) s' ∧ aloneQueue ready = aloneQueue (sortPending opened now) := by
  have hpos := h.pos
  obtain ⟨r, hr, hserves, -⟩ := openTurn_serves h.opens ht h.nonempty
  have halone : aloneNext (closeFinishedTurn s) = false :=
    aloneNext_eq_false h.opens ht (by rwa [(closeFinishedTurn_books s).1]) hserves
  obtain ⟨front, owedCutoff, harrange, hperm, howed, -⟩ := arrange_in_turn ht
    (effectiveMaxCost s) (max (min maxItems s.config.maxBatchRequests) 1) (sortPending opened now)
  have hsorted := h.sorted_perm
  obtain ⟨-, -, -, hpacks, -, -, -, hturn, hlane⟩ := h
  rw [arranged, halone, harrange] at hpacks hturn hlane
  obtain ⟨rfl, hpack⟩ := hpacks.turn _ rfl rfl
  have hfront : ∀ y ∈ front, y.runsAlone = false := fun y hy =>
    (batchable_of_serves (mem_takeWhile_imp (hperm.mem_iff.mp hy))).1
  have hqueue : aloneQueue (front ++ (sortPending opened now).dropWhile t.serves) =
      aloneQueue (sortPending opened now) := by
    conv_rhs => rw [← takeWhile_append_dropWhile (p := t.serves) (l := sortPending opened now)]
    rw [aloneQueue_append, aloneQueue_append, aloneQueue_eq_nil hfront,
      aloneQueue_eq_nil fun y hy => hfront y (hperm.mem_iff.mpr hy)]
  obtain ⟨x, rest, rfl, hx⟩ := head_mem_front (frontLoaded_sortPending ht now) hperm
    (hsorted.mem_iff.mpr hr) hserves
  have hhead : x.runsAlone = false := hfront x mem_cons_self
  refine ⟨⟨fun y hy => ?_, ?_, owedCutoff, ?_, ?_⟩, hqueue⟩
  · obtain ⟨j, rfl⟩ := Nat.exists_eq_succ_of_ne_zero (Nat.ne_of_gt hpos)
    rcases mem_cons.mp (take_succ_cons ▸ hy) with rfl | hy
    · exact hx
    rcases packLoop_cases (congrArg Prod.fst hpack) with _ | ⟨-, -, hall⟩
    · obtain rfl : j = 0 := by omega
      simp at hy
    · exact (hall y hy).2 { t with owedCutoff } rfl
  · rw [hlane]
    simp [recordBatch, Nat.ne_of_gt hpos, hhead]
  · -- where the turn owes nothing pending, forgetting the owed cutoff changes nothing
    have howes : ∀ y ∈ (x :: rest ++ (sortPending opened now).dropWhile t.serves).take k,
        owes { t with owedCutoff } y = t.owes y := by
      intro y hy
      rcases howed with rfl | ⟨rfl, hnone⟩
      · rfl
      have hmem : y ∈ sortPending opened now :=
        hsorted.mem_iff.mpr (hpacks.perm.mem_iff.mp (mem_of_mem_take hy))
      rw [Bool.eq_false_iff.mpr (hnone y hmem)]
      simp [owes]
    have hany : ((x :: rest ++ (sortPending opened now).dropWhile t.serves).take k).any
          (fun y => !owes { t with owedCutoff } y) =
        ((x :: rest ++ (sortPending opened now).dropWhile t.serves).take k).any
          fun y => !t.owes y := by
      rw [Bool.eq_iff_iff, any_eq_true, any_eq_true]
      exact exists_congr fun y => and_congr_right fun hy => by rw [howes y hy]
    rw [hturn, ← hany]
    simp [recordBatch, Nat.ne_of_gt hpos, hhead]
  · rcases howed with rfl | ⟨rfl, hnone⟩
    · exact .inl rfl
    · exact .inr ⟨rfl, fun r hr => hnone r (hsorted.mem_iff.mpr hr)⟩

/-- **The lane of a batch.** -/
theorem Extraction.lanes :
    (aloneNext (closeFinishedTurn s) = true ∧ s'.lastBatchAlone = some true ∧
        s'.batchableTurn = none ∧ ∃ x, ready.take k = [x] ∧ x.runsAlone = true) ∨
      (∃ t, opened.batchableTurn = some t ∧ OfTurn s t (ready.take k) s') ∨
      (opened.batchableTurn = none ∧ alonePending s = false ∧ s'.lastBatchAlone = some false ∧
        s'.batchableTurn = none) := by
  by_cases halone : aloneNext (closeFinishedTurn s) = true
  · obtain ⟨x, htaken, hx, hlane, hturn, -⟩ := h.ofAlone halone
    exact .inl ⟨halone, hlane, hturn, x, htaken, hx⟩
  rw [Bool.not_eq_true] at halone
  cases ht : opened.batchableTurn with
  | some t => exact .inr (.inl ⟨t, rfl, (h.ofTurn ht).1⟩)
  | none =>
    have hpos := h.pos
    have hnone := alonePending_eq_false h.opens ht halone
    have hhead : ready.head?.any runsAlone = false := by
      cases hready : ready with
      | nil => rfl
      | cons x =>
        simpa using alonePending_eq_false_iff.mp hnone x
          (h.packs.perm.mem_iff.mp (hready ▸ mem_cons_self))
    have hno : (arranged s opened maxItems now).batchableTurn = none := by
      simp [arranged, halone, arrange, ht]
    refine .inr (.inr ⟨rfl, hnone, ?_, ?_⟩)
    · rw [h.lane]
      simp [recordBatch, Nat.ne_of_gt hpos, hhead]
    · rw [h.turn]
      simp [recordBatch, Nat.ne_of_gt hpos, hhead, hno]

/-- The lane is recorded as the batch shows it, and a turn's batch is batchable. -/
theorem Extraction.recorded :
    s'.lastBatchAlone = some (b.items.any HasCost.runsAlone) ∧
      (s'.batchableTurn.isSome → s'.lastBatchAlone = some false) ∧
      ∀ item ∈ b.items, HasCost.runsAlone item = true →
        b.items = [item] ∧ aloneNext (closeFinishedTurn s) = true := by
  have batchable : (∀ r ∈ ready.take k, r.runsAlone = false) →
      b.items.any HasCost.runsAlone = false := by
    intro hall
    rw [h.extracts.items, any_map, any_eq_false]
    exact fun r hr => Bool.eq_false_iff.mp (hall r hr)
  have conclude : b.items.any HasCost.runsAlone = false → s'.lastBatchAlone = some false →
      s'.lastBatchAlone = some (b.items.any HasCost.runsAlone) ∧
      (s'.batchableTurn.isSome → s'.lastBatchAlone = some false) ∧
      ∀ item ∈ b.items, HasCost.runsAlone item = true →
        b.items = [item] ∧ aloneNext (closeFinishedTurn s) = true := by
    intro hany hlane
    refine ⟨by rw [hany, hlane], fun _ => hlane, fun item hitem halone => ?_⟩
    exact absurd halone (any_eq_false.mp hany item hitem)
  rcases h.lanes with ⟨hnext, hlane, hturn, x, htaken, hx⟩ | ⟨t, -, hofTurn⟩ | ⟨-, hnone, hlane, -⟩
  · have hitems : b.items = [x.item] := by rw [h.extracts.items, htaken]; rfl
    have hx' : HasCost.runsAlone x.item = true := hx
    refine ⟨by rw [hlane, hitems]; simp [hx'], by simp [hturn], fun item hitem _ => ⟨?_, hnext⟩⟩
    rw [hitems] at hitem ⊢
    rw [mem_singleton.mp hitem]
  · exact conclude (batchable fun r hr =>
      (batchable_of_serves (hofTurn.served r hr)).1) hofTurn.lane
  · exact conclude (batchable fun r hr => alonePending_eq_false_iff.mp hnone r
      (h.packs.perm.mem_iff.mp (mem_of_mem_take hr))) hlane

end

/-- The runs-alone requests of a queue stand in the order of their arrival. -/
def AloneSorted (l : List (PendingRequest I T)) : Prop :=
  (aloneQueue l).Pairwise fun a b => a.arrivalTime ≤ b.arrivalTime

/-- The stable sort keeps the runs-alone requests in their order. -/
theorem aloneQueue_sortPending (hsorted : AloneSorted s.pending) (halone : alonePending s = true)
    (now : Instant) : aloneQueue (sortPending s now) = aloneQueue s.pending := by
  have haged : oldestAged s now = none := by simp [oldestAged, halone]
  have hcmp : (aloneQueue s.pending).Pairwise fun a b => packCmp s.batchableTurn a b ≠ .gt := by
    refine hsorted.imp_of_mem fun {a b} ha hb hle => ?_
    have ha' : a.runsAlone = true := (mem_filter.mp ha).2
    have hb' : b.runsAlone = true := (mem_filter.mp hb).2
    have hunserved : ∀ r : PendingRequest I T, r.runsAlone = true →
        (s.batchableTurn.any fun t => t.serves r) = false := by
      intro r hr
      cases s.batchableTurn <;> simp [serves, hr]
    simpa [packCmp, ha', hb', hunserved, Nat.compare_ne_gt] using hle
  simp only [sortPending, haged]
  refine (List.Sublist.eq_of_length ?_ ?_).symm
  · have hsub := (sublist_insertionSort (r := fun a b => packCmp s.batchableTurn a b ≠ .gt)
      hcmp filter_sublist).filter runsAlone
    simpa [aloneQueue] using hsub
  · exact ((perm_insertionSort _ _).filter _).length_eq.symm

/-- **The runs-alone lane is first in, first out.** -/
theorem Extraction.fifo (h : Extraction s maxItems now b s' opened ready k)
    (hsorted : AloneSorted s.pending) :
    aloneQueue (ready.take k) ++ aloneQueue s'.pending = aloneQueue s.pending := by
  rw [h.pending, ← aloneQueue_append, take_append_drop]
  by_cases halone : alonePending s = true
  · have hpend : opened.pending = s.pending :=
      (openTurn_books h.opens).1.trans (closeFinishedTurn_books s).1
    have hstable : aloneQueue (sortPending opened now) = aloneQueue s.pending := by
      rw [← hpend] at hsorted ⊢
      exact aloneQueue_sortPending hsorted (by simpa [alonePending, hpend] using halone) now
    rw [← hstable]
    by_cases hnext : aloneNext (closeFinishedTurn s) = true
    · obtain ⟨x, -, -, -, -, hqueue⟩ := h.ofAlone hnext
      exact hqueue
    cases ht : opened.batchableTurn with
    | some t => exact (h.ofTurn ht).2
    | none =>
      rw [alonePending_eq_false h.opens ht (by simpa using hnext)] at halone
      cases halone
  · have hnone := alonePending_eq_false_iff.mp (by simpa using halone)
    rw [aloneQueue_eq_nil hnone, aloneQueue_eq_nil fun r hr => hnone r (h.packs.perm.mem_iff.mp hr)]

end Extraction

end Sie.Sidecar
