import Sie.Sidecar.BatchFormer.Batch
import Sie.Sidecar.BatchFormer.Conservation

/-!
# The batchable turn over whole runs

What an extraction does to the turn it belongs to, and the invariant `TurnInv`:
what is left of the turn's budget covers what the turn still owes.  It follows
that a turn cannot end while it owes a pending request
(`TurnInv.closeFinishedTurn_eq`).
-/

namespace Sie.Sidecar

open Sie.Lib List BatchableTurn

universe u v
variable {I : Type u} {T : Type v} [HasCost I]

/-! ## What an extraction does to the turn -/

/-- Two turns that owe and serve alike, whatever is left of their budgets. -/
def SameDebt (t t' : BatchableTurn) : Prop :=
  t'.cutoff = t.cutoff ∧ t'.owedCutoff = t.owedCutoff

theorem SameDebt.owes_eq {t t' : BatchableTurn} (h : SameDebt t t') :
    (t'.owes : PendingRequest I T → Bool) = t.owes := by
  funext r
  simp [owes, serves, h.1, h.2]

section Extraction

variable {s s' opened : Inner I T} {maxItems k : ℕ} {now : Instant} {b : FormattedBatch I T}
  {ready : List (PendingRequest I T)} {t t' : BatchableTurn} {l : List (PendingRequest I T)}
  {r : PendingRequest I T} {maxCost : ℕ}

/-- A turn after a batch is the one the batch belonged to, with the same debt unless
nothing it owes was pending. -/
theorem Extraction.turn_of_some (h : Extraction s maxItems now b s' opened ready k)
    (ht' : s'.batchableTurn = some t') :
    ∃ t, opened.batchableTurn = some t ∧ t'.cutoff = t.cutoff ∧
      (SameDebt t t' ∨ t'.owedCutoff = none ∧ ∀ r ∈ s.pending, ¬t.owes r) := by
  rcases h.lanes with ⟨-, -, hnone, -⟩ | ⟨t, ht, hofTurn⟩ | ⟨-, -, -, hnone⟩
  · simp [hnone] at ht'
  · obtain ⟨_, hnext, hdebt⟩ := hofTurn.next
    cases hnext.symm.trans ht'
    exact ⟨t, ht, rfl, hdebt.imp_left fun heq => ⟨rfl, heq⟩⟩
  · simp [hnone] at ht'

/-- Behind the requests it serves, a turn owes none. -/
theorem not_owes_of_mem_dropWhile (hfront : FrontLoaded t.serves l) {x : PendingRequest I T}
    (hx : x ∈ l.dropWhile t.serves) : ¬t.owes x := by
  intro howes
  have hfalse := hfront.not_of_mem_dropWhile hx
  rw [serves_of_owes howes] at hfalse
  cases hfalse

theorem owedCost_takeWhile (hfront : FrontLoaded t.serves l) :
    owedCost t (l.takeWhile t.serves) = owedCost t l := by
  have hsplit := owedCost_append t (l.takeWhile t.serves) (l.dropWhile t.serves)
  rw [takeWhile_append_dropWhile,
    owedCost_eq_zero (l := l.dropWhile t.serves) fun x hx => not_owes_of_mem_dropWhile hfront hx]
    at hsplit
  exact hsplit.symm

/-- The queue a turn that owes a pending request packs from: the room made among
the requests it serves, then the others. -/
theorem arrange_owed {s : Inner I T} {maxTake : ℕ} {sorted : List (PendingRequest I T)}
    (ht : s.batchableTurn = some t) (hfront : FrontLoaded t.serves sorted) (hr : r ∈ sorted)
    (howes : t.owes r) :
    arrange s false maxCost maxTake sorted = { s with
      pending := makeRoomLoop t (min maxCost t.costLeft) maxTake 0 0
          (owedCost t (sorted.takeWhile t.serves)) (sorted.takeWhile t.serves) ++
        sorted.dropWhile t.serves } := by
  have hsome : t.owedCutoff.isSome := by
    cases hcutoff : t.owedCutoff with
    | none => simp [owes, hcutoff] at howes
    | some => rfl
  have hany : sorted.any t.owes = true := any_eq_true.mpr ⟨r, hr, howes⟩
  have howed : costSum (sorted.filter t.owes) = owedCost t (sorted.takeWhile t.serves) :=
    (owedCost_takeWhile hfront).symm
  simp [arrange, ht, hsome, makeRoomForOwed, hany, howed]

/-- **While something it owes is pending, a turn goes on** with the same debt, and
what is left of its budget still covers the debt. -/
theorem Extraction.turn_owed (h : Extraction s maxItems now b s' opened ready k)
    (ht : opened.batchableTurn = some t) (hr : r ∈ s.pending) (howes : t.owes r)
    (hcovered : owedCost t s.pending ≤ t.costLeft) :
    ∃ t', s'.batchableTurn = some t' ∧ SameDebt t t' ∧ owedCost t' s'.pending ≤ t'.costLeft := by
  obtain ⟨_, hnext, hdebt⟩ := (h.ofTurn ht).1.next
  obtain rfl := hdebt.resolve_right fun hnone => hnone.2 r hr howes
  have halone : aloneNext (closeFinishedTurn s) = false := aloneNext_eq_false h.opens ht
    (by rwa [(closeFinishedTurn_books s).1]) (serves_of_owes howes)
  have hpacks := h.packs
  have hsorted := h.sorted_perm
  have hfront := frontLoaded_sortPending ht now
  rw [arranged, halone, arrange_owed ht hfront (hsorted.mem_iff.mpr hr) howes] at hpacks
  obtain ⟨hready, hpack⟩ := hpacks.turn t rfl ht
  have hcover : 0 + owedCost t ((sortPending opened now).takeWhile t.serves) ≤ t.costLeft := by
    rw [owedCost_takeWhile hfront, owedCost_perm hsorted]
    omega
  rw [hready] at hpack
  have hkeep := makeRoomLoop_covered (k := k) (fun x hx => not_owes_of_mem_dropWhile hfront hx) _
    (.inl rfl) hcover (by rw [hpack, Nat.zero_add])
  have hsame : SameDebt t _ := ⟨rfl, rfl⟩
  refine ⟨_, hnext, hsame, ?_⟩
  rw [owedCost, hsame.owes_eq, h.pending, hready]
  exact hkeep.le

/-- A batch leaves what the turn still owes covered. -/
theorem Extraction.covered (h : Extraction s maxItems now b s' opened ready k)
    (hcovered : ∀ t, opened.batchableTurn = some t → owedCost t s.pending ≤ t.costLeft)
    (ht' : s'.batchableTurn = some t') : owedCost t' s'.pending ≤ t'.costLeft := by
  obtain ⟨t, ht, -, hdebt⟩ := h.turn_of_some ht'
  by_cases howed : ∃ r ∈ s.pending, t.owes r
  · obtain ⟨r, hr, hrowes⟩ := howed
    obtain ⟨_, ht'', -, hle⟩ := h.turn_owed ht hr hrowes (hcovered t ht)
    cases ht''.symm.trans ht'
    exact hle
  rw [owedCost_eq_zero]
  · exact Nat.zero_le _
  intro r hr hr'
  rcases hdebt with hsame | ⟨hnone, -⟩
  · rw [hsame.owes_eq] at hr'
    exact howed ⟨r, h.extracts.perm.mem_iff.mp (mem_append_right _ hr), hr'⟩
  · simp [owes, hnone] at hr'

end Extraction

/-! ## The invariant -/

theorem le_maxCutoff (carried : Option Instant) (cutoff : Instant) :
    cutoff ≤ maxCutoff carried cutoff := by
  cases carried with
  | none => exact le_rfl
  | some c => exact le_max_right c cutoff

theorem maxCutoff_eq (carried : Option Instant) (cutoff : Instant) :
    maxCutoff carried cutoff = cutoff ∨ carried = some (maxCutoff carried cutoff) := by
  cases carried with
  | none => exact .inl rfl
  | some c =>
    rcases max_choice c cutoff with h | h
    · exact .inr (congrArg some h.symm)
    · exact .inl h

/-- The books of the queue and its turn in every run; `past` are the arrivals so
far. -/
structure TurnBooks (past : List Instant) (s : Inner I T) : Prop where
  total : s.totalCost = costSum s.pending
  bound : s.totalCost ≤ u64Max
  cutoff_le : ∀ t, s.batchableTurn = some t → ∃ c, s.lastTurnCutoff = some c ∧ t.cutoff ≤ c
  cutoff_past : ∀ c, s.lastTurnCutoff = some c → c ∈ past
  pending_past : ∀ r ∈ s.pending, r.arrivalTime ∈ past

/-- What holds of the queue and its turn while nothing the turn owes arrives. -/
structure TurnInv (past : List Instant) (s : Inner I T) : Prop extends TurnBooks past s where
  /-- What is left of the turn's budget covers what the turn owes. -/
  covered : ∀ t, s.batchableTurn = some t → owedCost t s.pending ≤ t.costLeft

section

variable {past : List Instant} {s s' opened : Inner I T} {maxItems maxCost k : ℕ} {now : Instant}
  {b : FormattedBatch I T} {ready : List (PendingRequest I T)}

section

variable (hs : TurnBooks past s)
include hs

theorem TurnBooks.closed : TurnBooks past (closeFinishedTurn s) := by
  rcases Sie.Sidecar.closeFinishedTurn_eq s with h | h
  · rwa [h]
  · rw [h]
    exact { hs with cutoff_le := by simp }

/-- A turn that opens covers what it owes. -/
theorem TurnBooks.opens (h : openTurn (closeFinishedTurn s) maxCost = some opened)
    (hopens : opensTurn (closeFinishedTurn s) = true) :
    ∃ turn, opened.batchableTurn = some turn ∧
      Opens (closeFinishedTurn s).pending (closeFinishedTurn s).lastTurnCutoff turn ∧
      opened.lastTurnCutoff = some (maxCutoff (closeFinishedTurn s).lastTurnCutoff turn.cutoff) :=
  openTurn_opens (hs.closed.total ▸ hs.closed.bound) hopens h

theorem TurnBooks.ofOpen
    (h : openTurn (closeFinishedTurn s) maxCost = some opened) : TurnBooks past opened := by
  have hclosed := hs.closed
  rcases openTurn_eq_some h with ⟨-, rfl⟩ | ⟨hopens, -⟩
  · exact hclosed
  obtain ⟨turn, hturn, hopens, hcutoff⟩ := hs.opens h hopens
  obtain ⟨hpend, hbooks⟩ := openTurn_books h
  have hpast : turn.cutoff ∈ past := by
    obtain ⟨r, hr, heq⟩ := mem_map.mp hopens.cutoff_mem
    exact heq ▸ hclosed.pending_past r hr
  constructor
  · rw [hbooks.totalCost, hpend, hclosed.total]
  · rw [hbooks.totalCost]
    exact hclosed.bound
  · intro t ht
    cases hturn.symm.trans ht
    exact ⟨_, hcutoff, le_maxCutoff _ _⟩
  · intro c hc
    obtain rfl : maxCutoff (closeFinishedTurn s).lastTurnCutoff turn.cutoff = c :=
      Option.some.inj (hcutoff.symm.trans hc)
    rcases maxCutoff_eq (closeFinishedTurn s).lastTurnCutoff turn.cutoff with heq | heq
    · rwa [heq]
    · exact hclosed.cutoff_past _ heq
  · rw [hpend]
    exact hclosed.pending_past

/-- An extraction keeps the books. -/
theorem TurnBooks.extract
    (h : Extraction s maxItems now b s' opened ready k) : TurnBooks past s' := by
  have htaken := h.extracts
  have hopened := hs.ofOpen h.opens
  have hcost : costSum (ready.take k) + costSum s'.pending = costSum s.pending := by
    rw [← costSum_append, costSum_perm htaken.perm]
  have htotal := htaken.total
  refine ⟨by have := hs.total; omega, by have := hs.bound; omega, fun t' ht' => ?_,
    fun c hc => hopened.cutoff_past c (h.cutoff ▸ hc), fun r hr => hs.pending_past r
      (htaken.perm.mem_iff.mp (mem_append_right _ hr))⟩
  obtain ⟨t, ht, heq, -⟩ := h.turn_of_some ht'
  obtain ⟨c, hc, hle⟩ := hopened.cutoff_le t ht
  exact ⟨c, h.cutoff.trans hc, heq ▸ hle⟩

end

end

namespace TurnInv

variable {past : List Instant} {s : Inner I T} {t : BatchableTurn} {r : PendingRequest I T}
  {maxCost : ℕ}

section

variable (hs : TurnInv past s) (ht : s.batchableTurn = some t) (hr : r ∈ s.pending)
  (howes : t.owes r)
include hs ht hr howes

/-- A request the turn owes keeps the turn going. -/
theorem goesOn_of_owes : t.goesOn r := by
  have hcost : r.cost ≤ t.costLeft := (cost_le_owedCost hr howes).trans (hs.covered t ht)
  simp [goesOn, serves_of_owes howes, hcost]

/-- A turn does not end while it owes a pending request. -/
theorem closeFinishedTurn_eq : closeFinishedTurn s = s := by
  have hany : s.pending.any t.goesOn = true :=
    any_eq_true.mpr ⟨r, hr, hs.goesOn_of_owes ht hr howes⟩
  simp [closeFinishedTurn, ht, hany]

end

/-- The turn of the next batch covers what it owes. -/
theorem opened_covered (hs : TurnInv past s) {opened : Inner I T}
    (h : openTurn (closeFinishedTurn s) maxCost = some opened)
    (ht : opened.batchableTurn = some t) : owedCost t s.pending ≤ t.costLeft := by
  rcases openTurn_eq_some h with ⟨-, rfl⟩ | ⟨hopens, -⟩
  · rcases Sie.Sidecar.closeFinishedTurn_eq s with heq | heq
    · exact hs.covered t (heq ▸ ht)
    · simp [heq] at ht
  obtain ⟨_, hturn, hopens, -⟩ := hs.opens h hopens
  cases hturn.symm.trans ht
  rw [← (closeFinishedTurn_books s).1]
  exact hopens.covered

end TurnInv

namespace BatchFormer

/-- The arrivals of a list of calls, in order. -/
def arrivalTimes (calls : List (Call I T)) : List Instant :=
  (calls.flatMap Call.arrivals).map fun x => x.2.2

omit [HasCost I] in
theorem arrivalTimes_append (calls₁ calls₂ : List (Call I T)) :
    arrivalTimes (calls₁ ++ calls₂) = arrivalTimes calls₁ ++ arrivalTimes calls₂ := by
  simp [arrivalTimes]

section

variable {past : List Instant} {b t : BatchFormer I T} {call : Call I T}
  {out : List (FormattedBatch I T)}

/-- A call receives its arrivals, or extracts a batch. -/
theorem step_receives_or_extracts (h : b.step call = some (t, out)) :
    (out = [] ∧ Receives b.inner t.inner call.arrivals) ∨
      ∃ maxItems now batch opened ready k, out = [batch] ∧ call.arrivals = [] ∧
        Extraction b.inner maxItems now batch t.inner opened ready k := by
  rcases step_cases h with ⟨s, hs, rfl, -, -, rfl⟩ | ⟨_, rfl, rfl, rfl⟩ |
    ⟨hnone, rfl, rfl⟩ | ⟨_, maxItems, now, batch, s, hnone, -, hne, hmax, hs, rfl, rfl⟩
  · rw [afterSubmit_inner]
    exact .inl ⟨rfl, (appendItems_spec hs).toReceives⟩
  · exact .inl ⟨rfl, by simp [Call.arrivals, arrivalRequests, updateConfig], rfl, id, rfl, rfl, rfl⟩
  · rw [hnone]
    exact .inl ⟨rfl, by simp [arrivalRequests], rfl, id, rfl, rfl, rfl⟩
  · obtain ⟨opened, ready, k, hparts⟩ := extract_parts hs hne hmax
    exact .inr ⟨maxItems, now, batch, opened, ready, k, rfl, hnone, hparts⟩

/-- Every call keeps the books. -/
theorem step_turnBooks (hb : TurnBooks past b.inner) (h : b.step call = some (t, out)) :
    TurnBooks (past ++ arrivalTimes [call]) t.inner := by
  rcases step_receives_or_extracts h with ⟨-, hnew⟩ | ⟨_, _, _, _, _, k, -, -, hparts⟩
  · refine ⟨?_, hnew.bound hb.bound, ?_, ?_, ?_⟩
    · rw [hnew.totalCost, hnew.pending, hb.total, costSum_append, costSum_arrivalRequests]
    · rw [hnew.batchableTurn, hnew.lastTurnCutoff]
      exact hb.cutoff_le
    · intro c hc
      rw [hnew.lastTurnCutoff] at hc
      exact mem_append_left _ (hb.cutoff_past c hc)
    · intro r hr
      rw [hnew.pending] at hr
      rcases mem_append.mp hr with hr | hr
      · exact mem_append_left _ (hb.pending_past r hr)
      · obtain ⟨x, hx, rfl⟩ := mem_map.mp hr
        exact mem_append_right _ (mem_map.mpr ⟨x, by simpa using hx, rfl⟩)
  · have hs := hb.extract hparts
    exact ⟨hs.total, hs.bound, hs.cutoff_le, fun c hc => mem_append_left _ (hs.cutoff_past c hc),
      fun r hr => mem_append_left _ (hs.pending_past r hr)⟩

/-- One call keeps the invariant when the turn owes nothing it submits. -/
theorem step_turnInv_of_not_owes (hb : TurnInv past b.inner)
    (hnew : ∀ turn, b.inner.batchableTurn = some turn →
      ∀ r ∈ arrivalRequests call.arrivals, ¬turn.owes r)
    (h : b.step call = some (t, out)) : TurnInv (past ++ arrivalTimes [call]) t.inner := by
  refine ⟨step_turnBooks hb.toTurnBooks h, fun turn hturn => ?_⟩
  rcases step_receives_or_extracts h with ⟨-, hreceived⟩ | ⟨_, _, _, _, _, k, -, -, hparts⟩
  · rw [hreceived.batchableTurn] at hturn
    rw [hreceived.pending, owedCost_append, owedCost_eq_zero (hnew turn hturn)]
    exact hb.covered turn hturn
  · exact hparts.covered (fun t ht => hb.opened_covered hparts.opens ht) hturn

/-- What arrives later than all before it is not owed by the turn under way. -/
theorem not_owes_of_later (hb : TurnBooks past b.inner)
    (hlater : ∀ p ∈ past, ∀ now ∈ arrivalTimes [call], p < now) {turn : BatchableTurn}
    (hturn : b.inner.batchableTurn = some turn) :
    ∀ r ∈ arrivalRequests call.arrivals, ¬turn.owes r := by
  intro r hr howes
  obtain ⟨x, hx, rfl⟩ := mem_map.mp hr
  obtain ⟨c, hc, hle⟩ := hb.cutoff_le turn hturn
  have hserved := batchable_of_serves (serves_of_owes howes)
  have hlt := hlater c (hb.cutoff_past c hc) x.2.2 (mem_map.mpr ⟨x, by simpa using hx, rfl⟩)
  exact absurd hlt (not_lt.mpr (hserved.2.trans hle))

/-- One call keeps the invariant when what it submits arrives later than all
before it. -/
theorem step_turnInv (hb : TurnInv past b.inner)
    (hlater : ∀ p ∈ past, ∀ now ∈ arrivalTimes [call], p < now)
    (h : b.step call = some (t, out)) : TurnInv (past ++ arrivalTimes [call]) t.inner :=
  step_turnInv_of_not_owes hb (fun _ => not_owes_of_later hb.toTurnBooks hlater) h

end

theorem turnInv_withEpoch (config : BatchConfig) (epoch : Instant) :
    TurnInv [] (withEpoch config epoch : BatchFormer I T).inner :=
  ⟨⟨rfl, by simp [withEpoch], by simp [withEpoch], by simp [withEpoch], by simp [withEpoch]⟩,
    by simp [withEpoch]⟩

/-- The invariant holds in every run whose arrivals are distinct and in order. -/
theorem runs_turnInv {config : BatchConfig} {epoch : Instant} {calls : List (Call I T)}
    {b : BatchFormer I T} {batches : List (FormattedBatch I T)}
    (h : runs step (withEpoch config epoch) calls = some (b, batches))
    (harrivals : (arrivalTimes calls).Pairwise (· < ·)) : TurnInv (arrivalTimes calls) b.inner := by
  revert harrivals
  refine runs_induction
    (fun calls _ b => (arrivalTimes calls).Pairwise (· < ·) → TurnInv (arrivalTimes calls) b.inner)
    ?_ ?_ calls batches b h
  · exact fun _ => turnInv_withEpoch config epoch
  · intro calls _ s _ t _ _ ih hstep hsorted
    rw [arrivalTimes_append, pairwise_append] at hsorted
    rw [arrivalTimes_append]
    exact step_turnInv (ih hsorted.1) hsorted.2.2 hstep

end BatchFormer

end Sie.Sidecar
