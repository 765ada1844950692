import Sie.Sidecar.BatchFormer.Lanes

/-!
# What a batchable turn owes and costs

A turn pays what it owes: it does not end, and no runs-alone request leaves, while
a request it owes is pending, and its batches hold only requests that arrived by
its cutoff.  As long as nothing is submitted at an instant the turn already owes,
what is left of its budget covers what it owes, and its batches cost at most the
cost cap it opened with, the oldest group of left-over requests and one further
request.

Clock readings may repeat.  A request submitted during a turn at the very instant
of its cutoff is served by that turn, and owed by it if the turn owes that
instant; the budget was fixed without it.  The turn then owes everything it serves
(`OwesAll`), has taken nothing else, and goes on until all of it is served.
-/

namespace Sie.Sidecar

open Sie.Lib List BatchableTurn

universe u v
variable {I : Type u} {T : Type v} [HasCost I] {r : PendingRequest I T}

/-- The turn owes every request it serves. -/
def OwesAll (t : BatchableTurn) : Prop := ∃ c, t.owedCutoff = some c ∧ t.cutoff ≤ c

theorem OwesAll.owes {t : BatchableTurn} (h : OwesAll t) (hr : t.serves r) : t.owes r := by
  obtain ⟨c, hc, hle⟩ := h
  have hserved := batchable_of_serves hr
  simp [BatchableTurn.owes, hr, hc, hserved.2.trans hle]

/-- What holds of the queue and its turn on a clock that does not run backwards. -/
structure OwedInv (past : List Instant) (s : Inner I T) : Prop extends TurnBooks past s where
  owed : ∀ t, s.batchableTurn = some t → owedCost t s.pending ≤ t.costLeft ∨ OwesAll t
  unowed : ∀ t, s.batchableTurn = some t → OwesAll t → t.tookUnowed = false

namespace OwedInv

variable {past : List Instant} {s : Inner I T} {t : BatchableTurn} {opened : Inner I T}
  {ready : List (PendingRequest I T)} {maxItems : ℕ} {b : FormattedBatch I T}

/-- A turn does not end while it owes a pending request. -/
theorem closeFinishedTurn_eq (hs : OwedInv past s) (ht : s.batchableTurn = some t)
    (hr : r ∈ s.pending) (howes : t.owes r) : closeFinishedTurn s = s := by
  have hgoes : t.goesOn r = true := by
    rcases hs.owed t ht with hcovered | hall
    · have hcost := (cost_le_owedCost hr howes).trans hcovered
      simp [goesOn, serves_of_owes howes, hcost]
    · simp [goesOn, serves_of_owes howes, hs.unowed t ht hall]
  have hany : s.pending.any t.goesOn = true := any_eq_true.mpr ⟨r, hr, hgoes⟩
  simp [closeFinishedTurn, ht, hany]

/-- The turn of the next batch. -/
theorem ofOpen (hs : OwedInv past s) {maxCost : ℕ}
    (h : openTurn (closeFinishedTurn s) maxCost = some opened)
    (ht : opened.batchableTurn = some t) :
    (owedCost t s.pending ≤ t.costLeft ∨ OwesAll t) ∧ (OwesAll t → t.tookUnowed = false) := by
  rcases openTurn_eq_some h with ⟨-, rfl⟩ | ⟨hopens, _, -, heq⟩
  · rcases Sie.Sidecar.closeFinishedTurn_eq s with heq | heq
    · rw [heq] at ht
      exact ⟨hs.owed t ht, hs.unowed t ht⟩
    · simp [heq] at ht
  obtain ⟨_, hturn, hopens, -⟩ := hs.opens h hopens
  cases hturn.symm.trans ht
  refine ⟨.inl ((closeFinishedTurn_books s).1 ▸ hopens.covered), fun _ => ?_⟩
  rw [heq] at ht
  rw [← Option.some.inj ht]

/-- An extraction keeps the invariant. -/
theorem extract (hs : OwedInv past s) {s' : Inner I T} {k : ℕ} {now : Instant}
    (h : Extraction s maxItems now b s' opened ready k) : OwedInv past s' := by
  have hbooks := hs.toTurnBooks.extract h
  rcases h.lanes with ⟨-, -, hnone, -⟩ | ⟨t, ht, hofTurn⟩ | ⟨-, -, -, hnone⟩
  · exact ⟨hbooks, by simp [hnone], by simp [hnone]⟩
  · obtain ⟨howed, hunowed⟩ := hs.ofOpen h.opens ht
    obtain ⟨_, hnext, hcutoff⟩ := hofTurn.next
    have hall : ∀ t', s'.batchableTurn = some t' → OwesAll t' → OwesAll t := by
      rintro t' ht' ⟨c, hc, hle⟩
      cases hnext.symm.trans ht'
      rcases hcutoff with rfl | ⟨rfl, -⟩
      · exact ⟨c, hc, hle⟩
      · simp at hc
    refine ⟨hbooks, fun t' ht' => ?_, fun t' ht' hall' => ?_⟩
    · rcases howed with _ | hall'
      · refine .inl (h.covered (fun t₁ ht₁ => ?_) ht')
        rwa [← Option.some.inj (ht.symm.trans ht₁)]
      cases hnext.symm.trans ht'
      rcases hcutoff with rfl | ⟨rfl, -⟩
      · exact .inr hall'
      · rw [owedCost_eq_zero (by simp [owes])]
        exact .inl (Nat.zero_le _)
    · -- all it took it served, so it owed all of it
      have hall := hall t' ht' hall'
      cases hnext.symm.trans ht'
      simpa [hunowed hall] using fun r hr => hall.owes (hofTurn.served r hr)
  · exact ⟨hbooks, by simp [hnone], by simp [hnone]⟩

end OwedInv

namespace BatchFormer

variable {b : BatchFormer I T} {calls : List (Call I T)} {call : Call I T} {turn : BatchableTurn}
  {t : BatchFormer I T} {out : List (FormattedBatch I T)} {opened s : Inner I T}
  {past : List Instant}

/-- Nothing is submitted at an instant the turn owes. -/
def SubmitsLater (b : BatchFormer I T) (call : Call I T) : Prop :=
  ∀ t ∈ b.inner.batchableTurn, ∀ c ∈ t.owedCutoff, ∀ x ∈ call.arrivals, c < x.2.2

instance (b : BatchFormer I T) (call : Call I T) : Decidable (b.SubmitsLater call) :=
  inferInstanceAs (Decidable (∀ t ∈ b.inner.batchableTurn, ∀ c ∈ t.owedCutoff, ∀ x ∈ _, _ < _))

theorem SubmitsLater.not_owes (h : b.SubmitsLater call)
    (hturn : b.inner.batchableTurn = some turn) :
    ∀ r ∈ arrivalRequests call.arrivals, ¬turn.owes r := by
  intro r hr howes
  obtain ⟨x, hx, rfl⟩ := mem_map.mp hr
  cases hcutoff : turn.owedCutoff with
  | none => simp [owes, hcutoff] at howes
  | some c =>
    have hle : x.2.2 ≤ c := by
      simp [owes, hcutoff] at howes
      exact howes.2
    exact absurd (h turn hturn c hcutoff x hx) (not_lt.mpr hle)

/-- One call keeps the invariant when it submits nothing earlier than what came
before. -/
theorem step_owedInv (hb : OwedInv past b.inner)
    (hclock : ∀ p ∈ past, ∀ now ∈ arrivalTimes [call], p ≤ now) (h : b.step call = some (t, out)) :
    OwedInv (past ++ arrivalTimes [call]) t.inner := by
  have hbooks := step_turnBooks hb.toTurnBooks h
  rcases step_receives_or_extracts h with ⟨-, hnew⟩ | ⟨_, now, _, _, _, k, -, -, hparts⟩
  · refine ⟨hbooks, fun turn hturn => ?_, by rw [hnew.batchableTurn]; exact hb.unowed⟩
    rw [hnew.batchableTurn] at hturn
    by_cases hlater : b.SubmitsLater call
    · rw [hnew.pending, owedCost_append, owedCost_eq_zero (hlater.not_owes hturn)]
      exact hb.owed turn hturn
    -- the clock stands at the instant of the cutoff
    right
    obtain ⟨turn', hturn', c, hc, x, hx, hle⟩ : ∃ t, b.inner.batchableTurn = some t ∧
        ∃ c, t.owedCutoff = some c ∧ ∃ x ∈ call.arrivals, x.2.2 ≤ c := by
      simpa [SubmitsLater] using hlater
    obtain rfl : turn' = turn := Option.some.inj (hturn'.symm.trans hturn)
    obtain ⟨last, hlast, hcutoff⟩ := hb.cutoff_le turn' hturn
    have hnow := hclock last (hb.cutoff_past last hlast) x.2.2
      (mem_map.mpr ⟨x, by simpa using hx, rfl⟩)
    exact ⟨c, hc, (hcutoff.trans hnow).trans hle⟩
  · exact ⟨hbooks, (hb.extract hparts).owed, (hb.extract hparts).unowed⟩

theorem runs_owedInv {config : BatchConfig} {epoch : Instant} {batches : List (FormattedBatch I T)}
    (h : runs step (withEpoch config epoch) calls = some (b, batches))
    (hclock : (arrivalTimes calls).Pairwise (· ≤ ·)) : OwedInv (arrivalTimes calls) b.inner := by
  revert hclock
  refine runs_induction
    (fun calls _ b => (arrivalTimes calls).Pairwise (· ≤ ·) → OwedInv (arrivalTimes calls) b.inner)
    ?_ ?_ calls batches b h
  · exact fun _ => ⟨(turnInv_withEpoch config epoch).toTurnBooks, by simp [withEpoch],
      by simp [withEpoch]⟩
  · intro calls _ s _ t _ _ ih hstep hsorted
    rw [arrivalTimes_append, pairwise_append] at hsorted
    rw [arrivalTimes_append]
    exact step_owedInv (ih hsorted.1) hsorted.2.2 hstep

/-- While nothing is submitted at an instant the turn owes, its budget covers what
it owes. -/
theorem runs_turnInv_along (hb : ∃ past, TurnInv past b.inner)
    (hlater : Along step SubmitsLater b calls) (h : runs step b calls = some (t, out)) :
    ∃ past, TurnInv past t.inner := by
  refine runs_invariant_along (P := SubmitsLater)
    (Q := fun b : BatchFormer I T => ∃ past, TurnInv past b.inner) ?_ hb hlater h
  rintro s _ s' _ ⟨past, hs⟩ hlater hstep
  exact ⟨_, step_turnInv_of_not_owes hs (fun _ => hlater.not_owes) hstep⟩

/-- A turn that goes on is the turn of the next batch. -/
theorem openTurn_of_underWay {maxCost : ℕ}
    (hopen : openTurn (closeFinishedTurn s) maxCost = some opened)
    (hturn : s.batchableTurn = some turn) (hgoes : s.pending.any turn.goesOn = true) :
    opened = s := by
  have hclosed : closeFinishedTurn s = s := by simp [closeFinishedTurn, hturn, hgoes]
  rw [hclosed] at hopen
  rcases openTurn_eq_some hopen with ⟨-, rfl⟩ | ⟨hopens, -⟩
  · rfl
  · simp [opensTurn, hturn] at hopens

/-- **A batchable turn pays what it owes.**  In every run on a clock that does not
run backwards: while nothing is submitted at an instant the turn owes, what is left
of its budget covers the pending requests it owes.  In any case, while one of those
is pending no call ends the turn or begins another, and no runs-alone item leaves;
and the batches of a turn hold only requests that arrived no later than its cutoff,
which stays as it was when the turn began. -/
theorem turn_pays_what_it_owes {config : BatchConfig} {epoch : Instant}
    {batches : List (FormattedBatch I T)}
    (h : runs step (withEpoch config epoch) calls = some (b, batches))
    (hclock : (arrivalTimes calls).Pairwise (· ≤ ·)) :
    (Along step SubmitsLater (withEpoch config epoch) calls →
        ∀ turn, b.inner.batchableTurn = some turn → owedCost turn b.inner.pending ≤ turn.costLeft) ∧
      (∀ turn r, b.inner.batchableTurn = some turn → r ∈ b.inner.pending → turn.owes r →
        ∀ call t out, b.step call = some (t, out) → b.beginsTurn call = false ∧
            (∃ turn', t.inner.batchableTurn = some turn' ∧ SameDebt turn turn') ∧
            ∀ batch ∈ out, ∀ item ∈ batch.items, HasCost.runsAlone item = false) ∧
      ∀ call t batch, b.step call = some (t, [batch]) →
        b.turnUnderWay = true ∨ b.beginsTurn call = true →
          ∃ turn' taken, t.inner.batchableTurn = some turn' ∧ (b.turnUnderWay = true →
              b.inner.batchableTurn.map cutoff = some turn'.cutoff) ∧
            batch.items = taken.map PendingRequest.item ∧
            (taken ++ t.inner.pending).Perm b.inner.pending ∧
            ∀ r ∈ taken, r.arrivalTime ≤ turn'.cutoff := by
  have hb := runs_owedInv h hclock
  refine ⟨fun hlater => ?_, ?_, ?_⟩
  · obtain ⟨_, hinv⟩ := runs_turnInv_along ⟨[], turnInv_withEpoch config epoch⟩ hlater h
    exact hinv.covered
  · intro turn r hturn hr howes call t out hstep
    have hclosed := hb.closeFinishedTurn_eq hturn hr howes
    have hbegins : b.beginsTurn call = false := by
      rw [beginsTurn, hstep, hclosed]
      cases out <;> simp [opensTurn, hturn]
    refine ⟨hbegins, ?_⟩
    rcases step_receives_or_extracts hstep with ⟨rfl, hnew⟩ |
      ⟨maxItems, now, batch, opened, ready, k, rfl, -, hparts⟩
    · exact ⟨⟨turn, hnew.batchableTurn.trans hturn, rfl, rfl⟩, by simp⟩
    have hopen := hparts.opens
    rw [hclosed] at hopen
    obtain rfl : opened = b.inner := by
      rcases openTurn_eq_some hopen with ⟨-, heq⟩ | ⟨hopens, -⟩
      · exact heq
      · simp [opensTurn, hturn] at hopens
    have hofTurn := (hparts.ofTurn hturn).1
    obtain ⟨owedCutoff, hnext, hcutoff⟩ := hofTurn.next
    refine ⟨⟨_, hnext, rfl, hcutoff.resolve_right fun hnone => hnone.2 r hr howes⟩, ?_⟩
    intro batch' hbatch item hitem
    obtain rfl := mem_singleton.mp hbatch
    rw [hparts.extracts.items] at hitem
    obtain ⟨x, hx, rfl⟩ := mem_map.mp hitem
    exact (batchable_of_serves (hofTurn.served x hx)).1
  · intro call t batch hstep hturn
    rcases step_receives_or_extracts hstep with ⟨hnil, -⟩ |
      ⟨maxItems, now, batch', opened, ready, k, hout, -, hparts⟩
    · simp at hnil
    obtain rfl : batch = batch' := by simpa using hout
    have hunder : b.turnUnderWay = true → opened = b.inner := by
      intro hunder
      obtain ⟨turn, hsome, hgoes⟩ := (Option.any_eq_true _ _).mp hunder
      exact openTurn_of_underWay hparts.opens hsome hgoes
    obtain ⟨turn, hsome⟩ : ∃ turn, opened.batchableTurn = some turn := by
      rcases hturn with hturn | hbegins
      · obtain ⟨turn, hsome, -⟩ := (Option.any_eq_true _ _).mp hturn
        exact ⟨turn, hunder hturn ▸ hsome⟩
      have hopens : opensTurn (closeFinishedTurn b.inner) = true := by
        simpa [beginsTurn, hstep] using hbegins
      obtain ⟨turn, hsome, -⟩ := hb.opens hparts.opens hopens
      exact ⟨turn, hsome⟩
    have hofTurn := (hparts.ofTurn hsome).1
    obtain ⟨owedCutoff, hnext, -⟩ := hofTurn.next
    refine ⟨_, ready.take k, hnext, fun hturn => ?_, hparts.extracts.items,
      hparts.extracts.perm, fun r hr => ?_⟩
    · rw [← hunder hturn, hsome]
      rfl
    · exact (batchable_of_serves (hofTurn.served r hr)).2

namespace SameInstant

/-- The first turn leaves the requests of instants 2 and 5 over; the clock then
stands still while two runs-alone requests are served. -/
def before : List (Call StubItem ℕ) :=
  [.submit ⟨1, none, true, none⟩ 0 1, .submit ⟨5, none, false, none⟩ 1 2,
    .submit ⟨4, none, false, none⟩ 2 3, .submit ⟨4, none, false, none⟩ 3 4,
    .submit ⟨5, none, false, none⟩ 4 5, .take .idleBypass 5, .take .idleBypass 5,
    .submit ⟨1, none, true, none⟩ 5 5, .take .idleBypass 5]

/-- Two costly requests arrive in the second turn, and all batches of it leave. -/
def during : List (Call StubItem ℕ) :=
  [.submit ⟨20, none, false, none⟩ 6 5, .submit ⟨20, none, false, none⟩ 7 5, .take .idleBypass 5,
    .take .idleBypass 5, .take .idleBypass 5]

/-- The batch former after `before`, after the first batch of the second turn, and
after the two arrivals. -/
def b₀ : BatchFormer StubItem ℕ × List (FormattedBatch StubItem ℕ) :=
  (runs step (withEpoch ⟨10, 8, 5, 1, 1, 1⟩ 0) before).getD (withEpoch ⟨10, 8, 5, 1, 1, 1⟩ 0, [])

@[inherit_doc b₀] def b₁ : BatchFormer StubItem ℕ × List (FormattedBatch StubItem ℕ) :=
  (b₀.1.step (.tryDrainUpTo 1 5)).getD b₀

/-- The first batch of the second turn. -/
def first : FormattedBatch StubItem ℕ := ⟨[⟨5, none, false, none⟩], [1], 5, .drain⟩

@[inherit_doc b₀] def b₂ : BatchFormer StubItem ℕ × List (FormattedBatch StubItem ℕ) :=
  (runs step b₁.1 (during.take 2)).getD b₁

end SameInstant

open SameInstant in
/-- Requests that arrive at the instant the turn owes are owed beyond its budget. -/
theorem turn_owes_beyond_budget :
    runs step (withEpoch ⟨10, 8, 5, 1, 1, 1⟩ 0)
        (before ++ .tryDrainUpTo 1 5 :: during.take 2) = some (b₂.1, b₀.2 ++ (b₁.2 ++ b₂.2)) ∧
      ((before ++ .tryDrainUpTo 1 5 :: during.take 2).flatMap Call.readings).Pairwise (· ≤ ·) ∧
      ∃ turn, b₂.1.inner.batchableTurn = some turn ∧
        turn.costLeft < owedCost turn b₂.1.inner.pending := by
  refine ⟨by decide +kernel, by decide, ⟨5, some 5, 10, false⟩, ?_, ?_⟩ <;> decide +kernel

open SameInstant in
/-- Before those arrivals the debt is covered, and after them the turn goes on. -/
theorem turn_pays_what_it_owes_sameInstant :
    (∀ turn, b₁.1.inner.batchableTurn = some turn →
        owedCost turn b₁.1.inner.pending ≤ turn.costLeft) ∧
      b₂.1.beginsTurn (.take .idleBypass 5) = false := by
  have h₁ : runs step (withEpoch ⟨10, 8, 5, 1, 1, 1⟩ 0) (before ++ [.tryDrainUpTo 1 5]) =
      some (b₁.1, b₀.2 ++ b₁.2) := by decide +kernel
  have h₂ : runs step (withEpoch ⟨10, 8, 5, 1, 1, 1⟩ 0)
      (before ++ .tryDrainUpTo 1 5 :: during.take 2) = some (b₂.1, b₀.2 ++ (b₁.2 ++ b₂.2)) := by
    decide +kernel
  have hstep : b₂.1.step (.take .idleBypass 5) =
      some ((b₂.1.step (.take .idleBypass 5)).getD b₂) := by decide +kernel
  refine ⟨(turn_pays_what_it_owes h₁ (by decide)).1 (by decide +kernel), ?_⟩
  exact ((turn_pays_what_it_owes h₂ (by decide)).2.1 ⟨5, some 5, 10, false⟩
    ⟨⟨5, none, false, none⟩, 4, 5⟩ (by decide +kernel) (by decide +kernel) (by decide +kernel)
    _ _ _ hstep).1

end BatchFormer

variable {t : BatchableTurn} {now : Instant} {x : PendingRequest I T}
  {rest ready : List (PendingRequest I T)} {s opened : Inner I T} {maxItems : ℕ}

/-! ## The cost of a turn -/

/-- The oldest left-over requests: of the batchable ones an earlier turn's cutoff
covers, those of the oldest instant. -/
def oldestGroup (s : Inner I T) : List (PendingRequest I T) :=
  match s.lastTurnCutoff with
  | none => []
  | some carried =>
    let leftOver := leftOverUpTo carried s.pending
    leftOver.filter fun r => leftOver.all fun r' => decide (r.arrivalTime ≤ r'.arrivalTime)

/-- What a turn adds to its budget is the cost of the oldest group. -/
theorem owedLeftOver_snd (s : Inner I T) (maxCost : ℕ) :
    (owedLeftOver s.pending s.lastTurnCutoff maxCost).2 = costSum (oldestGroup s) := by
  cases hcarried : s.lastTurnCutoff with
  | none => simp [owedLeftOver, oldestGroup, hcarried]
  | some carried =>
    simp only [oldestGroup, hcarried]
    by_cases hne : leftOverUpTo carried s.pending = []
    · simp [owedLeftOver, leftOverHeap, hne, arrivalGroups]
    obtain ⟨_, _, heq, hle, -, r₀, hr₀, hcost, hleast⟩ := owedLeftOver_spec hne maxCost
    obtain ⟨hmem, hbatchable, howed⟩ := mem_leftOverUpTo.mp hr₀
    have hr₀ := mem_leftOverUpTo.mpr ⟨hmem, hbatchable, howed.trans hle⟩
    rw [heq, hcost, leftOverUpTo, leftOverUpTo, filter_filter]
    refine congrArg costSum (filter_congr fun r _ => ?_)
    rw [Bool.eq_iff_iff, ← leftOverUpTo]
    simp
    exact ⟨fun h => ⟨fun r' hr' => h.2.trans (hleast r' hr'), h.1,
      h.2.trans (howed.trans hle)⟩, fun h => ⟨h.2.1, h.1 r₀ hr₀⟩⟩

/-- A cheapest request that the turn serves and does not owe. -/
def CheapestUnowed (t : BatchableTurn) (l : List (PendingRequest I T)) (x : PendingRequest I T) :
    Prop :=
  x ∈ l ∧ t.serves x ∧ ¬t.owes x ∧ ∀ y ∈ l, t.serves y → ¬t.owes y → x.cost ≤ y.cost

/-- The sort puts a cheapest served request first. -/
theorem sortPending_head_le (ht : s.batchableTurn = some t) (h : sortPending s now = x :: rest)
    (hr : r ∈ s.pending) (hserves : t.serves r) : x.cost ≤ r.cost := by
  have hfront : FrontLoaded (fun y => t.serves y && decide (y.cost ≤ r.cost))
      (sortPending s now) := by
    have haged : oldestAged s now = none := by simp [oldestAged, ht]
    simp only [sortPending, haged, ht]
    refine frontLoaded_insertionSort (fun a c ha hc => ?_) s.pending
    simp only [Bool.and_eq_true, decide_eq_true_eq, not_and] at ha hc
    by_cases hserved : t.serves c = true
    · have hlt : a.cost < c.cost := lt_of_le_of_lt ha.2 (not_le.mp (hc hserved))
      have halone := (batchable_of_serves ha.1).1
      have hcalone := (batchable_of_serves hserved).1
      simp [packCmp, ha.1, hserved, halone, hcalone, Nat.compare_eq_gt, Nat.compare_eq_lt.mpr hlt,
        hlt]
    · exact packCmp_separates t a c ha.1 hserved
  rw [h] at hfront
  have hmem : r ∈ x :: rest := h ▸ (sortPending_perm s now).mem_iff.mpr hr
  rcases mem_cons.mp hmem with rfl | hmem
  · exact le_rfl
  · have := (pairwise_cons.mp hfront).1 r hmem (by simp [hserves])
    simp at this
    exact this.2

/-- Where something is owed, the first request of a batch is owed or leaves room. -/
theorem makeRoomLoop_head {room maxTake owedLeft : ℕ} (hmax : 0 < maxTake)
    {l : List (PendingRequest I T)} (hr : r ∈ l) (howes : t.owes r)
    (h : makeRoomLoop t room maxTake 0 0 owedLeft l = x :: rest) :
    t.owes x ∨ x.cost ≤ t.costLeft := by
  cases l with
  | nil => simp at hr
  | cons y l =>
    simp [makeRoomLoop, Nat.ne_of_gt hmax] at h
    split_ifs at h with hy hroom
    · exact .inl ((cons.inj h).1 ▸ hy)
    · left
      have hfilter : r ∈ (y :: l).filter t.owes := mem_filter.mpr ⟨hr, howes⟩
      obtain ⟨z, zs, hz⟩ := exists_cons_of_ne_nil (ne_nil_of_mem hfilter)
      have hz' : t.owes z := (mem_filter.mp (hz ▸ mem_cons_self)).2
      rw [hz, cons_append] at h
      exact (cons.inj h).1 ▸ hz'
    · rw [← (cons.inj h).1]
      omega

/-- **The cost of one batch of a turn.**  A batch stays within what is left of the
budget, unless it is a single cheapest request that the turn does not owe, the
first of those it takes. -/
theorem Extraction.cost_le {s' : Inner I T} {k : ℕ} {b : FormattedBatch I T}
    (h : Extraction s maxItems now b s' opened ready k)
    (ht : opened.batchableTurn = some t) (hcovered : owedCost t s.pending ≤ t.costLeft) :
    costSum (ready.take k) ≤ t.costLeft ∨
      t.tookUnowed = false ∧ ∃ x, ready.take k = [x] ∧ CheapestUnowed t s.pending x := by
  have hpos := h.pos
  have hserved := (h.ofTurn ht).1.served
  obtain ⟨r, hr, hserves, hfits⟩ := openTurn_serves h.opens ht h.nonempty
  have halone : aloneNext (closeFinishedTurn s) = false :=
    aloneNext_eq_false h.opens ht (by rwa [(closeFinishedTurn_books s).1]) hserves
  have hsorted := h.sorted_perm
  have hpacks := h.packs
  rw [arranged, halone] at hpacks
  -- a pack of more than one request is within its cost cap
  have single : ∀ {turn' : BatchableTurn} {x : PendingRequest I T} {l : List (PendingRequest I T)},
      (packLoop (some turn') maxItems s.config.maxBatchRequests 0
        (min (effectiveMaxCost s) t.costLeft) 0 0 (x :: l)).1 = k →
      ((x :: l).take k = [x] ∧ t.costLeft < x.cost) ∨ costSum ((x :: l).take k) ≤ t.costLeft := by
    intro turn' x l hpack
    rcases packLoop_cases hpack with hle | ⟨-, hcost, -⟩
    · obtain rfl : k = 1 := by omega
      by_cases hx : x.cost ≤ t.costLeft
      · exact .inr (by simpa using hx)
      · exact .inl ⟨rfl, by omega⟩
    · exact .inr (hcost.trans (min_le_right _ _))
  by_cases howed : ∃ r ∈ s.pending, t.owes r
  · left
    obtain ⟨r₀, hr₀, howes⟩ := howed
    have hfront := frontLoaded_sortPending ht now
    rw [arrange_owed ht hfront (hsorted.mem_iff.mpr hr₀) howes] at hpacks
    obtain ⟨rfl, hpack⟩ := hpacks.turn t rfl ht
    have hperm := makeRoomLoop_perm t (min (effectiveMaxCost s) t.costLeft)
      (max (min maxItems s.config.maxBatchRequests) 1) 0 0
      (owedCost t ((sortPending opened now).takeWhile t.serves))
      ((sortPending opened now).takeWhile t.serves)
    obtain ⟨x, rest, hroom, -⟩ := head_mem_front hfront hperm (hsorted.mem_iff.mpr hr₀)
      (serves_of_owes howes)
    have hmem : r₀ ∈ (sortPending opened now).takeWhile t.serves := by
      rcases mem_append.mp ((takeWhile_append_dropWhile (p := t.serves)
        (l := sortPending opened now)).symm ▸ hsorted.mem_iff.mpr hr₀) with hmem | hmem
      · exact hmem
      · exact absurd howes (not_owes_of_mem_dropWhile hfront hmem)
    have hhead : t.owes x ∨ x.cost ≤ t.costLeft := makeRoomLoop_head (by omega) hmem howes hroom
    rw [hroom] at hpack hperm ⊢
    rcases single (congrArg Prod.fst hpack) with ⟨-, hgt⟩ | hle
    · rcases hhead with hx | hx
      · have hx' : x ∈ s.pending := hsorted.mem_iff.mp
          (( takeWhile_prefix _).subset (hperm.mem_iff.mp mem_cons_self))
        exact absurd ((cost_le_owedCost hx' hx).trans hcovered) (by omega)
      · omega
    · exact hle
  · have hnone : ∀ r ∈ sortPending opened now, ¬t.owes r := fun r hr howes =>
      howed ⟨r, hsorted.mem_iff.mp hr, howes⟩
    obtain ⟨_, _, harrange, -, -, hfront⟩ := arrange_in_turn ht
      (effectiveMaxCost s) (max (min maxItems s.config.maxBatchRequests) 1) (sortPending opened now)
    rw [harrange, hfront hnone, takeWhile_append_dropWhile] at hpacks
    obtain ⟨rfl, hpack⟩ := hpacks.turn _ rfl rfl
    obtain ⟨x, rest, hcons⟩ := exists_cons_of_ne_nil (ne_nil_of_mem (hsorted.mem_iff.mpr hr))
    have hleast : ∀ y ∈ s.pending, t.serves y → x.cost ≤ y.cost := by
      intro y hy
      rw [← (closeFinishedTurn_books s).1, ← (openTurn_books h.opens).1] at hy
      exact sortPending_head_le ht hcons hy
    rw [hcons] at hpack hserved ⊢
    rcases single (congrArg Prod.fst hpack) with ⟨htaken, hgt⟩ | hle
    · have hx : x ∈ sortPending opened now := hcons ▸ mem_cons_self
      refine .inr ⟨?_, x, htaken, hsorted.mem_iff.mp hx, hserved x (by rw [htaken]; simp),
        hnone x hx, fun y hy hy' _ => hleast y hy hy'⟩
      by_contra htook
      have := hfits (by simpa using htook)
      have := hleast r hr hserves
      omega
    · exact .inl hle

namespace BatchFormer

variable {b : BatchFormer I T} {turn : BatchableTurn} {past : List Instant}

/-- The turn the next batch belongs to, if any. -/
def nextTurn (b : BatchFormer I T) : Option BatchableTurn :=
  (openTurn (closeFinishedTurn b.inner) (effectiveMaxCost b.inner)).bind Inner.batchableTurn

/-- The batches that the turn under way takes during the calls, each with the state
it was taken in. -/
def turnBatches (b : BatchFormer I T) :
    List (Call I T) → List (BatchFormer I T × FormattedBatch I T)
  | [] => []
  | call :: calls =>
    match b.step call with
    | none => []
    | some (t, []) => turnBatches t calls
    | some (t, batch :: _) =>
      if t.inner.batchableTurn.isSome && !b.beginsTurn call then
        (b, batch) :: turnBatches t calls
      else []

/-- Total cost of batches. -/
def spent (l : List (BatchFormer I T × FormattedBatch I T)) : ℕ :=
  (l.map fun p => p.2.totalCost).sum

/-- The batch takes a request that was the cheapest pending one its turn served and
did not owe. -/
def TakesCheapest (p : BatchFormer I T × FormattedBatch I T) (x : PendingRequest I T) : Prop :=
  x.pair ∈ p.2.pairs ∧ ∃ turn, p.1.nextTurn = some turn ∧ CheapestUnowed turn p.1.inner.pending x

/-- The cost of some batches is within a bound, or one further request above it. -/
def WithinOne (l : List (BatchFormer I T × FormattedBatch I T)) (bound : ℕ) : Prop :=
  spent l ≤ bound ∨ ∃ p ∈ l, ∃ x, TakesCheapest p x ∧ spent l ≤ bound + x.cost

/-- The budget a batch leaves bounds the batches after it. -/
theorem withinOne_cons {t : BatchFormer I T} {k : ℕ} {now : Instant}
    {batch : FormattedBatch I T} {l : List (BatchFormer I T × FormattedBatch I T)}
    (h : Extraction b.inner maxItems now batch t.inner opened ready k)
    (ht : opened.batchableTurn = some turn)
    (hcovered : owedCost turn b.inner.pending ≤ turn.costLeft)
    (hrest : ∀ turn', t.inner.batchableTurn = some turn' → spent l ≤ turn'.costLeft ∨
      turn'.tookUnowed = false ∧ WithinOne l turn'.costLeft) :
    spent ((b, batch) :: l) ≤ turn.costLeft ∨
      turn.tookUnowed = false ∧ WithinOne ((b, batch) :: l) turn.costLeft := by
  obtain ⟨_, hnext, -⟩ := (h.ofTurn ht).1.next
  have hrest := hrest _ hnext
  have hspent : spent ((b, batch) :: l) = costSum (ready.take k) + spent l := by
    simp [spent, h.extracts.cost]
  rcases h.cost_le ht hcovered with _ | ⟨htook, x, htaken, hx⟩
  · rcases hrest with hrest | ⟨htook, hrest⟩
    · dsimp only at hrest
      omega
    right
    simp only [Bool.or_eq_false_iff] at htook
    refine ⟨htook.1, ?_⟩
    rcases hrest with hrest | ⟨p, hp, x, hx, hrest⟩
    · left
      dsimp only at hrest
      omega
    right
    refine ⟨p, mem_cons_of_mem _ hp, x, hx, ?_⟩
    dsimp only at hrest
    omega
  · -- the one overdraw: afterwards nothing is left and the turn has taken it
    have hcost : costSum (ready.take k) = x.cost := by rw [htaken]; simp
    have hunowed : ((ready.take k).any fun r => !turn.owes r) = true := by
      simpa [htaken] using hx.2.2.1
    have hzero : spent l ≤ turn.costLeft - x.cost := by
      rcases hrest with hrest | ⟨hfalse, -⟩
      · rwa [hcost] at hrest
      · simp [hunowed] at hfalse
    refine .inr ⟨htook, .inr ⟨(b, batch), mem_cons_self, x, ⟨?_, turn, ?_, hx⟩, ?_⟩⟩
    · simp only [FormattedBatch.pairs, h.extracts.items, h.extracts.metadata,
        zip_map_item_metadata, htaken]
      simp
    · simp [nextTurn, h.opens, ht]
    · omega

/-- **The cost of what is left of a turn.** -/
theorem turnBatches_withinOne {calls : List (Call I T)} (hb : TurnInv past b.inner)
    (hturn : b.inner.batchableTurn = some turn) (hlater : Along step SubmitsLater b calls) :
    spent (b.turnBatches calls) ≤ turn.costLeft ∨
      turn.tookUnowed = false ∧ WithinOne (b.turnBatches calls) turn.costLeft := by
  induction calls generalizing b past turn with
  | nil => simp [turnBatches, spent]
  | cons call calls ih =>
    simp only [turnBatches]
    cases hstep : b.step call with
    | none => simp [spent]
    | some p =>
      obtain ⟨t, out⟩ := p
      have ht := step_turnInv_of_not_owes hb (fun _ => hlater.1.not_owes) hstep
      have hnext := hlater.2 t out hstep
      rcases step_receives_or_extracts hstep with ⟨rfl, hnew⟩ |
        ⟨_, _, _, opened, ready, k, rfl, -, hparts⟩
      · exact ih ht (hnew.batchableTurn.trans hturn) hnext
      dsimp only
      split_ifs with hgoes
      · rw [Bool.and_eq_true, Bool.not_eq_true', beginsTurn, hstep] at hgoes
        obtain ⟨t₁, ht₁, -⟩ : ∃ t₁, opened.batchableTurn = some t₁ ∧
            OfTurn b.inner t₁ (ready.take k) t.inner := by
          rcases hparts.lanes with ⟨-, -, hnone, -⟩ | hofTurn | ⟨-, -, -, hnone⟩
          · simp [hnone] at hgoes
          · exact hofTurn
          · simp [hnone] at hgoes
        obtain rfl : t₁ = turn := by
          rcases openTurn_eq_some hparts.opens with ⟨-, rfl⟩ | ⟨hopens, -⟩
          · rcases closeFinishedTurn_eq b.inner with heq | heq
            · rw [heq, hturn] at ht₁
              exact (Option.some.inj ht₁).symm
            · simp [heq] at ht₁
          · rw [hopens] at hgoes
            simp at hgoes
        exact withinOne_cons hparts ht₁ (hb.opened_covered hparts.opens ht₁)
          fun turn' hturn' => ih ht hturn' hnext
      · simp [spent]

/-- **Turn cost bound.**  A turn begins at `b₀`.  If nothing is submitted during the
turn at an instant it owes, its batches cost together at most the effective cost cap
it began with and the oldest group of left-over requests, or besides these one
request that, when it was taken, was the cheapest pending one the turn served and did
not owe. -/
theorem turn_cost_bound {config : BatchConfig} {epoch : Instant} {calls₀ calls : List (Call I T)}
    {call : Call I T} {b₀ b₁ : BatchFormer I T} {out₀ : List (FormattedBatch I T)}
    {batch : FormattedBatch I T} (h₀ : runs step (withEpoch config epoch) calls₀ = some (b₀, out₀))
    (hbegins : b₀.beginsTurn call = true) (h₁ : b₀.step call = some (b₁, [batch]))
    (hlater : Along step SubmitsLater b₁ calls) :
    WithinOne ((b₀, batch) :: b₁.turnBatches calls)
      (effectiveMaxCost b₀.inner + costSum (oldestGroup b₀.inner)) := by
  obtain ⟨past, hb₀⟩ : ∃ past, TurnBooks past b₀.inner :=
    runs_invariant (P := fun b : BatchFormer I T => ∃ past, TurnBooks past b.inner)
      (fun _ _ _ _ ⟨_, hb⟩ hstep => ⟨_, step_turnBooks hb hstep⟩)
      ⟨[], (turnInv_withEpoch config epoch).toTurnBooks⟩ h₀
  obtain ⟨hopens, _, _, batch', _, _, k, hout, hparts⟩ := beginsTurn_cases hbegins h₁
  obtain rfl : batch = batch' := by simpa using hout
  obtain ⟨turn, hturn, hnew, -⟩ := hb₀.opens hparts.opens hopens
  have hpend := (closeFinishedTurn_books b₀.inner).1
  have hcovered : owedCost turn b₀.inner.pending ≤ turn.costLeft := hpend ▸ hnew.covered
  have hbudget : turn.costLeft ≤
      effectiveMaxCost b₀.inner + costSum (oldestGroup b₀.inner) := by
    rcases openTurn_eq_some hparts.opens with ⟨hfalse, -⟩ | ⟨-, _, -, heq⟩
    · exact absurd hopens (by simp [hfalse])
    rw [heq] at hturn
    rw [← Option.some.inj hturn, ← owedLeftOver_snd b₀.inner, hpend,
      (closeFinishedTurn_books b₀.inner).2.1]
    exact min_le_left _ _
  have hinv : TurnInv past b₁.inner := by
    refine ⟨hb₀.extract hparts, fun t' ht' => hparts.covered (fun t ht => ?_) ht'⟩
    rwa [← Option.some.inj (hturn.symm.trans ht)]
  have hbound := withinOne_cons (l := b₁.turnBatches calls) hparts hturn hcovered
    fun turn' hturn' => turnBatches_withinOne hinv hturn' hlater
  rcases hbound with hle | ⟨-, hle | ⟨p, hp, x, hx, hle⟩⟩
  · exact .inl (hle.trans hbudget)
  · exact .inl (hle.trans hbudget)
  · exact .inr ⟨p, hp, x, hx, hle.trans (Nat.add_le_add_right hbudget _)⟩

open SameInstant in
/-- Two requests that arrive during the turn at the instant it owes are served by it,
at a cost no single further request accounts for. -/
theorem turn_cost_unbounded :
    runs step (withEpoch ⟨10, 8, 5, 1, 1, 1⟩ 0) before = some b₀ ∧
      b₀.1.beginsTurn (.tryDrainUpTo 1 5) = true ∧
      b₀.1.step (.tryDrainUpTo 1 5) = some (b₁.1, [first]) ∧
      ((before ++ .tryDrainUpTo 1 5 :: during).flatMap Call.readings).Pairwise (· ≤ ·) ∧
      ¬WithinOne ((b₀.1, first) :: b₁.1.turnBatches during)
        (effectiveMaxCost b₀.1.inner + costSum (oldestGroup b₀.1.inner)) := by
  refine ⟨by decide +kernel, by decide +kernel, by decide +kernel, by decide, ?_⟩
  have hspent : spent ((b₀.1, first) :: b₁.1.turnBatches during) = 50 := by decide +kernel
  have hbound : effectiveMaxCost b₀.1.inner + costSum (oldestGroup b₀.1.inner) = 15 := by
    decide +kernel
  have hcost : ∀ p ∈ (b₀.1, first) :: b₁.1.turnBatches during, ∀ x ∈ p.1.inner.pending,
      x.cost ≤ 20 := by decide +kernel
  rw [WithinOne, hspent, hbound]
  rintro (hle | ⟨p, hp, x, ⟨-, _, -, hx⟩, hle⟩)
  · omega
  · have := hcost p hp x hx.1
    omega

open SameInstant in
/-- Without the two arrivals the second turn costs what was left over. -/
theorem turn_cost_bound_leftOver :
    WithinOne ((b₀.1, first) :: b₁.1.turnBatches (during.drop 2))
        (effectiveMaxCost b₀.1.inner + costSum (oldestGroup b₀.1.inner)) ∧
      spent ((b₀.1, first) :: b₁.1.turnBatches (during.drop 2)) = 10 := by
  have h₀ : runs step (withEpoch ⟨10, 8, 5, 1, 1, 1⟩ 0) before = some b₀ := by decide +kernel
  have h₁ : b₀.1.step (.tryDrainUpTo 1 5) = some (b₁.1, [first]) := by decide +kernel
  exact ⟨turn_cost_bound h₀ (by decide +kernel) h₁ (by decide +kernel), by decide +kernel⟩

end BatchFormer

end Sie.Sidecar
