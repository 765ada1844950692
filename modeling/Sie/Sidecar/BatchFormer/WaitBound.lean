import Sie.Sidecar.BatchFormer.Turn

/-!
# The wait bound of batchable turns

Every turn serves the oldest request earlier turns left over, and no later
arrival is older.  So once a turn that began after a request arrived has ended,
each further turn takes at least one of the batchable requests that arrived no
later than it, and it waits for at most as many turns as there are of those.

The ranking is the number of those requests still pending.  It never grows,
since arrivals only get later.  A turn that begins owes one of them, and cannot
end before that one is served.
-/

namespace Sie.Sidecar.BatchFormer

open Sie.Lib List FormattedBatch

universe u v
variable {I : Type u} {T : Type v} [HasCost I]

/-- A turn is under way while some request it serves keeps it going. -/
def turnUnderWay (b : BatchFormer I T) : Bool :=
  b.inner.batchableTurn.any fun t => b.inner.pending.any t.goesOn

/-- The call takes a batch that opens a turn. -/
def beginsTurn (b : BatchFormer I T) (call : Call I T) : Bool :=
  match b.step call with
  | some (_, _ :: _) => opensTurn (closeFinishedTurn b.inner)
  | _ => false

/-- Number of turns that begin during the calls. -/
def turnsBegun (b : BatchFormer I T) : List (Call I T) → ℕ
  | [] => 0
  | call :: calls =>
    (b.beginsTurn call).toNat +
      match b.step call with
      | none => 0
      | some (b', _) => turnsBegun b' calls

theorem turnsBegun_concat {b t : BatchFormer I T} {calls : List (Call I T)}
    {out : List (FormattedBatch I T)} (h : runs step b calls = some (t, out)) (call : Call I T) :
    b.turnsBegun (calls ++ [call]) = b.turnsBegun calls + (t.beginsTurn call).toNat := by
  induction calls generalizing b out with
  | nil =>
    obtain ⟨rfl, -⟩ : b = t ∧ [] = out := by simpa using h
    simp only [nil_append, turnsBegun]
    split <;> simp
  | cons c calls ih =>
    obtain ⟨b₁, o₁, o₂, hstep, hrest, -⟩ := runs_cons_eq_some.mp h
    simp [cons_append, turnsBegun, hstep, ih hrest, Nat.add_assoc]

section

variable (x : PendingRequest I T)

/-- The batchable requests pending that arrived no later than `x`: the request
itself and those before it. -/
def ahead (b : BatchFormer I T) : List (PendingRequest I T) :=
  leftOverUpTo x.arrivalTime b.inner.pending

/-- The turn owes a pending request that arrived no later than `x`. -/
def OwesAhead (b : BatchFormer I T) : Prop :=
  ∃ t r, b.inner.batchableTurn = some t ∧ r ∈ b.inner.pending ∧ t.owes r ∧
    r.arrivalTime ≤ x.arrivalTime

/-- Some turn that began while `x` was pending has raised the carried cutoff past
its arrival. -/
def Carried (s : Inner I T) : Prop :=
  ∃ c, s.lastTurnCutoff = some c ∧ x.arrivalTime ≤ c

end

section

variable {past : List Instant} {x : PendingRequest I T} {b t : BatchFormer I T} {call : Call I T}
  {out : List (FormattedBatch I T)} {opened : Inner I T} {maxItems n k : ℕ}
  {batch : FormattedBatch I T}

theorem turnUnderWay_of_owesAhead (hb : TurnInv past b.inner) (h : OwesAhead x b) :
    b.turnUnderWay = true := by
  obtain ⟨t, r, ht, hr, howes, -⟩ := h
  simp [turnUnderWay, ht]
  exact ⟨r, hr, hb.goesOn_of_owes ht hr howes⟩

/-! ## Steps -/

theorem carried_openTurn {s : Inner I T} {maxCost : ℕ} (hx : Carried x s)
    (h : openTurn s maxCost = some opened) : Carried x opened := by
  obtain ⟨c, hc, hle⟩ := hx
  rcases openTurn_eq_some h with ⟨-, rfl⟩ | ⟨-, cutoff, -, rfl⟩
  · exact ⟨c, hc, hle⟩
  · refine ⟨_, rfl, hle.trans ?_⟩
    rw [hc]
    exact le_max_left c cutoff

theorem step_carried (hx : Carried x b.inner) (h : b.step call = some (t, out)) :
    Carried x t.inner := by
  obtain ⟨c, hc, hle⟩ := hx
  rcases step_receives_or_extracts h with ⟨-, hnew⟩ | ⟨_, _, _, _, _, k, -, -, hparts⟩
  · exact ⟨c, hnew.lastTurnCutoff.trans hc, hle⟩
  have hclosed : Carried x (closeFinishedTurn b.inner) :=
    ⟨c, (closeFinishedTurn_books b.inner).2.1.trans hc, hle⟩
  obtain ⟨c, hc, hle⟩ := carried_openTurn hclosed hparts.opens
  exact ⟨c, hparts.cutoff.trans hc, hle⟩

/-- A call that begins a turn is an extraction that opens one. -/
theorem beginsTurn_cases (hbegins : b.beginsTurn call = true) (h : b.step call = some (t, out)) :
    opensTurn (closeFinishedTurn b.inner) = true ∧
      ∃ maxItems now batch opened ready k, out = [batch] ∧
        Extraction b.inner maxItems now batch t.inner opened ready k := by
  rw [beginsTurn, h] at hbegins
  rcases step_receives_or_extracts h with ⟨rfl, -⟩ |
    ⟨maxItems, now, batch, opened, ready, k, rfl, -, hparts⟩
  · cases hbegins
  · exact ⟨hbegins, maxItems, now, batch, opened, ready, k, rfl, hparts⟩

/-- A turn that begins while `x` is pending carries it. -/
theorem carried_of_beginsTurn (hb : TurnInv past b.inner) (hx : x ∈ b.inner.pending)
    (hbegins : b.beginsTurn call = true) (h : b.step call = some (t, out)) : Carried x t.inner := by
  obtain ⟨hopens, _, _, _, _, _, k, -, hparts⟩ := beginsTurn_cases hbegins h
  obtain ⟨_, -, hturn, hcutoff⟩ := hb.opens hparts.opens hopens
  refine ⟨_, hparts.cutoff.trans hcutoff, ?_⟩
  have hpend := (closeFinishedTurn_books b.inner).1
  exact (hturn.le_cutoff x (hpend ▸ hx)).trans (le_maxCutoff _ _)

/-! ## The ranking -/

/-- What an extraction takes leaves the ranking. -/
theorem ahead_extract {taken : List (PendingRequest I T)}
    (h : Extracts b.inner maxItems batch t.inner taken) :
    (t.ahead x).length ≤ (b.ahead x).length ∧
      ∀ r ∈ b.ahead x, r ∉ t.inner.pending → (t.ahead x).length + 1 ≤ (b.ahead x).length := by
  have hsplit : (leftOverUpTo x.arrivalTime taken).length + (t.ahead x).length =
      (b.ahead x).length := by
    have hperm := h.perm.filter fun r => !r.runsAlone && decide (r.arrivalTime ≤ x.arrivalTime)
    simpa [ahead, leftOverUpTo] using hperm.length_eq
  refine ⟨by omega, fun r hr hgone => ?_⟩
  obtain ⟨hmem, hbatchable, hle⟩ := mem_leftOverUpTo.mp hr
  have htaken' : r ∈ leftOverUpTo x.arrivalTime taken := by
    rcases mem_append.mp (h.perm.mem_iff.mpr hmem) with hr | hr
    · exact mem_leftOverUpTo.mpr ⟨hr, hbatchable, hle⟩
    · exact absurd hr hgone
  have hpos := length_pos_of_mem htaken'
  omega

/-- A later arrival does not enter the ranking. -/
theorem ahead_append {items : List (I × T × Instant)} (hs : Receives b.inner t.inner items)
    (hlater : ∀ y ∈ items, x.arrivalTime < y.2.2) : t.ahead x = b.ahead x := by
  have hnil : leftOverUpTo x.arrivalTime (arrivalRequests items) = [] := by
    refine eq_nil_iff_forall_not_mem.mpr fun r hr => ?_
    obtain ⟨hmem, -, hle⟩ := mem_leftOverUpTo.mp hr
    obtain ⟨y, hy, rfl⟩ := mem_map.mp hmem
    exact absurd (hlater y hy) (not_lt.mpr hle)
  simp only [ahead, leftOverUpTo] at hnil ⊢
  rw [hs.pending, filter_append, hnil, append_nil]

/-- After `k` turns of at most `n`: the requests ahead of `x` have gone down by
one per turn, but for the one the turn under way still owes. -/
def RankBound (x : PendingRequest I T) (n k : ℕ) (b : BatchFormer I T) : Prop :=
  (b.ahead x).length = 0 ∨ (b.ahead x).length + k ≤ n ∨
    OwesAhead x b ∧ (b.ahead x).length + k ≤ n + 1

/-- A batch of a turn that owes a request ahead of `x` serves it, or owes it
still. -/
theorem rankBound_of_owed {r : PendingRequest I T} {m : ℕ} {now : Instant}
    {ready : List (PendingRequest I T)} {turn : BatchableTurn} (hb : TurnInv past b.inner)
    (hs : Extraction b.inner maxItems now batch t.inner opened ready k)
    (hturn : opened.batchableTurn = some turn) (hr : r ∈ b.inner.pending) (howes : turn.owes r)
    (hle : r.arrivalTime ≤ x.arrivalTime) (hrank : (b.ahead x).length + m ≤ n + 1) :
    RankBound x n m t := by
  obtain ⟨_, hstrict⟩ := ahead_extract (x := x) hs.extracts
  have hahead : r ∈ b.ahead x := mem_leftOverUpTo.mpr
    ⟨hr, (BatchableTurn.batchable_of_serves (BatchableTurn.serves_of_owes howes)).1, hle⟩
  by_cases hleft : r ∈ t.inner.pending
  · obtain ⟨turn', hturn', hdebt, -⟩ := hs.turn_owed hturn hr howes
      (hb.opened_covered hs.opens hturn)
    have howes' : turn'.owes r := by rwa [hdebt.owes_eq]
    exact .inr (.inr ⟨⟨turn', r, hturn', hleft, howes', hle⟩, by omega⟩)
  · have := hstrict r hahead hleft
    exact .inr (.inl (by omega))

/-- **One step of the ranking.** -/
theorem step_rankBound (hb : TurnInv past b.inner) (hx : Carried x b.inner)
    (hlater : ∀ now ∈ arrivalTimes [call], x.arrivalTime < now) (h : b.step call = some (t, out))
    (hrank : RankBound x n k b) : RankBound x n (k + (b.beginsTurn call).toNat) t := by
  rcases step_receives_or_extracts h with ⟨rfl, hnew⟩ | ⟨_, now, batch, _, _, j, rfl, -, hparts⟩
  · have hquiet : b.beginsTurn call = false := by simp [beginsTurn, h]
    have hahead := ahead_append (x := x) hnew
      fun y hy => hlater y.2.2 (mem_map.mpr ⟨y, by simpa using hy, rfl⟩)
    rw [hquiet, Bool.toNat_false, Nat.add_zero, RankBound, hahead]
    refine hrank.imp_right (Or.imp_right ?_)
    rintro ⟨⟨turn, r, hturn, hr, howes, hle⟩, hcount⟩
    exact ⟨⟨turn, r, hnew.batchableTurn.trans hturn,
      by rw [hnew.pending]; exact mem_append_left _ hr, howes, hle⟩, hcount⟩
  have hbegins : b.beginsTurn call = opensTurn (closeFinishedTurn b.inner) := by
    simp [beginsTurn, h]
  have hmono := (ahead_extract (x := x) hparts.extracts).1
  rw [hbegins]
  rcases openTurn_eq_some hparts.opens with ⟨hopens, heq⟩ | ⟨hopens, -⟩
  · -- the batch belongs to the turn under way, or to none
    rw [hopens, Bool.toNat_false, Nat.add_zero]
    rcases hrank with hzero | hcount | ⟨⟨turn, r, hturn, hr, howes, hle⟩, hcount⟩
    · exact .inl (by omega)
    · exact .inr (.inl (by omega))
    · rw [hb.closeFinishedTurn_eq hturn hr howes] at heq
      exact rankBound_of_owed hb hparts (by rw [heq]; exact hturn) hr howes hle hcount
  rw [hopens, Bool.toNat_true]
  obtain ⟨turn, hturn, hnew, -⟩ := hb.opens hparts.opens hopens
  have hpend := (closeFinishedTurn_books b.inner).1
  rcases hrank with hzero | hcount | ⟨⟨_, r, hturn', hr, howes, hle⟩, hcount⟩
  · exact .inl (by omega)
  · -- the new turn owes the oldest request that was left over
    by_cases hempty : (b.ahead x).length = 0
    · exact .inl (by omega)
    obtain ⟨y, hy⟩ := exists_mem_of_length_pos (Nat.pos_of_ne_zero hempty)
    obtain ⟨hmem, hbatchable, hyx⟩ := mem_leftOverUpTo.mp hy
    obtain ⟨c, hc, hxc⟩ := hx
    obtain ⟨r₀, hr₀, howes, hr₀y⟩ := hnew.oldest c
      ((closeFinishedTurn_books b.inner).2.1.trans hc) y
      (mem_leftOverUpTo.mpr ⟨hpend ▸ hmem, hbatchable, hyx.trans hxc⟩)
    exact rankBound_of_owed hb hparts hturn (hpend ▸ hr₀) howes (hr₀y.trans hyx) (by omega)
  · -- a turn that owes a pending request has not ended, so none opens
    rw [hb.closeFinishedTurn_eq hturn' hr howes] at hopens
    simp [opensTurn, hturn'] at hopens

end

variable {x : PendingRequest I T} {calls : List (Call I T)} {b t : BatchFormer I T}
  {out : List (FormattedBatch I T)}

/-! ## Whole runs -/

/-- The ranking along a run. -/
theorem runs_rankBound {past : List Instant} (hb : TurnInv past b.inner) (hx : Carried x b.inner)
    (hpast : x.arrivalTime ∈ past) (harrivals : (past ++ arrivalTimes calls).Pairwise (· < ·))
    (h : runs step b calls = some (t, out)) :
    TurnInv (past ++ arrivalTimes calls) t.inner ∧ Carried x t.inner ∧
      RankBound x (b.ahead x).length (b.turnsBegun calls) t := by
  revert harrivals
  refine runs_induction
    (fun calls _ t => (past ++ arrivalTimes calls).Pairwise (· < ·) →
      TurnInv (past ++ arrivalTimes calls) t.inner ∧ Carried x t.inner ∧
        RankBound x (b.ahead x).length (b.turnsBegun calls) t) ?_ ?_ calls out t h
  · intro _
    exact ⟨by simpa [arrivalTimes] using hb, hx, .inr (.inl (by simp [turnsBegun]))⟩
  · intro calls _ s _ t _ hrun ih hstep hsorted
    rw [arrivalTimes_append, ← append_assoc] at hsorted ⊢
    obtain ⟨hearlier, -, hlater⟩ := pairwise_append.mp hsorted
    obtain ⟨hs, hcarried, hrank⟩ := ih hearlier
    refine ⟨step_turnInv hs hlater hstep, step_carried hcarried hstep, ?_⟩
    rw [turnsBegun_concat hrun]
    exact step_rankBound hs hcarried
      (fun now hnow => hlater _ (mem_append_left _ hpast) now hnow) hstep hrank

/-- What was pending is pending or has been served. -/
theorem runs_served (hx : x ∈ b.inner.pending) (h : runs step b calls = some (t, out)) :
    x ∈ t.inner.pending ∨ x.pair ∈ out.flatMap pairs := by
  refine runs_induction (fun _ out t => x ∈ t.inner.pending ∨
    x.pair ∈ out.flatMap pairs) (.inl hx) ?_ calls out t h
  intro _ out s _ t _ _ ih hstep
  rw [flatMap_append, mem_append]
  rcases ih with hx | hserved
  · rcases step_receives_or_extracts hstep with ⟨rfl, hnew⟩ | ⟨_, _, _, _, _, k, rfl, -, hparts⟩
    · rw [hnew.pending]
      exact .inl (mem_append_left _ hx)
    have htaken := hparts.extracts
    rcases mem_append.mp (htaken.perm.mem_iff.mpr hx) with hx | hx
    · refine .inr (.inr ?_)
      simp only [flatMap_cons, flatMap_nil, append_nil, pairs,
        htaken.items, htaken.metadata, zip_map_item_metadata]
      exact mem_map_of_mem hx
    · exact .inl hx
  · exact .inr (.inl hserved)

/-- **Wait bound of batchable turns.**  A turn begins at `b₀` while the batchable
request `x` is pending; `b₂` is any state from then on, in particular the one in
which that turn ended.  Let `n` count the batchable requests pending at `b₂` that
arrived no later than `x`.  Once at least `n` of the turns begun after `b₂` have
ended, `x` has been served, whatever was submitted meanwhile. -/
theorem wait_bound {config : BatchConfig} {epoch : Instant} {x : PendingRequest I T}
    {calls₀ calls₁ calls₂ : List (Call I T)} {call : Call I T} {b₀ b₁ b₂ b₃ : BatchFormer I T}
    {out₀ out₁ out₂ out₃ : List (FormattedBatch I T)}
    (harrivals : (arrivalTimes (calls₀ ++ call :: calls₁ ++ calls₂)).Pairwise (· < ·))
    (h₀ : runs step (withEpoch config epoch) calls₀ = some (b₀, out₀))
    (hx : x ∈ b₀.inner.pending) (hbatchable : x.runsAlone = false)
    (hbegins : b₀.beginsTurn call = true) (h₁ : b₀.step call = some (b₁, out₁))
    (h₂ : runs step b₁ calls₁ = some (b₂, out₂)) (h₃ : runs step b₂ calls₂ = some (b₃, out₃))
    (hturns : (b₂.ahead x).length + b₃.turnUnderWay.toNat ≤ b₂.turnsBegun calls₂) :
    x ∉ b₃.inner.pending ∧ x.pair ∈ (out₁ ++ out₂ ++ out₃).flatMap pairs := by
  have hfrom₀ : runs step b₀ (call :: calls₁) = some (b₂, out₁ ++ out₂) :=
    runs_cons_eq_some.mpr ⟨b₁, out₁, out₂, h₁, h₂, rfl⟩
  have hto₂ : runs step (withEpoch config epoch) (calls₀ ++ call :: calls₁) =
      some (b₂, out₀ ++ (out₁ ++ out₂)) :=
    runs_append_eq_some.mpr ⟨b₀, out₀, _, h₀, hfrom₀, rfl⟩
  rw [arrivalTimes_append] at harrivals
  have hfirst := (pairwise_append.mp harrivals).1
  have hinv₂ := runs_turnInv hto₂ hfirst
  rw [arrivalTimes_append] at hfirst
  have hinv₀ := runs_turnInv h₀ (pairwise_append.mp hfirst).1
  have hpast : x.arrivalTime ∈ arrivalTimes (calls₀ ++ call :: calls₁) := by
    rw [arrivalTimes_append]
    exact mem_append_left _ (hinv₀.pending_past x hx)
  have hcarried : Carried x b₂.inner :=
    runs_invariant (P := fun b : BatchFormer I T => Carried x b.inner)
      (fun _ _ _ _ hc hstep => step_carried hc hstep)
      (carried_of_beginsTurn hinv₀ hx hbegins h₁) h₂
  obtain ⟨hinv₃, -, hrank⟩ := runs_rankBound hinv₂ hcarried hpast harrivals h₃
  have hzero : (b₃.ahead x).length = 0 := by
    rcases hrank with hzero | hcount | ⟨howes, hcount⟩
    · exact hzero
    · omega
    · rw [turnUnderWay_of_owesAhead hinv₃ howes, Bool.toNat_true] at hturns
      omega
  have hgone : x ∉ b₃.inner.pending := fun hmem =>
    absurd (length_pos_of_mem (mem_leftOverUpTo.mpr ⟨hmem, hbatchable, le_rfl⟩))
      (by rw [← ahead, hzero]; exact lt_irrefl 0)
  refine ⟨hgone, ?_⟩
  have hall : runs step b₀ (call :: calls₁ ++ calls₂) = some (b₃, out₁ ++ out₂ ++ out₃) :=
    runs_append_eq_some.mpr ⟨b₂, _, out₃, hfrom₀, h₃, rfl⟩
  exact (runs_served hx hall).resolve_left hgone

namespace LeftOver

/-- A runs-alone item and two batchable ones arrive, and the first is served. -/
def before : List (Call StubItem ℕ) :=
  [.submit ⟨1, none, true, none⟩ 0 1, .submit ⟨4, none, false, none⟩ 1 2,
    .submit ⟨9, none, false, none⟩ 2 3, .take .idleBypass 3]

/-- Another runs-alone item and a cheap one arrive, and three batches leave. -/
def after : List (Call StubItem ℕ) :=
  [.submit ⟨1, none, true, none⟩ 3 5, .submit ⟨2, none, false, none⟩ 4 6, .take .idleBypass 7,
    .take .idleBypass 8, .take .idleBypass 9]

/-- The batch former after `before`, after the turn that follows, and after `after`. -/
def b₀ : BatchFormer StubItem ℕ × List (FormattedBatch StubItem ℕ) :=
  (runs step (withEpoch ⟨10, 8, 5, 1, 1, 1⟩ 0) before).getD (withEpoch ⟨10, 8, 5, 1, 1, 1⟩ 0, [])

@[inherit_doc b₀] def b₁ : BatchFormer StubItem ℕ × List (FormattedBatch StubItem ℕ) :=
  (b₀.1.step (.take .idleBypass 4)).getD b₀

@[inherit_doc b₀] def b₃ : BatchFormer StubItem ℕ × List (FormattedBatch StubItem ℕ) :=
  (runs step b₁.1 after).getD b₁

/-- The request of cost 9, which the turn at `b₀` leaves over. -/
def costly : PendingRequest StubItem ℕ := ⟨⟨9, none, false, none⟩, 2, 3⟩

end LeftOver

open LeftOver in
/-- The turn at `b₀` leaves the costly request over, and the next turn serves it
although a cheaper one arrived meanwhile. -/
theorem wait_bound_leftOver :
    costly ∈ b₁.1.inner.pending ∧ costly ∉ b₃.1.inner.pending ∧
      costly.pair ∈ (b₁.2 ++ [] ++ b₃.2).flatMap pairs := by
  have h₀ : runs step (withEpoch ⟨10, 8, 5, 1, 1, 1⟩ 0) before = some b₀ := by decide +kernel
  have h₁ : b₀.1.step (.take .idleBypass 4) = some b₁ := by decide +kernel
  have h₃ : runs step b₁.1 after = some b₃ := by decide +kernel
  refine ⟨by decide +kernel, ?_⟩
  exact wait_bound (x := costly) (by decide) h₀ (by decide +kernel) rfl (by decide +kernel) h₁
    (runs_nil b₁.1) h₃ (by decide +kernel)

end Sie.Sidecar.BatchFormer
