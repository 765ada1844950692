import Sie.Sidecar.BatchFormer.WaitBound

/-!
# The two lanes of the batch former

Every batch is a runs-alone request by itself, a batch of a batchable turn, or a
batchable batch outside turns with nothing flagged pending (`Extraction.lanes`).
While a runs-alone request waits there is no batch of the third kind, and a turn
can begin only after a runs-alone request ran, so the lanes alternate and a
request with `k` runs-alone ones ahead of it waits for at most `k + 1` turns.

The stable sort keeps runs-alone requests in the order of their arrival, ties
included, so the queue of that lane is first in, first out (`Extraction.fifo`).
-/

namespace Sie.Sidecar

open Sie.Lib List PendingRequest HasCost

universe u v
variable {I : Type u} {T : Type v} [HasCost I]

namespace BatchFormer

variable {batches out : List (FormattedBatch I T)} {config : BatchConfig} {epoch : Instant}

/-- The runs-alone pairs of a list, in order. -/
def alonePairs (l : List (I × T)) : List (I × T) := l.filter fun p => runsAlone p.1

theorem alonePairs_map_pair (l : List (PendingRequest I T)) :
    alonePairs (l.map pair) = (aloneQueue l).map pair := by
  rw [alonePairs, aloneQueue, filter_map]
  rfl

/-- The runs-alone pairs that left, in the order of the batches. -/
def aloneEmitted (batches : List (FormattedBatch I T)) : List (I × T) :=
  alonePairs (batches.flatMap FormattedBatch.pairs)

theorem aloneEmitted_append (l₁ l₂ : List (FormattedBatch I T)) :
    aloneEmitted (l₁ ++ l₂) = aloneEmitted l₁ ++ aloneEmitted l₂ := by
  simp [aloneEmitted, alonePairs]

theorem aloneEmitted_singleton {s s' : Inner I T} {maxItems : ℕ} {batch : FormattedBatch I T}
    {taken : List (PendingRequest I T)} (h : Extracts s maxItems batch s' taken) :
    aloneEmitted [batch] = (aloneQueue taken).map pair := by
  simp [aloneEmitted, FormattedBatch.pairs, h.items, h.metadata, zip_map_item_metadata,
    alonePairs_map_pair]

/-! ## The lanes over whole runs -/

/-- The lanes after a run: the turn under way took the last batch, the runs-alone
queue is in order, and what left it are the first that were submitted. -/
structure LaneInv (calls : List (Call I T)) (batches : List (FormattedBatch I T))
    (b : BatchFormer I T) : Prop where
  turn : b.inner.batchableTurn.isSome → b.inner.lastBatchAlone = some false
  last : ∀ last, batches.getLast? = some last →
    b.inner.lastBatchAlone = some (last.items.any runsAlone)
  single : ∀ batch ∈ batches, ∀ item ∈ batch.items, runsAlone item = true →
    batch.items = [item]
  past : ∀ r ∈ b.inner.pending, r.arrivalTime ∈ arrivalTimes calls
  sorted : AloneSorted b.inner.pending
  fifo : aloneEmitted batches ++ (aloneQueue b.inner.pending).map pair =
    alonePairs (calls.flatMap Call.submitted)

theorem LaneInv.step {calls : List (Call I T)} {b t : BatchFormer I T} {call : Call I T}
    (hb : LaneInv calls batches b) (hclock : (arrivalTimes (calls ++ [call])).Pairwise (· ≤ ·))
    (h : b.step call = some (t, out)) : LaneInv (calls ++ [call]) (batches ++ out) t := by
  rw [arrivalTimes_append] at hclock
  obtain ⟨-, hnew, hlater⟩ := pairwise_append.mp hclock
  have hpast : ∀ r ∈ t.inner.pending, r.arrivalTime ∈ arrivalTimes (calls ++ [call]) := by
    intro r hr
    rw [arrivalTimes_append, mem_append]
    rcases step_pending h hr with hr | hr
    · exact .inl (hb.past r hr)
    · obtain ⟨x, hx, rfl⟩ := mem_map.mp hr
      exact .inr (mem_map.mpr ⟨x, by simpa using hx, rfl⟩)
  rcases step_receives_or_extracts h with ⟨rfl, hrec⟩ | ⟨_, _, batch, _, _, k, rfl, hnone, hparts⟩
  · rw [append_nil]
    refine ⟨by rw [hrec.batchableTurn, hrec.lastBatchAlone]; exact hb.turn,
      by rw [hrec.lastBatchAlone]; exact hb.last, hb.single, hpast, ?_, ?_⟩
    · rw [AloneSorted, hrec.pending, aloneQueue_append, pairwise_append]
      refine ⟨hb.sorted, ?_, fun r hr r' hr' => ?_⟩
      · refine (List.Pairwise.filter _ ?_)
        simpa [arrivalTimes, arrivalRequests, pairwise_map] using hnew
      · obtain ⟨x, hx, rfl⟩ := mem_map.mp (mem_filter.mp hr').1
        exact hlater _ (hb.past r (mem_filter.mp hr).1) _ (mem_map.mpr ⟨x, by simpa using hx, rfl⟩)
    · rw [hrec.pending, aloneQueue_append, map_append, ← append_assoc, hb.fifo,
        ← alonePairs_map_pair]
      simp [alonePairs, arrivalRequests, Call.submitted, pair, Function.comp_def]
  · have hqueue := hparts.fifo hb.sorted
    obtain ⟨hlane, hturn, hsingle⟩ := hparts.recorded
    refine ⟨hturn, ?_, ?_, hpast, ?_, ?_⟩
    · intro last hlast
      obtain rfl : batch = last := by simpa using hlast
      exact hlane
    · intro batch' hbatch item hitem halone
      rcases mem_append.mp hbatch with hbatch | hbatch
      · exact hb.single batch' hbatch item hitem halone
      · obtain rfl := mem_singleton.mp hbatch
        exact (hsingle item hitem halone).1
    · exact List.Pairwise.sublist (hqueue ▸ sublist_append_right _ _) hb.sorted
    · rw [aloneEmitted_append, append_assoc, aloneEmitted_singleton hparts.extracts,
        ← map_append, hqueue, hb.fifo]
      simp [Call.submitted, hnone]

theorem runs_laneInv {calls : List (Call I T)} {b : BatchFormer I T}
    (h : runs step (withEpoch config epoch) calls = some (b, batches))
    (hclock : (arrivalTimes calls).Pairwise (· ≤ ·)) : LaneInv calls batches b := by
  revert hclock
  refine runs_induction
    (fun calls batches b => (arrivalTimes calls).Pairwise (· ≤ ·) → LaneInv calls batches b)
    ?_ ?_ calls batches b h
  · intro _
    exact ⟨by simp [withEpoch], by simp, by simp, by simp [withEpoch], by simp [AloneSorted,
      aloneQueue, withEpoch], by simp [aloneEmitted, alonePairs, aloneQueue, withEpoch]⟩
  · intro calls batches s _ t _ _ ih hstep hsorted
    have hbefore := hsorted
    rw [arrivalTimes_append] at hbefore
    exact (ih (pairwise_append.mp hbefore).1).step hsorted hstep

/-- How many turns may still begin before the next runs-alone request: none once a
batchable batch was the last. -/
def turnsDue (s : Inner I T) : ℕ := if s.lastBatchAlone = some false then 0 else 1

/-- No turn begins right after a batchable batch while a runs-alone request waits. -/
theorem turnsDue_of_opensTurn {s : Inner I T} (halone : alonePending s = true)
    (hopens : opensTurn (closeFinishedTurn s) = true) : turnsDue s = 1 := by
  obtain ⟨hpend, -, hbooks⟩ := closeFinishedTurn_books s
  rw [turnsDue, if_neg]
  intro hlast
  simp [opensTurn] at hopens
  obtain ⟨⟨hnext, hturn⟩, -⟩ := hopens
  simp only [aloneNext, alonePending, hpend, hturn, hbooks.lastBatchAlone, hlast] at hnext halone
  simp [halone] at hnext

/-- **One step of the flagged wait.**  A turn that begins uses up the one that is
due, and only a runs-alone request that leaves makes another due. -/
theorem step_turnsDue {b t : BatchFormer I T} {call : Call I T} (h : b.step call = some (t, out))
    (halone : alonePending b.inner = true) :
    (b.beginsTurn call).toNat + turnsDue t.inner ≤
      turnsDue b.inner + (aloneEmitted out).length := by
  have hdue : ∀ s : Inner I T, turnsDue s ≤ 1 := fun s => by rw [turnsDue]; split_ifs <;> omega
  rcases step_receives_or_extracts h with ⟨rfl, hnew⟩ | ⟨_, _, batch, _, _, k, rfl, -, hparts⟩
  · have hnone : b.beginsTurn call = false := by simp [beginsTurn, h]
    rw [hnone, turnsDue, turnsDue, hnew.lastBatchAlone]
    simp
  have hbegins : b.beginsTurn call = opensTurn (closeFinishedTurn b.inner) := by
    simp [beginsTurn, h]
  rw [hbegins]
  rcases hparts.lanes with ⟨hnext, -, -, x, htaken, hx⟩ | ⟨_, -, hofTurn⟩ | ⟨-, hnone, -⟩
  · have hemitted : (aloneEmitted [batch]).length = 1 := by
      simp [aloneEmitted_singleton hparts.extracts, htaken, aloneQueue, hx]
    have hopens : opensTurn (closeFinishedTurn b.inner) = false := by simp [opensTurn, hnext]
    have := hdue t.inner
    rw [hopens, Bool.toNat_false]
    omega
  · have hafter : turnsDue t.inner = 0 := by rw [turnsDue, if_pos hofTurn.lane]
    cases hopens : opensTurn (closeFinishedTurn b.inner) with
    | false => simp [hafter]
    | true => simp [hafter, turnsDue_of_opensTurn halone hopens]
  · rw [hnone] at halone
    cases halone

/-- The wait of a runs-alone request with others ahead of it, along a run in which
it has not left. -/
theorem runs_turnsDue {calls calls' : List (Call I T)} {b t : BatchFormer I T}
    (h : runs step (withEpoch config epoch) calls = some (b, batches))
    (h' : runs step b calls' = some (t, out))
    (hclock : (arrivalTimes (calls ++ calls')).Pairwise (· ≤ ·))
    (hwaits : (aloneEmitted out).length < (aloneQueue b.inner.pending).length) :
    b.turnsBegun calls' + turnsDue t.inner ≤ turnsDue b.inner + (aloneEmitted out).length := by
  revert hclock hwaits
  refine runs_induction (fun calls' out t => (arrivalTimes (calls ++ calls')).Pairwise (· ≤ ·) →
    (aloneEmitted out).length < (aloneQueue b.inner.pending).length →
      b.turnsBegun calls' + turnsDue t.inner ≤ turnsDue b.inner + (aloneEmitted out).length)
    ?_ ?_ calls' out t h'
  · simp [turnsBegun]
  · intro calls' out s _ t _ hrun ih hstep hclock hwaits
    rw [← append_assoc, arrivalTimes_append] at hclock
    have hbefore := (pairwise_append.mp hclock).1
    rw [aloneEmitted_append, length_append] at hwaits ⊢
    have hbound := ih hbefore (by omega)
    -- what left since `b` was ahead of the request in the queue, so it still waits
    have halone : alonePending s.inner = true := by
      have hstart := (runs_laneInv h (pairwise_append.mp
        (arrivalTimes_append calls calls' ▸ hbefore)).1).fifo
      have hnow := (runs_laneInv (runs_append_eq_some.mpr ⟨b, batches, out, h, hrun, rfl⟩)
        hbefore).fifo
      rw [flatMap_append, alonePairs, filter_append, ← alonePairs, ← hstart,
        aloneEmitted_append] at hnow
      have hlength := congrArg length hnow
      simp only [length_append, length_map] at hlength
      have hpos : 0 < (aloneQueue s.inner.pending).length := by omega
      obtain ⟨r, hr⟩ := exists_mem_of_length_pos hpos
      exact any_eq_true.mpr ⟨r, (mem_filter.mp hr).1, (mem_filter.mp hr).2⟩
    have hnext := step_turnsDue hstep halone
    rw [turnsBegun_concat hrun]
    omega

/-- **Lane alternation and the flagged wait bound.**  In every run on a clock that
does not run backwards, the runs-alone pairs leave in the order they were submitted,
each in a batch of its own.  After a runs-alone batch, the next one is batchable if
a batchable request is pending.  While a runs-alone request is pending, every other
batch belongs to a batchable turn; and until a request `x` with `ahead` before it in
its lane has left, its batches belong to at most `ahead.length + 1` turns, the one
under way included. -/
theorem lanes_alternate {calls : List (Call I T)} {b : BatchFormer I T}
    (h : runs step (withEpoch config epoch) calls = some (b, batches))
    (hclock : (arrivalTimes calls).Pairwise (· ≤ ·)) :
    aloneEmitted batches ++ (aloneQueue b.inner.pending).map pair =
        alonePairs (calls.flatMap Call.submitted) ∧
      (∀ batch ∈ batches, ∀ item ∈ batch.items, runsAlone item = true → batch.items = [item]) ∧
      (∀ last, batches.getLast? = some last → last.items.any runsAlone = true →
        batchablePending b.inner = true → ∀ call t out, b.step call = some (t, out) →
          ∀ batch ∈ out, ∀ item ∈ batch.items, runsAlone item = false) ∧
      (alonePending b.inner = true → ∀ call t batch, b.step call = some (t, [batch]) →
        batch.items.any runsAlone = false → t.inner.batchableTurn.isSome = true) ∧
      ∀ ahead x behind, aloneQueue b.inner.pending = ahead ++ x :: behind →
        ∀ calls' t out, runs step b calls' = some (t, out) →
          (arrivalTimes (calls ++ calls')).Pairwise (· ≤ ·) →
          (aloneEmitted out).length ≤ ahead.length →
          b.inner.batchableTurn.isSome.toNat + b.turnsBegun calls' ≤ ahead.length + 1 := by
  have hb := runs_laneInv h hclock
  refine ⟨hb.fifo, hb.single, ?_, ?_, ?_⟩
  · intro last hlast hlastAlone hbatchable call t out hstep batch hbatch item hitem
    rcases step_receives_or_extracts hstep with ⟨rfl, -⟩ |
      ⟨maxItems, now, batch', opened, ready, k, rfl, -, hparts⟩
    · simp at hbatch
    obtain rfl := mem_singleton.mp hbatch
    by_contra halone
    have hnext := ((hparts.recorded).2.2 item hitem (by simpa using halone)).2
    obtain ⟨hpend, -, hbooks⟩ := closeFinishedTurn_books b.inner
    have hrecorded := hb.last last hlast
    rw [hlastAlone] at hrecorded
    rw [batchablePending] at hbatchable
    simp [aloneNext, batchablePending, hpend, hbooks.lastBatchAlone, hrecorded, hbatchable] at hnext
  · intro halone call t batch hstep hbatchable
    rcases step_receives_or_extracts hstep with ⟨hnil, -⟩ |
      ⟨maxItems, now, batch', opened, ready, k, hout, -, hparts⟩
    · simp at hnil
    obtain rfl : batch = batch' := by simpa using hout
    rcases hparts.lanes with ⟨-, -, -, x, htaken, hx⟩ | ⟨_, -, hofTurn⟩ | ⟨-, hnone, -⟩
    · rw [hparts.extracts.items, htaken] at hbatchable
      exact absurd (show runsAlone x.item = true from hx) (by simpa using hbatchable)
    · obtain ⟨_, hturn, -⟩ := hofTurn.next
      rw [hturn]
      rfl
    · rw [hnone] at halone
      cases halone
  · intro ahead x behind hqueue calls' t out hrun hclock' _
    have hbound := runs_turnsDue h hrun hclock' (by rw [hqueue]; simp; omega)
    cases hturn : b.inner.batchableTurn.isSome with
    | false =>
      have : turnsDue b.inner ≤ 1 := by rw [turnsDue]; split_ifs <;> omega
      simp only [Bool.toNat_false]
      omega
    | true =>
      rw [turnsDue, turnsDue, if_pos (hb.turn hturn)] at hbound
      simp only [Bool.toNat_true]
      omega

namespace TwoFlagged

/-- Two runs-alone requests with a batchable one between them, and one batch. -/
def calls : List (Call StubItem ℕ) :=
  [.submit ⟨1, none, true, none⟩ 0 1, .submit ⟨4, none, false, none⟩ 1 2,
    .submit ⟨1, none, true, none⟩ 2 2, .take .idleBypass 3]

/-- The batch former after `calls`, and after one more batch. -/
def b : BatchFormer StubItem ℕ × List (FormattedBatch StubItem ℕ) :=
  (runs step (withEpoch ⟨10, 8, 5, 1, 1, 1⟩ 0) calls).getD (withEpoch ⟨10, 8, 5, 1, 1, 1⟩ 0, [])

@[inherit_doc b] def t : BatchFormer StubItem ℕ × List (FormattedBatch StubItem ℕ) :=
  (runs step b.1 [.take .idleBypass 4]).getD b

end TwoFlagged

open TwoFlagged in
/-- After the first runs-alone request the batchable one goes next, although the
second arrived at the same instant, and the second waits for one turn. -/
theorem lanes_alternate_twoFlagged :
    b.2.map FormattedBatch.metadata = [[0]] ∧ t.2.map FormattedBatch.metadata = [[1]] ∧
      b.1.inner.batchableTurn.isSome.toNat + b.1.turnsBegun [.take .idleBypass 4] ≤ 1 := by
  have hrun : runs step (withEpoch ⟨10, 8, 5, 1, 1, 1⟩ 0) calls = some b := by decide +kernel
  have hnext : runs step b.1 [.take .idleBypass 4] = some t := by decide +kernel
  refine ⟨by decide +kernel, by decide +kernel, ?_⟩
  exact (lanes_alternate hrun (by decide)).2.2.2.2 [] ⟨⟨1, none, true, none⟩, 2, 2⟩ []
    (by decide +kernel) _ _ _ hnext (by decide) (by decide +kernel)

end BatchFormer

end Sie.Sidecar
