import Sie.Sidecar.BatchFormer.Gate

/-!
# The busy-lane rule

While a batch is with the engine, a batch that is not full is to leave only if it
carries on a request that is partly with the engine, and the rest of such a
request is never to be held.  The lane decides this by one flag about the last
batch sent, whatever queue it came from, while the pick goes by the oldest head.
So the rule fails over several queues (`busyRule_fails`), and it holds in every
run in which the flag speaks for the picked queue (`busyRule_of_flagFits`).
-/

namespace Sie.Sidecar

open Sie.Lib Option Scheduler

universe u v
variable {I : Type u} {T : Type v} [HasCost I]

namespace System

/-- A part of the request is with the engine. -/
def partlyOut (s : System I T) (request : String) : Bool :=
  s.out.any fun e => e.2.hasRequest request

/-- What one pass of `next_dispatch` with the idle bypass on sends. -/
def sends (s : System I T) (nowView now nowTake : Instant) : List (Dispatch I T) :=
  match s.step true (.nextDispatch nowView now nowTake) with
  | some (_, sent) => sent
  | none => []

end System

variable {key : BatcherKey} {former : BatchFormer I T} {s : System I T} {lane : Lane}

/-- The rule at one pass of `next_dispatch`. -/
structure BusyRule (s : System I T) (nowView now nowTake : Instant) : Prop where
  /-- What is not full leaves a busy lane only with an item of a request that is
  partly with the engine. -/
  only_rest : ∀ key former, s.scheduler.pickOldest = some (key, former) → s.out ≠ [] →
    fullReason former.inner = none → ∀ d ∈ s.sends nowView now nowTake,
      ∃ request, d.hasRequest request = true ∧ s.partlyOut request = true
  /-- The rest of a request that is partly with the engine is not held. -/
  rest_not_held : ∀ key former, s.scheduler.pickOldest = some (key, former) →
    (∃ r ∈ former.inner.pending, ∃ request, r.requestKey = some request ∧
      s.partlyOut request = true) → s.sends nowView now nowTake ≠ []

/-- The lane's flag speaks for the picked queue.  No item is submitted for a request
that is partly with the engine; and when a queue that is not full is picked on a
busy lane, a batch with the engine that shares a request with it is the last one
sent and came from it, and a set flag stands for a batch that is still out, came
from it, and left it outside the runs-alone lane. -/
def FlagFits (s : System I T) : Event I T → Prop
  | .submit _ _ item _ _ _ =>
    ∀ request ∈ HasCost.requestKey item, s.partlyOut request = false
  | .submitMany _ _ items _ =>
    ∀ x ∈ items, ∀ request ∈ HasCost.requestKey x.1, s.partlyOut request = false
  | .nextDispatch _ _ _ =>
    ∀ p ∈ s.scheduler.pickOldest, s.out.isEmpty = false → fullReason p.2.inner = none →
      (∀ e ∈ s.out, ∀ r ∈ p.2.inner.pending, ∀ request ∈ r.requestKey,
        e.2.hasRequest request = true → e.1 + 1 = s.sent ∧ e.2.key = p.1) ∧
      (s.scheduler.lane.continues = true →
        (∃ e ∈ s.out, e.1 + 1 = s.sent ∧ e.2.key = p.1) ∧ OutsideLane p.2.inner)
  | .noteReturn _ _ _ => True

instance (s : System I T) (event : Event I T) : Decidable (FlagFits s event) := by
  unfold FlagFits
  split <;> infer_instance

/-! ## The pick and the pass -/

omit [HasCost I] in
theorem olderHead_spec {best : Option (BatcherKey × BatchFormer I T)}
    {e : Sigma fun _ : BatcherKey => BatchFormer I T} {b : BatcherKey × BatchFormer I T}
    (h : olderHead best e = some b) : best = some b ∨ (b = (e.1, e.2) ∧ e.2.fcfsHeadNs ≠ 0) := by
  simp only [olderHead] at h
  split_ifs at h with hzero
  · exact .inl h
  cases best with
  | none => exact .inr ⟨(some.inj h).symm, hzero⟩
  | some b₀ =>
    simp only at h
    split_ifs at h
    · exact .inr ⟨(some.inj h).symm, hzero⟩
    · exact .inl h

omit [HasCost I] in
/-- The picked queue is one of the scheduler's and not empty. -/
theorem pickOldest_spec {s : Scheduler I T} (h : s.pickOldest = some (key, former)) :
    s.batchers.lookup key = some former ∧ former.fcfsHeadNs ≠ 0 := by
  have hfold : ∀ (entries : List (Sigma fun _ : BatcherKey => BatchFormer I T)) best b,
      entries.foldl olderHead best = some b →
        best = some b ∨ (Sigma.mk b.1 b.2 ∈ entries ∧ b.2.fcfsHeadNs ≠ 0) := by
    intro entries
    induction entries with
    | nil => exact fun best b hb => .inl hb
    | cons e _ ih =>
      intro best b hb
      rcases ih _ b hb with hbest | ⟨hmem, hhead⟩
      · rcases olderHead_spec hbest with hbest | ⟨rfl, hhead⟩
        · exact .inl hbest
        · exact .inr ⟨List.mem_cons_self, hhead⟩
      · exact .inr ⟨List.mem_cons_of_mem _ hmem, hhead⟩
  rcases hfold s.batchers.entries none _ h with hnone | ⟨hmem, hhead⟩
  · cases hnone
  · exact ⟨AList.mem_lookup_iff.mpr hmem, hhead⟩

/-- A queue with something pending always yields a batch. -/
theorem send_spec (s : Scheduler I T) (key : BatcherKey) (hsound : Sound former)
    (hne : former.inner.pending ≠ []) (reason : FlushReason) (nowTake : Instant) :
    ∃ former' batch taken reason',
      extractBatchUpTo former.inner reason' usizeMax nowTake = some (batch, former'.inner) ∧
      Extracts former.inner usizeMax batch former'.inner taken ∧ Sound former' ∧
      s.send key former reason nowTake =
        some ((s.putBatcher key former').withLane (s.lane.onDispatch (decide
                (completedRequests batch.items former'.inner.pending <
                  distinctRequests batch.items))),
              some { op := key.1, lora := key.2, batch
                     completes := completedRequests batch.items former'.inner.pending }) := by
  have hempty : former.inner.pending.isEmpty = false := by simpa using hne
  obtain ⟨⟨batch, t⟩, ht⟩ := isSome_iff_exists.mp (extractBatchUpTo_isSome hne hsound.total
    ((fullReason former.inner).getD reason) usizeMax nowTake)
  obtain ⟨taken, htaken⟩ := extractBatchUpTo_spec ht
  have htake : former.take reason nowTake = some (former.refreshFcfsHead t,
      some (batch, completedRequests batch.items t.pending)) := by
    simp [BatchFormer.take, hempty, BatchFormer.extract, ht]
  have hstep : former.step (.take reason nowTake) = some (former.refreshFcfsHead t, [batch]) := by
    simp [BatchFormer.step, htake]
  exact ⟨former.refreshFcfsHead t, batch, taken, _, ht, htaken, step_sound hsound hstep,
    by simp only [send, htake]; rfl⟩

/-! ## The invariant -/

/-- A request of the batch is still pending in the queue it came from. -/
def LeftRest (s : Scheduler I T) (d : Dispatch I T) : Prop :=
  ∃ request, d.hasRequest request = true ∧
    ∃ r ∈ (s.getOrCreate d.key).inner.pending, r.requestKey = some request

/-- What holds in every run in which requests are submitted whole. -/
structure BusyInv (s : System I T) : Prop where
  sound : ∀ key former, s.scheduler.batchers.lookup key = some former →
    Sound former ∧ former.inner.config = s.scheduler.config
  count : s.scheduler.config.maxBatchRequests ≤ usizeMax
  nodup : (s.out.map Prod.fst).Nodup
  numbered : ∀ e ∈ s.out, e.1 < s.sent
  busy : s.scheduler.lane.inFlight = s.out.length
  /-- While the last batch sent is out, the flag says whether it left a rest. -/
  flag : ∀ e ∈ s.out, e.1 + 1 = s.sent →
    (s.scheduler.lane.continues = true ↔ LeftRest s.scheduler e.2)

theorem hasRequest_iff {d : Dispatch I T} {request : String} :
    d.hasRequest request = true ↔
      ∃ item ∈ d.batch.items, HasCost.requestKey item = some request := by
  simp [Dispatch.hasRequest]

theorem busyInv_new {config : BatchConfig} (hcount : config.maxBatchRequests ≤ usizeMax)
    (epoch : Instant) : BusyInv (System.new config epoch : System I T) where
  sound := by simp [System.new, new]
  count := hcount
  nodup := List.nodup_nil
  numbered := by simp [System.new]
  busy := rfl
  flag := by simp [System.new]

theorem partlyOut_of_mem {e : ℕ × Dispatch I T} (he : e ∈ s.out) {request : String}
    (h : e.2.hasRequest request = true) : s.partlyOut request = true :=
  List.any_eq_true.mpr ⟨e, he, h⟩

/-- A submit to the queue of `key` adds items of requests that are not partly with
the engine. -/
theorem busyInv_submit (hs : BusyInv s) (hsound : Sound former)
    (hconfig : former.inner.config = s.scheduler.config)
    (hinFlight : lane.inFlight = s.scheduler.lane.inFlight)
    (hcontinues : lane.continues = s.scheduler.lane.continues) {new : List (PendingRequest I T)}
    (hpending : former.inner.pending = (s.scheduler.getOrCreate key).inner.pending ++ new)
    (hwhole : ∀ r ∈ new, ∀ request, r.requestKey = some request → s.partlyOut request = false) :
    BusyInv { s with scheduler := (s.scheduler.putBatcher key former).withLane lane } := by
  refine ⟨fun key' former' h => ?_, hs.count, hs.nodup, hs.numbered, hinFlight.trans hs.busy,
    fun e he hlast => ?_⟩
  · simp only [withLane_batchers, putBatcher_lookup] at h
    split_ifs at h
    · cases h
      exact ⟨hsound, hconfig⟩
    · exact hs.sound key' former' h
  · simp only [withLane_lane, hcontinues]
    rw [hs.flag e he hlast]
    simp only [LeftRest, withLane_getOrCreate, putBatcher_getOrCreate]
    split_ifs with heq
    · constructor
      · rintro ⟨request, hhas, r, hr, hkey⟩
        rw [heq] at hr
        exact ⟨request, hhas, r, by rw [hpending]; exact List.mem_append_left _ hr, hkey⟩
      · rintro ⟨request, hhas, r, hr, hkey⟩
        rw [hpending] at hr
        rcases List.mem_append.mp hr with hr | hr
        · exact ⟨request, hhas, r, by rw [heq]; exact hr, hkey⟩
        · have hout : s.partlyOut request = true := partlyOut_of_mem he hhas
          rw [hwhole r hr request hkey] at hout
          cases hout
    · exact Iff.rfl

theorem sound_getOrCreate (hs : BusyInv s) (key : BatcherKey) :
    Sound (s.scheduler.getOrCreate key) ∧
      (s.scheduler.getOrCreate key).inner.config = s.scheduler.config := by
  cases hlookup : s.scheduler.batchers.lookup key with
  | none =>
    simp only [getOrCreate, hlookup, getD_none]
    refine ⟨⟨rfl, Nat.zero_le _, ?_, ?_⟩, rfl⟩ <;> simp [BatchFormer.withEpoch]
  | some former =>
    simp only [getOrCreate, hlookup, getD_some]
    exact hs.sound key former hlookup

/-- A submit to one queue: the queue stays sound and grows by its arrivals. -/
theorem step_append {b t : BatchFormer I T} {call : BatchFormer.Call I T}
    {out : List (FormattedBatch I T)} (hb : Sound b) (hne : call.arrivals ≠ [])
    (h : b.step call = some (t, out)) :
    Sound t ∧ t.inner.pending = b.inner.pending ++ BatchFormer.arrivalRequests call.arrivals ∧
      t.inner.config = b.inner.config := by
  refine ⟨step_sound hb h, ?_⟩
  rcases BatchFormer.step_cases h with ⟨s, hs, -, -, -, rfl⟩ | ⟨_, rfl, -⟩ | ⟨hnone, -⟩ |
    ⟨_, _, _, _, _, hnone, -⟩
  · rw [BatchFormer.afterSubmit_inner]
    exact ⟨(BatchFormer.appendItems_spec hs).pending, (BatchFormer.appendItems_spec hs).config⟩
  · exact absurd rfl hne
  · exact absurd hnone hne
  · exact absurd hnone hne

/-- The dispatch of a batch that left `former` behind in its queue. -/
def sentBatch (key : BatcherKey) (batch : FormattedBatch I T) (former : BatchFormer I T) :
    Dispatch I T where
  op := key.1
  lora := key.2
  batch := batch
  completes := completedRequests batch.items former.inner.pending

/-- The system after that dispatch. -/
def afterSend (s : System I T) (key : BatcherKey) (batch : FormattedBatch I T)
    (former : BatchFormer I T) (lane : Lane) : System I T where
  scheduler := (s.scheduler.putBatcher key former).withLane (lane.onDispatch (decide
    (completedRequests batch.items former.inner.pending < distinctRequests batch.items)))
  out := s.out ++ [(s.sent, sentBatch key batch former)]
  sent := s.sent + 1

/-- One pass over sound queues: nothing is pending, the lane waits, or a batch is
taken from the picked queue. -/
theorem pass_cases (hs : BusyInv s) (nowView now nowTake : Instant) :
    (s.scheduler.pickOldest = none ∧
        s.step true (.nextDispatch nowView now nowTake) = some (s, [])) ∨
      ∃ key former verdict lane, s.scheduler.pickOldest = some (key, former) ∧
        s.scheduler.lane.verdict now (fullReason former.inner) = (verdict, lane) ∧
        (((∀ reason, verdict ≠ .send reason) ∧ s.step true (.nextDispatch nowView now nowTake) =
              some ({ s with scheduler := s.scheduler.withLane lane }, [])) ∨
          (∃ reason, verdict = .send reason) ∧ ∃ former' batch taken reason,
            extractBatchUpTo former.inner reason usizeMax nowTake = some (batch, former'.inner) ∧
            Extracts former.inner usizeMax batch former'.inner taken ∧ Sound former' ∧
            s.step true (.nextDispatch nowView now nowTake) =
              some (afterSend s key batch former' lane, [sentBatch key batch former'])) := by
  cases hpick : s.scheduler.pickOldest with
  | none => exact .inl ⟨rfl, by simp [System.step, nextDispatch, hpick]⟩
  | some p =>
    obtain ⟨key, former⟩ := p
    obtain ⟨hlookup, hhead⟩ := pickOldest_spec hpick
    have hsound := (hs.sound key former hlookup).1
    have hne : former.inner.pending ≠ [] := fun hnil => hhead (hsound.head.mpr hnil)
    obtain ⟨verdict, lane, hverdict⟩ : ∃ verdict lane,
        s.scheduler.lane.verdict now (fullReason former.inner) = (verdict, lane) := ⟨_, _, rfl⟩
    have hgate : gate s.scheduler.lane true (former.gateView nowView) now =
        (verdict, lane) := by
      simpa [gate, BatchFormer.gateView] using hverdict
    refine .inr ⟨key, former, verdict, lane, rfl, hverdict, ?_⟩
    cases verdict with
    | hold | waitUntil =>
      exact .inl ⟨by simp, by simp [System.step, nextDispatch, hpick, hgate]⟩
    | send reason =>
      obtain ⟨former', batch, taken, reason', hextract, htaken, hsound', hsend⟩ :=
        send_spec (s.scheduler.withLane lane) key hsound hne reason nowTake
      refine .inr ⟨⟨reason, rfl⟩, former', batch, taken, reason', hextract, htaken, hsound', ?_⟩
      simp only [System.step, nextDispatch, hpick, hgate, hsend, map_some]
      rfl

/-- A dispatch keeps the invariant: the flag is set for the batch just sent. -/
theorem busyInv_afterSend (hs : BusyInv s) {former' : BatchFormer I T} {batch : FormattedBatch I T}
    {taken : List (PendingRequest I T)} (hlane : lane.inFlight = s.scheduler.lane.inFlight)
    (hlookup : s.scheduler.batchers.lookup key = some former)
    (htaken : Extracts former.inner usizeMax batch former'.inner taken) (hsound : Sound former') :
    BusyInv (afterSend s key batch former' lane) := by
  refine ⟨fun key' former'' h => ?_, hs.count, ?_, ?_, ?_, ?_⟩
  · simp only [afterSend, withLane_batchers, putBatcher_lookup] at h
    split_ifs at h
    · cases h
      exact ⟨hsound, htaken.config.trans (hs.sound key former hlookup).2⟩
    · exact hs.sound key' former'' h
  · simp [afterSend]
    refine List.nodup_append.mpr ⟨hs.nodup, List.nodup_singleton _, ?_⟩
    intro n hn m hm
    obtain ⟨e, he, rfl⟩ := List.mem_map.mp hn
    rw [List.mem_singleton.mp hm]
    exact (hs.numbered e he).ne
  · intro e he
    rcases List.mem_append.mp he with he | he
    · exact Nat.lt_succ_of_lt (hs.numbered e he)
    · rw [List.mem_singleton.mp he]
      exact Nat.lt_succ_self _
  · simp [afterSend, Lane.onDispatch, hlane, hs.busy]
  · intro e he hlast
    have hnew : e = (s.sent, sentBatch key batch former') := by
      rcases List.mem_append.mp he with he | he
      · have hlt := hs.numbered e he
        simp only [afterSend] at hlast
        omega
      · exact List.mem_singleton.mp he
    have hqueue : (afterSend s key batch former' lane).scheduler.getOrCreate
        (sentBatch key batch former').key = former' := by
      simp only [afterSend, withLane_getOrCreate, putBatcher_getOrCreate]
      exact if_pos rfl
    rw [hnew]
    simp only [LeftRest, hqueue, hasRequest_iff]
    simp only [afterSend, withLane_lane, Lane.onDispatch, decide_eq_true_eq]
    exact completedRequests_lt_iff batch.items former'.inner.pending

/-- Removing one number of a list without repeats removes one entry. -/
theorem length_filter_ne {α : Type*} {l : List (ℕ × α)} (hl : (l.map Prod.fst).Nodup)
    {e : ℕ × α} (he : e ∈ l) : (l.filter fun x => x.1 ≠ e.1).length + 1 = l.length := by
  have hone : (l.filter fun x => x.1 = e.1).length = 1 := by
    have hcount := List.count_eq_one_of_mem hl (List.mem_map_of_mem he)
    rw [List.count, List.countP_map, List.countP_eq_length_filter] at hcount
    simpa [Function.comp_def, beq_eq_decide] using hcount
  have hsplit := List.length_eq_length_filter_add (l := l) fun x => decide (x.1 = e.1)
  simp only [ne_eq, decide_not]
  omega

/-- **Every step of a run in which requests are submitted whole keeps the
invariant.** -/
theorem step_busyInv {t : System I T} {event : Event I T} {sent : List (Dispatch I T)}
    (hs : BusyInv s) (hfits : FlagFits s event) (h : s.step true event = some (t, sent)) :
    BusyInv t := by
  cases event with
  | submit op lora item metadata now =>
    obtain ⟨scheduler, hsubmit, heq⟩ := map_eq_some_iff.mp h
    obtain ⟨rfl, -⟩ := Prod.mk.inj heq
    obtain ⟨former, hformer, rfl⟩ := map_eq_some_iff.mp hsubmit
    obtain ⟨hsound, hconfig⟩ := sound_getOrCreate hs (routeKey op lora)
    have hstep : (s.scheduler.getOrCreate (routeKey op lora)).step (.submit item metadata now) =
        some (former, []) := by simp [BatchFormer.step, hformer]
    obtain ⟨hsound', hpending, hconfig'⟩ :=
      step_append hsound (by simp [BatchFormer.Call.arrivals]) hstep
    refine busyInv_submit hs hsound' (hconfig'.trans hconfig) (by simp) (by simp) hpending ?_
    intro r hr request hkey
    obtain rfl : r = ⟨item, metadata, now⟩ := by
      simpa [BatchFormer.arrivalRequests, BatchFormer.Call.arrivals] using hr
    exact hfits request hkey
  | submitMany op lora items =>
    obtain ⟨scheduler, hsubmit, heq⟩ := map_eq_some_iff.mp h
    obtain ⟨rfl, -⟩ := Prod.mk.inj heq
    simp only [submitMany] at hsubmit
    split_ifs at hsubmit with hempty
    · cases hsubmit
      exact hs
    obtain ⟨former, hformer, rfl⟩ := map_eq_some_iff.mp hsubmit
    obtain ⟨hsound, hconfig⟩ := sound_getOrCreate hs (routeKey op lora)
    have hstep : (s.scheduler.getOrCreate (routeKey op lora)).step (.submitMany items) =
        some (former, []) := by simp [BatchFormer.step, hformer]
    obtain ⟨hsound', hpending, hconfig'⟩ := step_append hsound
      (by simpa [BatchFormer.Call.arrivals] using hempty) hstep
    refine busyInv_submit hs hsound' (hconfig'.trans hconfig) (by simp) (by simp) hpending ?_
    intro r hr request hkey
    obtain ⟨x, hx, rfl⟩ := List.mem_map.mp hr
    exact hfits x hx request hkey
  | nextDispatch nowView now nowTake =>
    rcases pass_cases hs nowView now nowTake with ⟨-, hstep⟩ |
      ⟨_, former, _, _, hpick, hverdict, hcases⟩
    · obtain ⟨rfl, -⟩ := Prod.mk.inj (some.inj (hstep.symm.trans h))
      exact hs
    have hlane := s.scheduler.lane.verdict_counts now (fullReason former.inner)
    simp only [hverdict] at hlane
    rcases hcases with ⟨-, hstep⟩ | ⟨-, _, _, _, _, -, htaken, hsound, hstep⟩
    · obtain ⟨rfl, -⟩ := Prod.mk.inj (some.inj (hstep.symm.trans h))
      exact { hs with
        busy := hlane.1.trans hs.busy
        flag := fun e he hlast => by simpa [LeftRest, hlane.2] using hs.flag e he hlast }
    · obtain ⟨rfl, -⟩ := Prod.mk.inj (some.inj (hstep.symm.trans h))
      exact busyInv_afterSend hs hlane.1 (pickOldest_spec hpick).1 htaken hsound
  | noteReturn number =>
    obtain ⟨e, he, heq⟩ := map_eq_some_iff.mp h
    obtain ⟨rfl, -⟩ := Prod.mk.inj heq
    have hnumber : e.1 = number := by simpa using List.find?_some he
    have hlength := length_filter_ne hs.nodup (List.mem_of_find?_eq_some he)
    rw [hnumber] at hlength
    refine ⟨hs.sound, hs.count, ?_, ?_, ?_, ?_⟩
    · exact hs.nodup.sublist (List.filter_sublist.map _)
    · exact fun e he => hs.numbered e (List.mem_of_mem_filter he)
    · simp only [noteReturn, withLane_lane, Lane.onReturn_counts, hs.busy]
      omega
    · intro e' he' hlast
      simpa [LeftRest, noteReturn] using hs.flag e' (List.mem_of_mem_filter he') hlast

/-! ## The rule -/

/-- On a busy lane a queue that is not full is sent exactly when the flag is set. -/
theorem continues_of_send (hs : BusyInv s) (hbusy : s.out ≠ [])
    (hfull : fullReason former.inner = none) {now : Instant} {verdict : Verdict}
    (hverdict : s.scheduler.lane.verdict now (fullReason former.inner) = (verdict, lane)) :
    (∃ reason, verdict = .send reason) ↔ s.scheduler.lane.continues = true := by
  have hinFlight : 0 < s.scheduler.lane.inFlight := by
    rw [hs.busy]
    exact List.length_pos_iff.mpr hbusy
  simp only [hfull, Lane.verdict, if_pos hinFlight] at hverdict
  obtain ⟨rfl, -⟩ := Prod.mk.inj hverdict
  cases s.scheduler.lane.continues <;> simp

omit [HasCost I] in
theorem getOrCreate_of_lookup {s : Scheduler I T} (h : s.batchers.lookup key = some former) :
    s.getOrCreate key = former := by
  simp [getOrCreate, h]

/-- The rule holds at a pass at which the flag speaks for the picked queue. -/
theorem busyRule_of_inv (hs : BusyInv s) {nowView now nowTake : Instant}
    (hfits : FlagFits s (.nextDispatch nowView now nowTake)) : BusyRule s nowView now nowTake := by
  constructor
  · intro key former hpick hbusy hfull d hd
    rcases pass_cases hs nowView now nowTake with ⟨hnone, -⟩ |
      ⟨key', former₁, verdict, lane, hpick', hverdict, hcases⟩
    · cases hnone.symm.trans hpick
    obtain ⟨rfl, rfl⟩ := Prod.mk.inj (some.inj (hpick'.symm.trans hpick))
    obtain ⟨hlookup, -⟩ := pickOldest_spec hpick
    obtain ⟨hsound, hconfig⟩ := hs.sound key' former₁ hlookup
    rcases hcases with ⟨-, hstep⟩ |
      ⟨hsend, former', batch, taken, reason, hextract, htaken, -, hstep⟩
    · simp [System.sends, hstep] at hd
    obtain rfl : d = sentBatch key' batch former' := by simpa [System.sends, hstep] using hd
    have hcontinues := (continues_of_send hs hbusy hfull hverdict).mp hsend
    obtain ⟨⟨e, he, hlast, hkey⟩, houtside⟩ :=
      (hfits (key', former₁) hpick (by simpa using hbusy) hfull).2 hcontinues
    obtain ⟨request, hhas, r, hr, hrkey⟩ := (hs.flag e he hlast).mp hcontinues
    rw [hkey, getOrCreate_of_lookup hlookup] at hr
    -- the queue leaves whole, so the rest of the request is in the batch
    have hall := extract_all houtside (hsound.total ▸ hsound.bound) (hconfig ▸ hs.count)
      (List.ne_nil_of_mem hr) hfull hextract
    have hmem : r ∈ taken := by
      have hperm := htaken.perm
      rw [hall, List.append_nil] at hperm
      exact hperm.mem_iff.mpr hr
    refine ⟨request, hasRequest_iff.mpr ⟨r.item, ?_, hrkey⟩, partlyOut_of_mem he hhas⟩
    rw [sentBatch, htaken.items]
    exact List.mem_map_of_mem hmem
  · rintro key former hpick ⟨r, hr, request, hrkey, hout⟩ hnothing
    obtain ⟨e, he, hhas⟩ := List.any_eq_true.mp hout
    rcases pass_cases hs nowView now nowTake with ⟨hnone, -⟩ |
      ⟨key', former₁, verdict, lane, hpick', hverdict, hcases⟩
    · cases hnone.symm.trans hpick
    obtain ⟨rfl, rfl⟩ := Prod.mk.inj (some.inj (hpick'.symm.trans hpick))
    rcases hcases with ⟨hwaits, -⟩ | ⟨-, former', batch, -, -, -, -, -, hstep⟩
    · cases hfull : fullReason former₁.inner with
      | some reason =>
        rw [hfull] at hverdict
        exact hwaits reason (congrArg Prod.fst hverdict).symm
      | none =>
        have hbusy : s.out ≠ [] := List.ne_nil_of_mem he
        obtain ⟨hlast, hkey⟩ := (hfits (key', former₁) hpick (by simpa using hbusy) hfull).1
          e he r hr request hrkey hhas
        have hleft : LeftRest s.scheduler e.2 := by
          refine ⟨request, hhas, r, ?_, hrkey⟩
          rwa [hkey, getOrCreate_of_lookup (pickOldest_spec hpick).1]
        obtain ⟨reason, hreason⟩ := (continues_of_send hs hbusy hfull hverdict).mpr
          ((hs.flag e he hlast).mpr hleft)
        exact hwaits reason hreason
    · simp [System.sends, hstep] at hnothing

namespace OneQueue

/-- Request `r` is cut on one queue, and its rest is passed to the gate. -/
def cutRequest : List (Event StubItem ℕ) :=
  [.submit .encode .base ⟨1, none, false, some "r"⟩ 0 1 1,
    .submitMany .encode .base
      [(⟨1, none, false, some "s"⟩, 1, 2), (⟨5, none, false, some "r"⟩, 2, 3)] 3,
    .nextDispatch 4 4 4]

/-- The system with the first part of `r` at the engine. -/
def cut : System StubItem ℕ :=
  (reached (System.step true) (System.new ⟨100, 2, 10, 5, 1, 1⟩ 0) cutRequest (by decide +kernel)).1

end OneQueue

namespace TwoQueues

/-- Two items and later a third of request `r` and one of `s` arrive on the encode
queue, one of `x` in between on the extract queue. -/
def arrivals : List (Event StubItem ℕ) :=
  [.submit .encode .base ⟨1, none, false, some "r"⟩ 0 1 1,
    .submit .encode .base ⟨1, none, false, some "s"⟩ 1 2 2,
    .submit .extract .base ⟨1, none, false, some "x"⟩ 2 3 3,
    .submit .encode .base ⟨5, none, false, some "r"⟩ 3 4 4]

/-- The first pass cuts request `r`, the second sends the other queue's item. -/
def firstPass : List (Event StubItem ℕ) := arrivals ++ [.nextDispatch 5 5 5]

@[inherit_doc firstPass] def secondPass : List (Event StubItem ℕ) :=
  firstPass ++ [.nextDispatch 6 6 6]

/-- At most two items in a batch. -/
def config : BatchConfig := ⟨100, 2, 10, 5, 1, 1⟩

/-- The system after the first pass: request `r` is cut. -/
def cut : System StubItem ℕ :=
  (reached (System.step true) (System.new config 0) firstPass (by decide +kernel)).1

/-- The system after the second pass: the batch of `x` left beside it. -/
def passed : System StubItem ℕ :=
  (reached (System.step true) (System.new config 0) secondPass (by decide +kernel)).1

end TwoQueues

end Sie.Sidecar
