import Sie.Server.ModelWorker

/-!
# Every accepted request is answered

Some owner holds every item of an accepted request that is not answered: a batcher, the locals of
the process loop or of a dispatch task, or a registration that was left for `stop()`; or
`_process_batch` has finished its batch.  A request all of whose items are in finished batches has
all its results at the end of the last one, or has failed.

A batch has no owner in two places.  While the process loop waits for the adapter dispatch lock it
has left its batcher and is not registered in flight, so a `stop()` that cancels the loop there
loses it.  And where a future is cancelled while its group runs, the accounting raises and takes
the registration with it.
-/

namespace Sie.Server

variable {os o : List ModelWorkerOutput} {i : ItemRef}

open Sie.Lib List Function List.Subset Dispatch PendingRequest ProcessTask

/-- The item was in a batch that `_process_batch` has finished. -/
def Finished (os : List ModelWorkerOutput) (i : ItemRef) : Prop :=
  ∃ batch, .finished batch ∈ os ∧ i ∈ batch

theorem Finished.append (h : Finished os i) : Finished (os ++ o) i := by
  obtain ⟨batch, hmem, hi⟩ := h
  exact ⟨batch, mem_append_left _ hmem, hi⟩

theorem finished_append_iff : Finished (os ++ o) i ↔ Finished os i ∨ Finished o i := by
  simp [Finished, or_and_right, exists_or]

/-- The requests so far, and how many there are. -/
structure Book where
  requests : Requests
  next : ℕ

namespace Book

variable {b b' : Book} {rs rs' : Requests} {batch : List ItemRef}
  {holds : ItemRef → Prop} {r : ℕ}

/-- What a step may do to the requests. -/
structure Extends (b b' : Book) : Prop where
  next_le : b.next ≤ b'.next
  grows : ∀ r < b.next, (b.requests r).Grows (b'.requests r)

theorem extends_of_grows (next : ℕ) (h : rs.Grows rs') :
    Extends ⟨rs, next⟩ ⟨rs', next⟩ := ⟨le_rfl, fun r _ => h r⟩

/-- Items of requests that are there. -/
def Valid (b : Book) (items : List ItemRef) : Prop :=
  ∀ i ∈ items, i.request < b.next ∧ i.index < (b.requests i.request).size

theorem Valid.extend {items : List ItemRef} (h : b.Valid items) (hext : b.Extends b') :
    b'.Valid items := by
  intro i hi
  obtain ⟨hr, hk⟩ := h i hi
  exact ⟨lt_of_lt_of_le hr hext.next_le, by rwa [(hext.grows _ hr).size]⟩

/-- A dispatch of such items. -/
def Runs (b : Book) (d : Dispatch) : Prop := b.Valid d.batch ∧ d.Covered b.requests

theorem Runs.extend {d : Dispatch} (h : b.Runs d) (hext : b.Extends b') : b'.Runs d :=
  ⟨h.1.extend hext, h.2.grows fun i hi => hext.grows _ (h.1 i hi).1⟩

theorem runs_start (h : b.Valid batch) :
    Runs ⟨(start b.requests batch).1, b.next⟩ (start b.requests batch).2 :=
  ⟨by
    rw [batch_start]
    exact h.extend (extends_of_grows b.next (grows_start _ _)),
    covered_start fun i hi => (h i hi).2⟩

/-- The results are of items that are there; a finished item is settled; and a request whose items
are all finished is answered. -/
structure Sound (os : List ModelWorkerOutput) (b : Book) : Prop where
  within : b.requests.Within
  finished : ∀ i, Finished os i → i.request < b.next ∧ Settled b.requests i
  answered : ∀ r < b.next, (∀ k < (b.requests r).size, Finished os ⟨r, k⟩) →
    (b.requests r).Answered

/-- The requests move on, and no batch is finished. -/
theorem Sound.grow {next : ℕ} (h : Sound os ⟨rs, next⟩) (hgrows : rs.Grows rs')
    (hwithin : rs'.Within) (ho : ∀ i, ¬ Finished o i) : Sound (os ++ o) ⟨rs', next⟩ where
  within := hwithin
  finished := by
    intro i hi
    obtain hi | hi := finished_append_iff.mp hi
    · exact ⟨(h.finished i hi).1, (h.finished i hi).2.grows (hgrows _)⟩
    · exact absurd hi (ho i)
  answered := by
    intro r hr hall
    refine (hgrows r).answered (h.answered r hr fun k hk => ?_)
    rw [← (hgrows r).size] at hk
    exact (finished_append_iff.mp (hall k hk)).resolve_right (ho _)

/-- A batch is finished of which nothing is left. -/
theorem Sound.finish (h : Sound os b) {d : Dispatch} (hd : b.Runs d) (hleft : d.left = [])
    (hbatch : d.batch = batch) (ho : ∀ i, Finished o i ↔ i ∈ batch) :
    Sound (os ++ o) ⟨b.requests.completeRequests batch, b.next⟩ where
  within := h.within.completeRequests batch
  finished := by
    intro i hi
    have hgrows := b.requests.grows_completeRequests batch i.request
    obtain hi | hi := finished_append_iff.mp hi
    · exact ⟨(h.finished i hi).1, (h.finished i hi).2.grows hgrows⟩
    · rw [ho, ← hbatch] at hi
      exact ⟨(hd.1 i hi).1, (hd.2.settled hleft hi).grows hgrows⟩
  answered := by
    intro r hr hall
    have hgrows := b.requests.grows_completeRequests batch r
    by_cases hanswered : (b.requests r).Answered
    · exact hgrows.answered hanswered
    have hsettled : ∀ k < (b.requests r).size, k ∈ (b.requests r).partialResults := by
      intro k hk
      rw [← hgrows.size] at hk
      rcases finished_append_iff.mp (hall k hk) with hfinished | hfinished
      · exact (h.finished _ hfinished).2.resolve_left hanswered
      · rw [ho, ← hbatch] at hfinished
        exact (hd.2.settled hleft hfinished).resolve_left hanswered
    -- some item of the request is in this batch, or they were all finished before
    by_cases hin : ∃ i ∈ batch, i.request = r
    · obtain ⟨i, hi, rfl⟩ := hin
      exact Requests.answered_completeRequests h.within hi hsettled
    refine absurd (h.answered r hr fun k hk => ?_) hanswered
    rw [← hgrows.size] at hk
    refine (finished_append_iff.mp (hall k hk)).resolve_right fun hfinished => ?_
    exact hin ⟨_, (ho _).mp hfinished, rfl⟩

/-- New requests, each of which is answered or has an item. -/
theorem Sound.opened (h : Sound os b) (hle : b.next ≤ b'.next)
    (hold : ∀ r < b.next, b'.requests r = b.requests r) (hwithin : b'.requests.Within)
    (hnew : ∀ r, b.next ≤ r → r < b'.next → (b'.requests r).Answered ∨ 0 < (b'.requests r).size)
    (ho : ∀ i, ¬ Finished o i) : Sound (os ++ o) b' where
  within := hwithin
  finished := by
    intro i hi
    obtain ⟨hr, _⟩ := h.finished i ((finished_append_iff.mp hi).resolve_right (ho i))
    exact ⟨lt_of_lt_of_le hr hle, by rwa [Settled, hold _ hr]⟩
  answered := by
    intro r hr hall
    have hbefore : ∀ k < (b'.requests r).size, Finished os ⟨r, k⟩ := fun k hk =>
      (finished_append_iff.mp (hall k hk)).resolve_right (ho _)
    by_cases hlt : r < b.next
    · rw [hold r hlt] at hbefore ⊢
      exact h.answered r hlt hbefore
    · refine (hnew r (not_lt.mp hlt) hr).resolve_right fun hpos => ?_
      exact hlt (h.finished _ (hbefore 0 hpos)).1

/-- A new request with an item. -/
theorem Sound.submitted (h : Sound os b) {size : ℕ} (hsize : 0 < size) (configKey : Option ℕ)
    (ho : ∀ i, ¬ Finished o i) :
    Sound (os ++ o) ⟨update b.requests b.next ⟨size, configKey, ∅, none⟩, b.next + 1⟩ := by
  refine h.opened (Nat.le_succ _) (fun r hr => update_of_ne (Nat.ne_of_lt hr) _ _)
    (fun r => ?_) (fun r hge hlt => ?_) ho
  · by_cases hr : r = b.next
    · subst hr
      simp
    · simp only [update_of_ne hr]
      exact h.within r
  · obtain rfl : r = b.next := Nat.le_antisymm (Nat.le_of_lt_succ hlt) hge
    exact .inr (by simpa using hsize)

theorem extends_of_eq (hle : b.next ≤ b'.next) (hold : ∀ r < b.next, b'.requests r = b.requests r) :
    b.Extends b' :=
  ⟨hle, fun r hr => by rw [hold r hr]; exact .refl _⟩

/-- The request is answered, or each of its items is held or finished. -/
def Located (b : Book) (holds : ItemRef → Prop) (os : List ModelWorkerOutput) (r : ℕ) : Prop :=
  r < b.next ∧ ((b.requests r).Answered ∨
    ∀ k < (b.requests r).size, holds ⟨r, k⟩ ∨ Finished os ⟨r, k⟩)

theorem Located.next {holds' : ItemRef → Prop} (h : b.Located holds os r) (hext : b.Extends b')
    (hmove : ∀ i, holds i → holds' i ∨ (b'.requests i.request).Answered ∨ Finished o i) :
    b'.Located holds' (os ++ o) r := by
  obtain ⟨hr, hlocated⟩ := h
  refine ⟨lt_of_lt_of_le hr hext.next_le, ?_⟩
  by_cases hanswered : (b'.requests r).Answered
  · exact .inl hanswered
  rcases hlocated with hbefore | hitems
  · exact absurd ((hext.grows r hr).answered hbefore) hanswered
  refine .inr fun k hk => ?_
  rw [(hext.grows r hr).size] at hk
  rcases hitems k hk with hheld | hfinished
  · rcases hmove _ hheld with hheld | hdone | hfinished
    · exact .inl hheld
    · exact absurd hdone hanswered
    · exact .inr (finished_append_iff.mpr (.inr hfinished))
  · exact .inr hfinished.append

/-- Nothing of the request is held any more. -/
theorem Located.answered (h : b.Located holds os r) (hbook : b.Sound os) (hnone : ∀ i, ¬ holds i) :
    (b.requests r).Answered := by
  rcases h.2 with hanswered | hitems
  · exact hanswered
  · exact hbook.answered r h.1 fun k hk => (hitems k hk).resolve_left (hnone _)

end Book

variable {b b' : Book} {call : PreformedCall}

/-! ## The owners -/

def ProcessTask.items : ProcessTask → List ItemRef
  | .unstarted | .selecting | .ended => []
  | .awaitingLock _ batch | .awaitingSlot batch => batch
  | .dispatching _ d _ => d.batch

def ProcessTask.Sound (b : Book) : ProcessTask → Prop
  | .unstarted | .selecting | .ended => True
  | .awaitingLock _ batch | .awaitingSlot batch => b.Valid batch
  | .dispatching _ d _ => b.Runs d

theorem ProcessTask.Sound.extend {loop : ProcessTask} (h : loop.Sound b) (hext : b.Extends b') :
    loop.Sound b' := by
  cases loop with
  | unstarted | selecting | ended => trivial
  | awaitingLock | awaitingSlot => exact Book.Valid.extend h hext
  | dispatching => exact Book.Runs.extend h hext

def DispatchTask.items : DispatchTask → List ItemRef
  | .spawned batch => batch
  | .dispatching d => d.batch

def DispatchTask.Sound (b : Book) : DispatchTask → Prop
  | .spawned batch => b.Valid batch
  | .dispatching d => b.Runs d

theorem DispatchTask.Sound.extend {task : DispatchTask} (h : task.Sound b) (hext : b.Extends b') :
    task.Sound b' := by
  cases task with
  | spawned => exact Book.Valid.extend h hext
  | dispatching => exact Book.Runs.extend h hext

/-- The items a call has still to bring through. -/
def PreformedCall.Holds (call : PreformedCall) (i : ItemRef) : Prop :=
  (∃ d, call.current = some d ∧ i ∈ d.batch) ∨ ∃ group ∈ call.groups, i ∈ group.2

structure PreformedCall.Sound (os : List ModelWorkerOutput) (b : Book) (call : PreformedCall) :
    Prop where
  current : ∀ d, call.current = some d → b.Runs d
  groups : ∀ group ∈ call.groups, b.Valid group.2
  located : ∀ r ∈ call.requests, b.Located call.Holds os r

theorem PreformedCall.Sound.extend {os o : List ModelWorkerOutput} (h : call.Sound os b)
    (hext : b.Extends b') : call.Sound (os ++ o) b' where
  current := fun d hd => (h.current d hd).extend hext
  groups := fun group hgroup => (h.groups group hgroup).extend hext
  located := fun r hr => (h.located r hr).next hext fun _ => .inl

namespace ModelWorker

def book (s : ModelWorker) : Book := ⟨s.requests, s.nextRequest⟩

/-- The owners of the items of accepted requests. -/
def Holds (s : ModelWorker) (i : ItemRef) : Prop :=
  (∃ lora, ∃ p ∈ (s.batchers lora).pending, p.metadata = i) ∨ i ∈ s.loop.items ∨
    (∃ task ∈ s.tasks, i ∈ task.items) ∨ i ∈ s.orphans

/-- Where `stop()` is. -/
structure Staged (running : Bool) (stop : StopStage) (loop : ProcessTask)
    (tasks : List DispatchTask) : Prop where
  idle : running = true ↔ stop = .idle
  unlocked : running = false → ∀ lora batch, loop ≠ .awaitingLock lora batch
  begun : stop ≠ .idle → stop ≠ .awaitingLoop →
    loop = .unstarted ∧ ∀ task ∈ tasks, task.begun = true

structure Sound (os : List ModelWorkerOutput) (s : ModelWorker) : Prop where
  book : s.book.Sound os
  known : ∀ lora, lora ∉ s.loras → (s.batchers lora).pending = []
  queued : ∀ lora, s.book.Valid ((s.batchers lora).pending.map metadata)
  loop : s.loop.Sound s.book
  tasks : ∀ task ∈ s.tasks, task.Sound s.book
  calls : ∀ call ∈ s.calls, call.Sound os s.book
  accepted : ∀ r, .accepted r ∈ os → s.book.Located s.Holds os r
  staged : Staged s.running s.stop s.loop s.tasks
  drained : s.stop = .joining ∨ s.stop = .returned →
    ∀ r, .accepted r ∈ os → (s.requests r).Answered
  stopped : .stopReturned ∈ os → s.stop = .returned

theorem sound_new (declared : ℕ) (recovery : OomRecoveryConfig) (batchConfig : BatchConfig) :
    Sound [] (new declared recovery batchConfig) where
  book := ⟨fun r => by simp [book, new], by simp [Finished], by simp [book, new]⟩
  known := fun _ _ => rfl
  queued := fun _ => by simp [new, Book.Valid, BatchFormer.new]
  loop := trivial
  tasks := by simp [new]
  calls := by simp [new]
  accepted := by simp
  staged := ⟨by simp [new], by simp [new], by simp [new]⟩
  drained := by simp
  stopped := by simp

/-! ## What a step keeps -/

variable {s t : ModelWorker} {e : ModelWorkerEvent} {lora : LoraKey}
  {batch : List ItemRef} {k : ℕ} {rs : Requests} {activates : Bool}
  {requests : List (LoraKey × PreformedRequest)} {loop : ProcessTask} {lock : Option LockHolder}
  {orphans : List ItemRef} {α : Type} {task : DispatchTask} {owner : Owner} {r n : ℕ}
  {q : LoraKey × PreformedRequest} {l : List α}

theorem extends_book (hgrows : s.requests.Grows rs) : s.book.Extends ⟨rs, s.nextRequest⟩ :=
  Book.extends_of_grows _ hgrows

/-- The batchers are as before, and the other owners keep what they hold, or it is settled. -/
theorem Holds.move {P : Prop} (h : s.Holds i) (hqueued : t.batchers = s.batchers)
    (hloop : i ∈ s.loop.items → t.Holds i ∨ P)
    (htasks : ∀ task ∈ s.tasks, i ∈ task.items → t.Holds i ∨ P)
    (horphans : s.orphans ⊆ t.orphans) : t.Holds i ∨ P := by
  rcases h with hheld | hheld | ⟨task, htask, hi⟩ | horphan
  · exact .inl (.inl (hqueued ▸ hheld))
  · exact hloop hheld
  · exact htasks task htask hi
  · exact .inl (.inr (.inr (.inr (horphans horphan))))

theorem holds_task (htask : task ∈ s.tasks) (hi : i ∈ task.items) : s.Holds i :=
  .inr (.inr (.inl ⟨task, htask, hi⟩))

/-- What a step does to the owners, `stop()` and new requests of a batcher apart. -/
structure Moves (os o : List ModelWorkerOutput) (s t : ModelWorker) : Prop where
  extends_ : s.book.Extends t.book
  book : t.book.Sound (os ++ o)
  loras : t.loras = s.loras
  queued : ∀ lora, (t.batchers lora).pending ⊆ (s.batchers lora).pending
  loop : t.loop.Sound t.book
  tasks : ∀ task ∈ t.tasks, task ∈ s.tasks ∨ task.Sound t.book
  calls : ∀ call ∈ t.calls, call ∈ s.calls ∨ call.Sound (os ++ o) t.book
  holds : ∀ i, s.Holds i → t.Holds i ∨ (t.requests i.request).Answered ∨ Finished o i
  accepted : ∀ r, .accepted r ∈ o → r < t.nextRequest ∧ (t.requests r).Answered
  stop : t.stop = s.stop
  staged : Staged t.running t.stop t.loop t.tasks
  running : .stopReturned ∉ o

theorem Sound.next_of_moves (h : Sound os s) (m : Moves os o s t) : Sound (os ++ o) t where
  book := m.book
  known := by
    intro lora hlora
    rw [m.loras] at hlora
    have hqueued := m.queued lora
    rw [h.known lora hlora] at hqueued
    exact subset_nil.mp hqueued
  queued := by
    intro lora i hi
    obtain ⟨p, hp, rfl⟩ := mem_map.mp hi
    exact (h.queued lora).extend m.extends_ _ (mem_map_of_mem (m.queued lora hp))
  loop := m.loop
  tasks := fun task htask => (m.tasks task htask).elim
    (fun hold => (h.tasks task hold).extend m.extends_) id
  calls := fun call hcall => (m.calls call hcall).elim
    (fun hold => (h.calls call hold).extend m.extends_) id
  accepted := by
    intro r hr
    rcases mem_append.mp hr with hr | hr
    · exact (h.accepted r hr).next m.extends_ m.holds
    · exact ⟨(m.accepted r hr).1, .inl (m.accepted r hr).2⟩
  staged := m.staged
  drained := by
    intro hstop r hr
    rw [m.stop] at hstop
    rcases mem_append.mp hr with hr | hr
    · exact (m.extends_.grows r (h.accepted r hr).1).answered (h.drained hstop r hr)
    · exact (m.accepted r hr).2
  stopped := by
    intro hreturned
    rw [m.stop]
    exact h.stopped ((mem_append.mp hreturned).resolve_right m.running)

/-- No batch is finished and no future handed out. -/
theorem not_finished_nil (i : ItemRef) : ¬ Finished [] i := by
  simp [Finished]

section

variable (h : Sound os s)
include h

/-- The requests are as before. -/
theorem Sound.same_book (ho : ∀ i, ¬ Finished o i) : s.book.Sound (os ++ o) :=
  h.book.grow (.refl _) h.book.within ho

theorem Sound.not_returned (hstop : s.stop ≠ .returned) : .stopReturned ∉ os :=
  fun hreturned => hstop (h.stopped hreturned)

/-- A stopped worker returns from `stop()`. -/
theorem Sound.returns (hstop : s.stop = .returned) : Sound (os ++ [.stopReturned]) s := by
  have hmem : ∀ r, ModelWorkerOutput.accepted r ∈ os ++ [.stopReturned] → .accepted r ∈ os := by
    simp
  have hext : s.book.Extends s.book := Book.extends_of_grows _ (.refl _)
  exact { h with
    book := h.same_book (by simp [Finished])
    calls := fun call hcall => (h.calls call hcall).extend hext
    accepted := fun r hr => (h.accepted r (hmem r hr)).next hext fun _ => .inl
    drained := fun hdone r hr => h.drained hdone r (hmem r hr)
    stopped := fun _ => hstop }

theorem Sound.not_running (hstop : s.stop ≠ .idle) : s.running = false := by
  rwa [← Bool.not_eq_true, h.staged.idle]

theorem Sound.next_of_moves_nil (m : Moves os [] s t) : Sound os t := by
  simpa using h.next_of_moves m

/-- The loop goes on, and does not wait for the lock unless the worker runs. -/
theorem Sound.staged_loop (hloop : s.loop ≠ .unstarted)
    (hunlocked : s.running = false → ∀ lora batch, loop ≠ .awaitingLock lora batch)
    (tasks : List DispatchTask) : Staged s.running s.stop loop tasks :=
  ⟨h.staged.idle, hunlocked, fun hidle hawaiting =>
    absurd (h.staged.begun hidle hawaiting).1 hloop⟩

/-- A step of the loop alone, after which the requests are `rs`. -/
theorem Sound.next_loop (hstarted : s.loop ≠ .unstarted) (hgrows : s.requests.Grows rs)
    (hwithin : rs.Within) (hloop : loop.Sound ⟨rs, s.nextRequest⟩)
    (hitems : ∀ i ∈ s.loop.items, i ∈ loop.items ∨ (rs i.request).Answered)
    (hunlocked : ∀ lora batch, loop ≠ .awaitingLock lora batch) :
    Sound os { s with requests := rs, loop := loop, lock := lock } :=
  h.next_of_moves_nil {
    extends_ := extends_book hgrows
    book := h.book.grow hgrows hwithin not_finished_nil
    loras := rfl
    queued := fun _ => refl _
    loop := hloop
    tasks := fun _ => .inl
    calls := fun _ => .inl
    holds := fun i hi => hi.move rfl
      (fun hheld => (hitems i hheld).imp (fun hi => .inr (.inl hi)) .inl)
      (fun task htask hi => .inl (holds_task htask hi)) (refl _)
    accepted := by simp
    stop := rfl
    staged := h.staged_loop hstarted (fun _ => hunlocked) _
    running := by simp }

end

/-! ## The process loop -/

section

variable (h : Sound os s)
include h

theorem Sound.stage_of_loop (hloop : s.loop ≠ .unstarted) :
    s.stop = .idle ∨ s.stop = .awaitingLoop := by
  by_contra hstage
  rw [not_or] at hstage
  exact hloop (h.staged.begun hstage.1 hstage.2).1

/-- A batch goes from its batcher to the loop, which holds nothing else. -/
theorem Sound.taken (lora : LoraKey) (maxItems : Option ℕ)
    (hfree : s.loop.items = []) (hloop : s.loop ≠ .unstarted)
    (hloop' : loop = .awaitingSlot (((s.batchers lora).taken s.batchConfig maxItems).map metadata) ∨
      s.running = true ∧ loop = .awaitingLock lora
        (((s.batchers lora).taken s.batchConfig maxItems).map metadata)) :
    Sound os { s.setBatcher lora ((s.batchers lora).extractBatch s.batchConfig maxItems) with
      loop := loop } := by
  have hitems : loop.items =
      ((s.batchers lora).taken s.batchConfig maxItems).map metadata := by
    rcases hloop' with rfl | ⟨-, rfl⟩ <;> rfl
  have hvalid : s.book.Valid
      (((s.batchers lora).taken s.batchConfig maxItems).map metadata) := by
    intro i hi
    obtain ⟨p, hp, rfl⟩ := mem_map.mp hi
    exact h.queued lora _ (mem_map_of_mem
      ((BatchFormer.extractBatch_perm ..).mem_iff.mp (mem_append_left _ hp)))
  refine h.next_of_moves_nil ⟨⟨le_rfl, fun r _ => .refl _⟩,
    h.same_book not_finished_nil, rfl, ?_, ?_,
    fun _ => .inl, fun _ => .inl, ?_, by simp, rfl, ?_, by simp⟩
  · intro lora'
    by_cases hlora : lora' = lora
    · subst hlora
      simp only [setBatcher, update_self]
      exact fun p hp => (BatchFormer.extractBatch_perm ..).mem_iff.mp (mem_append_right _ hp)
    · simp [setBatcher, update_of_ne hlora]
  · rcases hloop' with rfl | ⟨-, rfl⟩ <;> exact hvalid
  · rintro i (⟨lora', p, hp, rfl⟩ | hheld | htask | horphan)
    · by_cases hlora : lora' = lora
      · subst hlora
        have hperm := (s.batchers lora').extractBatch_perm s.batchConfig maxItems
        rcases mem_append.mp (hperm.mem_iff.mpr hp) with htaken | hleft
        · exact .inl (.inr (.inl (by rw [hitems]; exact mem_map_of_mem htaken)))
        · exact .inl (.inl ⟨lora', p, by simpa [setBatcher] using hleft, rfl⟩)
      · exact .inl (.inl ⟨lora', p, by simpa [setBatcher, update_of_ne hlora] using hp, rfl⟩)
    · rw [hfree] at hheld
      cases hheld
    · exact .inl (.inr (.inr (.inl htask)))
    · exact .inl (.inr (.inr (.inr horphan)))
  · refine h.staged_loop hloop (fun hrunning lora' batch' heq => ?_) _
    rcases hloop' with rfl | ⟨hrunning', -⟩
    · cases heq
    · cases hrunning.symm.trans hrunning'

section

variable (hloop : s.loop ≠ .unstarted) (hitems : s.loop.items = batch) (hvalid : s.book.Valid batch)
include hloop hitems hvalid

/-- The batch the loop holds is dispatched. -/
theorem Sound.begin (lock : Option LockHolder) (budget : Option ℕ) :
    Sound os { s with
      requests := (start s.requests batch).1
      lock := lock
      loop := .dispatching lora (start s.requests batch).2 budget } := by
  refine h.next_loop hloop (grows_start _ _) (h.book.within.failAll _ _)
    (Book.runs_start hvalid) ?_ (by simp)
  intro i hi
  rw [hitems] at hi
  exact .inl (by rwa [items, batch_start])

theorem Sound.activate (activates : Bool) :
    Sound os (s.activate lora batch activates) := by
  unfold ModelWorker.activate
  split_ifs
  · exact h.begin hloop hitems hvalid _ _
  refine h.next_loop hloop (s.requests.grows_failAll _ _) (h.book.within.failAll _ _) trivial ?_
    (by simp)
  intro i hi
  rw [hitems] at hi
  exact .inr (s.requests.answered_failAll _ hi)

theorem Sound.spawn : Sound os (s.spawn batch) := by
  refine h.next_of_moves_nil ⟨⟨le_rfl, fun r _ => .refl _⟩, h.same_book not_finished_nil, rfl,
    fun _ => refl _, trivial, ?_, fun _ hcall => .inl hcall, ?_, by simp, rfl, ?_,
    by simp⟩
  · intro task htask
    rcases mem_append.mp htask with hold | hnew
    · exact .inl hold
    · obtain rfl := mem_singleton.mp hnew
      exact .inr hvalid
  · refine fun i hi => hi.move rfl (fun hheld => .inl ?_)
      (fun task htask hi => .inl (holds_task (mem_append_left _ htask) hi)) (refl _)
    rw [hitems] at hheld
    exact holds_task (mem_append_right _ (.head _)) hheld
  · exact h.staged_loop hloop (by simp [ModelWorker.spawn]) _

end

theorem Sound.form (hstep : s.formStep lora activates = some (t, o)) : Sound (os ++ o) t := by
  unfold formStep at hstep
  rw [Option.ite_none_right_eq_some] at hstep
  obtain ⟨⟨hrunning, hselecting, -⟩, heq⟩ := hstep
  have hloop : s.loop ≠ .unstarted := by simp [hselecting]
  have hfree : s.loop.items = [] := by rw [hselecting]; rfl
  have hslot := h.taken lora none hfree hloop (.inl rfl)
  split_ifs at heq <;> cases heq <;> rw [append_nil]
  · exact hslot.activate (by simp) rfl hslot.loop activates
  · exact h.taken lora none hfree hloop (.inr ⟨hrunning, rfl⟩)
  · exact hslot.spawn (by simp) rfl hslot.loop
  · exact hslot

theorem Sound.acquireLock (hstep : s.acquireLockStep activates = some (t, o)) :
    Sound (os ++ o) t := by
  unfold acquireLockStep at hstep
  split at hstep
  next _ _ hloop =>
    split_ifs at hstep
    cases hstep
    have hvalid := h.loop
    rw [hloop] at hvalid
    rw [append_nil]
    exact h.activate (by simp [hloop]) (by rw [hloop]; rfl) hvalid activates
  next => cases hstep

theorem Sound.acquireSlot (hstep : s.acquireSlotStep = some (t, o)) : Sound (os ++ o) t := by
  unfold acquireSlotStep at hstep
  split at hstep
  next _ hloop =>
    split_ifs at hstep
    cases hstep
    have hvalid := h.loop
    rw [hloop] at hvalid
    rw [append_nil]
    exact h.spawn (by simp [hloop]) (by rw [hloop]; rfl) hvalid
  next => cases hstep

theorem Sound.drainActive (hloop : s.loop = .selecting) (lora : LoraKey)
    (budget : ℕ) : Sound os (s.drainActive lora budget) := by
  have hstarted : s.loop ≠ .unstarted := by simp [hloop]
  unfold ModelWorker.drainActive
  split_ifs
  on_goal 3 =>
    have hslot := h.taken lora (some budget) (by rw [hloop]; rfl) hstarted (.inl rfl)
    exact hslot.begin (by simp) rfl hslot.loop s.lock _
  all_goals
    exact h.next_loop hstarted (.refl _) h.book.within trivial (by simp [hloop, items]) (by simp)

/-- The loop ends, and what it held is left for `stop()`. -/
theorem Sound.orphan_loop (hstage : s.stop = .awaitingLoop)
    (horphans : s.orphans ⊆ orphans) (hitems : s.loop.items ⊆ orphans) (lock : Option LockHolder) :
    Sound os { s with loop := .ended, lock := lock, orphans := orphans } := by
  refine h.next_of_moves_nil ⟨⟨le_rfl, fun r _ => .refl _⟩,
    h.same_book not_finished_nil, rfl, fun _ => refl _, trivial,
    fun _ => .inl, fun _ => .inl, ?_, by simp, rfl, ?_, by simp⟩
  · exact fun i hi => hi.move rfl (fun hheld => .inl (.inr (.inr (.inr (hitems hheld)))))
      (fun task htask hi => .inl (holds_task htask hi)) horphans
  · exact ⟨h.staged.idle, by simp, fun _ hawaiting => absurd hstage hawaiting⟩

end

/-! ## The dispatch tasks -/

theorem mem_eraseIdx_of_mem {x y : α} (hy : l[k]? = some y) (hx : x ∈ l) :
    x = y ∨ x ∈ l.eraseIdx k := by
  obtain ⟨n, hn⟩ := mem_iff_getElem?.mp hx
  by_cases hnk : n = k
  · subst hnk
    exact .inl (Option.some.inj (hn.symm.trans hy))
  · exact .inr (mem_eraseIdx_iff_getElem?.mpr ⟨n, hnk, hn⟩)

theorem mem_set_of_mem {x y z : α} (hy : l[k]? = some y) (hx : x ∈ l) : x = y ∨ x ∈ l.set k z := by
  refine (mem_eraseIdx_of_mem hy hx).imp_right fun hleft => ?_
  obtain ⟨n, hnk, hn⟩ := mem_eraseIdx_iff_getElem?.mp hleft
  exact mem_iff_getElem?.mpr ⟨n, by rw [List.getElem?_set_ne (Ne.symm hnk), hn]⟩

section

variable (h : Sound os s)
include h

/-- A step of the task at `k`. -/
theorem Sound.moves_task (tasks : List DispatchTask) (orphans : List ItemRef)
    (slots : ℕ) (hgrows : s.requests.Grows rs) (hbook : Book.Sound (os ++ o) ⟨rs, s.nextRequest⟩)
    (hk : s.tasks[k]? = some task) (hkept : ∀ task' ∈ s.tasks, task' = task ∨ task' ∈ tasks)
    (hnew : ∀ task' ∈ tasks, task' ∈ s.tasks ∨ task'.Sound ⟨rs, s.nextRequest⟩ ∧ task'.begun = true)
    (hitems : ∀ i ∈ task.items, (∃ task' ∈ tasks, i ∈ task'.items) ∨ i ∈ orphans ∨ Finished o i)
    (horphans : s.orphans ⊆ orphans) (haccepted : ∀ r, .accepted r ∉ o)
    (hreturned : .stopReturned ∉ o) :
    Sound (os ++ o)
      { s with requests := rs, tasks := tasks, orphans := orphans, freeSlots := slots } := by
  have hext := extends_book hgrows
  refine h.next_of_moves ⟨hext, hbook, rfl, fun _ => refl _, h.loop.extend hext,
    fun task' htask => (hnew task' htask).imp_right And.left, fun _ => .inl, ?_,
    fun r hr => absurd hr (haccepted r), rfl, ?_, hreturned⟩
  · refine fun i hi => hi.move rfl (fun hheld => .inl (.inr (.inl hheld)))
      (fun task' htask hi => ?_) horphans
    rcases hkept task' htask with rfl | hkept
    · rcases hitems i hi with hin | horphan | hfinished
      · exact .inl (.inr (.inr (.inl hin)))
      · exact .inl (.inr (.inr (.inr horphan)))
      · exact .inr (.inr hfinished)
    · exact .inl (holds_task hkept hi)
  · refine ⟨h.staged.idle, h.staged.unlocked, fun hidle hawaiting => ?_⟩
    obtain ⟨hloop, hbegun⟩ := h.staged.begun hidle hawaiting
    exact ⟨hloop, fun task' htask => (hnew task' htask).elim (hbegun task') And.right⟩

/-- The task at `k` goes on with the same items. -/
theorem Sound.set_task {d : Dispatch} (hgrows : s.requests.Grows rs)
    (hwithin : rs.Within) (hk : s.tasks[k]? = some task) (hd : Book.Runs ⟨rs, s.nextRequest⟩ d)
    (hitems : task.items ⊆ d.batch) :
    Sound os { s with requests := rs, tasks := s.tasks.set k (.dispatching d) } := by
  have hnext := h.moves_task (o := []) (s.tasks.set k (.dispatching d)) s.orphans s.freeSlots hgrows
    (h.book.grow hgrows hwithin not_finished_nil) hk (fun _ hmem => mem_set_of_mem hk hmem)
    (fun task' hmem => (mem_or_eq_of_mem_set hmem).imp_right ?_)
    (fun i hi => .inl ⟨_, mem_set (List.getElem?_eq_some_iff.mp hk).1 _, hitems hi⟩) (refl _)
    (by simp) (by simp)
  · simpa using hnext
  · rintro rfl
    exact ⟨hd, rfl⟩

theorem Sound.beginTask (hstep : s.beginTaskStep k = some (t, o)) : Sound (os ++ o) t := by
  unfold beginTaskStep at hstep
  split at hstep <;> cases hstep
  next batch hk =>
    rw [append_nil]
    have hvalid : s.book.Valid batch := h.tasks _ (mem_of_getElem? hk)
    exact h.set_task (grows_start _ _) (h.book.within.failAll _ _) hk
      (Book.runs_start hvalid) (by rw [batch_start]; exact refl _)

end

/-! ## The calls -/

section

variable (h : Sound os s)
include h

/-- A step of a call. -/
theorem Sound.moves_call {calls : List PreformedCall} {slots : ℕ}
    (hgrows : s.requests.Grows rs) (hbook : Book.Sound (os ++ o) ⟨rs, s.nextRequest⟩)
    (hcalls : ∀ call ∈ calls, call ∈ s.calls ∨ call.Sound (os ++ o) ⟨rs, s.nextRequest⟩)
    (horphans : s.orphans ⊆ orphans)
    (haccepted : ∀ r, .accepted r ∈ o → r < s.nextRequest ∧ (rs r).Answered)
    (hreturned : .stopReturned ∉ o) :
    Sound (os ++ o) { s with
      requests := rs, calls := calls, orphans := orphans, lock := lock, freeSlots := slots } := by
  have hext := extends_book hgrows
  refine h.next_of_moves ⟨hext, hbook, rfl, fun _ => refl _, h.loop.extend hext,
    fun task' htask => .inl htask, hcalls, ?_, haccepted, rfl, ?_, hreturned⟩
  · exact fun i hi => hi.move rfl (fun hheld => .inl (.inr (.inl hheld)))
      (fun task htask hi => .inl (holds_task htask hi)) horphans
  · exact h.staged

/-- The call at `k` goes on. -/
theorem Sound.set_call (call : PreformedCall) (lock : Option LockHolder)
    (slots : ℕ) (hgrows : s.requests.Grows rs) (hbook : Book.Sound (os ++ o) ⟨rs, s.nextRequest⟩)
    (hcall : call.Sound (os ++ o) ⟨rs, s.nextRequest⟩) (haccepted : ∀ r, .accepted r ∉ o)
    (hreturned : .stopReturned ∉ o) :
    Sound (os ++ o)
      { s with requests := rs, calls := s.calls.set k call, lock := lock, freeSlots := slots } := by
  refine h.moves_call hgrows hbook (fun call' hmem => ?_) (refl _)
    (fun r hr => absurd hr (haccepted r)) hreturned
  refine (mem_or_eq_of_mem_set hmem).imp_right ?_
  rintro rfl
  exact hcall

/-- A call that has nothing left to run returns futures that are done. -/
theorem Sound.settleCall (call : PreformedCall) (hk : s.calls[k]? = some call)
    (hcurrent : call.current = none) :
    Sound (os ++ (s.settleCall k call).2) (s.settleCall k call).1 := by
  unfold ModelWorker.settleCall
  split
  next hgroups =>
    have hcall := h.calls call (mem_of_getElem? hk)
    have hnone : ∀ i, ¬ call.Holds i := by simp [PreformedCall.Holds, hcurrent, hgroups]
    have hno : ∀ i, ¬ Finished (call.requests.map ModelWorkerOutput.accepted) i := by
        simp [Finished]
    refine h.moves_call (.refl _) (h.same_book hno)
      (fun call' hmem => .inl (mem_of_mem_eraseIdx hmem)) (refl _) ?_ (by simp)
    intro r hr
    have hr : r ∈ call.requests := by simpa using hr
    exact ⟨(hcall.located r hr).1, (hcall.located r hr).answered h.book hnone⟩
  next => simpa using h

theorem Sound.acquireCall (hstep : s.acquireCallStep k activates = some (t, o)) :
    Sound (os ++ o) t := by
  unfold acquireCallStep at hstep
  split at hstep
  next requests _ batch groups cancelling hk =>
    have hcall := h.calls _ (mem_of_getElem? hk)
    have hvalid : s.book.Valid batch := hcall.groups _ mem_cons_self
    have hgroups : ∀ group ∈ groups, s.book.Valid group.2 := fun group hgroup =>
      hcall.groups group (mem_cons_of_mem _ hgroup)
    split_ifs at hstep with hfree hfails
    · -- the adapter cannot make the LoRA active: the group is answered
      have hgrows := s.requests.grows_failAll batch .loraUnavailable
      have hext := extends_book hgrows
      have hnext := h.set_call (k := k) (o := []) ⟨requests, groups, none, cancelling⟩ s.lock
          s.freeSlots
        hgrows
        (h.book.grow hgrows (h.book.within.failAll _ _) not_finished_nil) ?_ (by simp) (by simp)
      · rw [append_nil] at hnext
        obtain ⟨hlt, -⟩ := List.getElem?_eq_some_iff.mp hk
        have hsettled := hnext.settleCall (k := k) ⟨requests, groups, none, cancelling⟩
            (by simp [hlt]) rfl
        obtain ⟨rfl, rfl⟩ := Prod.mk.inj (Option.some.inj hstep)
        exact hsettled
      · refine ⟨by simp, fun group hgroup => (hgroups group hgroup).extend hext, fun r hr => ?_⟩
        refine (hcall.located r hr).next hext ?_
        rintro i (⟨d, hd, -⟩ | ⟨group, hgroup, hi⟩)
        · cases hd
        · rcases mem_cons.mp hgroup with rfl | hgroup
          · exact .inr (.inl (s.requests.answered_failAll _ hi))
          · exact .inl (.inr ⟨group, hgroup, hi⟩)
    · cases hstep
      have hgrows := grows_start s.requests batch
      have hext := extends_book hgrows
      refine h.set_call (k := k) _ _ _ hgrows
        (h.book.grow hgrows (h.book.within.failAll _ _) not_finished_nil) ?_ (by simp) (by simp)
      refine ⟨?_, fun group hgroup => (hgroups group hgroup).extend hext, fun r hr => ?_⟩
      · rintro d hd
        cases hd
        exact Book.runs_start hvalid
      · refine (hcall.located r hr).next hext ?_
        rintro i (⟨d, hd, -⟩ | ⟨group, hgroup, hi⟩)
        · cases hd
        · rcases mem_cons.mp hgroup with rfl | hgroup
          · exact .inl (.inl ⟨_, rfl, by rwa [batch_start]⟩)
          · exact .inl (.inr ⟨group, hgroup, hi⟩)
  next => cases hstep

theorem Sound.cancelCall (hstep : s.cancelCallStep k = some (t, o)) : Sound (os ++ o) t := by
  unfold cancelCallStep at hstep
  split at hstep <;> cases hstep
  next call hk =>
    have hcall := h.calls call (mem_of_getElem? hk)
    exact h.set_call _ _ _ (.refl _) (h.same_book not_finished_nil)
      ⟨hcall.current, hcall.groups,
        fun r hr => (hcall.located r hr).next (Book.extends_of_grows _ (.refl _))
          fun _ => .inl⟩ (by simp) (by simp)

/-- The futures of a call that is cancelled are not handed out. -/
theorem Sound.erase_call {slots : ℕ} (horphans : s.orphans ⊆ orphans) :
    Sound os { s with
      calls := s.calls.eraseIdx k, orphans := orphans, lock := lock, freeSlots := slots } := by
  rw [← append_nil os]
  exact h.moves_call (.refl _) (h.same_book not_finished_nil)
    (fun call hmem => .inl (mem_of_mem_eraseIdx hmem)) horphans (by simp) (by simp)

end

/-! ## Dispatches -/

section

variable (h : Sound os s) {d d' : Dispatch} (hd : s.dispatch? owner = some d)
include h hd

/-- A dispatch goes on, whoever runs it. -/
theorem Sound.setDispatch (hadv : Dispatch.Advances s.requests d rs d') :
    Sound os ({ s with requests := rs }.setDispatch d' owner) := by
  have hext := extends_book hadv.grows
  have hruns : s.book.Runs d → Book.Runs ⟨rs, s.nextRequest⟩ d' := fun hd =>
    ⟨by rw [hadv.batch]; exact hd.1.extend hext, hadv.covered hd.2⟩
  cases owner with
  | loop =>
    simp only [dispatch?] at hd
    split at hd <;> cases hd
    next hloop =>
      have hd := h.loop
      rw [hloop] at hd
      simp only [ModelWorker.setDispatch, hloop]
      refine h.next_loop (by simp [hloop]) hadv.grows (hadv.within hd.2 h.book.within) (hruns hd)
        ?_ (by simp)
      intro i hi
      rw [hloop] at hi
      exact .inl (by rwa [items, hadv.batch])
  | task =>
    simp only [dispatch?] at hd
    split at hd <;> cases hd
    next hk =>
      have hd : s.book.Runs d := h.tasks _ (mem_of_getElem? hk)
      exact h.set_task hadv.grows (hadv.within hd.2 h.book.within) hk (hruns hd)
        (by rw [hadv.batch]; exact refl _)
  | call k =>
    simp only [dispatch?, Option.bind_eq_some_iff] at hd
    obtain ⟨call, hk, hcurrent⟩ := hd
    have hcall := h.calls call (mem_of_getElem? hk)
    have hd := hcall.current d hcurrent
    simp only [ModelWorker.setDispatch, hk]
    have hnext := h.set_call (k := k) (o := []) { call with current := some d' } s.lock
      s.freeSlots hadv.grows
      (h.book.grow hadv.grows (hadv.within hd.2 h.book.within) not_finished_nil) ?_
      (by simp) (by simp)
    · rwa [append_nil] at hnext
    · refine ⟨?_, fun group hgroup => (hcall.groups group hgroup).extend hext,
        fun r hr => (hcall.located r hr).next hext ?_⟩
      · rintro d₁ hd₁
        cases hd₁
        exact hruns hd
      · rintro i (⟨d₁, hd₁, hi⟩ | hgroup)
        · cases hcurrent.symm.trans hd₁
          exact .inl (.inl ⟨d', rfl, by rwa [hadv.batch]⟩)
        · exact .inl (.inr hgroup)

/-- A dispatch is cancelled, whoever runs it.  What the loop or a task held is left for `stop()`
if the worker is stopping; the futures of a call are not handed out. -/
theorem Sound.unwind (hkept : (∃ k, owner = .call k) ∨ s.running = false) :
    Sound os (s.unwind d.batch owner) := by
  cases owner with
  | call k =>
    unfold ModelWorker.unwind
    split_ifs
    · exact h.erase_call (refl _)
    · exact h.erase_call (subset_append_left _ _)
  | loop =>
    have hstopped := hkept.resolve_left (by simp)
    simp only [dispatch?] at hd
    split at hd <;> cases hd
    next hloop =>
      have hstage := (h.stage_of_loop (by simp [hloop])).resolve_left fun hidle => by
        simp [h.staged.idle.mpr hidle] at hstopped
      simp only [ModelWorker.unwind, if_neg (Bool.not_eq_true _ ▸ hstopped)]
      exact h.orphan_loop hstage (subset_append_left _ _)
        (by rw [hloop]; exact subset_append_right _ _) none
  | task k =>
    have hstopped := hkept.resolve_left (by simp)
    simp only [dispatch?] at hd
    split at hd <;> cases hd
    next hk =>
      simp only [ModelWorker.unwind, if_neg (Bool.not_eq_true _ ▸ hstopped)]
      have hnext := h.moves_task (o := []) (s.tasks.eraseIdx k) (s.orphans ++ d.batch)
        (s.freeSlots + 1) (.refl _) (h.same_book not_finished_nil) hk
        (fun _ hmem => mem_eraseIdx_of_mem hk hmem)
        (fun task' hmem => .inl (mem_of_mem_eraseIdx hmem))
        (fun i hi => .inr (.inl (mem_append_right _ hi))) (subset_append_left _ _)
        (by simp) (by simp)
      rwa [append_nil] at hnext

end

section

variable (h : Sound os s)
include h

theorem Sound.awaitStep {f : Requests → Dispatch → Option (Requests × Dispatch)}
    (hf : ∀ rs d rs' d', f rs d = some (rs', d') → Dispatch.Advances rs d rs' d')
    (hstep : s.awaitStep owner f = some (t, o)) : Sound (os ++ o) t := by
  unfold ModelWorker.awaitStep at hstep
  split at hstep
  next d hd =>
    split at hstep <;> cases hstep
    next heq =>
      rw [append_nil]
      exact h.setDispatch hd (hf _ _ _ _ heq)
  next => cases hstep

theorem Sound.unwindLoop (hstep : s.unwindLoopStep = some (t, o)) : Sound (os ++ o) t := by
  unfold unwindLoopStep at hstep
  rw [Option.ite_none_right_eq_some] at hstep
  obtain ⟨hstage, heq⟩ := hstep
  have hstopped := h.not_running (by simp [hstage])
  split at heq
  next hloop =>
    cases heq
    rw [append_nil]
    exact h.orphan_loop hstage (refl _) (by simp [hloop, items]) s.lock
  next lora batch hloop => exact absurd hloop (h.staged.unlocked hstopped lora batch)
  next batch hloop =>
    cases heq
    rw [append_nil]
    exact h.orphan_loop hstage (subset_append_left _ _)
      (by rw [hloop]; exact subset_append_right _ _) s.lock
  next lora d _ hloop =>
    cases heq
    rw [append_nil]
    have hd : s.dispatch? .loop = some d := by rw [dispatch?, hloop]
    exact h.unwind hd (.inr hstopped)
  next => cases heq
  next => cases heq

theorem Sound.unwindTask (hstep : s.unwindTaskStep k = some (t, o)) : Sound (os ++ o) t := by
  unfold unwindTaskStep at hstep
  rw [Option.ite_none_right_eq_some] at hstep
  obtain ⟨hstage, heq⟩ := hstep
  split at heq
  next _ hk =>
    -- no task is left that has not begun
    have hbegun := (h.staged.begun (by simp [hstage]) (by simp [hstage])).2 _ (mem_of_getElem? hk)
    cases hbegun
  next d hk =>
    cases heq
    rw [append_nil]
    have hd : s.dispatch? (.task k) = some d := by rw [dispatch?, hk]
    exact h.unwind hd (.inr (h.not_running (by simp [hstage])))
  next => cases heq

theorem Sound.unwindCall (hstep : s.unwindCallStep k = some (t, o)) : Sound (os ++ o) t := by
  unfold unwindCallStep at hstep
  split at hstep <;> cases hstep <;> rw [append_nil]
  next => exact h.erase_call (refl _)
  next d hk =>
    have hd : s.dispatch? (.call k) = some d := by simp [dispatch?, hk]
    exact h.unwind hd (.inl ⟨k, rfl⟩)

end

theorem finished_singleton {batch : List ItemRef} (i : ItemRef) :
    Finished [.finished batch] i ↔ i ∈ batch := by
  simp [Finished]

section

variable (h : Sound os s) {d : Dispatch} (hleft : d.left = []) (hbatch : d.batch = batch)
include h hleft hbatch

theorem Sound.finishLoop {budget : Option ℕ} {lora : LoraKey}
    (hloop : s.loop = .dispatching lora d budget) (n : ℕ) :
    Sound (os ++ [.finished batch])
      ({ s with requests := s.requests.completeRequests batch }.drainActive lora n) := by
  have hd := h.loop
  rw [hloop] at hd
  have hgrows := s.requests.grows_completeRequests batch
  have hstarted : s.loop ≠ .unstarted := by simp [hloop]
  have hdone : Sound (os ++ [.finished batch])
      { s with requests := s.requests.completeRequests batch, loop := .selecting } := by
    refine h.next_of_moves ⟨Book.extends_of_grows _ hgrows,
      h.book.finish hd hleft hbatch finished_singleton, rfl, fun _ => refl _, trivial,
      fun _ htask => .inl htask, fun _ => .inl, ?_, by simp, rfl, ?_, by simp⟩
    · refine fun i hi => hi.move rfl (fun hheld => ?_)
        (fun task htask hi => .inl (holds_task htask hi)) (refl _)
      rw [hloop, items, hbatch] at hheld
      exact .inr (.inr ((finished_singleton i).mpr hheld))
    · exact h.staged_loop hstarted (by simp) _
  exact hdone.drainActive rfl lora n

theorem Sound.finishTask (hk : s.tasks[k]? = some (.dispatching d)) :
    Sound (os ++ [.finished batch]) { s with
      requests := s.requests.completeRequests batch
      tasks := s.tasks.eraseIdx k
      freeSlots := s.freeSlots + 1 } := by
  have hd : s.book.Runs d := h.tasks _ (mem_of_getElem? hk)
  refine h.moves_task _ _ _ (s.requests.grows_completeRequests batch)
    (h.book.finish hd hleft hbatch finished_singleton) hk
    (fun _ hmem => mem_eraseIdx_of_mem hk hmem) (fun _ hmem => .inl (mem_of_mem_eraseIdx hmem))
    (fun i hi => .inr (.inr ((finished_singleton i).mpr ?_))) (refl _) (by simp) (by simp)
  rwa [← hbatch]

theorem Sound.finishCall (lock : Option LockHolder) (slots : ℕ)
    (hk : s.calls[k]? = some call) (hcurrent : call.current = some d) :
    Sound (os ++ [.finished batch]) { s with
      requests := s.requests.completeRequests batch
      calls := s.calls.set k { call with current := none }
      lock := lock
      freeSlots := slots } := by
  have hcall := h.calls call (mem_of_getElem? hk)
  have hgrows := s.requests.grows_completeRequests batch
  have hext := extends_book hgrows
  refine h.set_call _ _ _ hgrows
    (h.book.finish (hcall.current _ hcurrent) hleft hbatch finished_singleton) ?_
    (by simp) (by simp)
  refine ⟨by simp, fun group hgroup => (hcall.groups group hgroup).extend hext,
    fun r hr => (hcall.located r hr).next hext ?_⟩
  rintro i (⟨d, hd, hi⟩ | hgroup)
  · cases hcurrent.symm.trans hd
    exact .inr (.inr ((finished_singleton i).mpr (by rwa [← hbatch])))
  · exact .inl (.inr hgroup)

theorem Sound.complete (hd : s.dispatch? owner = some d)
    (hstep : s.completeStep batch owner = some (t, o)) : Sound (os ++ o) t := by
  unfold completeStep at hstep
  cases owner with
  | loop =>
    simp only at hstep
    split at hstep <;> cases hstep
    next hloop =>
      simp only [dispatch?, hloop, Option.some.injEq] at hd
      exact h.finishLoop hleft hbatch (by rw [hloop, hd]) _
  | task =>
    cases hstep
    simp only [dispatch?] at hd
    split at hd <;> cases hd
    next hk => exact h.finishTask hleft hbatch hk
  | call k =>
    simp only at hstep
    split at hstep <;> cases hstep
    next call hk =>
      simp only [dispatch?, hk, Option.bind_some] at hd
      obtain ⟨hlt, -⟩ := List.getElem?_eq_some_iff.mp hk
      have hdone := h.finishCall hleft hbatch s.release.lock s.release.freeSlots hk hd
      have hsettled := hdone.settleCall (k := k) { call with current := none } (by simp [hlt]) rfl
      rwa [append_assoc] at hsettled

end

/-- The accounting of the group that `owner` has run raises. -/
def accountingRaises (s : ModelWorker) (owner : Owner) : Bool :=
  (s.dispatch? owner).any fun d => d.raises s.requests

theorem Sound.finish (h : Sound os s)
    (hquiet : (∃ k, owner = .call k) ∨ s.running = false ∨ s.accountingRaises owner = false)
    (hstep : s.finishStep owner = some (t, o)) : Sound (os ++ o) t := by
  unfold finishStep at hstep
  split at hstep
  next d hd =>
    split_ifs at hstep with hjobs hraises hgroups
    · cases hstep
      rw [append_nil]
      refine h.unwind hd (hquiet.imp_right fun hquiet => hquiet.resolve_right ?_)
      simp [accountingRaises, hd, hraises]
    · cases hstep
      rw [append_nil]
      exact h.setDispatch hd (advances_nextGroup (not_not.mp hjobs))
    · refine h.complete ?_ rfl hd hstep
      simp [left, not_not.mp hjobs, not_not.mp hgroups]
  next => cases hstep

/-! ## Requests come in -/

/-- The items of a submitted request are those of its arrivals. -/
theorem mem_itemArrivals {items : List (BatchFormer.Arrival Unit)} {x : BatchFormer.Arrival ItemRef}
    (hx : x ∈ itemArrivals r items) : x.metadata.request = r ∧ x.metadata.index < items.length := by
  obtain ⟨⟨a, k⟩, hmem, rfl⟩ := mem_map.mp hx
  exact ⟨rfl, by simpa using (mem_zipIdx hmem).2.1⟩

theorem exists_itemArrival (r : ℕ) {items : List (BatchFormer.Arrival Unit)}
    (hk : k < items.length) : ∃ x ∈ itemArrivals r items, x.metadata = ⟨r, k⟩ :=
  ⟨_, mem_map_of_mem (mk_mem_zipIdx_iff_getElem?.mpr (List.getElem?_eq_getElem hk)), rfl⟩

theorem Sound.submit {configKey : Option ℕ} {items : List (BatchFormer.Arrival Unit)}
    (h : Sound os s) (hitems : items ≠ [])
    (hstep : s.submitStep lora configKey items = some (t, o)) : Sound (os ++ o) t := by
  unfold submitStep at hstep
  rw [Option.ite_none_right_eq_some] at hstep
  obtain ⟨hrunning, ⟨⟩⟩ := hstep
  have hidle := h.staged.idle.mp hrunning
  have hsize : 0 < items.length := length_pos_iff.mpr hitems
  have hbook := h.book.submitted (o := [.accepted s.nextRequest]) hsize configKey
    (by simp [Finished])
  have hext : s.book.Extends ⟨update s.requests s.nextRequest
      ⟨items.length, configKey, ∅, none⟩, s.nextRequest + 1⟩ :=
    Book.extends_of_eq (Nat.le_succ _) fun r hr => update_of_ne (Nat.ne_of_lt hr) _ _
  have hpending := (s.batchers lora).submitMany_pending (itemArrivals s.nextRequest items)
  refine ⟨hbook, ?_, ?_, ?_, fun task htask => (h.tasks task htask).extend hext,
    fun call hcall => (h.calls call hcall).extend hext, ?_, ?_, ?_,
    fun hreturned => h.stopped (by simpa using hreturned)⟩
  · intro lora' hlora'
    have hmem : lora ∈ (if lora ∈ s.loras then s.loras else s.loras ++ [lora]) := by
      split_ifs with hin <;> simp [hin]
    have hsub : ∀ l ∈ s.loras, l ∈ (if lora ∈ s.loras then s.loras else s.loras ++ [lora]) := by
      intro l hl
      split_ifs <;> simp [hl]
    have hne : lora' ≠ lora := fun heq => hlora' (heq ▸ hmem)
    simpa [update_of_ne hne] using h.known lora' fun hin => hlora' (hsub lora' hin)
  · intro lora' i hi
    by_cases hlora : lora' = lora
    · subst hlora
      simp [hpending] at hi
      rcases hi with ⟨p, hp, rfl⟩ | ⟨x, hx, rfl⟩
      · exact (h.queued lora').extend hext _ (mem_map_of_mem hp)
      · obtain ⟨hrequest, hindex⟩ := mem_itemArrivals hx
        simp only [ModelWorker.book, hrequest, update_self]
        exact ⟨Nat.lt_succ_self _, hindex⟩
    · simp only [update_of_ne hlora] at hi
      exact (h.queued lora').extend hext i hi
  · have hloop := h.loop.extend hext
    cases hs : s.loop with
    | unstarted => trivial
    | _ => rwa [hs] at hloop
  · intro r hr
    rcases mem_append.mp hr with hr | hr
    · refine (h.accepted r hr).next hext ?_
      rintro i (⟨lora', p, hp, rfl⟩ | hheld | htask | horphan)
      · refine .inl (.inl ⟨lora', p, ?_, rfl⟩)
        by_cases hlora : lora' = lora
        · subst hlora
          simp only [update_self, hpending]
          exact mem_append_left _ hp
        · simpa [update_of_ne hlora] using hp
      · refine .inl (.inr (.inl ?_))
        cases hs : s.loop with
        | unstarted => rw [hs] at hheld; cases hheld
        | _ => rwa [hs] at hheld
      · exact .inl (.inr (.inr (.inl htask)))
      · exact .inl (.inr (.inr (.inr horphan)))
    · obtain rfl : r = s.nextRequest := by simpa using hr
      refine ⟨Nat.lt_succ_self _, .inr fun k hk => .inl (.inl ?_)⟩
      have hk : k < items.length := by simpa [ModelWorker.book] using hk
      obtain ⟨x, hx, hmeta⟩ := exists_itemArrival s.nextRequest hk
      refine ⟨lora, ⟨x.cost, x.metadata, x.arrivalTime, x.runsAlone⟩, ?_, hmeta⟩
      simp only [update_self, hpending]
      exact mem_append_right _ (mem_map_of_mem hx)
  · exact ⟨h.staged.idle, fun hstopped => absurd (hrunning.symm.trans hstopped) (by simp),
      fun hnot => absurd hidle hnot⟩
  · intro hstage
    simp only [hidle] at hstage
    rcases hstage with hstage | hstage <;> cases hstage

theorem openRequests_add {next : ℕ} (hq : requests[n]? = some q) :
    openRequests rs next requests (next + n) = q.2.metadata := by
  simp [openRequests, hq]

theorem mem_preformedGroups {next : ℕ} (hq : requests[n]? = some q)
    (hi : i ∈ q.2.items (next + n)) : ∃ group ∈ preformedGroups next requests, i ∈ group.2 := by
  have hmem : i ∈ requests.zipIdx.flatMap fun p =>
      if p.1.1 = q.1 then p.1.2.items (next + p.2) else [] := by
    refine mem_flatMap.mpr ⟨(q, n), mk_mem_zipIdx_iff_getElem?.mpr hq, ?_⟩
    simpa using hi
  refine ⟨(q.1, _), mem_filter.mpr ⟨mem_map_of_mem ?_, ?_⟩, hmem⟩
  · exact mem_eraseDups.mpr (mem_map_of_mem (mem_of_getElem? hq))
  · simpa using ne_nil_of_mem hmem

theorem of_mem_preformedGroups {next : ℕ} {group : LoraKey × List ItemRef}
    (hgroup : group ∈ preformedGroups next requests) (hi : i ∈ group.2) :
    ∃ (n : ℕ) (q : LoraKey × PreformedRequest), requests[n]? = some q ∧
      i ∈ q.2.items (next + n) := by
  obtain ⟨_, -, rfl⟩ := mem_map.mp (mem_of_mem_filter hgroup)
  obtain ⟨⟨q, n⟩, hmem, hi⟩ := mem_flatMap.mp hi
  refine ⟨n, q, mk_mem_zipIdx_iff_getElem?.mp hmem, ?_⟩
  simp only at hi
  split_ifs at hi
  · exact hi
  · cases hi

theorem mem_preformedItems {q : PreformedRequest} :
    i ∈ q.items r ↔ q.refused = false ∧ i.request = r ∧ i.index < q.size := by
  unfold PreformedRequest.items
  cases i with
  | mk _ index =>
    split_ifs with hrefused
    · simp [hrefused]
    simp only [mem_map, mem_range, ItemRef.mk.injEq]
    constructor
    · rintro ⟨k, hk, rfl, rfl⟩
      exact ⟨by simpa using hrefused, rfl, hk⟩
    · rintro ⟨-, hr, hk⟩
      exact ⟨index, hk, hr.symm, rfl⟩

theorem Sound.submitPreformed (h : Sound os s)
    (hstep : s.submitPreformedStep requests = some (t, o)) : Sound (os ++ o) t := by
  unfold submitPreformedStep at hstep
  rw [Option.ite_none_right_eq_some] at hstep
  obtain ⟨-, heq⟩ := hstep
  have hold : ∀ r < s.nextRequest, openRequests s.requests s.nextRequest requests r =
      s.requests r := fun r hr => if_pos hr
  -- a new request is refused, empty, or has an item
  have hnew : ∀ r, s.nextRequest ≤ r → r < s.nextRequest + requests.length →
      ∃ n q, r = s.nextRequest + n ∧ requests[n]? = some q ∧
        openRequests s.requests s.nextRequest requests r = q.2.metadata := by
    intro r hge hlt
    obtain ⟨n, rfl⟩ := Nat.exists_eq_add_of_le hge
    have hn : n < requests.length := by omega
    exact ⟨n, requests[n], rfl, List.getElem?_eq_getElem hn,
      openRequests_add (List.getElem?_eq_getElem hn)⟩
  have hbook : Book.Sound (os ++ []) ⟨openRequests s.requests s.nextRequest requests,
      s.nextRequest + requests.length⟩ := by
    refine h.book.opened (Nat.le_add_right _ _) hold ?_ ?_ not_finished_nil
    · intro r
      simp only [openRequests]
      split_ifs
      · exact h.book.within r
      · cases requests[r - s.nextRequest]? with
        | none => exact h.book.within r
        | some q => simp [PreformedRequest.metadata]
    · intro r hge hlt
      obtain ⟨n, q, rfl, -, heq⟩ := hnew r hge hlt
      simp only [heq]
      by_cases hsize : q.2.size = 0
      · simp only [RequestMetadata.Answered, PreformedRequest.metadata, hsize]
        split_ifs <;> simp
      · exact .inr (Nat.pos_of_ne_zero hsize)
  have hext : s.book.Extends ⟨openRequests s.requests s.nextRequest requests,
      s.nextRequest + requests.length⟩ := Book.extends_of_eq (Nat.le_add_right _ _) hold
  have hopened : Sound (os ++ []) { s with
      requests := openRequests s.requests s.nextRequest requests
      nextRequest := s.nextRequest + requests.length
      calls := s.calls ++ [⟨(range requests.length).map (s.nextRequest + ·),
        preformedGroups s.nextRequest requests, none, false⟩] } := by
    refine h.next_of_moves ⟨hext, hbook, rfl, fun _ => refl _, h.loop.extend hext,
      fun _ => .inl, fun call hcall => ?_, fun _ => .inl, by simp, rfl,
      h.staged, by simp⟩
    refine (mem_append.mp hcall).imp_right fun hcall => ?_
    obtain rfl := mem_singleton.mp hcall
    refine ⟨by simp, fun group hgroup i hi => ?_, fun r hr => ?_⟩
    · obtain ⟨n, q, hq, hi⟩ := of_mem_preformedGroups hgroup hi
      obtain ⟨-, hrequest, hindex⟩ := mem_preformedItems.mp hi
      obtain ⟨hlt, -⟩ := List.getElem?_eq_some_iff.mp hq
      simp only [ModelWorker.book, hrequest, openRequests_add hq]
      exact ⟨Nat.add_lt_add_left hlt _, hindex⟩
    · obtain ⟨n, hn, rfl⟩ := mem_map.mp hr
      have hn : n < requests.length := mem_range.mp hn
      have hq : requests[n]? = some requests[n] := List.getElem?_eq_getElem hn
      refine ⟨Nat.add_lt_add_left hn _, ?_⟩
      simp only [ModelWorker.book, openRequests_add hq]
      by_cases hrefused : requests[n].2.refused = true
      · exact .inl (by simp [RequestMetadata.Answered, PreformedRequest.metadata, hrefused])
      · refine .inr fun k hk => .inl (.inr ?_)
        exact mem_preformedGroups hq (mem_preformedItems.mpr ⟨by simpa using hrefused, rfl, hk⟩)
  rw [append_nil] at hopened
  have hsettled := hopened.settleCall (k := s.calls.length)
    ⟨(range requests.length).map (s.nextRequest + ·),
      preformedGroups s.nextRequest requests, none, false⟩ (by simp) rfl
  obtain ⟨rfl, rfl⟩ := Prod.mk.inj (Option.some.inj heq)
  exact hsettled

/-! ## Stop -/

section

variable (h : Sound os s)
include h

theorem Sound.cancelFuture (r : ℕ) :
    Sound os { s with requests := s.requests.settle r .cancelled } := by
  have hgrows := s.requests.grows_settle r .cancelled
  have hext := extends_book hgrows
  refine h.next_of_moves_nil ⟨hext, h.book.grow hgrows
    (h.book.within.of_same (Requests.settle_same _ _ _)) not_finished_nil, rfl,
    fun _ => refl _, h.loop.extend hext, fun _ htask => .inl htask,
    fun _ => .inl, fun i hi => .inl hi, by simp, rfl,
    h.staged, by simp⟩

/-- The lock is not part of the invariant. -/
theorem Sound.relock (lock : Option LockHolder) : Sound os { s with lock := lock } :=
  { h with }

theorem Sound.stop (hlock : ∀ lora batch, s.loop ≠ .awaitingLock lora batch)
    (hstage : s.running = false → s.stop = .returned) : Sound (os ++ s.stopStep.2)
        s.stopStep.1 := by
  unfold ModelWorker.stopStep
  split_ifs with hrunning
  · have hidle := h.staged.idle.mp hrunning
    rw [append_nil]
    exact { h with
      staged := ⟨by simp, fun _ => hlock, by simp⟩
      drained := by simp
      stopped := fun hreturned => absurd hreturned (h.not_returned (by simp [hidle])) }
  · exact h.returns (hstage (by simpa using hrunning))

theorem Sound.resume (hstep : s.resumeStep = some (t, o)) : Sound (os ++ o) t := by
  unfold resumeStep at hstep
  rw [Option.ite_none_right_eq_some] at hstep
  obtain ⟨⟨hstage, hloop, hbegun⟩, ⟨⟩⟩ := hstep
  have hstopped := h.not_running (by simp [hstage])
  rw [append_nil]
  refine ⟨h.book, h.known, h.queued, trivial, h.tasks, h.calls, fun r hr => ?_,
    ⟨by simp [hstopped], by simp, fun _ _ => ⟨rfl, by simpa using hbegun⟩⟩, by simp,
    fun hreturned => absurd hreturned (h.not_returned (by simp [hstage]))⟩
  · have hlocated := h.accepted r hr
    refine ⟨hlocated.1, hlocated.2.imp_right fun hitems k hk => (hitems k hk).imp_left ?_⟩
    rintro (hqueued | hheld | htask | horphan)
    · exact .inl hqueued
    · rcases hloop with hloop | hloop <;> rw [hloop] at hheld <;> cases hheld
    · exact .inr (.inr (.inl htask))
    · exact .inr (.inr (.inr horphan))

/-- Everything an accepted request can be held by is empty after the drain. -/
theorem Sound.drain (hstep : s.drainStep = some (t, o)) : Sound (os ++ o) t := by
  unfold drainStep at hstep
  rw [Option.ite_none_right_eq_some] at hstep
  obtain ⟨⟨hstage, htasks⟩, ⟨⟩⟩ := hstep
  obtain ⟨hloop, -⟩ := h.staged.begun (by simp [hstage]) (by simp [hstage])
  have hgrows := s.requests.grows_failAll s.owed .workerDrained
  have hext := extends_book hgrows
  have hbook := h.book.grow hgrows (h.book.within.failAll _ _) not_finished_nil
  rw [append_nil] at hbook ⊢
  have howed : ∀ i, s.Holds i → i ∈ s.owed := by
    rintro i (⟨lora, p, hp, rfl⟩ | hheld | ⟨task, htask, -⟩ | horphan)
    · have hlora : lora ∈ s.loras := by
        by_contra hnot
        rw [h.known lora hnot] at hp
        cases hp
      exact mem_append_left _ (mem_flatMap.mpr ⟨lora, hlora, mem_map_of_mem hp⟩)
    · rw [hloop] at hheld
      cases hheld
    · rw [htasks] at htask
      cases htask
    · exact mem_append_right _ (mem_append_left _ horphan)
  have hanswered : ∀ r, .accepted r ∈ os →
      ((s.requests.failAll s.owed .workerDrained) r).Answered := by
    intro r hr
    have hlocated : Book.Located ⟨s.requests.failAll s.owed .workerDrained, s.nextRequest⟩
        (fun _ => False) (os ++ []) r := (h.accepted r hr).next hext fun i hi =>
      .inr (.inl (s.requests.answered_failAll _ (howed i hi)))
    rw [append_nil] at hlocated
    exact hlocated.answered hbook fun _ => id
  have hstopped := h.not_running (by simp [hstage])
  refine ⟨hbook, fun _ _ => rfl, fun lora => by simp [BatchFormer.drainPending, Book.Valid],
    h.loop.extend hext, fun task htask => (h.tasks task htask).extend hext, fun call hcall => ?_,
    fun r hr => ⟨(h.accepted r hr).1, .inl (hanswered r hr)⟩,
    ⟨by simp [hstopped], h.staged.unlocked, fun _ _ => ⟨hloop, by simp [htasks]⟩⟩,
    fun _ => hanswered, fun hreturned => absurd hreturned (h.not_returned (by simp [hstage]))⟩
  have hcall := (h.calls call hcall).extend (o := []) hext
  rwa [append_nil] at hcall

theorem Sound.joined (hstep : s.joinedStep = some (t, o)) : Sound (os ++ o) t := by
  unfold joinedStep at hstep
  rw [Option.ite_none_right_eq_some] at hstep
  obtain ⟨hstage, ⟨⟩⟩ := hstep
  have hstopped := h.not_running (by simp [hstage])
  have hbegun := h.staged.begun (by simp [hstage]) (by simp [hstage])
  refine Sound.returns { h with
    staged := ⟨by simp [hstopped], h.staged.unlocked, fun _ _ => hbegun⟩
    drained := fun _ => h.drained (.inl hstage)
    stopped := fun _ => rfl } rfl

end

/-- The loop waits for the dispatch lock with a batch. -/
def awaitsLock (s : ModelWorker) : Bool :=
  match s.loop with
  | .awaitingLock _ _ => true
  | _ => false

/-- Where the guarantee holds: a request has an item, `stop()` comes neither while the loop
waits for the dispatch lock with a batch nor while another `stop()` is under way, and on a worker
that runs no future is cancelled while its group is with the loop or a dispatch task. -/
def Orderly (s : ModelWorker) : ModelWorkerEvent → Prop
  | .submit _ _ items => items ≠ []
  | .finish .loop => s.running = false ∨ s.accountingRaises .loop = false
  | .finish (.task k) => s.running = false ∨ s.accountingRaises (.task k) = false
  | .stop => s.awaitsLock = false ∧ (s.running = true ∨ s.stop = .returned)
  | _ => True

instance (s : ModelWorker) (e : ModelWorkerEvent) : Decidable (s.Orderly e) := by
  unfold Orderly
  split <;> infer_instance

theorem Sound.next (h : Sound os s) (horderly : s.Orderly e) (hstep : s.step e = some (t, o)) :
    Sound (os ++ o) t := by
  cases e with
  | submit => exact h.submit horderly hstep
  | submitPreformed => exact h.submitPreformed hstep
  | form => exact h.form hstep
  | acquireLock => exact h.acquireLock hstep
  | acquireSlot => exact h.acquireSlot hstep
  | beginTask => exact h.beginTask hstep
  | acquireCall => exact h.acquireCall hstep
  | attempted =>
    exact h.awaitStep (fun _ _ _ _ => advances_attempt) hstep
  | evicted => exact h.awaitStep (fun _ _ _ _ => advances_evicted) hstep
  | finish owner =>
    refine h.finish ?_ hstep
    cases owner with
    | call k => exact .inl ⟨k, rfl⟩
    | loop | task => exact .inr horderly
  | mutate | mutated =>
    simp only [step, mutateStep, mutatedStep] at hstep
    split_ifs at hstep
    cases hstep
    simpa using h.relock _
  | cancelFuture r =>
    cases hstep
    simpa using h.cancelFuture r
  | cancelCall => exact h.cancelCall hstep
  | unwindCall => exact h.unwindCall hstep
  | stop =>
    obtain ⟨rfl, rfl⟩ := Prod.mk.inj (Option.some.inj hstep)
    refine h.stop (fun lora batch hloop => ?_) fun hstopped => ?_
    · have hlock := horderly.1
      simp [awaitsLock, hloop] at hlock
    · exact horderly.2.resolve_left (by simp [hstopped])
  | unwindLoop => exact h.unwindLoop hstep
  | resume => exact h.resume hstep
  | unwindTask => exact h.unwindTask hstep
  | drain => exact h.drain hstep
  | joined => exact h.joined hstep

/-- **Every accepted request is answered.**  In every run of orderly steps: once `stop()` has
returned, every future that was handed out is done; and a request all of whose items were in
batches that `_process_batch` finished is answered. -/
theorem accepted_requests_answered {declared : ℕ} {recovery : OomRecoveryConfig}
    {batchConfig : BatchConfig} {es : List ModelWorkerEvent} {os : List ModelWorkerOutput}
    {s : ModelWorker} (hrun : runs step (new declared recovery batchConfig) es = some (s, os))
    (horderly : Along step Orderly (new declared recovery batchConfig) es) :
    (.stopReturned ∈ os → ∀ r, .accepted r ∈ os → (s.requests r).Answered) ∧
    ∀ r < s.nextRequest, (∀ k < (s.requests r).size, Finished os ⟨r, k⟩) →
      (s.requests r).Answered := by
  have hsound : Sound os s := runs_induction_along Sound (sound_new declared recovery batchConfig)
      (fun _ _ _ _ _ h horderly hstep => h.next horderly hstep) es os s horderly hrun
  refine ⟨fun hreturned => hsound.drained (.inr (hsound.stopped hreturned)), ?_⟩
  exact hsound.book.answered

namespace Lost

def recovery : OomRecoveryConfig := ⟨true, [.cacheClear, .evictLru, .splitBatch], 4⟩

def batchConfig : BatchConfig where
  maxBatchCost := 100
  maxBatchRequests := 8
  maxBatchWaitMs := 10
  coalesceMs := 5
  coalesceRatio := 1 / 2

/-- A request of two items. -/
def pair : List (BatchFormer.Arrival Unit) := [⟨1, (), false, 1, 2⟩, ⟨1, (), false, 3, 4⟩]

/-- A batch of two requests runs out of memory, is retried and split, and one half fails; then a
request is queued and another is in flight when `stop()` comes. -/
def stopped : List ModelWorkerEvent :=
  [.submit none (some 0) pair, .submit none (some 0) pair, .form none true,
    .attempted .loop .outOfMemory, .attempted .loop .outOfMemory, .evicted .loop false,
    .attempted .loop .outOfMemory, .attempted .loop .ok, .attempted .loop .error, .finish .loop,
    .submit none (some 0) pair, .form none true, .submit (some "fr") none pair, .stop,
    .unwindLoop, .resume, .drain, .joined]

theorem stopped_goes : (runs step (new 1 recovery batchConfig) stopped).isSome = true := by
  decide +kernel

/-- Where the run ends, and what it has put out. -/
def afterStop : ModelWorker × List ModelWorkerOutput :=
  reached step (new 1 recovery batchConfig) stopped stopped_goes

theorem accepted_requests_answered_stopped :
    (.stopReturned ∈ afterStop.2 →
      ∀ r, .accepted r ∈ afterStop.2 → (afterStop.1.requests r).Answered) ∧
    ∀ r < afterStop.1.nextRequest,
      (∀ k < (afterStop.1.requests r).size, Finished afterStop.2 ⟨r, k⟩) →
        (afterStop.1.requests r).Answered :=
  accepted_requests_answered (runs_eq_reached stopped_goes) (by decide +kernel)

/-- A pre-formed batch runs under the dispatch lock; the loop takes a batch from its batcher and
waits for the lock; `stop()` cancels it there. -/
def waiting : List ModelWorkerEvent :=
  [.submitPreformed [(none, ⟨some 0, 1, false⟩)], .acquireCall 0 true, .submit none (some 0) pair,
    .form none true, .stop, .unwindLoop, .resume, .drain, .joined]

/-- A second `stop()` returns while the first one waits for the loop. -/
def twice : List ModelWorkerEvent := [.submit none (some 0) pair, .stop, .stop]

/-- A request without items is in no batch. -/
def empty : List ModelWorkerEvent := [.submit none (some 0) [], .stop, .unwindLoop, .resume, .drain,
  .joined]

/-- Two requests share a batch, and one is cancelled while it runs. -/
def cancelled : List ModelWorkerEvent :=
  [.submit none (some 0) pair, .submit none (some 0) pair, .form none true, .cancelFuture 0,
    .attempted .loop .ok, .finish .loop, .stop, .resume, .drain, .joined]

/-- The worker has handed out the future of a request, `stop()` has returned, and the future is
not done. -/
def loses (es : List ModelWorkerEvent) (r : ℕ) : Bool :=
  match runs step (new 1 recovery batchConfig) es with
  | some (s, os) =>
    os.contains (.accepted r) && os.contains .stopReturned && (s.requests r).future.isNone
  | none => false

/-- A request is lost where `stop()` finds the loop waiting for the dispatch lock; a second
`stop()` returns too early; a request without items is never answered; and a request whose batch
mate is cancelled is lost with the registration. -/
theorem request_lost : loses waiting 1 = true ∧ loses twice 0 = true ∧ loses empty 0 = true ∧
    loses cancelled 1 = true := by
  decide +kernel

end Lost

end ModelWorker

end Sie.Server
