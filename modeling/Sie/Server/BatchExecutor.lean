import Mathlib.Data.Finset.Card

/-!
# One batch through the adapter

`_dispatch_batch` of the worker's `core/worker/model_worker.py` with the `BatchExecutor` of
`core/worker/oom_recovery.py`.  A batch is grouped by inference configuration, and every group is
dispatched on its own: an attempt that runs out of memory goes through the recovery strategies, an
attempt with an invalid input is halved by request until only the request at fault fails.  Every
attempt and every eviction is an await, so a dispatch is a list of jobs, the one that is awaited
first, and the groups that follow.  After each group the futures that were not done when it began
are asked for their exceptions, which raises for one that was cancelled in the meantime.
`_prime_extract_groups`, which only warms the adapter, is left out.
-/

namespace Sie.Server

open List Function

/-- An item of a request: the metadata it belongs to and its `original_index` there. -/
structure ItemRef where
  request : ℕ
  index : ℕ
  deriving DecidableEq

inductive FailureKind
  | workerDrained
  | loraUnavailable
  | invalidInput
  | noPreparedItems
  | resourceExhausted
  | inference
  deriving DecidableEq

inductive Answer
  | result
  | failed (kind : FailureKind)
  | cancelled
  deriving DecidableEq

/-- `size` is the number of items, `configKey` the batching key (`none`: it cannot be built), and
`partialResults` are the indices that have a result. -/
structure RequestMetadata where
  size : ℕ
  configKey : Option ℕ
  partialResults : Finset ℕ
  future : Option Answer
  deriving DecidableEq

def RequestMetadata.Answered (m : RequestMetadata) : Prop := m.future ≠ none

instance (m : RequestMetadata) : Decidable m.Answered :=
  inferInstanceAs (Decidable (m.future ≠ none))

/-- What a request never loses. -/
structure RequestMetadata.Grows (m m' : RequestMetadata) : Prop where
  size : m'.size = m.size
  answered : m.Answered → m'.Answered
  results : m.partialResults ⊆ m'.partialResults

theorem RequestMetadata.Grows.refl (m : RequestMetadata) : m.Grows m :=
  ⟨rfl, id, Finset.Subset.refl _⟩

theorem RequestMetadata.Grows.trans {m m' m'' : RequestMetadata} (h : m.Grows m')
    (h' : m'.Grows m'') : m.Grows m'' :=
  ⟨h'.size.trans h.size, h'.answered ∘ h.answered, h.results.trans h'.results⟩

/-- The requests of a worker, by the order in which they came. -/
abbrev Requests := ℕ → RequestMetadata

namespace Requests

variable {rs : Requests} {items : List ItemRef} {i : ItemRef}

def Grows (rs rs' : Requests) : Prop := ∀ r, (rs r).Grows (rs' r)

theorem Grows.refl (rs : Requests) : rs.Grows rs := fun r => .refl (rs r)

theorem Grows.trans {rs' rs'' : Requests} (h : rs.Grows rs') (h' : rs'.Grows rs'') :
    rs.Grows rs'' := fun r => (h r).trans (h' r)

theorem grows_update {r : ℕ} {m : RequestMetadata} (h : (rs r).Grows m) :
    rs.Grows (update rs r m) := by
  intro r'
  by_cases hr : r' = r
  · subst hr
    simpa using h
  · rw [update_of_ne hr]
    exact .refl _

section

variable (rs)

section

variable (r : ℕ) (a : Answer)

/-- A future that is not done is set. -/
def settle : Requests :=
  if (rs r).future = none then update rs r { rs r with future := some a } else rs

theorem grows_settle : rs.Grows (rs.settle r a) := by
  unfold settle
  split_ifs
  · exact grows_update ⟨rfl, fun _ => by simp [RequestMetadata.Answered], Finset.Subset.refl _⟩
  · exact .refl rs

theorem answered_settle : (rs.settle r a r).Answered := by
  unfold settle
  split_ifs with hnone
  · simp [RequestMetadata.Answered]
  · exact hnone

end

/-- `_fail_one` and `_fail_group`: every request of the items fails that is not done. -/
def failAll (items : List ItemRef) (kind : FailureKind) : Requests :=
  items.foldl (fun rs i => rs.settle i.request (.failed kind)) rs

theorem grows_failAll (items : List ItemRef) (kind : FailureKind) :
    rs.Grows (rs.failAll items kind) := by
  induction items generalizing rs with
  | nil => exact .refl rs
  | cons i items ih => exact (grows_settle rs i.request _).trans (ih _)

theorem answered_failAll (kind : FailureKind) (hi : i ∈ items) :
    (rs.failAll items kind i.request).Answered := by
  induction items generalizing rs with
  | nil => cases hi
  | cons j items ih =>
    rcases mem_cons.mp hi with rfl | hi
    · exact (grows_failAll (rs.settle i.request _) items kind i.request).answered
        (answered_settle rs i.request _)
    · exact ih _ hi

def addResult (i : ItemRef) : Requests :=
  update rs i.request
    { rs i.request with partialResults := insert i.index (rs i.request).partialResults }

theorem grows_addResult (i : ItemRef) : rs.Grows (rs.addResult i) :=
  grows_update ⟨rfl, id, Finset.subset_insert _ _⟩

/-- The results of a successful attempt. -/
def fanOut (items : List ItemRef) : Requests := items.foldl addResult rs

theorem grows_fanOut (items : List ItemRef) : rs.Grows (rs.fanOut items) := by
  induction items generalizing rs with
  | nil => exact .refl rs
  | cons i items ih => exact (grows_addResult rs i).trans (ih _)

theorem mem_fanOut (hi : i ∈ items) : i.index ∈ (rs.fanOut items i.request).partialResults := by
  induction items generalizing rs with
  | nil => cases hi
  | cons j items ih =>
    rcases mem_cons.mp hi with rfl | hi
    · refine (grows_fanOut _ items i.request).results ?_
      simp [addResult]
    · exact ih _ hi

def completeRequest (i : ItemRef) : Requests :=
  if (rs i.request).partialResults.card = (rs i.request).size then rs.settle i.request .result
  else rs

theorem grows_completeRequest (i : ItemRef) : rs.Grows (rs.completeRequest i) := by
  unfold completeRequest
  split_ifs
  · exact grows_settle rs _ _
  · exact .refl rs

/-- `_complete_requests`: the requests of the batch that have all their results. -/
def completeRequests (batch : List ItemRef) : Requests :=
  batch.foldl completeRequest rs

theorem grows_completeRequests (batch : List ItemRef) : rs.Grows (rs.completeRequests batch) := by
  induction batch generalizing rs with
  | nil => exact .refl rs
  | cons i batch ih => exact (grows_completeRequest rs i).trans (ih _)

end

/-! ## Only items of their batch get results -/

/-- No request has a result for an item it does not have. -/
def Within (rs : Requests) : Prop := ∀ r, (rs r).partialResults ⊆ Finset.range (rs r).size

/-- A step that leaves the sizes and the results. -/
theorem Within.of_same {rs' : Requests} (h : rs.Within)
    (hsame : ∀ r, (rs' r).partialResults = (rs r).partialResults ∧ (rs' r).size = (rs r).size) :
    rs'.Within := by
  intro r
  rw [(hsame r).1, (hsame r).2]
  exact h r

theorem settle_same (rs : Requests) (r : ℕ) (a : Answer) (r' : ℕ) :
    (rs.settle r a r').partialResults = (rs r').partialResults ∧
      (rs.settle r a r').size = (rs r').size := by
  unfold settle
  split_ifs
  · by_cases hr : r' = r
    · subst hr
      simp
    · rw [update_of_ne hr]
      exact ⟨rfl, rfl⟩
  · exact ⟨rfl, rfl⟩

theorem completeRequest_same (rs : Requests) (i : ItemRef) (r : ℕ) :
    (rs.completeRequest i r).partialResults = (rs r).partialResults ∧
      (rs.completeRequest i r).size = (rs r).size := by
  unfold completeRequest
  split_ifs
  · exact settle_same rs _ _ r
  · exact ⟨rfl, rfl⟩

section

variable (h : rs.Within)
include h

theorem Within.failAll (items : List ItemRef) (kind : FailureKind) :
    (rs.failAll items kind).Within := by
  induction items generalizing rs with
  | nil => exact h
  | cons i items ih => exact ih (h.of_same (settle_same rs _ _))

theorem Within.completeRequests (batch : List ItemRef) : (rs.completeRequests batch).Within := by
  induction batch generalizing rs with
  | nil => exact h
  | cons i batch ih => exact ih (h.of_same (completeRequest_same rs i))

theorem Within.addResult (hi : i.index < (rs i.request).size) : (rs.addResult i).Within := by
  intro r
  unfold Requests.addResult
  by_cases hr : r = i.request
  · subst hr
    simpa [Finset.insert_subset_iff] using ⟨hi, h i.request⟩
  · rw [update_of_ne hr]
    exact h r

theorem Within.fanOut (hitems : ∀ i ∈ items, i.index < (rs i.request).size) :
    (rs.fanOut items).Within := by
  induction items generalizing rs with
  | nil => exact h
  | cons i items ih =>
    refine ih (h.addResult (hitems i mem_cons_self)) fun j hj => ?_
    rw [(grows_addResult rs i j.request).size]
    exact hitems j (mem_cons_of_mem _ hj)

/-- A request of the batch that has all its results is answered. -/
theorem answered_completeRequests {batch : List ItemRef} (hi : i ∈ batch)
    (hall : ∀ k < (rs i.request).size, k ∈ (rs i.request).partialResults) :
    (rs.completeRequests batch i.request).Answered := by
  induction batch generalizing rs with
  | nil => cases hi
  | cons j batch ih =>
    rcases mem_cons.mp hi with rfl | hi
    · have hcard : (rs i.request).partialResults.card = (rs i.request).size := by
        have heq : (rs i.request).partialResults = Finset.range (rs i.request).size :=
          Finset.Subset.antisymm (h i.request) fun k hk => hall k (Finset.mem_range.mp hk)
        rw [heq, Finset.card_range]
      refine (grows_completeRequests _ batch i.request).answered ?_
      rw [completeRequest, if_pos hcard]
      exact answered_settle rs _ _
    · obtain ⟨hresults, hsize⟩ := completeRequest_same rs j i.request
      refine ih (h.of_same (completeRequest_same rs j)) hi ?_
      rwa [hresults, hsize]

end

end Requests

/-! ## Recovery -/

inductive OomRecoveryAction
  | cacheClear
  | evictLru
  | splitBatch
  deriving DecidableEq

structure OomRecoveryConfig where
  enabled : Bool
  strategy : List OomRecoveryAction
  maxSplitDepth : ℕ
  deriving DecidableEq

/-- Which attempt a dispatch is: the first one, one after a recovery action with the actions that
follow it, or one of a slice of a split batch. -/
inductive Attempt
  | first
  | retry (rest : List OomRecoveryAction)
  | split (depth : ℕ)
  deriving DecidableEq

/-- What is awaited for a group of items: an attempt, or the eviction of another model. -/
inductive Job
  | dispatch (group : List ItemRef) (attempt : Attempt)
  | evict (group : List ItemRef) (rest : List OomRecoveryAction)
  deriving DecidableEq

def Job.group : Job → List ItemRef
  | .dispatch group _ | .evict group _ => group

inductive DispatchOutcome
  | ok
  | invalidInput
  | outOfMemory
  | error
  deriving DecidableEq

namespace BatchExecutor

/-- The strategies that are left for a group that ran out of memory. -/
def recover (rs : Requests) (group : List ItemRef) :
    List OomRecoveryAction → Requests × List Job
  | [] => (rs.failAll group .resourceExhausted, [])
  | .cacheClear :: rest => (rs, [.dispatch group (.retry rest)])
  | .evictLru :: rest => (rs, [.evict group rest])
  | .splitBatch :: _ => (rs, [.dispatch group (.split 0)])

/-- Half of the requests on each side, until one is left. -/
def isolateInvalidInput (rs : Requests) (group : List ItemRef) : Requests × List Job :=
  let requestIds := (group.map ItemRef.request).eraseDups
  if requestIds.length ≤ 1 then (rs.failAll group .invalidInput, [])
  else
    let leftIds := requestIds.take (requestIds.length / 2)
    (rs, [.dispatch (group.filter fun i => i.request ∈ leftIds) .first,
      .dispatch (group.filter fun i => ¬ i.request ∈ leftIds) .first])

def outOfMemory (config : OomRecoveryConfig) (rs : Requests) (group : List ItemRef) :
    Attempt → Requests × List Job
  | .first =>
    if config.enabled = true then recover rs group config.strategy
    else (rs.failAll group .inference, [])
  | .retry rest => recover rs group rest
  | .split depth =>
    if group.length ≤ 1 ∨ config.maxSplitDepth ≤ depth then
      (rs.failAll group .resourceExhausted, [])
    else
      let mid := group.length / 2
      (rs, [.dispatch (group.take mid) (.split (depth + 1)),
        .dispatch (group.drop mid) (.split (depth + 1))])

/-- The end of an attempt. -/
def run (config : OomRecoveryConfig) (rs : Requests) (group : List ItemRef) (attempt : Attempt) :
    DispatchOutcome → Requests × List Job
  | .ok => (rs.fanOut group, [])
  | .invalidInput => isolateInvalidInput rs group
  | .error => (rs.failAll group .inference, [])
  | .outOfMemory => outOfMemory config rs group attempt

/-- The end of an eviction; where nothing was evicted the next strategy is tried at once. -/
def evicted (rs : Requests) (group : List ItemRef) (rest : List OomRecoveryAction) (ok : Bool) :
    Requests × List Job :=
  if ok = true then (rs, [.dispatch group (.retry rest)]) else recover rs group rest

end BatchExecutor

/-- The item has its result, or its request an answer. -/
def Settled (rs : Requests) (i : ItemRef) : Prop :=
  (rs i.request).Answered ∨ i.index ∈ (rs i.request).partialResults

theorem Settled.grows {rs rs' : Requests} {i : ItemRef} (h : Settled rs i)
    (hgrows : (rs i.request).Grows (rs' i.request)) : Settled rs' i :=
  h.imp hgrows.answered fun hmem => hgrows.results hmem

/-- What the end of an await makes of a group: every item is settled or in a job, and the jobs
have no other items. -/
structure Handled (rs : Requests) (group : List ItemRef) (result : Requests × List Job) : Prop where
  grows : rs.Grows result.1
  within : rs.Within → (∀ i ∈ group, i.index < (rs i.request).size) → result.1.Within
  covered : ∀ i ∈ group, Settled result.1 i ∨ ∃ job ∈ result.2, i ∈ job.group
  inside : ∀ job ∈ result.2, job.group ⊆ group

section

variable {rs : Requests} {group : List ItemRef}

theorem handled_failAll (kind : FailureKind) : Handled rs group (rs.failAll group kind, []) where
  grows := rs.grows_failAll group kind
  within := fun h _ => h.failAll group kind
  covered := fun _ hi => .inl (.inl (rs.answered_failAll kind hi))
  inside := by simp

theorem handled_fanOut : Handled rs group (rs.fanOut group, []) where
  grows := rs.grows_fanOut group
  within := fun h hitems => h.fanOut hitems
  covered := fun _ hi => .inl (.inr (rs.mem_fanOut hi))
  inside := by simp

theorem handled_jobs {jobs : List Job} (hcovered : ∀ i ∈ group, ∃ job ∈ jobs, i ∈ job.group)
    (hinside : ∀ job ∈ jobs, job.group ⊆ group) : Handled rs group (rs, jobs) where
  grows := .refl rs
  within := fun h _ => h
  covered := fun i hi => .inr (hcovered i hi)
  inside := hinside

theorem handled_again {job : Job} (hjob : job.group = group) : Handled rs group (rs, [job]) :=
  handled_jobs (fun i hi => ⟨job, by simp, by rwa [hjob]⟩) (by simp [hjob])

theorem handled_recover (strategy : List OomRecoveryAction) :
    Handled rs group (BatchExecutor.recover rs group strategy) := by
  cases strategy with
  | nil => exact handled_failAll _
  | cons action => cases action <;> exact handled_again rfl

theorem handled_isolateInvalidInput :
    Handled rs group (BatchExecutor.isolateInvalidInput rs group) := by
  unfold BatchExecutor.isolateInvalidInput
  simp only
  split_ifs
  · exact handled_failAll _
  refine handled_jobs (fun i hi => ?_) ?_
  · by_cases hleft : i.request ∈
        (group.map ItemRef.request).eraseDups.take
          ((group.map ItemRef.request).eraseDups.length / 2)
    · exact ⟨_, mem_cons_self .., by simpa [Job.group] using ⟨hi, hleft⟩⟩
    · exact ⟨_, mem_cons_of_mem _ (.head _),
        by simpa [Job.group] using ⟨hi, hleft⟩⟩
  · simp [Job.group]

theorem handled_outOfMemory (config : OomRecoveryConfig) (attempt : Attempt) :
    Handled rs group (BatchExecutor.outOfMemory config rs group attempt) := by
  cases attempt with
  | first =>
    unfold BatchExecutor.outOfMemory
    split_ifs
    · exact handled_recover _
    · exact handled_failAll _
  | retry rest => exact handled_recover rest
  | split =>
    unfold BatchExecutor.outOfMemory
    simp only
    split_ifs
    · exact handled_failAll _
    refine handled_jobs (fun i hi => ?_) ?_
    · rw [← take_append_drop (group.length / 2) group, mem_append] at hi
      rcases hi with hi | hi
      · exact ⟨_, mem_cons_self .., hi⟩
      · exact ⟨_, mem_cons_of_mem _ (.head _), hi⟩
    · simp [Job.group, take_subset, drop_subset]

theorem handled_run (config : OomRecoveryConfig) (attempt : Attempt) (outcome : DispatchOutcome) :
    Handled rs group (BatchExecutor.run config rs group attempt outcome) := by
  cases outcome with
  | ok => exact handled_fanOut
  | invalidInput => exact handled_isolateInvalidInput
  | outOfMemory => exact handled_outOfMemory config attempt
  | error => exact handled_failAll _

theorem handled_evicted (rest : List OomRecoveryAction) (ok : Bool) :
    Handled rs group (BatchExecutor.evicted rs group rest ok) := by
  unfold BatchExecutor.evicted
  split_ifs
  · exact handled_again rfl
  · exact handled_recover rest

end

/-! ## A batch and what is left of it -/

/-- A batch that has been registered in flight: the jobs that are left of the group that runs, its
requests that were not done when it began (`done_before`), and the groups that follow. -/
structure Dispatch where
  batch : List ItemRef
  jobs : List Job
  watched : List ℕ
  groups : List (List ItemRef)
  deriving DecidableEq

namespace Dispatch

section

variable (rs : Requests) (batch : List ItemRef)

/-- One group per configuration, in the order of their first items; a request whose key cannot be
built is in none. -/
def groupByInferenceConfig : List (List ItemRef) :=
  (batch.filterMap fun i => (rs i.request).configKey).eraseDups.map fun key =>
    batch.filter fun i => (rs i.request).configKey = some key

/-- The items whose requests fail before the dispatch. -/
def unbatchable : List ItemRef :=
  batch.filter fun i => (rs i.request).configKey = none

/-- The first group begins. -/
def nextGroup : List (List ItemRef) → Dispatch
  | [] => ⟨batch, [], [], []⟩
  | group :: groups =>
    ⟨batch, [.dispatch group .first],
      (group.map ItemRef.request).filter fun r => (rs r).future = none, groups⟩

/-- The beginning of `_process_batch`. -/
def start : Requests × Dispatch :=
  let rs' := rs.failAll (unbatchable rs batch) .invalidInput
  (rs', nextGroup rs' batch (groupByInferenceConfig rs batch))

end

/-- The attempt that is awaited ends. -/
def attempt (d : Dispatch) (config : OomRecoveryConfig) (rs : Requests)
    (outcome : DispatchOutcome) : Option (Requests × Dispatch) :=
  match d.jobs with
  | .dispatch group attempt :: rest =>
    let result := BatchExecutor.run config rs group attempt outcome
    some (result.1, { d with jobs := result.2 ++ rest })
  | _ => none

/-- The eviction that is awaited ends. -/
def evicted (d : Dispatch) (rs : Requests) (ok : Bool) : Option (Requests × Dispatch) :=
  match d.jobs with
  | .evict group strategy :: rest =>
    let result := BatchExecutor.evicted rs group strategy ok
    some (result.1, { d with jobs := result.2 ++ rest })
  | _ => none

/-- The accounting of the group asks a cancelled future for its exception. -/
def raises (d : Dispatch) (rs : Requests) : Bool :=
  d.watched.any fun r => (rs r).future = some .cancelled

/-- The items that are not through: those of the jobs and of the groups that follow. -/
def left (d : Dispatch) : List (List ItemRef) := d.jobs.map Job.group ++ d.groups

@[simp] theorem batch_nextGroup (rs : Requests) (batch : List ItemRef)
    (groups : List (List ItemRef)) : (nextGroup rs batch groups).batch = batch := by
  cases groups <;> rfl

@[simp] theorem left_nextGroup (rs : Requests) (batch : List ItemRef)
    (groups : List (List ItemRef)) : (nextGroup rs batch groups).left = groups := by
  cases groups <;> rfl

/-- Every item of the batch is settled or left. -/
structure Covered (rs : Requests) (d : Dispatch) : Prop where
  items : ∀ i ∈ d.batch, i.index < (rs i.request).size
  covered : ∀ i ∈ d.batch, Settled rs i ∨ ∃ group ∈ d.left, i ∈ group
  inside : ∀ group ∈ d.left, group ⊆ d.batch

variable {rs rs' : Requests} {d d' : Dispatch} {job : Job} {jobs : List Job}
  {result : Requests × List Job}

theorem Covered.grows (h : Covered rs d)
    (hgrows : ∀ i ∈ d.batch, (rs i.request).Grows (rs' i.request)) : Covered rs' d where
  items := fun i hi => by
    rw [(hgrows i hi).size]
    exact h.items i hi
  covered := fun i hi => (h.covered i hi).imp_left fun hs => hs.grows (hgrows i hi)
  inside := h.inside

theorem grows_start (rs : Requests) (batch : List ItemRef) : rs.Grows (start rs batch).1 :=
  rs.grows_failAll _ _

@[simp] theorem batch_start (rs : Requests) (batch : List ItemRef) :
    (start rs batch).2.batch = batch := batch_nextGroup ..

theorem left_start (rs : Requests) (batch : List ItemRef) :
    (start rs batch).2.left = groupByInferenceConfig rs batch := left_nextGroup ..

theorem covered_start {batch : List ItemRef} (hitems : ∀ i ∈ batch, i.index < (rs i.request).size) :
    Covered (start rs batch).1 (start rs batch).2 where
  items := by
    intro i hi
    rw [batch_start] at hi
    rw [(grows_start rs batch i.request).size]
    exact hitems i hi
  covered := by
    intro i hi
    rw [batch_start] at hi
    cases hkey : (rs i.request).configKey with
    | none =>
      refine .inl (.inl (rs.answered_failAll _ ?_))
      simpa [unbatchable] using ⟨hi, hkey⟩
    | some key =>
      refine .inr ⟨batch.filter fun i => (rs i.request).configKey = some key, ?_,
        by simpa using ⟨hi, hkey⟩⟩
      rw [left_start]
      exact mem_map_of_mem (by simpa using ⟨i, hi, hkey⟩)
  inside := by
    intro _ hgroup
    rw [left_start] at hgroup
    obtain ⟨key, -, rfl⟩ := mem_map.mp hgroup
    rw [batch_start]
    exact fun i hi => mem_of_mem_filter hi

/-- The head job is handled, the rest stays. -/
theorem Covered.handle (h : Covered rs d) (hjobs : d.jobs = job :: jobs)
    (hhandled : Handled rs job.group result) :
    Covered result.1 { d with jobs := result.2 ++ jobs } where
  items := fun i hi => by
    rw [(hhandled.grows i.request).size]
    exact h.items i hi
  covered := by
    intro i hi
    rcases h.covered i hi with hsettled | ⟨group, hgroup, hmem⟩
    · exact .inl (hsettled.grows (hhandled.grows i.request))
    simp only [left, hjobs, map_cons, cons_append, mem_cons] at hgroup
    rcases hgroup with rfl | hgroup
    · refine (hhandled.covered i hmem).imp_right ?_
      rintro ⟨job, hjob, hmem⟩
      exact ⟨job.group, mem_append_left _ (mem_map_of_mem (mem_append_left _ hjob)), hmem⟩
    · refine .inr ⟨group, ?_, hmem⟩
      simpa [left, or_assoc] using .inr (by simpa using hgroup)
  inside := by
    intro group hgroup
    simp only [left, map_append, append_assoc, mem_append] at hgroup
    have hinside := h.inside
    simp only [left, hjobs, map_cons, cons_append, mem_cons, forall_eq_or_imp] at hinside
    rcases hgroup with hgroup | hgroup
    · obtain ⟨job', hjob', rfl⟩ := mem_map.mp hgroup
      exact List.Subset.trans (hhandled.inside job' hjob') hinside.1
    · exact hinside.2 group (mem_append.mpr hgroup)

/-- What the end of an await makes of a dispatch. -/
structure Advances (rs : Requests) (d : Dispatch) (rs' : Requests) (d' : Dispatch) : Prop where
  batch : d'.batch = d.batch
  grows : rs.Grows rs'
  within : Covered rs d → rs.Within → rs'.Within
  covered : Covered rs d → Covered rs' d'

theorem advances_of_handled (hjobs : d.jobs = job :: jobs)
    (hhandled : Handled rs job.group result) :
    Advances rs d result.1 { d with jobs := result.2 ++ jobs } where
  batch := rfl
  grows := hhandled.grows
  within := fun h hwithin => hhandled.within hwithin fun i hi =>
    h.items i (h.inside job.group (by simp [left, hjobs]) hi)
  covered := fun h => h.handle hjobs hhandled

theorem advances_attempt {config : OomRecoveryConfig} {outcome : DispatchOutcome}
    (h : attempt d config rs outcome = some (rs', d')) : Advances rs d rs' d' := by
  unfold attempt at h
  split at h <;> cases h
  next _ attempt _ hjobs =>
    exact advances_of_handled hjobs (handled_run config attempt outcome)

theorem advances_evicted {ok : Bool} (h : evicted d rs ok = some (rs', d')) :
    Advances rs d rs' d' := by
  unfold evicted at h
  split at h <;> cases h
  next _ strategy _ hjobs => exact advances_of_handled hjobs (handled_evicted strategy ok)

/-- Nothing is left of the group that ran, and the next one begins. -/
theorem advances_nextGroup (hjobs : d.jobs = []) :
    Advances rs d rs (nextGroup rs d.batch d.groups) where
  batch := batch_nextGroup ..
  grows := .refl rs
  within := fun _ hwithin => hwithin
  covered := by
    intro h
    have hleft : (nextGroup rs d.batch d.groups).left = d.left := by
      rw [left_nextGroup]
      simp [left, hjobs]
    refine ⟨?_, ?_, ?_⟩
    · simpa using h.items
    · simpa [hleft] using h.covered
    · simpa [hleft] using h.inside

/-- Nothing is left of the batch: its items are settled. -/
theorem Covered.settled (h : Covered rs d) (hleft : d.left = []) {i : ItemRef}
    (hi : i ∈ d.batch) : Settled rs i := by
  rcases h.covered i hi with hsettled | ⟨_, hgroup, -⟩
  · exact hsettled
  · rw [hleft] at hgroup
    cases hgroup

end Dispatch

end Sie.Server
