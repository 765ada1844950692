import Sie.Server.BatchExecutor
import Sie.Server.ProcessLoop

/-!
# The model worker

`ModelWorker` of the worker's `core/worker/model_worker.py` with the tasks that run in it: the
process loop (one batch at a time under the adapter dispatch lock, or up to `width` batches in
tasks of their own), the calls that bring a pre-formed batch, and `stop()`.  An event is what one
task does between two awaits.

`_in_flight` is kept by its owners: a registration is there from the beginning of a dispatch to its
end, so the ones of running dispatches are those of the tasks that run them, and `orphans` are
those whose dispatch was cancelled while the worker stopped.  The end of a group's last await and
the accounting that follows it are two events.  A task's first step comes before any
step queued after its creation, so `stop()` finds every dispatch task begun when it resumes after
the loop's end.
-/

namespace Sie.Server

open Dispatch

/-- The task of the process loop.  In `awaitingLock` the batch is in the task's locals only; in
`awaitingSlot` it is registered in flight.  `drainBudget` is what is left to drain once the first
batch of the turn is done. -/
inductive ProcessTask
  | unstarted
  | selecting
  | awaitingLock (lora : LoraKey) (batch : List ItemRef)
  | awaitingSlot (batch : List ItemRef)
  | dispatching (lora : LoraKey) (dispatch : Dispatch) (drainBudget : Option ℕ)
  | ended
  deriving DecidableEq

/-- A task of `_dispatch_concurrently`, before and after its first step. -/
inductive DispatchTask
  | spawned (batch : List ItemRef)
  | dispatching (dispatch : Dispatch)
  deriving DecidableEq

/-- A call of `submit_*preformed*`: the futures it is to return, the batches it has still to run,
one per LoRA, the one that runs, and whether its task is being cancelled. -/
structure PreformedCall where
  requests : List ℕ
  groups : List (LoraKey × List ItemRef)
  current : Option Dispatch
  cancelling : Bool
  deriving DecidableEq

inductive LockHolder
  | loop
  | call
  | mutation
  deriving DecidableEq

inductive StopStage
  | idle
  | awaitingLoop
  | awaitingTasks
  | joining
  | returned
  deriving DecidableEq

/-- `_ensure_process_loop_started`. -/
def ProcessTask.ensureStarted : ProcessTask → ProcessTask
  | .unstarted => .selecting
  | loop => loop

def DispatchTask.begun : DispatchTask → Bool
  | .spawned _ => false
  | .dispatching _ => true

/-- `loras` are the keys of `batchers`. -/
structure ModelWorker where
  width : ℕ
  recovery : OomRecoveryConfig
  batchConfig : BatchConfig
  running : Bool
  loras : List LoraKey
  batchers : LoraKey → BatchFormer ItemRef
  requests : Requests
  nextRequest : ℕ
  loop : ProcessTask
  tasks : List DispatchTask
  calls : List PreformedCall
  lock : Option LockHolder
  freeSlots : ℕ
  orphans : List ItemRef
  stop : StopStage

/-- A request of a pre-formed batch; `refused` is one that fails its own check at once. -/
structure PreformedRequest where
  configKey : Option ℕ
  size : ℕ
  refused : Bool
  deriving DecidableEq

/-- The task that runs a dispatch. -/
inductive Owner
  | loop
  | task (k : ℕ)
  | call (k : ℕ)
  deriving DecidableEq

/-- `activates` is the adapter's answer to `set_active_lora`; `mutate` and `mutated` are the other
holders of the dispatch lock; `cancelFuture` is an awaiter that goes away; `resume` is `stop()`
after the loop's end, `drain` after the end of the dispatch tasks, `joined` after that of the
inference executor. -/
inductive ModelWorkerEvent
  | submit (lora : LoraKey) (configKey : Option ℕ) (items : List (BatchFormer.Arrival Unit))
  | submitPreformed (requests : List (LoraKey × PreformedRequest))
  | form (lora : LoraKey) (activates : Bool)
  | acquireLock (activates : Bool)
  | acquireSlot
  | beginTask (k : ℕ)
  | acquireCall (k : ℕ) (activates : Bool)
  | attempted (owner : Owner) (outcome : DispatchOutcome)
  | evicted (owner : Owner) (ok : Bool)
  | finish (owner : Owner)
  | mutate
  | mutated
  | cancelFuture (r : ℕ)
  | cancelCall (k : ℕ)
  | unwindCall (k : ℕ)
  | stop
  | unwindLoop
  | resume
  | unwindTask (k : ℕ)
  | drain
  | joined

inductive ModelWorkerOutput
  | accepted (r : ℕ)
  | finished (batch : List ItemRef)
  | stopReturned
  deriving DecidableEq

namespace ModelWorker

/-- A worker that has been started; `declared` is the adapter's `max_concurrent_dispatch`. -/
def new (declared : ℕ) (recovery : OomRecoveryConfig) (batchConfig : BatchConfig) :
    ModelWorker where
  width := max 1 declared
  recovery := recovery
  batchConfig := batchConfig
  running := true
  loras := [none]
  batchers := fun _ => .new
  requests := fun _ => ⟨0, none, ∅, none⟩
  nextRequest := 0
  loop := .unstarted
  tasks := []
  calls := []
  lock := none
  freeSlots := max 1 declared
  orphans := []
  stop := .idle

def setBatcher (s : ModelWorker) (lora : LoraKey) (b : BatchFormer ItemRef) : ModelWorker :=
  { s with batchers := Function.update s.batchers lora b }

/-! ## Requests come in -/

/-- The items of a request as they are submitted. -/
def itemArrivals (r : ℕ) (items : List (BatchFormer.Arrival Unit)) :
    List (BatchFormer.Arrival ItemRef) :=
  items.zipIdx.map fun (a, k) => ⟨a.cost, ⟨r, k⟩, a.runsAlone, a.arrivalTime, a.now⟩

def submitStep (s : ModelWorker) (lora : LoraKey) (configKey : Option ℕ)
    (items : List (BatchFormer.Arrival Unit)) : Option (ModelWorker × List ModelWorkerOutput) :=
  if s.running = true then
    let r := s.nextRequest
    some ({ s with
      batchers := Function.update s.batchers lora
        ((s.batchers lora).submitMany (itemArrivals r items))
      loras := if lora ∈ s.loras then s.loras else s.loras ++ [lora]
      requests := Function.update s.requests r ⟨items.length, configKey, ∅, none⟩
      nextRequest := r + 1
      loop := s.loop.ensureStarted }, [.accepted r])
  else none

end ModelWorker

/-- A request that is refused or has no prepared items fails before anything is dispatched. -/
def PreformedRequest.metadata (q : PreformedRequest) : RequestMetadata where
  size := q.size
  configKey := q.configKey
  partialResults := ∅
  future :=
    if q.refused = true then some (.failed .invalidInput)
    else if q.size = 0 then some (.failed .noPreparedItems)
    else none

/-- The items a request brings to its batch. -/
def PreformedRequest.items (q : PreformedRequest) (r : ℕ) : List ItemRef :=
  if q.refused = true then [] else (List.range q.size).map fun k => ⟨r, k⟩

namespace ModelWorker

/-- The new requests are numbered from `next` on. -/
def openRequests (rs : Requests) (next : ℕ) (requests : List (LoraKey × PreformedRequest)) :
    Requests := fun r =>
  if r < next then rs r else ((requests[r - next]?).map fun q => q.2.metadata).getD (rs r)

/-- One batch per LoRA, in the order of their first requests. -/
def preformedGroups (next : ℕ) (requests : List (LoraKey × PreformedRequest)) :
    List (LoraKey × List ItemRef) :=
  ((requests.map Prod.fst).eraseDups.map fun lora =>
    (lora, requests.zipIdx.flatMap fun (q, k) =>
      if q.1 = lora then q.2.items (next + k) else [])).filter fun group => !group.2.isEmpty

/-- A call whose batches are all done returns its futures. -/
def settleCall (s : ModelWorker) (k : ℕ) (call : PreformedCall) :
    ModelWorker × List ModelWorkerOutput :=
  match call.groups with
  | [] => ({ s with calls := s.calls.eraseIdx k }, call.requests.map .accepted)
  | _ :: _ => (s, [])

def submitPreformedStep (s : ModelWorker) (requests : List (LoraKey × PreformedRequest)) :
    Option (ModelWorker × List ModelWorkerOutput) :=
  if s.running = true then
    let call : PreformedCall :=
      ⟨(List.range requests.length).map (s.nextRequest + ·),
        preformedGroups s.nextRequest requests, none, false⟩
    some (settleCall { s with
      requests := openRequests s.requests s.nextRequest requests
      nextRequest := s.nextRequest + requests.length
      calls := s.calls ++ [call] } s.calls.length call)
  else none

/-! ## The process loop -/

section

variable (s : ModelWorker)

/-- The turn under the dispatch lock, up to the first await of its batch. -/
def activate (lora : LoraKey) (batch : List ItemRef) (activates : Bool) : ModelWorker :=
  if activates = true then
    { s with
      requests := (start s.requests batch).1
      lock := some .loop
      loop := .dispatching lora (start s.requests batch).2 none }
  else
    { s with
      requests := s.requests.failAll batch .loraUnavailable
      lock := none
      loop := .selecting }

/-- A batch gets a slot and a task of its own. -/
def spawn (batch : List ItemRef) : ModelWorker :=
  { s with
    freeSlots := s.freeSlots - 1
    tasks := s.tasks ++ [.spawned batch]
    loop := .selecting }

/-- `_get_next_batch_fcfs` returns a batch, and the loop goes on to its next await.  Which batcher
is selected, and when it yields, is the subject of `ProcessLoop`. -/
def formStep (lora : LoraKey) (activates : Bool) : Option (ModelWorker × List ModelWorkerOutput) :=
  if s.running = true ∧ s.loop = .selecting ∧ (s.batchers lora).pending ≠ [] then
    let batch := ((s.batchers lora).taken s.batchConfig none).map PendingRequest.metadata
    let s₁ := s.setBatcher lora ((s.batchers lora).extractBatch s.batchConfig none)
    if s.width = 1 then
      if s.lock = none then some (s₁.activate lora batch activates, [])
      else some ({ s₁ with loop := .awaitingLock lora batch }, [])
    else if 0 < s.freeSlots then some (s₁.spawn batch, [])
    else some ({ s₁ with loop := .awaitingSlot batch }, [])
  else none

def acquireLockStep (activates : Bool) : Option (ModelWorker × List ModelWorkerOutput) :=
  match s.loop with
  | .awaitingLock lora batch =>
    if s.running = true ∧ s.lock = none then some (s.activate lora batch activates, []) else none
  | _ => none

def acquireSlotStep : Option (ModelWorker × List ModelWorkerOutput) :=
  match s.loop with
  | .awaitingSlot batch =>
    if s.running = true ∧ 0 < s.freeSlots then some (s.spawn batch, []) else none
  | _ => none

/-- The next round of `_drain_active_batcher`, or the end of the turn. -/
def drainActive (lora : LoraKey) (budget : ℕ) : ModelWorker :=
  if budget = 0 ∨ (s.batchers lora).pending = [] then
    { s with
      lock := none
      loop := if s.running = true then .selecting else .ended }
  else
    let batch := ((s.batchers lora).taken s.batchConfig (some budget)).map PendingRequest.metadata
    { s.setBatcher lora ((s.batchers lora).extractBatch s.batchConfig (some budget)) with
      requests := (start s.requests batch).1
      loop := .dispatching lora (start s.requests batch).2 (some (budget - batch.length)) }

end

/-! ## Dispatches -/

section

variable (s : ModelWorker)

def dispatch? : Owner → Option Dispatch
  | .loop =>
    match s.loop with
    | .dispatching _ d _ => some d
    | _ => none
  | .task k =>
    match s.tasks[k]? with
    | some (.dispatching d) => some d
    | _ => none
  | .call k => (s.calls[k]?).bind PreformedCall.current

def setDispatch (d : Dispatch) : Owner → ModelWorker
  | .loop =>
    match s.loop with
    | .dispatching lora _ budget => { s with loop := .dispatching lora d budget }
    | _ => s
  | .task k => { s with tasks := s.tasks.set k (.dispatching d) }
  | .call k =>
    match s.calls[k]? with
    | some call => { s with calls := s.calls.set k { call with current := some d } }
    | none => s

/-- An await within a dispatch ends. -/
def awaitStep (owner : Owner)
    (f : Requests → Dispatch → Option (Requests × Dispatch)) :
    Option (ModelWorker × List ModelWorkerOutput) :=
  match s.dispatch? owner with
  | some d =>
    match f s.requests d with
    | some (rs, d') => some ({ s with requests := rs }.setDispatch d' owner, [])
    | none => none
  | none => none

/-- The lock, or a slot, is free for a pre-formed batch. -/
def free : Prop := if s.width = 1 then s.lock = none else 0 < s.freeSlots

end

instance (s : ModelWorker) : Decidable s.free :=
  inferInstanceAs (Decidable (if s.width = 1 then s.lock = none else 0 < s.freeSlots))

section

variable (s : ModelWorker)

def take : ModelWorker :=
  { s with
    lock := if s.width = 1 then some .call else s.lock
    freeSlots := if s.width = 1 then s.freeSlots else s.freeSlots - 1 }

def release : ModelWorker :=
  { s with
    lock := if s.width = 1 then none else s.lock
    freeSlots := if s.width = 1 then s.freeSlots else s.freeSlots + 1 }

/-- A `CancelledError` leaves `_process_batch`, and the task that runs it ends.  The registration is
kept for `stop()` only where the worker is stopping. -/
def unwind (batch : List ItemRef) (owner : Owner) : ModelWorker :=
  let s₁ := if s.running = true then s else { s with orphans := s.orphans ++ batch }
  match owner with
  | .loop => { s₁ with loop := .ended, lock := none }
  | .task k => { s₁ with tasks := s.tasks.eraseIdx k, freeSlots := s.freeSlots + 1 }
  | .call k => { s₁.release with calls := s.calls.eraseIdx k }

def acquireCallStep (k : ℕ) (activates : Bool) : Option (ModelWorker × List ModelWorkerOutput) :=
  match s.calls[k]? with
  | some ⟨requests, (_, batch) :: groups, none, cancelling⟩ =>
    if s.free then
      if s.width = 1 ∧ activates = false then
        some (settleCall { s with
          requests := s.requests.failAll batch .loraUnavailable
          calls := s.calls.set k ⟨requests, groups, none, cancelling⟩ } k
          ⟨requests, groups, none, cancelling⟩)
      else
        some ({ s.take with
          requests := (start s.requests batch).1
          calls := s.calls.set k
            ⟨requests, groups, some (start s.requests batch).2, cancelling⟩ }, [])
    else none
  | _ => none

def beginTaskStep (k : ℕ) : Option (ModelWorker × List ModelWorkerOutput) :=
  match s.tasks[k]? with
  | some (.spawned batch) =>
    some ({ s with
      requests := (start s.requests batch).1
      tasks := s.tasks.set k (.dispatching (start s.requests batch).2) }, [])
  | _ => none

/-- The end of `_process_batch`, and what its task does next. -/
def completeStep (batch : List ItemRef) (owner : Owner) :
    Option (ModelWorker × List ModelWorkerOutput) :=
  let s₁ := { s with requests := s.requests.completeRequests batch }
  match owner with
  | .loop =>
    match s.loop with
    | .dispatching lora _ budget =>
      some (s₁.drainActive lora (budget.getD (s.batchers lora).pending.length),
        [.finished batch])
    | _ => none
  | .task k =>
    some ({ s₁ with tasks := s.tasks.eraseIdx k, freeSlots := s.freeSlots + 1 },
      [.finished batch])
  | .call k =>
    match s.calls[k]? with
    | some call =>
      let call := { call with current := none }
      let result := settleCall { s₁.release with calls := s.calls.set k call } k call
      some (result.1, .finished batch :: result.2)
    | none => none

/-- The end of a group: the accounting, and then the next group or the end of the batch. -/
def finishStep (owner : Owner) : Option (ModelWorker × List ModelWorkerOutput) :=
  match s.dispatch? owner with
  | some d =>
    if d.jobs ≠ [] then none
    else if d.raises s.requests = true then some (s.unwind d.batch owner, [])
    else if d.groups ≠ [] then
      some (s.setDispatch (nextGroup s.requests d.batch d.groups) owner, [])
    else s.completeStep d.batch owner
  | none => none

end

/-! ## Cancellations -/

section

variable (s : ModelWorker) (k : ℕ)

def cancelCallStep : Option (ModelWorker × List ModelWorkerOutput) :=
  match s.calls[k]? with
  | some call => some ({ s with calls := s.calls.set k { call with cancelling := true } }, [])
  | none => none

def unwindCallStep : Option (ModelWorker × List ModelWorkerOutput) :=
  match s.calls[k]? with
  | some ⟨_, _, none, true⟩ => some ({ s with calls := s.calls.eraseIdx k }, [])
  | some ⟨_, _, some d, true⟩ => some (s.unwind d.batch (.call k), [])
  | _ => none

/-- A task that is cancelled before its first step never runs. -/
def unwindTaskStep : Option (ModelWorker × List ModelWorkerOutput) :=
  if s.stop = .awaitingTasks then
    match s.tasks[k]? with
    | some (.spawned _) => some ({ s with tasks := s.tasks.eraseIdx k }, [])
    | some (.dispatching d) => some (s.unwind d.batch (.task k), [])
    | none => none
  else none

/-- The cancellation that `stop()` has asked for is raised where the loop waits.  A batch that is
registered in flight is orphaned; one that waits for the lock is not registered. -/
def unwindLoopStep : Option (ModelWorker × List ModelWorkerOutput) :=
  if s.stop = .awaitingLoop then
    match s.loop with
    | .selecting | .awaitingLock _ _ => some ({ s with loop := .ended }, [])
    | .awaitingSlot batch => some ({ s with loop := .ended, orphans := s.orphans ++ batch }, [])
    | .dispatching _ d _ => some (s.unwind d.batch .loop, [])
    | .unstarted | .ended => none
  else none

end

/-! ## Stop -/

section

variable (s : ModelWorker)

/-- A worker that is not running returns at once, also while another `stop()` is under way. -/
def stopStep : ModelWorker × List ModelWorkerOutput :=
  if s.running = true then ({ s with running := false, stop := .awaitingLoop }, [])
  else (s, [.stopReturned])

/-- `stop()` resumes after the end of the loop, and cancels the dispatch tasks. -/
def resumeStep : Option (ModelWorker × List ModelWorkerOutput) :=
  if s.stop = .awaitingLoop ∧ (s.loop = .unstarted ∨ s.loop = .ended) ∧
      s.tasks.all DispatchTask.begun = true then
    some ({ s with stop := .awaitingTasks, loop := .unstarted }, [])
  else none

/-- `_take_abandoned_in_flight`: the items of cancelled dispatches, and of calls that are being
cancelled. -/
def abandoned : List ItemRef :=
  s.orphans ++ s.calls.flatMap fun call =>
    match call.current, call.cancelling with
    | some d, true => d.batch
    | _, _ => []

/-- The items `_fail_queued_requests` fails. -/
def owed : List ItemRef :=
  (s.loras.flatMap fun lora => (s.batchers lora).pending.map PendingRequest.metadata) ++ s.abandoned

def drainStep : Option (ModelWorker × List ModelWorkerOutput) :=
  if s.stop = .awaitingTasks ∧ s.tasks = [] then
    some ({ s with
      requests := s.requests.failAll s.owed .workerDrained
      batchers := fun lora => (s.batchers lora).drainPending
      orphans := []
      stop := .joining }, [])
  else none

def joinedStep : Option (ModelWorker × List ModelWorkerOutput) :=
  if s.stop = .joining then some ({ s with stop := .returned }, [.stopReturned]) else none

def mutateStep : Option (ModelWorker × List ModelWorkerOutput) :=
  if s.lock = none then some ({ s with lock := some .mutation }, []) else none

def mutatedStep : Option (ModelWorker × List ModelWorkerOutput) :=
  if s.lock = some .mutation then some ({ s with lock := none }, []) else none

def step : ModelWorkerEvent → Option (ModelWorker × List ModelWorkerOutput)
  | .submit lora configKey items => s.submitStep lora configKey items
  | .submitPreformed requests => s.submitPreformedStep requests
  | .form lora activates => s.formStep lora activates
  | .acquireLock activates => s.acquireLockStep activates
  | .acquireSlot => s.acquireSlotStep
  | .beginTask k => s.beginTaskStep k
  | .acquireCall k activates => s.acquireCallStep k activates
  | .attempted owner outcome =>
    s.awaitStep owner fun rs d => d.attempt s.recovery rs outcome
  | .evicted owner ok => s.awaitStep owner fun rs d => d.evicted rs ok
  | .finish owner => s.finishStep owner
  | .mutate => s.mutateStep
  | .mutated => s.mutatedStep
  | .cancelFuture r => some ({ s with requests := s.requests.settle r .cancelled }, [])
  | .cancelCall k => s.cancelCallStep k
  | .unwindCall k => s.unwindCallStep k
  | .stop => some s.stopStep
  | .unwindLoop => s.unwindLoopStep
  | .resume => s.resumeStep
  | .unwindTask k => s.unwindTaskStep k
  | .drain => s.drainStep
  | .joined => s.joinedStep

end

end ModelWorker

end Sie.Server
