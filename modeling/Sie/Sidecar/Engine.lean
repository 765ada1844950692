import Mathlib.Data.List.AList
import Sie.Lib.Run
import Sie.Sidecar.BatchFormer
import Sie.Sidecar.Lane

/-!
# The scheduler and its engine

The part of `scheduler/engine.rs` that decides when a batch leaves: the map of
`(op, lora)` queues, the first-come-first-served pick, the lane, and the calls
`submit`, `submit_many`, `next_dispatch` and `note_return`.

`next_dispatch` loops until the lane sends; `nextDispatch` is one pass of the
loop, from the pick to the dispatch or the wait.  The map's iteration order only
breaks ties of the pick.  Around the scheduler stands the engine: `System` keeps
the batches it holds, numbered in the order they were sent, so that a return
names a batch that is out.
-/

namespace Sie.Sidecar

open Sie.Lib

universe u v
variable {I : Type u} {T : Type v} [HasCost I]

/-- Operation class of a submitted item. -/
inductive Op
  | encode
  | score
  | extract
  deriving DecidableEq

/-- LoRA routing key; the base model has no name. -/
structure LoraKey where
  name : Option String
  deriving DecidableEq

namespace LoraKey

def base : LoraKey := ⟨none⟩

end LoraKey

/-- Key of the batcher registry. -/
abbrev BatcherKey := Op × LoraKey

/-- Score always lives on the base queue. -/
def routeKey : Op → LoraKey → BatcherKey
  | .score, _ => (.score, .base)
  | op, lora => (op, lora)

/-- Number of requests a set of items came from; an item without a key counts for
itself. -/
def distinctRequests (items : List I) : ℕ :=
  (items.filterMap HasCost.requestKey).dedup.length +
    (items.filter fun item => (HasCost.requestKey item).isNone).length

/-- A window in milliseconds as whole microseconds; zero for one that is not
positive. -/
def wholeMicros (windowMs : ℚ) : ℕ :=
  if 0 < windowMs * 1000 then min (windowMs * 1000).floor.toNat u64Max else 0

/-- A batch on its way to the engine. -/
structure Dispatch (I : Type u) (T : Type v) where
  op : Op
  lora : LoraKey
  batch : FormattedBatch I T
  /-- Requests this batch completes: those with no item left in the queue. -/
  completes : ℕ
  deriving DecidableEq

/-- The queue a dispatch was taken from. -/
def Dispatch.key (d : Dispatch I T) : BatcherKey := (d.op, d.lora)

/-- Some item of the batch belongs to the request. -/
def Dispatch.hasRequest (d : Dispatch I T) (request : String) : Bool :=
  d.batch.items.any fun item => HasCost.requestKey item == some request

/-- The per-model scheduler, as far as dispatching goes. -/
structure Scheduler (I : Type u) (T : Type v) where
  batchers : AList fun _ : BatcherKey => BatchFormer I T
  lane : Lane
  /-- Caps of newly created batchers. -/
  config : BatchConfig
  gatherQuietUs : ℕ
  gatherLongestUs : ℕ
  epoch : Instant

namespace Scheduler

/-- A scheduler with the given caps and no queues. -/
def new (config : BatchConfig) (epoch : Instant) : Scheduler I T where
  batchers := ∅
  lane := Lane.default
  config := config
  gatherQuietUs := wholeMicros config.effectiveCoalesceMs
  gatherLongestUs := wholeMicros config.maxBatchWaitMs
  epoch := epoch

section

variable (s : Scheduler I T)

/-- The batcher of a key, a new one with the current caps on first use. -/
def getOrCreate (key : BatcherKey) : BatchFormer I T :=
  (s.batchers.lookup key).getD (BatchFormer.withEpoch s.config s.epoch)

/-- Store a queue under its key. -/
def putBatcher (key : BatcherKey) (former : BatchFormer I T) : Scheduler I T :=
  { s with batchers := s.batchers.insert key former }

/-- The scheduler with another state of its lane. -/
def withLane (lane : Lane) : Scheduler I T := { s with lane }

/-- Bulk submit; `nowLane` is the reading of the clock for the lane. -/
def submitMany (op : Op) (lora : LoraKey) (items : List (I × T × Instant))
    (nowLane : Instant) : Option (Scheduler I T) :=
  if items.isEmpty then some s
  else
    let key := routeKey op lora
    ((s.getOrCreate key).submitMany items).map fun former =>
      (s.putBatcher key former).withLane
        (s.lane.onArrival nowLane (distinctRequests (items.map Prod.fst)))

/-- Enqueue a single item. -/
def submit (op : Op) (lora : LoraKey) (item : I) (metadata : T)
    (now nowLane : Instant) : Option (Scheduler I T) :=
  let key := routeKey op lora
  ((s.getOrCreate key).submit item metadata now).map fun former =>
    (s.putBatcher key former).withLane (s.lane.onArrival nowLane 1)

end

/-- One queue against the best so far; an empty queue publishes zero. -/
def olderHead (best : Option (BatcherKey × BatchFormer I T))
    (e : Sigma fun _ : BatcherKey => BatchFormer I T) : Option (BatcherKey × BatchFormer I T) :=
  if e.2.fcfsHeadNs = 0 then best
  else
    match best with
    | none => some (e.1, e.2)
    | some b => if e.2.fcfsHeadNs < b.2.fcfsHeadNs then some (e.1, e.2) else some b

/-- The queue whose published head is oldest. -/
def pickOldest (s : Scheduler I T) : Option (BatcherKey × BatchFormer I T) :=
  s.batchers.entries.foldl olderHead none

/-- The verdict of one pass on the picked queue, and the lane after it. -/
def gate (lane : Lane) (idleBypass : Bool) (view : GateView) (now : Instant) : Verdict × Lane :=
  if !idleBypass && view.full.isNone && (lane.isIdle now).1 then
    (match view.classic, view.classicWait with
      | some reason, _ => .send reason
      | none, some wait => .waitUntil (now + wait)
      | none, none => .hold,
     (lane.isIdle now).2)
  else if !idleBypass && view.full.isNone then (lane.isIdle now).2.verdict now view.full
  else lane.verdict now view.full

/-- Take the next batch of a queue and hand it to the engine; nothing when another
consumer emptied the queue. -/
def send (s : Scheduler I T) (key : BatcherKey) (former : BatchFormer I T) (reason : FlushReason)
    (nowTake : Instant) : Option (Scheduler I T × Option (Dispatch I T)) :=
  (former.take reason nowTake).map fun p =>
    match p.2 with
    | none => (s.putBatcher key p.1, none)
    | some (batch, completes) =>
      ((s.putBatcher key p.1).withLane
         (s.lane.onDispatch (decide (completes < distinctRequests batch.items))),
       some { op := key.1, lora := key.2, batch, completes })

/-- One pass of `next_dispatch`: the picked queue sends a batch, or the caller
waits.  The view, the verdict and the take each read the clock. -/
def nextDispatch (s : Scheduler I T) (idleBypass : Bool) (nowView now nowTake : Instant) :
    Option (Scheduler I T × Option (Dispatch I T)) :=
  match s.pickOldest with
  | none => some (s, none)
  | some (key, former) =>
    let verdict := gate s.lane idleBypass (former.gateView nowView) now
    let s := s.withLane verdict.2
    match verdict.1 with
    | .send reason => s.send key former reason nowTake
    | _ => some (s, none)

/-- A batch is back from the engine. -/
def noteReturn (s : Scheduler I T) (answered roundTrip : ℕ) (now : Instant) : Scheduler I T :=
  s.withLane (s.lane.onReturn now answered roundTrip (s.gatherQuietUs * 1000)
    (s.gatherLongestUs * 1000))

end Scheduler

section

omit [HasCost I]

namespace Scheduler

section

variable (s : Scheduler I T)

@[simp] theorem withLane_lane (lane : Lane) : (s.withLane lane).lane = lane :=
  rfl

@[simp] theorem withLane_batchers (lane : Lane) : (s.withLane lane).batchers = s.batchers := rfl

@[simp] theorem withLane_getOrCreate (lane : Lane) (key : BatcherKey) :
    (s.withLane lane).getOrCreate key = s.getOrCreate key := rfl

@[simp] theorem putBatcher_config (key : BatcherKey)
    (former : BatchFormer I T) : (s.putBatcher key former).config = s.config := rfl

theorem putBatcher_lookup (key key' : BatcherKey) (former : BatchFormer I T) :
    (s.putBatcher key former).batchers.lookup key' =
      if key' = key then some former else s.batchers.lookup key' := by
  split_ifs with heq
  · subst heq
    exact AList.lookup_insert _
  · exact AList.lookup_insert_ne heq

theorem putBatcher_getOrCreate (key key' : BatcherKey) (former : BatchFormer I T) :
    (s.putBatcher key former).getOrCreate key' =
      if key' = key then former else s.getOrCreate key' := by
  have hepoch : (s.putBatcher key former).epoch = s.epoch := rfl
  simp only [getOrCreate, putBatcher_lookup, putBatcher_config, hepoch]
  split_ifs <;> rfl

end

end Scheduler

end

/-! ## The scheduler with its engine -/

/-- The scheduler, the batches with its engine and the number sent so far. -/
structure System (I : Type u) (T : Type v) where
  scheduler : Scheduler I T
  /-- The batches with the engine, each with its number. -/
  out : List (ℕ × Dispatch I T)
  sent : ℕ

/-- A call on the scheduler, or the return of a numbered batch. -/
inductive Event (I : Type u) (T : Type v)
  | submit (op : Op) (lora : LoraKey) (item : I) (metadata : T) (now nowLane : Instant)
  | submitMany (op : Op) (lora : LoraKey) (items : List (I × T × Instant)) (nowLane : Instant)
  | nextDispatch (nowView now nowTake : Instant)
  | noteReturn (number roundTrip : ℕ) (now : Instant)

namespace System

def new (config : BatchConfig) (epoch : Instant) : System I T where
  scheduler := Scheduler.new config epoch
  out := []
  sent := 0

/-- One event.  A return must name a batch that is out; it reports the requests
that batch completed. -/
def step (idleBypass : Bool) (s : System I T) :
    Event I T → Option (System I T × List (Dispatch I T))
  | .submit op lora item metadata now nowLane =>
    (s.scheduler.submit op lora item metadata now nowLane).map fun scheduler =>
      ({ s with scheduler }, [])
  | .submitMany op lora items nowLane =>
    (s.scheduler.submitMany op lora items nowLane).map fun scheduler =>
      ({ s with scheduler }, [])
  | .nextDispatch nowView now nowTake =>
    (s.scheduler.nextDispatch idleBypass nowView now nowTake).map fun p =>
      match p.2 with
      | none => ({ s with scheduler := p.1 }, [])
      | some d =>
        ({ scheduler := p.1, out := s.out ++ [(s.sent, d)], sent := s.sent + 1 }, [d])
  | .noteReturn number roundTrip now =>
    (s.out.find? fun e => e.1 = number).map fun e =>
      ({ s with
           scheduler := s.scheduler.noteReturn e.2.completes roundTrip now
           out := s.out.filter fun e => e.1 ≠ number }, [])

end System

end Sie.Sidecar
