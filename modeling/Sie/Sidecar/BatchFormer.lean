import Mathlib.Data.List.Sort
import Sie.Sidecar.Item

/-!
# The batch former

`scheduler/batch_former.rs`, the pending queue of one `(op, lora)` key and its
flush loop.  The functions keep the source's names and order; the longer ones
are cut into named parts, each a passage of the source.

A panic is `none`: the `u64` sum in `appendItem` that overflows, the
subtraction and the `expect` in an extraction.  `Conservation` shows that the
last two are never reached.  The sum is a plain `+=`, which panics in a debug
build and wraps in a release build: what is said of a run here is said of one
without an overflow.  Wake-ups carry no state and are left out, so one
pass of `getBatch` either returns a batch or waits.
-/

namespace Sie.Sidecar

open Sie.Lib PendingRequest

universe u v
variable {I : Type u} {T : Type v} [HasCost I]

/-- A batchable turn of the runs-alone lane. -/
structure BatchableTurn where
  /-- Latest arrival among the requests pending when the turn began. -/
  cutoff : Instant
  /-- Latest arrival among the requests the turn owes, while it owes any. -/
  owedCutoff : Option Instant
  /-- Cost the turn may still take. -/
  costLeft : ℕ
  /-- Whether the turn has taken a request it does not owe. -/
  tookUnowed : Bool
  deriving DecidableEq

namespace BatchableTurn

section

variable (t : BatchableTurn) (r : PendingRequest I T)

/-- Whether the request is one of the batchable requests this turn serves. -/
def serves : Bool :=
  !r.runsAlone && decide (r.arrivalTime ≤ t.cutoff)

/-- Whether the request is one the turn owes. -/
def owes : Bool :=
  t.serves r && match t.owedCutoff with
    | some owed => decide (r.arrivalTime ≤ owed)
    | none => false

/-- Whether the request keeps the turn going. -/
def goesOn : Bool :=
  t.serves r && (!t.tookUnowed || decide (r.cost ≤ t.costLeft))

end

end BatchableTurn

/-- The mutable state of a batch former, guarded by one lock. -/
structure Inner (I : Type u) (T : Type v) where
  pending : List (PendingRequest I T)
  totalCost : ℕ
  firstRequestTime : Option Instant
  lastSubmitTime : Option Instant
  /-- Lane of the last batch taken: `some true` when it was a runs-alone item. -/
  lastBatchAlone : Option Bool
  batchableTurn : Option BatchableTurn
  /-- Latest cutoff of a batchable turn begun so far. -/
  lastTurnCutoff : Option Instant
  config : BatchConfig
  deriving DecidableEq

/-- Push one item; the notification flag is not kept. -/
def appendItem (s : Inner I T) (item : I) (metadata : T) (now : Instant) : Option (Inner I T) :=
  match checkedAdd s.totalCost (HasCost.cost item) with
  | none => none
  | some total =>
    some { s with
      pending := s.pending ++ [{ item, metadata, arrivalTime := now }]
      totalCost := total
      lastSubmitTime := some now
      firstRequestTime := some (s.firstRequestTime.getD now) }

/-! ## Flush triggers -/

section

variable (s : Inner I T)

def batchTimeoutExpired (now : Instant) : Bool :=
  match s.firstRequestTime with
  | none => false
  | some first => decide (s.config.maxBatchWaitMs ≤ elapsedMs now first)

def coalesceExpired (now : Instant) : Bool :=
  match s.lastSubmitTime with
  | none => false
  | some last =>
    !s.pending.isEmpty && decide (s.config.effectiveCoalesceMs ≤ elapsedMs now last)

def effectiveMaxCost : ℕ :=
  (s.pending.filterMap fun r => HasCost.hardBatchCostCap r.item).foldl min s.config.maxBatchCost

def flushReason (immediate : Bool) (now : Instant) : Option FlushReason :=
  if s.pending.isEmpty then none
  else if s.pending.length = 1 ∧ effectiveMaxCost s < s.totalCost then some .singleOversize
  else if effectiveMaxCost s ≤ s.totalCost then some .costCap
  else if s.config.maxBatchRequests ≤ s.pending.length then some .countCap
  else if batchTimeoutExpired s now then some .timeout
  else if coalesceExpired s now then some .coalesce
  else if immediate then some .idleBypass
  else none

/-- Some pending request runs alone. -/
def alonePending : Bool := s.pending.any runsAlone

/-- Some pending request is batchable. -/
def batchablePending : Bool := s.pending.any fun r => !r.runsAlone

/-- The cap the pending work has reached, if it already fills a batch. -/
def fullReason : Option FlushReason :=
  if alonePending s && !batchablePending s && s.lastBatchAlone == some true then none
  else
    let batchableOnly := alonePending s && batchablePending s
    let counted := s.pending.filter fun r => !batchableOnly || !r.runsAlone
    let total := counted.foldl (fun acc r => saturatingAdd acc r.cost) 0
    let largest := counted.foldl (fun acc r => max acc r.cost) 0
    let maxCost := effectiveMaxCost s
    if counted.length = 0 then none
    else if counted.length = 1 ∧ maxCost < total then some .singleOversize
    else if maxCost ≤ total then some .costCap
    else if s.config.maxBatchRequests ≤ counted.length then some .countCap
    else if maxCost < saturatingAdd total largest then some .costCap
    else none

/-- Nanoseconds until a classic trigger fires by itself. -/
def waitTimeout (now : Instant) : Option ℕ :=
  s.firstRequestTime.map fun first =>
    let batchRemaining := max (s.config.maxBatchWaitMs - elapsedMs now first) 0
    let coalesceRemaining := match s.lastSubmitTime with
      | some last => max (s.config.effectiveCoalesceMs - elapsedMs now last) 0
      | none => s.config.effectiveCoalesceMs
    (max (min batchRemaining coalesceRemaining) 0 * 1000000).floor.toNat

end

/-- What the scheduler's gate reads of a queue. -/
structure GateView where
  full : Option FlushReason
  classic : Option FlushReason
  classicWait : Option ℕ
  deriving DecidableEq

/-! ## Order for the next batch -/

/-- First of `min_by_key(arrival_time)` with its index: the first of the oldest requests. -/
def oldestPending : List (PendingRequest I T) → Option (ℕ × PendingRequest I T)
  | [] => none
  | r :: rest =>
    match oldestPending rest with
    | none => some (0, r)
    | some (i, o) => if r.arrivalTime ≤ o.arrivalTime then some (0, r) else some (i + 1, o)

/-- Newest arrival, `map(arrival_time).max()`. -/
def latestArrival (pending : List (PendingRequest I T)) : Option Instant :=
  (pending.map arrivalTime).max?

/-- A turn ends when no request it serves keeps it going. -/
def closeFinishedTurn (s : Inner I T) : Inner I T :=
  match s.batchableTurn with
  | none => s
  | some turn => if s.pending.any turn.goesOn then s else { s with batchableTurn := none }

/-- The next batch is a runs-alone item. -/
def aloneNext (s : Inner I T) : Bool :=
  alonePending s &&
    (!batchablePending s ||
      (s.batchableTurn.isNone &&
        match s.lastBatchAlone with
        | some lastAlone => !lastAlone
        | none => (oldestPending s.pending).any fun o => o.2.runsAlone))

/-- Order of the heap of left-over requests: by arrival, then by cost. -/
def leftOverLe (a b : Instant × ℕ) : Prop := a.1 < b.1 ∨ (a.1 = b.1 ∧ a.2 ≤ b.2)

instance : DecidableRel leftOverLe := fun a b =>
  inferInstanceAs (Decidable (a.1 < b.1 ∨ (a.1 = b.1 ∧ a.2 ≤ b.2)))

/-- The batchable requests that arrived no later than a cutoff. -/
def leftOverUpTo (cutoff : Instant) (l : List (PendingRequest I T)) : List (PendingRequest I T) :=
  l.filter fun r => !r.runsAlone && decide (r.arrivalTime ≤ cutoff)

/-- The min-heap of left-over requests, as the sorted list it pops. -/
def leftOverHeap (carried : Instant) (pending : List (PendingRequest I T)) : List (Instant × ℕ) :=
  ((leftOverUpTo carried pending).map fun r => (r.arrivalTime, r.cost)).insertionSort leftOverLe

/-- Successive pops of the heap, those of one instant merged into one group. -/
def arrivalGroups : List (Instant × ℕ) → List (Instant × ℕ)
  | [] => []
  | (arrival, cost) :: rest =>
    match arrivalGroups rest with
    | [] => [(arrival, cost)]
    | (next, nextCost) :: groups =>
      if next = arrival then (arrival, cost + nextCost) :: groups
      else (arrival, cost) :: (next, nextCost) :: groups

/-- The groups after the oldest that still fit: the latest owed arrival. -/
def oweMore (maxCost : ℕ) : Instant → ℕ → List (Instant × ℕ) → Instant
  | owedCutoff, _, [] => owedCutoff
  | owedCutoff, owedCost, (arrival, cost) :: groups =>
    if maxCost < owedCost + cost then owedCutoff
    else oweMore maxCost arrival (owedCost + cost) groups

/-- The requests a turn opened now owes: the latest arrival among them, and the
cost of the oldest ones. -/
def owedLeftOver (pending : List (PendingRequest I T)) (carriedCutoff : Option Instant)
    (maxCost : ℕ) : Option Instant × ℕ :=
  match carriedCutoff with
  | none => (none, 0)
  | some carried =>
    match arrivalGroups (leftOverHeap carried pending) with
    | [] => (none, 0)
    | (oldest, oldestCost) :: groups =>
      (some (oweMore maxCost oldest oldestCost groups), oldestCost)

/-- Result of `a.max(Some(b))`. -/
def maxCutoff : Option Instant → Instant → Instant
  | none, b => b
  | some a, b => max a b

/-- A batchable batch opens a turn after a runs-alone item ran, and while one is
pending. -/
def opensTurn (s : Inner I T) : Bool :=
  !aloneNext s && s.batchableTurn.isNone && (alonePending s || s.lastBatchAlone == some true)

/-- Open a batchable turn where one is due; `none` is the failed `expect`. -/
def openTurn (s : Inner I T) (maxCost : ℕ) : Option (Inner I T) :=
  if opensTurn s then
    match latestArrival s.pending with
    | none => none
    | some cutoff =>
      let owed := owedLeftOver s.pending s.lastTurnCutoff maxCost
      some { s with
        batchableTurn := some
          { cutoff, owedCutoff := owed.1, costLeft := saturatingAdd maxCost owed.2
            tookUnowed := false }
        lastTurnCutoff := some (maxCutoff s.lastTurnCutoff cutoff) }
  else some s

/-- Outside batchable turns, with nothing flagged pending: the index of the
oldest request once it has waited `max_batch_wait_ms`. -/
def oldestAged (s : Inner I T) (now : Instant) : Option ℕ :=
  if s.batchableTurn.isNone && !alonePending s then
    match oldestPending s.pending with
    | some (index, r) => if r.aged s.config now then some index else none
    | none => none
  else none

/-- The comparison of the stable sort: batchable first, those the turn serves
ahead of later arrivals, by cost; runs-alone requests by arrival. -/
def packCmp (turn : Option BatchableTurn) (a b : PendingRequest I T) : Ordering :=
  let served := fun r : PendingRequest I T => turn.any fun t => t.serves r
  (compare a.runsAlone b.runsAlone).then <|
    (compare (served b) (served a)).then <|
      if a.runsAlone then compare a.arrivalTime b.arrivalTime else compare a.cost b.cost

/-- Promote the aged request, sort the rest. -/
def sortPending (s : Inner I T) (now : Instant) : List (PendingRequest I T) :=
  let sort := List.insertionSort fun a b => packCmp s.batchableTurn a b ≠ .gt
  match oldestAged s now with
  | some index => (s.pending[index]?).toList ++ sort (s.pending.eraseIdx index)
  | none => sort s.pending

/-- Rotation `pending[..=head].rotate_right(1)` at the first runs-alone request. -/
def bringAloneForward (pending : List (PendingRequest I T)) : List (PendingRequest I T) :=
  match pending.findIdx? runsAlone with
  | some head => (pending[head]?).toList ++ pending.eraseIdx head
  | none => pending

/-- The loop of `makeRoomForOwed` over the served requests: walk the packing
until one would leave too little budget, and move the owed ones ahead of it. -/
def makeRoomLoop (turn : BatchableTurn) (room maxTake : ℕ) :
    ℕ → ℕ → ℕ → List (PendingRequest I T) → List (PendingRequest I T)
  | _, _, _, [] => []
  | count, batchCost, owedLeft, r :: rest =>
    if maxTake ≤ count ∨ (room < batchCost + r.cost ∧ 0 < count) then r :: rest
    else if turn.owes r then
      r :: makeRoomLoop turn room maxTake (count + 1) (batchCost + r.cost) (owedLeft - r.cost) rest
    else if turn.costLeft < batchCost + r.cost + owedLeft then
      (r :: rest).filter turn.owes ++ (r :: rest).filter fun x => !turn.owes x
    else
      r :: makeRoomLoop turn room maxTake (count + 1) (batchCost + r.cost) owedLeft rest

/-- Make sure packing leaves room for the requests the turn owes; `none` when it
owes none that is pending. -/
def makeRoomForOwed (pending : List (PendingRequest I T)) (turn : BatchableTurn)
    (room maxTake : ℕ) : Option (List (PendingRequest I T)) :=
  if pending.any turn.owes then
    some (makeRoomLoop turn room maxTake 0 0 (costSum (pending.filter turn.owes))
        (pending.takeWhile turn.serves) ++
      pending.dropWhile turn.serves)
  else none

/-- The last part of the ordering: bring the runs-alone head forward, or make
room for what the turn owes. -/
def arrange (s : Inner I T) (alone : Bool) (maxCost maxTake : ℕ)
    (sorted : List (PendingRequest I T)) : Inner I T :=
  if alone then { s with pending := bringAloneForward sorted }
  else
    match s.batchableTurn with
    | none => { s with pending := sorted }
    | some turn =>
      if turn.owedCutoff.isSome then
        match makeRoomForOwed sorted turn (min maxCost turn.costLeft) maxTake with
        | some pending => { s with pending }
        | none =>
          { s with pending := sorted, batchableTurn := some { turn with owedCutoff := none } }
      else { s with pending := sorted }

/-- Decide the lane of the next batch, keep the batchable turn in step, and
order the pending requests so that packing takes the batch from the front. -/
def orderForNextBatch (s : Inner I T) (maxCost maxTake : ℕ) (now : Instant) :
    Option (Bool × Inner I T) :=
  let closed := closeFinishedTurn s
  let alone := aloneNext closed
  match openTurn closed maxCost with
  | none => none
  | some opened => some (alone, arrange opened alone maxCost maxTake (sortPending opened now))

/-! ## Extraction -/

/-- Move the other pending items of the head item's request to the front, and
say how many items that request has pending; 0 when it is left as it is. -/
def bringHeadRequestForward (s : Inner I T) : ℕ × List (PendingRequest I T) :=
  let limit := s.config.maxRequestItems
  if limit ≤ 1 ∨ s.pending.length ≤ 1 then (0, s.pending)
  else
    match s.pending.head?.bind requestKey with
    | none => (0, s.pending)
    | some key =>
      let sameRequest := fun r : PendingRequest I T => r.requestKey == some key
      let len := (s.pending.filter sameRequest).length
      if len ≤ 1 ∨ limit < len then (0, s.pending)
      else (len, s.pending.filter sameRequest ++ s.pending.filter fun r => !sameRequest r)

/-- The greedy pack: how many requests of the front are taken, and their cost. -/
def packLoop (turn : Option BatchableTurn) (maxItems maxRequests headRequestLen maxCost : ℕ) :
    ℕ → ℕ → List (PendingRequest I T) → ℕ × ℕ
  | takeCount, batchCost, [] => (takeCount, batchCost)
  | takeCount, batchCost, r :: rest =>
    if maxItems ≤ takeCount then (takeCount, batchCost)
    else if r.runsAlone ∧ 0 < takeCount then (takeCount, batchCost)
    else if (turn.any fun t => !t.serves r) ∧ 0 < takeCount then (takeCount, batchCost)
    else if maxCost < batchCost + r.cost ∧ 0 < takeCount then (takeCount, batchCost)
    else if r.runsAlone ∨
        (maxRequests ≤ takeCount + 1 ∧ headRequestLen ≤ takeCount + 1) then
      (takeCount + 1, batchCost + r.cost)
    else
      packLoop turn maxItems maxRequests headRequestLen maxCost (takeCount + 1)
        (batchCost + r.cost) rest

/-- Whose turn is next, and what the turn has left, after a batch was packed. -/
def recordBatch (s : Inner I T) (takeCount batchCost : ℕ) : Inner I T :=
  if takeCount = 0 then s
  else
    let alone := s.pending.head?.any runsAlone
    if alone then { s with lastBatchAlone := some true, batchableTurn := none }
    else
      { s with
        lastBatchAlone := some false
        batchableTurn := s.batchableTurn.map fun turn =>
          { turn with
            tookUnowed := turn.tookUnowed ||
              (s.pending.take takeCount).any fun r => !turn.owes r
            costLeft := turn.costLeft - batchCost } }

/-- Drain the taken prefix and re-anchor both timers to what remains. -/
def drainTaken (s : Inner I T) (takeCount batchCost : ℕ) (reason : FlushReason) :
    Option (FormattedBatch I T × Inner I T) :=
  let drained := s.pending.take takeCount
  let rest := s.pending.drop takeCount
  match checkedSub s.totalCost batchCost with
  | none => none
  | some total =>
    some
      ({ items := drained.map item
         metadata := drained.map metadata
         totalCost := batchCost
         flushReason := reason },
       { s with
         pending := rest
         totalCost := total
         firstRequestTime := (rest.map arrivalTime).min?
         lastSubmitTime := (rest.map arrivalTime).max? })

/-- The turn a batch belongs to: it takes only requests the turn serves. -/
def batchTurn (alone : Bool) (ordered : Inner I T) : Option BatchableTurn :=
  if alone then none else ordered.batchableTurn

/-- The cost cap of a batch: in a turn, within what is left of its budget. -/
def batchCostCap (maxCost : ℕ) : Option BatchableTurn → ℕ
  | none => maxCost
  | some turn => min maxCost turn.costLeft

/-- The queue to pack from, and how many items of the head request stand in
front: only outside turns with nothing flagged pending does a request leave
whole. -/
def headRequest (alone pendingAlone : Bool) (ordered : Inner I T) : ℕ × List (PendingRequest I T) :=
  if !alone && (batchTurn alone ordered).isNone && !pendingAlone then
    bringHeadRequestForward ordered
  else (0, ordered.pending)

/-- Take the next batch of at most `maxItems` requests. -/
def extractBatchUpTo (s : Inner I T) (reason : FlushReason) (maxItems : ℕ) (now : Instant) :
    Option (FormattedBatch I T × Inner I T) :=
  let maxCost := effectiveMaxCost s
  let maxRequests := s.config.maxBatchRequests
  let maxTake := max (min maxItems maxRequests) 1
  match orderForNextBatch s maxCost maxTake now with
  | none => none
  | some (alone, ordered) =>
    let turn := batchTurn alone ordered
    let head := headRequest alone (alonePending s) ordered
    let ready := { ordered with pending := head.2 }
    let packed := packLoop turn maxItems maxRequests head.1 (batchCostCap maxCost turn) 0 0
      ready.pending
    drainTaken (recordBatch ready packed.1 packed.2) packed.1 packed.2 reason

def extractBatch (s : Inner I T) (reason : FlushReason) (now : Instant) :
    Option (FormattedBatch I T × Inner I T) :=
  extractBatchUpTo s reason usizeMax now

/-- Number of requests among `taken` that have no item left in `pending`; an item
without a request key is a request of its own. -/
def completedRequests (taken : List I) (pending : List (PendingRequest I T)) : ℕ :=
  let stillPending := pending.filterMap requestKey
  let completed := ((taken.filterMap HasCost.requestKey).filter
    fun key => !stillPending.contains key).dedup
  completed.length + (taken.filter fun item => (HasCost.requestKey item).isNone).length

/-! ## The public interface -/

/-- A batch former: the queue, and the oldest arrival it publishes for the
first-come-first-served pick. -/
structure BatchFormer (I : Type u) (T : Type v) where
  inner : Inner I T
  /-- Monotonic origin of the published timestamp. -/
  epoch : Instant
  /-- Nanoseconds since `epoch` of the oldest pending item; zero means empty. -/
  fcfsHeadNs : ℕ
  deriving DecidableEq

namespace BatchFormer

def withEpoch (config : BatchConfig) (epoch : Instant) : BatchFormer I T where
  inner :=
    { pending := []
      totalCost := 0
      firstRequestTime := none
      lastSubmitTime := none
      lastBatchAlone := none
      batchableTurn := none
      lastTurnCutoff := none
      config }
  epoch := epoch
  fcfsHeadNs := 0

/-- Zero is reserved for an empty batcher. -/
def timestampNs (epoch instant : Instant) : ℕ := max (min (instant - epoch) u64Max) 1

/-- Publish the head of the queue. -/
def refreshFcfsHead (b : BatchFormer I T) (s : Inner I T) : BatchFormer I T :=
  { b with
    inner := s
    fcfsHeadNs := match s.firstRequestTime with
      | some first => timestampNs b.epoch first
      | none => 0 }

omit [HasCost I] in
@[simp] theorem refreshFcfsHead_inner (b : BatchFormer I T) (s : Inner I T) :
    (b.refreshFcfsHead s).inner = s := rfl

/-- After a submit the head is published only when the queue was empty. -/
def afterSubmit (b : BatchFormer I T) (s : Inner I T) : BatchFormer I T :=
  if b.inner.pending.isEmpty then b.refreshFcfsHead s else { b with inner := s }

omit [HasCost I] in
@[simp] theorem afterSubmit_inner (b : BatchFormer I T) (s : Inner I T) :
    (b.afterSubmit s).inner = s := by
  simp only [afterSubmit]
  split_ifs <;> rfl

/-- Append the items one by one, each with its own reading of the clock. -/
def appendItems (s : Inner I T) : List (I × T × Instant) → Option (Inner I T)
  | [] => some s
  | (item, metadata, now) :: rest =>
    match appendItem s item metadata now with
    | none => none
    | some s₁ => appendItems s₁ rest

section

variable (b : BatchFormer I T)

/-- Enqueue many items under one lock acquisition. -/
def submitMany (items : List (I × T × Instant)) : Option (BatchFormer I T) :=
  match appendItems b.inner items with
  | none => none
  | some s => if items.isEmpty then some b else some (b.afterSubmit s)

def submit (item : I) (metadata : T) (now : Instant) : Option (BatchFormer I T) :=
  (appendItem b.inner item metadata now).map b.afterSubmit

def updateConfig (config : BatchConfig) : BatchFormer I T :=
  { b with inner := { b.inner with config } }

/-- What every extraction through the interface does: extract, then publish the
head that is left. -/
def extract (reason : FlushReason) (maxItems : ℕ) (now : Instant) :
    Option (BatchFormer I T × FormattedBatch I T) :=
  match extractBatchUpTo b.inner reason maxItems now with
  | none => none
  | some (batch, s) => some (b.refreshFcfsHead s, batch)

/-- One pass of the loop of `get_batch`: a batch when a trigger has fired, no
change when the caller waits. -/
def getBatch (immediate : Bool) (now : Instant) :
    Option (BatchFormer I T × Option (FormattedBatch I T)) :=
  match flushReason b.inner immediate now with
  | none => some (b, none)
  | some reason => (b.extract reason usizeMax now).map fun p => (p.1, some p.2)

def tryGetBatch (now : Instant) : Option (BatchFormer I T × Option (FormattedBatch I T)) :=
  b.getBatch false now

/-- Drain at most `maxItems`, bypassing the flush triggers. -/
def tryDrainUpTo (maxItems : ℕ) (now : Instant) :
    Option (BatchFormer I T × Option (FormattedBatch I T)) :=
  if maxItems = 0 then some (b, none)
  else if b.inner.pending.isEmpty then some (b, none)
  else (b.extract .drain maxItems now).map fun p => (p.1, some p.2)

/-- Take the next batch now, with the number of requests it completes. -/
def take (reason : FlushReason) (now : Instant) :
    Option (BatchFormer I T × Option (FormattedBatch I T × ℕ)) :=
  if b.inner.pending.isEmpty then some (b, none)
  else
    (b.extract ((fullReason b.inner).getD reason) usizeMax now).map fun p =>
      (p.1, some (p.2, completedRequests p.2.items p.1.inner.pending))

def gateView (now : Instant) : GateView where
  full := fullReason b.inner
  classic := flushReason b.inner false now
  classicWait := waitTimeout b.inner now

end

/-- A call of the public interface, with the clock readings it makes. -/
inductive Call (I : Type u) (T : Type v)
  | submit (item : I) (metadata : T) (now : Instant)
  | submitMany (items : List (I × T × Instant))
  | updateConfig (config : BatchConfig)
  | getBatch (immediate : Bool) (now : Instant)
  | tryGetBatch (now : Instant)
  | tryDrainUpTo (maxItems : ℕ) (now : Instant)
  | take (reason : FlushReason) (now : Instant)

namespace Call

/-- The readings of the clock a call makes, in order. -/
def readings : Call I T → List Instant
  | .submit _ _ now => [now]
  | .submitMany items => items.map fun x => x.2.2
  | .updateConfig _ => []
  | .getBatch _ now => [now]
  | .tryGetBatch now => [now]
  | .tryDrainUpTo _ now => [now]
  | .take _ now => [now]

/-- The items a call submits, each with its reading of the clock. -/
def arrivals : Call I T → List (I × T × Instant)
  | .submit item metadata now => [(item, metadata, now)]
  | .submitMany items => items
  | _ => []

/-- The pairs a call submits. -/
def submitted (c : Call I T) : List (I × T) := c.arrivals.map fun x => (x.1, x.2.1)

end Call

/-- One call: the next state and the batch it returned, if any. -/
def step (b : BatchFormer I T) : Call I T → Option (BatchFormer I T × List (FormattedBatch I T))
  | .submit item metadata now => (b.submit item metadata now).map fun b' => (b', [])
  | .submitMany items => (b.submitMany items).map fun b' => (b', [])
  | .updateConfig config => some (b.updateConfig config, [])
  | .getBatch immediate now => (b.getBatch immediate now).map fun p => (p.1, p.2.toList)
  | .tryGetBatch now => (b.tryGetBatch now).map fun p => (p.1, p.2.toList)
  | .tryDrainUpTo maxItems now => (b.tryDrainUpTo maxItems now).map fun p => (p.1, p.2.toList)
  | .take reason now => (b.take reason now).map fun p => (p.1, (p.2.map Prod.fst).toList)

end BatchFormer

end Sie.Sidecar
