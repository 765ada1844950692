import Mathlib.Data.List.Sort
import Mathlib.Algebra.GroupWithZero.Nat
import Mathlib.Algebra.Order.Ring.Rat

/-!
# Forming batches

The worker's `core/batcher.py`: a queue of items with costs, from which batches are taken by
ascending cost within a cost and a size limit.  An item that runs alone never shares a batch, and
while both kinds are pending they take turns.  The time of the first request is kept from the
first item of an empty queue until an extraction leaves the queue empty.

Clock readings are arguments, in seconds; metadata stands for what a result is routed by.
-/

namespace Sie.Server

structure PendingRequest (μ : Type) where
  cost : ℕ
  metadata : μ
  arrivalTime : ℚ
  runsAlone : Bool
  deriving DecidableEq

structure BatchConfig where
  maxBatchCost : ℕ
  maxBatchRequests : ℕ
  maxBatchWaitMs : ℚ
  coalesceMs : ℚ
  coalesceRatio : ℚ
  deriving DecidableEq

def BatchConfig.effectiveCoalesceMs (config : BatchConfig) : ℚ :=
  min config.coalesceMs (config.maxBatchWaitMs * config.coalesceRatio)

structure BatchFormer (μ : Type) where
  pending : List (PendingRequest μ)
  totalCost : ℕ
  firstRequestTime : Option ℚ
  lastSubmitTime : Option ℚ
  lastBatchAlone : Option Bool
  deriving DecidableEq

namespace BatchFormer

variable {μ : Type} {b : BatchFormer μ} {r : PendingRequest μ} {config : BatchConfig}
  {maxItems : Option ℕ}

def new : BatchFormer μ := ⟨[], 0, none, none, none⟩

/-! ## When a batch is due -/

section

variable (b config)

def batchIsFull : Bool :=
  config.maxBatchCost ≤ b.totalCost || config.maxBatchRequests ≤ b.pending.length

def batchTimeoutExpired (now : ℚ) : Bool :=
  match b.firstRequestTime with
  | none => false
  | some first => config.maxBatchWaitMs ≤ (now - first) * 1000

def coalesceExpired (coalesceCapMs : Option ℚ)
    (now : ℚ) : Bool :=
  match b.lastSubmitTime, coalesceCapMs with
  | none, _ => false
  | some last, none => !b.pending.isEmpty && config.effectiveCoalesceMs ≤ (now - last) * 1000
  | some last, some cap =>
    !b.pending.isEmpty && min config.effectiveCoalesceMs cap ≤ (now - last) * 1000

def shouldYieldBatch (coalesceCapMs : Option ℚ)
    (now : ℚ) : Bool :=
  !b.pending.isEmpty && (b.batchIsFull config || b.batchTimeoutExpired config now ||
    b.coalesceExpired config coalesceCapMs now)

end

/-! ## Items come in -/

/-- An item as it is submitted, with the two clock readings of `_append_item`. -/
structure Arrival (μ : Type) where
  cost : ℕ
  metadata : μ
  runsAlone : Bool
  arrivalTime : ℚ
  now : ℚ
  deriving DecidableEq

def appendItem (b : BatchFormer μ) (a : Arrival μ) : BatchFormer μ where
  pending := b.pending ++ [⟨a.cost, a.metadata, a.arrivalTime, a.runsAlone⟩]
  totalCost := b.totalCost + a.cost
  firstRequestTime := b.firstRequestTime <|> some a.now
  lastSubmitTime := some a.now
  lastBatchAlone := b.lastBatchAlone

def submitMany (b : BatchFormer μ) (arrivals : List (Arrival μ)) : BatchFormer μ :=
  arrivals.foldl appendItem b

/-! ## Batches come out -/

/-- Batchable requests first, by cost; then those that run alone, by arrival. -/
def laneLe (a b : PendingRequest μ) : Prop :=
  if a.runsAlone = b.runsAlone then
    if a.runsAlone = true then a.arrivalTime ≤ b.arrivalTime else a.cost ≤ b.cost
  else b.runsAlone = true

instance : DecidableRel (laneLe (μ := μ)) := fun a b => by
  unfold laneLe
  infer_instance

/-- The first request with the least arrival time. -/
def oldest (first : PendingRequest μ) : List (PendingRequest μ) → PendingRequest μ
  | [] => first
  | r :: rest => oldest (if r.arrivalTime < first.arrivalTime then r else first) rest

/-- It is the turn of a request that runs alone. -/
def aloneTurn (pending : List (PendingRequest μ)) : Option Bool → Bool
  | some lastAlone => !lastAlone
  | none =>
    match pending with
    | [] => false
    | r :: rest => (oldest r rest).runsAlone

def orderRunsAloneLane (pending : List (PendingRequest μ)) (lastBatchAlone : Option Bool) :
    List (PendingRequest μ) :=
  let sorted := pending.insertionSort laneLe
  let batchable := sorted.takeWhile fun r => !r.runsAlone
  match batchable, sorted.dropWhile fun r => !r.runsAlone with
  | b :: bs, head :: rest =>
    if aloneTurn sorted lastBatchAlone = true then head :: (b :: bs) ++ rest else sorted
  | _, _ => sorted

/-- The order in which `_extract_batch` takes requests. -/
def ordered (b : BatchFormer μ) : List (PendingRequest μ) :=
  if b.pending.any PendingRequest.runsAlone = true then
    orderRunsAloneLane b.pending b.lastBatchAlone
  else b.pending.insertionSort fun r s => r.cost ≤ s.cost

/-- How many requests are taken: `taken` with cost `cost` so far. -/
def takeCount (config : BatchConfig) (maxItems : Option ℕ) (taken cost : ℕ) :
    List (PendingRequest μ) → ℕ
  | [] => taken
  | r :: rest =>
    if maxItems.any (· ≤ taken) = true then taken
    else if r.runsAlone = true ∧ 0 < taken then taken
    -- a single request is taken even where it is over the cost limit
    else if config.maxBatchCost < cost + r.cost ∧ 0 < taken then taken
    else if r.runsAlone = true then taken + 1
    else if config.maxBatchRequests ≤ taken + 1 then taken + 1
    else takeCount config maxItems (taken + 1) (cost + r.cost) rest

section

variable (b config maxItems)

/-- The batch an extraction takes. -/
def taken : List (PendingRequest μ) :=
  b.ordered.take (takeCount config maxItems 0 0 b.ordered)

/-- What an extraction leaves. -/
def left : List (PendingRequest μ) :=
  b.ordered.drop (takeCount config maxItems 0 0 b.ordered)

def extractBatch : BatchFormer μ where
  pending := b.left config maxItems
  totalCost := b.totalCost - ((b.taken config maxItems).map PendingRequest.cost).sum
  firstRequestTime := if (b.left config maxItems).isEmpty then none else b.firstRequestTime
  lastSubmitTime := if (b.left config maxItems).isEmpty then none else b.lastSubmitTime
  lastBatchAlone := ((b.taken config maxItems).head?.map PendingRequest.runsAlone) <|>
    b.lastBatchAlone

end

/-- `drain_pending`: what it returns is `pending`, what it leaves is this. -/
def drainPending (b : BatchFormer μ) : BatchFormer μ :=
  { b with pending := [], totalCost := 0, firstRequestTime := none, lastSubmitTime := none }

/-! ## What an extraction does to the queue -/

theorem orderRunsAloneLane_perm (pending : List (PendingRequest μ)) (last : Option Bool) :
    (orderRunsAloneLane pending last).Perm pending := by
  have hsorted := List.perm_insertionSort laneLe pending
  have hsplit := List.takeWhile_append_dropWhile (p := fun r : PendingRequest μ => !r.runsAlone)
    (l := pending.insertionSort laneLe)
  unfold orderRunsAloneLane
  simp only
  split
  next b bs head rest hbatchable hrest =>
    split_ifs
    · rw [hbatchable, hrest] at hsplit
      have hmove : (head :: (b :: bs) ++ rest).Perm ((b :: bs) ++ head :: rest) :=
        List.perm_middle.symm
      exact (hsplit ▸ hmove).trans hsorted
    · exact hsorted
  next => exact hsorted

theorem ordered_perm (b : BatchFormer μ) : b.ordered.Perm b.pending := by
  unfold ordered
  split_ifs
  · exact orderRunsAloneLane_perm _ _
  · exact List.perm_insertionSort _ _

/-- What is taken and what stays are what was pending. -/
theorem extractBatch_perm (b : BatchFormer μ) (config : BatchConfig) (maxItems : Option ℕ) :
    (b.taken config maxItems ++ (b.extractBatch config maxItems).pending).Perm b.pending := by
  change (b.taken config maxItems ++ b.left config maxItems).Perm b.pending
  rw [taken, left, List.take_append_drop]
  exact b.ordered_perm

theorem submitMany_pending (b : BatchFormer μ) (arrivals : List (Arrival μ)) :
    (b.submitMany arrivals).pending =
      b.pending ++ arrivals.map fun a => ⟨a.cost, a.metadata, a.arrivalTime, a.runsAlone⟩ := by
  induction arrivals generalizing b with
  | nil => simp [submitMany]
  | cons a arrivals ih =>
    rw [submitMany, List.foldl_cons, ← submitMany, ih]
    simp [appendItem]

/-! ## The time of the first request -/

/-- The first-request time is there exactly while something is pending. -/
def Timed (b : BatchFormer μ) : Prop := b.firstRequestTime = none ↔ b.pending = []

theorem timed_new : Timed (new : BatchFormer μ) := by
  simp [Timed, new]

theorem timed_appendItem (a : Arrival μ) : Timed (b.appendItem a) := by
  cases h : b.firstRequestTime <;> simp [Timed, appendItem, h]

theorem Timed.submitMany (h : Timed b) (arrivals : List (Arrival μ)) :
    Timed (b.submitMany arrivals) := by
  induction arrivals generalizing b with
  | nil => exact h
  | cons a arrivals ih => exact ih (timed_appendItem a)

theorem Timed.extractBatch (h : Timed b) (config : BatchConfig) :
    Timed (b.extractBatch config maxItems) := by
  have hperm := b.extractBatch_perm config maxItems
  by_cases hleft : b.left config maxItems = []
  · simp [Timed, BatchFormer.extractBatch, hleft]
  have hpending : b.pending ≠ [] := by
    intro hnil
    rw [hnil] at hperm
    exact hleft (List.append_eq_nil_iff.mp (List.Perm.eq_nil hperm)).2
  have hfirst : b.firstRequestTime ≠ none := fun hnone => hpending (h.mp hnone)
  simp [Timed, BatchFormer.extractBatch, hleft, hfirst]

/-- An extraction keeps the first-request time or leaves the queue empty. -/
theorem extractBatch_firstRequestTime (b : BatchFormer μ) (config : BatchConfig)
    (maxItems : Option ℕ) :
    (b.extractBatch config maxItems).firstRequestTime = b.firstRequestTime ∨
      (b.extractBatch config maxItems).firstRequestTime = none := by
  by_cases hleft : (b.left config maxItems).isEmpty = true
  · exact .inr (if_pos hleft)
  · exact .inl (if_neg hleft)

theorem appendItem_firstRequestTime (b : BatchFormer μ) (a : Arrival μ) :
    (b.appendItem a).firstRequestTime = some (b.firstRequestTime.getD a.now) := by
  cases h : b.firstRequestTime <;> simp [appendItem, h]

/-- Items that come to a queue with a first-request time leave it. -/
theorem submitMany_of_some {first : ℚ} (h : b.firstRequestTime = some first)
    (arrivals : List (Arrival μ)) : (b.submitMany arrivals).firstRequestTime = some first := by
  induction arrivals generalizing b with
  | nil => exact h
  | cons a arrivals ih => exact ih (by rw [appendItem_firstRequestTime, h]; rfl)

/-- The first of the items that come to an empty queue sets the time. -/
theorem submitMany_of_none (h : b.firstRequestTime = none) (a : Arrival μ)
    (arrivals : List (Arrival μ)) :
    (b.submitMany (a :: arrivals)).firstRequestTime = some a.now := by
  refine submitMany_of_some (b := b.appendItem a) ?_ arrivals
  rw [appendItem_firstRequestTime, h]
  rfl

end BatchFormer

end Sie.Server
