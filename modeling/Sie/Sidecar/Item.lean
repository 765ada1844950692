import Mathlib.Algebra.Order.BigOperators.Group.List
import Mathlib.Algebra.Order.Ring.Rat
import Sie.Lib.Word

/-!
# Items, pending requests and caps of the batch former

The data the sidecar's scheduler works on (`scheduler/batch_former.rs` and
`scheduler/batch_config.rs`): what an item tells the scheduler about itself, a
request waiting to be batched, a flushed batch, and the caps.

Instants are readings of one monotonic clock, in nanoseconds.  The `f64` knobs
are rationals and their comparisons exact; costs and counts are naturals, and
the one `u64` sum that can overflow is checked where the code adds to it.
-/

namespace Sie.Sidecar

universe u v

/-- A reading of the monotonic clock, in nanoseconds. -/
abbrev Instant := ℕ

/-- What the batch former asks of an item. -/
class HasCost (I : Type u) where
  /-- Batching cost: token count for text, 1 per image. -/
  cost : I → ℕ
  /-- Non-adaptive ceiling for a batch that contains this item. -/
  hardBatchCostCap : I → Option ℕ
  /-- Whether this item must be served in a batch of its own. -/
  runsAlone : I → Bool
  /-- Identity of the request this item came from, when it has one. -/
  requestKey : I → Option String

/-- A single request waiting to be batched, with the caller's routing metadata. -/
structure PendingRequest (I : Type u) (T : Type v) where
  item : I
  metadata : T
  arrivalTime : Instant
  deriving DecidableEq

/-- Reason a batch was emitted. -/
inductive FlushReason
  | costCap
  | countCap
  | timeout
  | coalesce
  | singleOversize
  | idleBypass
  | drain
  deriving DecidableEq

/-- A flushed batch, items and metadata in parallel. -/
structure FormattedBatch (I : Type u) (T : Type v) where
  items : List I
  metadata : List T
  totalCost : ℕ
  flushReason : FlushReason
  deriving DecidableEq

/-- The items of a batch with the metadata that stands beside each. -/
def FormattedBatch.pairs {I : Type u} {T : Type v} (b : FormattedBatch I T) : List (I × T) :=
  b.items.zip b.metadata

/-- Batch formation caps. -/
structure BatchConfig where
  maxBatchCost : ℕ
  maxBatchRequests : ℕ
  maxBatchWaitMs : ℚ
  coalesceMs : ℚ
  coalesceRatio : ℚ
  maxRequestItems : ℕ
  deriving DecidableEq

/-- Effective coalesce window: `min(coalesce_ms, max_batch_wait_ms * coalesce_ratio)`. -/
def BatchConfig.effectiveCoalesceMs (c : BatchConfig) : ℚ :=
  min c.coalesceMs (c.maxBatchWaitMs * c.coalesceRatio)

/-- Milliseconds from `since` to `now`, zero when the clock reads earlier. -/
def elapsedMs (now since : Instant) : ℚ := ((now - since : ℕ) : ℚ) / 1000000

/-- The stub item of the source's tests: every answer is a field. -/
structure StubItem where
  cost : ℕ
  cap : Option ℕ
  alone : Bool
  request : Option String
  deriving DecidableEq

instance : HasCost StubItem where
  cost := StubItem.cost
  hardBatchCostCap := StubItem.cap
  runsAlone := StubItem.alone
  requestKey := StubItem.request

namespace PendingRequest

variable {I : Type u} {T : Type v} [HasCost I]

section

variable (r : PendingRequest I T)

/-- The batching cost of the item. -/
def cost : ℕ := HasCost.cost r.item

/-- Whether the item runs alone. -/
def runsAlone : Bool := HasCost.runsAlone r.item

/-- The request the item came from. -/
def requestKey : Option String := HasCost.requestKey r.item

/-- The pair the caller submitted. -/
def pair : I × T := (r.item, r.metadata)

end

/-- The request has waited `max_batch_wait_ms`. -/
def aged (config : BatchConfig) (now : Instant) (r : PendingRequest I T) : Bool :=
  decide (config.maxBatchWaitMs ≤ elapsedMs now r.arrivalTime)

end PendingRequest

/-- Total cost of a list of requests. -/
def costSum {I : Type u} {T : Type v} [HasCost I] (l : List (PendingRequest I T)) : ℕ :=
  (l.map PendingRequest.cost).sum

section

variable {I : Type u} {T : Type v} [HasCost I]

@[simp] theorem costSum_nil : costSum ([] : List (PendingRequest I T)) = 0 := rfl

@[simp] theorem costSum_cons (r : PendingRequest I T) (l : List (PendingRequest I T)) :
    costSum (r :: l) = r.cost + costSum l := by simp [costSum]

@[simp] theorem costSum_append (l₁ l₂ : List (PendingRequest I T)) :
    costSum (l₁ ++ l₂) = costSum l₁ + costSum l₂ := by simp [costSum]

theorem costSum_perm {l₁ l₂ : List (PendingRequest I T)} (h : l₁.Perm l₂) :
    costSum l₁ = costSum l₂ := (h.map _).sum_eq

theorem costSum_filter_le (p : PendingRequest I T → Bool) (l : List (PendingRequest I T)) :
    costSum (l.filter p) ≤ costSum l := by
  induction l with
  | nil => exact le_rfl
  | cons r _ ih =>
    rw [List.filter_cons]
    split_ifs <;> simp only [costSum_cons] <;> omega

end

end Sie.Sidecar
