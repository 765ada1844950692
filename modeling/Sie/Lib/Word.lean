import Mathlib.Algebra.Order.Ring.Nat

/-!
# Unsigned 64-bit arithmetic

The sums, differences and products of `u64` and `usize`, on natural numbers: what
saturates stops at the largest word, what is checked gives `none` past it.
-/

namespace Sie.Lib

/-- Largest `u64`, where saturating arithmetic stops. -/
def u64Max : ℕ := 2 ^ 64 - 1

/-- Largest `usize`. -/
def usizeMax : ℕ := 2 ^ 64 - 1

/-- Sum `a.saturating_add(b)`. -/
def saturatingAdd (a b : ℕ) : ℕ := min (a + b) u64Max

/-- Sum `a.checked_add(b)`, or `a += b` where an overflow panics. -/
def checkedAdd (a b : ℕ) : Option ℕ := if a + b ≤ u64Max then some (a + b) else none

/-- Difference `a.checked_sub(b)`, or `a -= b` where an underflow panics. -/
def checkedSub (a b : ℕ) : Option ℕ := if b ≤ a then some (a - b) else none

/-- Product `a.checked_mul(b)`. -/
def checkedMul (a b : ℕ) : Option ℕ := if a * b ≤ u64Max then some (a * b) else none

end Sie.Lib
