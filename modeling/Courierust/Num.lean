import Courierust.Error

/-!
# Machine arithmetic

The saturating operations the source uses on its 64-bit counters. Counters are
natural numbers (integers where the source's are signed) and the bound is explicit.
-/

namespace Courierust

/-- `u64::MAX`, which is `usize::MAX` as well. -/
def u64Max : ℕ := 2 ^ 64 - 1

/-- `isize::MAX`, the length of the longest slice. -/
def isizeMax : ℕ := 2 ^ 63 - 1

/-- A `usize`. -/
abbrev Usize := Fin (2 ^ 64)

theorem Usize.le_max (n : Usize) : (n : ℕ) ≤ u64Max := by
  unfold u64Max
  omega

/-- `u64::saturating_add`. -/
def satAdd (a b : ℕ) : ℕ := min (a + b) u64Max

/-- `usize::saturating_mul`. -/
def satMul (a b : ℕ) : ℕ := min (a * b) u64Max

def checkedAdd (a b : ℕ) : Option ℕ := if a + b ≤ u64Max then some (a + b) else none

/-- `checked_sub` of an unsigned integer. -/
def checkedSub (a b : ℕ) : Option ℕ := if b ≤ a then some (a - b) else none

end Courierust
