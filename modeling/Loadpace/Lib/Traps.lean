import Mathlib.Algebra.Group.Nat.Defs
import Mathlib.Data.Nat.Notation
import Mathlib.Data.Option.Basic

/-!
# Machine integers that trap

Unsigned arithmetic of a width, on the numbers it stands for: an operation traps (`none`) where its exact result does not fit.
A computation that does not trap is exact, and a machine that wraps around, or truncates in a cast, computes the same.
-/

namespace Traps

variable {w a b : ℕ}

/-- A number as an unsigned integer of `w` bits. -/
def fit (w a : ℕ) : Option ℕ := if a < 2 ^ w then some a else none

def add (w a b : ℕ) : Option ℕ := fit w (a + b)

def sub (a b : ℕ) : Option ℕ := if b ≤ a then some (a - b) else none

/-- Division that rounds up: the quotient, and one more where a remainder is left. -/
def divCeil (w a b : ℕ) : Option ℕ :=
  if b = 0 then none
  else if 0 < a % b then add w (a / b) 1
  else some (a / b)

theorem fit_some (h : a < 2 ^ w) : fit w a = some a := if_pos h

theorem add_some (h : a + b < 2 ^ w) : add w a b = some (a + b) := if_pos h

theorem sub_some (h : b ≤ a) : sub a b = some (a - b) := if_pos h

theorem divCeil_two (h : a < 2 ^ w) (hw : 1 < w) : divCeil w a 2 = some ((a + 1) / 2) := by
  unfold divCeil
  rw [if_neg (by decide)]
  split
  · have hfit : a / 2 + 1 < 2 ^ w := by
      have htwo : 2 ^ 2 ≤ 2 ^ w := Nat.pow_le_pow_right (by omega) hw
      omega
    rw [add_some hfit]
    congr 1
    omega
  · congr 1
    omega

end Traps
