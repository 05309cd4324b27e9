import Mathlib.Data.Nat.Basic
import Mathlib.Order.Bounds.Basic

/-!
# Bisection

The greatest number up to a bound with a property that holds of every smaller number as well (`DownTo`). The search keeps
two ends (`Brackets`): the property holds at the lower one, and fails above the upper one. It tries the middle, rounded up,
and moves one end past it (`Brackets.raise`, `Brackets.cut`), which halves the distance (`half_raise`, `half_cut`); where
the ends meet is the answer (`Brackets.isGreatest`).
-/

namespace Bisect

variable {p : ℕ → Prop} {bound lower upper : ℕ}

/-- The middle, rounded up. -/
def middle (lower upper : ℕ) : ℕ := lower + (upper - lower + 1) / 2

theorem lt_middle (h : lower < upper) : lower < middle lower upper := by
  unfold middle
  omega

theorem middle_le (h : lower < upper) : middle lower upper ≤ upper := by
  unfold middle
  omega

theorem half_raise (lower upper : ℕ) : upper - middle lower upper ≤ (upper - lower) / 2 := by
  unfold middle
  omega

theorem half_cut (lower upper : ℕ) : middle lower upper - 1 - lower ≤ (upper - lower) / 2 := by
  unfold middle
  omega

/-- Up to the bound, the property holds of the numbers below a number that it holds of. -/
def DownTo (p : ℕ → Prop) (bound : ℕ) : Prop := ∀ a b, a ≤ b → b ≤ bound → p b → p a

/-- **The invariant of the search.** -/
structure Brackets (p : ℕ → Prop) (bound lower upper : ℕ) : Prop where
  le : lower ≤ upper
  upper_le : upper ≤ bound
  holds : p lower
  fails : ∀ n ≤ bound, upper < n → ¬p n

theorem Brackets.start (h : p 0) : Brackets p bound 0 bound :=
  ⟨Nat.zero_le _, le_rfl, h, fun _ hn hlt => absurd hn (not_le.mpr hlt)⟩

/-- The property holds at the middle. -/
theorem Brackets.raise (h : Brackets p bound lower upper) (hlt : lower < upper) (hp : p (middle lower upper)) :
    Brackets p bound (middle lower upper) upper :=
  ⟨middle_le hlt, h.upper_le, hp, h.fails⟩

/-- The property fails at the middle, and so above it. -/
theorem Brackets.cut (h : Brackets p bound lower upper) (hdown : DownTo p bound) (hlt : lower < upper)
    (hp : ¬p (middle lower upper)) : Brackets p bound lower (middle lower upper - 1) := by
  have hmid := lt_middle hlt
  refine ⟨by omega, (Nat.sub_le _ _).trans ((middle_le hlt).trans h.upper_le), h.holds, fun n hn hgt hpn => ?_⟩
  exact hp (hdown _ n (by omega) hn hpn)

/-- **Where the ends meet is the greatest number with the property.** -/
theorem Brackets.isGreatest (h : Brackets p bound lower upper) (hend : ¬lower < upper) :
    IsGreatest {n | n ≤ bound ∧ p n} lower := by
  refine ⟨⟨h.le.trans h.upper_le, h.holds⟩, fun n ⟨hn, hpn⟩ => ?_⟩
  by_contra hgt
  exact h.fails n hn (by omega) hpn

end Bisect
