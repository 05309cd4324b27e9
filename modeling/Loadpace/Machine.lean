import Loadpace.Cases
import Loadpace.Exact
import Mathlib.Algebra.Order.Sub.Basic
import Mathlib.Algebra.Order.Ring.Rat
import Mathlib.Algebra.Order.Floor.Ring
import Mathlib.Data.Rat.Floor

/-!
# An executable platform

Time in whole nanoseconds on a clock that ends, and rational numbers in the place of floats, so that the kernel can run
the controller; `sample` and `sample'` are two fresh controllers on it.
-/

namespace Loadpace

/-- Nanoseconds, on a clock of `2 ^ 63` seconds. -/
instance : Time ℕ where
  fromNanos n := n
  asNanos d := d
  divNat d n := d / n
  durationMax := 18446744073709551615999999999
  room t := some (9223372036854775808 * 1000000000 - 1 - t)
  fromNanos_zero := rfl
  fromNanos_mono _ _ h := h
  asNanos_mono _ _ h := h
  asNanos_fromNanos _ := rfl
  asNanos_durationMax := rfl
  room_add t d := by simp only [Option.map_some, Option.some.injEq]; omega
  fromNanos_asNanos _ _ _ _ := rfl

/-- `2 ^ x` to about two parts in a thousand: exact at whole numbers, a quadratic between them. -/
def exp2Approx (x : ℚ) : ℚ :=
  let f := Int.fract x
  2 ^ ⌊x⌋ * (1 + f * (33 / 50 + f * (17 / 50)))

/-- The program only takes powers of one half. -/
instance : Powers ℚ where
  exp2 := exp2Approx
  powf _ e := exp2Approx (-e)

instance : Secs ℕ ℚ where
  asSecsF64 d := d / 1000000000
  tryFromSecsF64 x :=
    let nanos := ⌊x * 1000000000 + 1 / 2⌋
    if 0 ≤ x ∧ nanos ≤ 18446744073709551615999999999 then some nanos.toNat else none

/-- A generator with a counter for its state. -/
instance : Rng ℕ ℚ where
  random n := (((n * 7 + 3) % 10 : ℕ) / 10, n + 1)

/-! ## Two controllers -/

def sampleConfig : EndpointConfig ℕ where
  expectedRtt := 10000000
  initialConcurrency := 2
  queueTolerance := 5000000
  queueCapacity := 4
  maxInflight := 1024

def sample : EndpointController ℕ ℚ ℕ := (EndpointController.newWithRng sampleConfig 0 0 7).get (by decide +kernel)

theorem sample_freshAt : sample.FreshAt 0 := ⟨sampleConfig, 0, 7, (Option.some_get _).symm⟩

theorem sample_fresh : sample.Fresh := sample_freshAt.fresh

def sample' : EndpointController ℕ ℚ ℕ := (EndpointController.newWithRng sampleConfig 0 0 8).get (by decide +kernel)

end Loadpace
