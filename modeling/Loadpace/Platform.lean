import Mathlib.Algebra.Field.Rat
import Mathlib.Algebra.Order.Field.Basic
import Mathlib.Algebra.Order.Sub.Unbundled.Basic
import Mathlib.Algebra.Order.Monoid.Canonical.Defs
import Mathlib.Algebra.Order.Monoid.Defs
import Mathlib.Algebra.Group.Nat.Defs
import Mathlib.Data.NNRat.Defs

/-!
# What the program takes from the standard library

The controller computes with `Instant`, `Duration` and `f64`, and draws from a random generator. The model is
generic in all of them.

* `Time T`: instants and durations are both lengths of time in `T` (an instant is the time since the clock's origin).
  `T` is `ℕ`, counting nanoseconds, for the machine, and the nonnegative reals, in seconds, for exact arithmetic.
* `F64 F`: the floating-point operations. No law is assumed of them.
* `Secs T F`: the conversions between durations and seconds.
* `Rng R F`: a random generator whose draws are floats.

A function that can panic returns an `Option`; `none` is the panic.
-/

namespace Loadpace

/-- Instants and durations. -/
class Time (T : Type) [AddCommMonoid T] [LinearOrder T] [Sub T] extends
    CanonicallyOrderedAdd T, IsOrderedCancelAddMonoid T, OrderedSub T where
  /-- `Duration::from_nanos`. -/
  fromNanos : ℕ → T
  /-- `Duration::as_nanos`. -/
  asNanos : T → ℕ
  /-- `Duration / u32`. -/
  divNat : T → ℕ → T
  /-- `Duration::MAX`. -/
  durationMax : T
  /-- The longest duration `Instant::checked_add` can add to an instant; `none` when every duration can be added. -/
  room : T → Option T
  fromNanos_zero : fromNanos 0 = 0
  fromNanos_mono : Monotone fromNanos
  asNanos_mono : Monotone asNanos
  asNanos_fromNanos : ∀ n, asNanos (fromNanos n) = n
  /-- `u64::MAX` seconds and 999,999,999 nanoseconds. -/
  asNanos_durationMax : asNanos durationMax = 18446744073709551615999999999
  /-- The clock's end stays where it is. -/
  room_add : ∀ t d, room (t + d) = (room t).map (· - d)
  /-- A clock with an end counts nanoseconds. -/
  fromNanos_asNanos : ∀ t m, room t = some m → ∀ d, fromNanos (asNanos d) = d

export Time (durationMax)

section Time

variable {T : Type} [AddCommMonoid T] [LinearOrder T] [Sub T] [Time T]

/-- `Instant::checked_add`. -/
def checkedAdd (instant duration : T) : Option T :=
  match Time.room instant with
  | none => some (instant + duration)
  | some m => if duration ≤ m then some (instant + duration) else none

/-- `Duration::from_micros`. -/
def fromMicros (n : ℕ) : T := Time.fromNanos (n * 1000)

/-- `Duration::from_secs`. -/
def fromSecs (n : ℕ) : T := Time.fromNanos (n * 1000000000)

/-- `Duration::saturating_mul`. -/
def saturatingMul (d : T) (n : ℕ) : T := min (n • d) durationMax

theorem checkedAdd_zero (t : T) : checkedAdd t 0 = some t := by
  unfold checkedAdd
  cases Time.room t with
  | none => simp
  | some m => simp [zero_le]

theorem checkedAdd_of_none {t : T} (h : Time.room t = none) (d : T) : checkedAdd t d = some (t + d) := by
  simp only [checkedAdd, h]

theorem checkedAdd_isSome_iff {t m : T} (h : Time.room t = some m) {d : T} : (checkedAdd t d).isSome ↔ d ≤ m := by
  simp only [checkedAdd, h]
  split <;> simp_all

/-- A successful addition is exact. -/
theorem checkedAdd_some {t d r : T} (h : checkedAdd t d = some r) : r = t + d := by
  unfold checkedAdd at h
  split at h
  · exact (Option.some.inj h).symm
  · split at h
    · exact (Option.some.inj h).symm
    · cases h

end Time

/-- The operations of `f64`. -/
class F64 (F : Type) extends Add F, Sub F, Mul F, Div F, Neg F, LT F, LE F, OfScientific F where
  /-- `usize as f64`. -/
  natCast : ℕ → F
  decidableLT : DecidableLT F
  decidableLE : DecidableLE F
  /-- `f64::is_finite`. -/
  isFinite : F → Bool
  /-- `f64::is_nan`. -/
  isNan : F → Bool
  /-- `f64::exp2`. -/
  exp2 : F → F
  /-- `f64::powf`. -/
  powf : F → F → F
  /-- `f64::max`. -/
  max : F → F → F
  /-- `f64::min`. -/
  min : F → F → F
  /-- `f64::MIN_POSITIVE`. -/
  minPositive : F

section F64

variable {F : Type} [F64 F]

instance (priority := low) F64.instNatCast : NatCast F := ⟨F64.natCast⟩

instance F64.instDecidableLT : DecidableLT F := F64.decidableLT

instance F64.instDecidableLE : DecidableLE F := F64.decidableLE

/-- `f64::recip`. -/
def recip (x : F) : F := 1.0 / x

/-- `f64::clamp`. -/
def clamp (x lo hi : F) : F := if x < lo then lo else if hi < x then hi else x

end F64

/-- The conversions between durations and seconds. -/
class Secs (T F : Type) where
  /-- `Duration::as_secs_f64`. -/
  asSecsF64 : T → F
  /-- `Duration::try_from_secs_f64`; `none` is its error. -/
  tryFromSecsF64 : F → Option T

export Secs (asSecsF64 tryFromSecsF64)

/-- A random generator. -/
class Rng (R F : Type) where
  /-- `Rng::random::<f64>`. -/
  random : R → F × R

end Loadpace
