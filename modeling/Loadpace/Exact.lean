import Loadpace.Platform

/-!
# Exact arithmetic

An ordered field in the place of `f64`: every number is finite, no operation rounds or saturates. The powers are
left to the field (`Powers`), since a field need not have them.
-/

namespace Loadpace

/-- The powers that a field takes for those of `f64`. -/
class Powers (F : Type) where
  exp2 : F → F
  powf : F → F → F

variable {F : Type} [Field F] [LinearOrder F] [Powers F]

/-- Exact arithmetic. -/
instance exactF64 : F64 F where
  natCast := Nat.cast
  decidableLT := inferInstance
  decidableLE := inferInstance
  isFinite _ := true
  isNan _ := false
  exp2 := Powers.exp2
  powf := Powers.powf
  max := Max.max
  min := Min.min
  minPositive := ((2 ^ 1022 : ℕ) : F)⁻¹

theorem exact_clamp [IsStrictOrderedRing F] (x lo hi : F) (h : lo ≤ hi) :
    clamp x lo hi = max lo (min x hi) := by
  unfold clamp
  split
  · rename_i hx
    have hx : x < lo := hx
    rw [max_eq_left ((min_le_left x hi).trans hx.le)]
  · rename_i hx
    have hx : lo ≤ x := not_lt.mp hx
    split
    · rename_i hh
      have hh : hi < x := hh
      rw [min_eq_right hh.le, max_eq_right h]
    · rename_i hh
      have hh : x ≤ hi := not_lt.mp hh
      rw [min_eq_left hh, max_eq_right hx]

theorem exact_clamp_bounds [IsStrictOrderedRing F] (x lo hi : F) (h : lo ≤ hi) : lo ≤ clamp x lo hi ∧ clamp x lo hi ≤ hi := by
  rw [exact_clamp x lo hi h]
  exact ⟨le_max_left _ _, max_le h (min_le_right _ _)⟩

end Loadpace
