import Mathlib.Algebra.Order.Field.Basic
import Mathlib.Algebra.Order.Group.MinMax
import Mathlib.Tactic.Linarith
import Mathlib.Tactic.Ring

/-!
# Monotone contractions of a line

A map that keeps the order and brings two points to at most a share of their distance (`Contracts`), such as an affine map
(`affine`) or a clamp (`clamped`). Such maps compose (`Contracts.comp`), and under each of them a point comes closer to a
fixed point (`Contracts.le_fixed`, `Contracts.fixed_le`). An affine map that is clamped has the clamp of its own fixed point
(`clamped_affine_fixed`).
-/

namespace Contraction

section Clamp

variable {F : Type*} [LinearOrder F] {lo hi x : F}

/-- The value within the bounds that is closest. -/
def clamped (lo hi x : F) : F := max lo (min x hi)

theorem clamped_of_mem (hlo : lo ≤ x) (hhi : x ≤ hi) : clamped lo hi x = x := by
  rw [clamped, min_eq_left hhi, max_eq_right hlo]

theorem clamped_of_le (h : x ≤ lo) (hlohi : lo ≤ hi) : clamped lo hi x = lo := by
  rw [clamped, min_eq_left (h.trans hlohi), max_eq_left h]

theorem clamped_of_ge (h : hi ≤ x) (hlohi : lo ≤ hi) : clamped lo hi x = hi := by
  rw [clamped, min_eq_right h, max_eq_right hlohi]

end Clamp

variable {F : Type*} [Field F] [LinearOrder F] [IsStrictOrderedRing F] {k l b lo hi x y p B : F} {f g : F → F}

/-- The order is kept, and distances shrink to the share `k` at most. -/
structure Contracts (k : F) (f : F → F) : Prop where
  mono : Monotone f
  shrink : ∀ x y, x ≤ y → f y - f x ≤ k * (y - x)

theorem affine (hk : 0 ≤ k) (b : F) : Contracts k fun x => k * x + b where
  mono _ _ h := add_le_add_left (mul_le_mul_of_nonneg_left h hk) b
  shrink x y _ := by linarith

theorem clamped_contracts (lo hi : F) : Contracts 1 (clamped lo hi) where
  mono _ _ h := max_le_max le_rfl (min_le_min h le_rfl)
  shrink x y h := by
    have hmin : min y hi - min x hi ≤ y - x := by
      rcases le_total y hi with hy | hy
      · rw [min_eq_left hy, min_eq_left (h.trans hy)]
      · rw [min_eq_right hy]
        rcases le_total x hi with hx | hx
        · rw [min_eq_left hx]
          linarith
        · rw [min_eq_right hx]
          linarith
    have hmono : min x hi ≤ min y hi := min_le_min h le_rfl
    rw [one_mul]
    unfold clamped
    rcases le_total lo (min x hi) with hx | hx
    · rw [max_eq_right hx, max_eq_right (hx.trans hmono)]
      exact hmin
    · rw [max_eq_left hx]
      refine sub_le_iff_le_add.mpr (max_le ?_ ?_)
      · linarith
      · linarith

namespace Contracts

theorem comp (hf : Contracts k f) (hg : Contracts l g) (hl : 0 ≤ l) : Contracts (l * k) fun x => g (f x) where
  mono := hg.mono.comp hf.mono
  shrink x y h := by
    have hinner := mul_le_mul_of_nonneg_left (hf.shrink x y h) hl
    have houter := hg.shrink (f x) (f y) (hf.mono h)
    linarith

theorem abs (h : Contracts k f) (x y : F) : |f x - f y| ≤ k * |x - y| := by
  rcases le_total x y with hxy | hxy
  · rw [abs_sub_comm, abs_sub_comm x, abs_of_nonneg (sub_nonneg.mpr (h.mono hxy)), abs_of_nonneg (sub_nonneg.mpr hxy)]
    exact h.shrink x y hxy
  · rw [abs_of_nonneg (sub_nonneg.mpr (h.mono hxy)), abs_of_nonneg (sub_nonneg.mpr hxy)]
    exact h.shrink y x hxy

/-- A point above a fixed point comes closer to it. -/
theorem le_fixed (h : Contracts k f) (hp : f p = p) (hB : 0 ≤ B) (hx : x ≤ p + B) : f x ≤ p + k * B := by
  have hmono := h.mono hx
  have hshrink := h.shrink p (p + B) (le_add_of_nonneg_right hB)
  rw [hp, add_sub_cancel_left] at hshrink
  linarith

/-- So does a point below it. -/
theorem fixed_le (h : Contracts k f) (hp : f p = p) (hB : 0 ≤ B) (hx : p - B ≤ x) : p - k * B ≤ f x := by
  have hmono := h.mono hx
  have hshrink := h.shrink (p - B) p (sub_le_self p hB)
  rw [hp, sub_sub_cancel] at hshrink
  linarith

end Contracts

/-- **The fixed point of a clamped affine map** is the clamp of the fixed point of the map. -/
theorem clamped_affine_fixed (h1 : k < 1) (hlohi : lo ≤ hi) :
    clamped lo hi (k * clamped lo hi (b / (1 - k)) + b) = clamped lo hi (b / (1 - k)) := by
  have hpos : 0 < 1 - k := sub_pos.mpr h1
  have hown : b = (1 - k) * (b / (1 - k)) := (mul_div_cancel₀ b hpos.ne').symm
  generalize b / (1 - k) = q at hown ⊢
  rw [hown]
  rcases le_total q lo with hq | hq
  · -- the map stays below the lower bound
    have hle : k * lo + (1 - k) * q ≤ lo := by
      have hmul := mul_le_mul_of_nonneg_left hq hpos.le
      linarith
    rw [clamped_of_le hq hlohi, clamped_of_le hle hlohi]
  · rcases le_total q hi with hq' | hq'
    · rw [clamped_of_mem hq hq']
      have hsame : k * q + (1 - k) * q = q := by ring
      rw [hsame, clamped_of_mem hq hq']
    · have hle : hi ≤ k * hi + (1 - k) * q := by
        have hmul := mul_le_mul_of_nonneg_left hq' hpos.le
        linarith
      rw [clamped_of_ge hq' hlohi, clamped_of_ge hle hlohi]

end Contraction
