import Mathlib.MeasureTheory.Integral.IntervalIntegral.Basic

/-!
# Fluid meters

A meter is full at an instant and then drains at a rate that changes with time: what is left of it is one minus the
integral of the rate, and nothing once that is used up (`left`). While the rate is constant the meter drains linearly
(`left_extend`), so a meter whose rate changes only now and then is followed from one change to the next.
-/

namespace Meter

open MeasureTheory Set

/-- What is left at `t` of a meter that was full at `start`. -/
noncomputable def left (rate : ℝ → ℝ) (start t : ℝ) : ℝ := max 0 (1 - ∫ s in start..t, rate s)

variable {rate rate' : ℝ → ℝ} {start t t' r : ℝ}

theorem left_self (rate : ℝ → ℝ) (start : ℝ) : left rate start start = 1 := by
  rw [left, intervalIntegral.integral_same, sub_zero, max_eq_right zero_le_one]

/-- A meter is empty when the whole unit has been drained. -/
theorem one_le_of_left_eq_zero (h : left rate start t = 0) : 1 ≤ ∫ s in start..t, rate s := by
  have hle : 1 - ∫ s in start..t, rate s ≤ 0 := h ▸ le_max_right _ _
  linarith

/-- Only the rates in between count. -/
theorem left_congr (ht : start ≤ t) (h : ∀ s ∈ Ioo start t, rate s = rate' s) : left rate start t = left rate' start t := by
  rw [left, left, intervalIntegral.integral_congr_Ioo_of_le ht h]

/-- **A meter drains linearly while its rate is constant.** -/
theorem left_extend (htt : t ≤ t') (hr : 0 ≤ r) (hint : IntervalIntegrable rate volume start t)
    (hc : ∀ s ∈ Ioo t t', rate s = r) : IntervalIntegrable rate volume start t' ∧
      left rate start t' = max 0 (left rate start t - (t' - t) * r) := by
  have hconst : IntervalIntegrable (fun _ => r) volume t t' := intervalIntegrable_const
  have hint' : IntervalIntegrable rate volume t t' := by
    refine hconst.congr_uIoo fun s hs => ?_
    rw [uIoo_of_le htt] at hs
    exact (hc s hs).symm
  have hval : ∫ s in t..t', rate s = (t' - t) * r := by
    rw [intervalIntegral.integral_congr_Ioo_of_le htt hc, intervalIntegral.integral_const, smul_eq_mul]
  have hd : 0 ≤ (t' - t) * r := mul_nonneg (sub_nonneg.mpr htt) hr
  refine ⟨hint.trans hint', ?_⟩
  rw [left, left, ← intervalIntegral.integral_add_adjacent_intervals hint hint', hval]
  rcases le_total (1 - ∫ s in start..t, rate s) 0 with hx | hx
  · rw [max_eq_left hx, max_eq_left (by linarith), max_eq_left (by linarith)]
  · rw [max_eq_right hx, sub_sub]

end Meter
