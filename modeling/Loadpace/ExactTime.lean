import Mathlib
import Loadpace.Exact
import Loadpace.Gcra

/-!
# Exact time

The nonnegative reals, in seconds, in the place of durations and of instants on a clock without an end, and the reals in
the place of floats. No sum saturates (`saturatingAdd_exactTime`); a rate has an interval when it is positive and the
interval is a duration (`rateToInterval_exactTime`); and a change of rate keeps the phase of the pacer exactly
(`Gcra.setRate_phase`).
-/

namespace Loadpace

open scoped NNReal

noncomputable instance : Time ℝ≥0 where
  fromNanos n := n / 1000000000
  asNanos d := ⌊d * 1000000000⌋₊
  divNat d n := d / n
  durationMax := 18446744073709551615999999999 / 1000000000
  room _ := none
  fromNanos_zero := by simp
  fromNanos_mono m n h := by
    show (m : ℝ≥0) / 1000000000 ≤ n / 1000000000
    gcongr
  asNanos_mono a b h := by
    show ⌊a * 1000000000⌋₊ ≤ ⌊b * 1000000000⌋₊
    exact Nat.floor_mono (by gcongr)
  asNanos_fromNanos n := by
    rw [div_mul_cancel₀ _ (by norm_num)]
    exact Nat.floor_natCast n
  asNanos_durationMax := by
    rw [div_mul_cancel₀ _ (by norm_num)]
    exact Nat.floor_natCast 18446744073709551615999999999
  room_add _ _ := rfl
  fromNanos_asNanos _ _ h := by cases h

noncomputable instance : Powers ℝ where
  exp2 x := ((2 : ℕ) : ℝ) ^ x
  powf x y := x ^ y

noncomputable instance : Secs ℝ≥0 ℝ where
  asSecsF64 d := d
  tryFromSecsF64 x := if 0 ≤ x ∧ x.toNNReal ≤ durationMax then some x.toNNReal else none

theorem fromSecs_exactTime (n : ℕ) : (fromSecs n : ℝ≥0) = n := by
  show ((n * 1000000000 : ℕ) : ℝ≥0) / 1000000000 = n
  rw [Nat.cast_mul]
  exact mul_div_cancel_right₀ _ (by norm_num)

theorem saturatingAdd_exactTime (t d : ℝ≥0) : saturatingAdd t d = t + d := saturatingAdd_none rfl d

theorem tryFromSecs_some {x : ℝ} {d : ℝ≥0} (h : tryFromSecsF64 x = some d) : (d : ℝ) = x ∧ d ≤ durationMax := by
  have h : (if 0 ≤ x ∧ x.toNNReal ≤ durationMax then some x.toNNReal else none) = some d := h
  split at h
  · rename_i hx
    obtain rfl : x.toNNReal = d := Option.some.inj h
    exact ⟨Real.coe_toNNReal x hx.1, hx.2⟩
  · cases h

/-- The interval of a rate. -/
theorem rateToInterval_exactTime {rate : ℝ} {interval : ℝ≥0} (h : rateToInterval rate = some interval) :
    0 < rate ∧ (interval : ℝ) = max (1 / rate) (1 / 1000000000) ∧ interval ≤ durationMax := by
  unfold rateToInterval at h
  split at h
  · rename_i hr
    have hr : (0.0 : ℝ) < rate := hr.2
    norm_num at hr
    dsimp only at h
    split at h
    · rename_i d hd
      obtain ⟨hval, hmax⟩ := tryFromSecs_some hd
      have hval : (d : ℝ) = (1.0 : ℝ) / rate := hval
      have hone : (1.0 : ℝ) = 1 := by norm_num
      rw [hone] at hval
      obtain rfl : max d (Time.fromNanos 1) = interval := Option.some.inj h
      have hnano : ((Time.fromNanos 1 : ℝ≥0) : ℝ) = 1 / 1000000000 := by
        show (((1 : ℕ) / 1000000000 : ℝ≥0) : ℝ) = 1 / 1000000000
        norm_num
      refine ⟨hr, by rw [NNReal.coe_max, hval, hnano], max_le hmax ?_⟩
      show ((1 : ℕ) : ℝ≥0) / 1000000000 ≤ 18446744073709551615999999999 / 1000000000
      gcongr
      norm_num
    · cases h
  · cases h

/-- A rate of at least one in the longest duration has an interval. -/
theorem rateToInterval_isSome {rate : ℝ} (h0 : 0 < rate) (h : 1 ≤ ((durationMax : ℝ≥0) : ℝ) * rate) :
    ∃ interval : ℝ≥0, rateToInterval rate = some interval := by
  have hone : (1.0 : ℝ) / rate = 1 / rate := by norm_num
  have hfinite : F64.isFinite rate = true ∧ (0.0 : ℝ) < rate := ⟨rfl, by norm_num; exact h0⟩
  have hle : (1 / rate).toNNReal ≤ durationMax := by
    rw [Real.toNNReal_le_iff_le_coe, div_le_iff₀ h0]
    exact h
  have htry : (tryFromSecsF64 (1 / rate) : Option ℝ≥0) = some (1 / rate).toNNReal := if_pos ⟨(one_div_pos.mpr h0).le, hle⟩
  refine ⟨max (1 / rate).toNNReal (Time.fromNanos 1), ?_⟩
  unfold rateToInterval
  rw [if_pos hfinite]
  dsimp only
  rw [hone, htry]

/-- A number of seconds, up to the longest duration. -/
theorem durationFromSecs_exactTime {x : ℝ} (h0 : 0 ≤ x) :
    (durationFromSecsSaturating x : ℝ≥0) = min x.toNNReal durationMax := by
  unfold durationFromSecsSaturating
  split
  · rename_i hx
    have hx : x ≤ (0.0 : ℝ) := hx.resolve_left (by rintro ⟨⟩)
    norm_num at hx
    rw [le_antisymm hx h0, Real.toNNReal_zero, min_eq_left zero_le]
  · split
    · rename_i hx
      exact absurd rfl hx
    · by_cases hmax : x.toNNReal ≤ durationMax
      · have htry : (tryFromSecsF64 x : Option ℝ≥0) = some x.toNNReal := if_pos ⟨h0, hmax⟩
        rw [htry, min_eq_left hmax]
      · have htry : (tryFromSecsF64 x : Option ℝ≥0) = none := if_neg fun h => hmax h.2
        rw [htry, min_eq_right (not_le.mp hmax).le]

namespace Gcra

/-- How much of the interval is left before the next slot. -/
noncomputable def phase (g : Gcra ℝ≥0) (now : ℝ≥0) : ℝ := ((g.nextAt now - now : ℝ≥0) : ℝ) / g.interval

theorem nextAt_sub (g : Gcra ℝ≥0) (now : ℝ≥0) : g.nextAt now - now = g.tat - now := by
  rcases le_total g.tat now with h | h
  · rw [nextAt, max_eq_right h, tsub_self, tsub_eq_zero_of_le h]
  · rw [nextAt, max_eq_left h]

theorem phase_eq (g : Gcra ℝ≥0) (now : ℝ≥0) : g.phase now = max 0 (((g.tat : ℝ) - now) / g.interval) := by
  rw [phase, nextAt_sub, NNReal.coe_sub_def, max_comm, ← max_div_div_right g.interval.coe_nonneg, zero_div]

theorem phase_nonneg (g : Gcra ℝ≥0) (now : ℝ≥0) : 0 ≤ g.phase now := by
  rw [phase_eq]
  exact le_max_left _ _

/-- The next slot is due when nothing is left. -/
theorem phase_eq_zero {g : Gcra ℝ≥0} {now : ℝ≥0} (hI : 0 < g.interval) : g.phase now = 0 ↔ g.tat ≤ now := by
  have hI : (0 : ℝ) < g.interval := hI
  rw [phase_eq, max_eq_left_iff, div_nonpos_iff]
  constructor
  · rintro (⟨-, h⟩ | ⟨h, -⟩)
    · exact absurd hI (not_lt.mpr h)
    · exact NNReal.coe_le_coe.mp (sub_nonpos.mp h)
  · intro h
    exact Or.inr ⟨sub_nonpos.mpr (NNReal.coe_le_coe.mpr h), hI.le⟩

/-- The phase falls at the rate of the pacer, down to zero. -/
theorem phase_later (g : Gcra ℝ≥0) {now later : ℝ≥0} (h : now ≤ later) :
    g.phase later = max 0 (g.phase now - ((later : ℝ) - now) * (g.interval : ℝ)⁻¹) := by
  have hd : 0 ≤ ((later : ℝ) - now) * (g.interval : ℝ)⁻¹ :=
    mul_nonneg (sub_nonneg.mpr (NNReal.coe_le_coe.mpr h)) (inv_nonneg.mpr g.interval.coe_nonneg)
  have hsplit : ((g.tat : ℝ) - later) / g.interval =
      ((g.tat : ℝ) - now) / g.interval - ((later : ℝ) - now) * (g.interval : ℝ)⁻¹ := by
    rw [div_eq_mul_inv, div_eq_mul_inv]
    ring
  rw [phase_eq, phase_eq, hsplit]
  rcases le_total (((g.tat : ℝ) - now) / g.interval) 0 with hx | hx
  · rw [max_eq_left hx, max_eq_left (by linarith), max_eq_left (by linarith)]
  · rw [max_eq_right hx]

theorem phase_le_one_later (g : Gcra ℝ≥0) {now later : ℝ≥0} (h : now ≤ later) (hp : g.phase now ≤ 1) :
    g.phase later ≤ 1 := by
  have hd : 0 ≤ ((later : ℝ) - now) * (g.interval : ℝ)⁻¹ :=
    mul_nonneg (sub_nonneg.mpr (NNReal.coe_le_coe.mpr h)) (inv_nonneg.mpr g.interval.coe_nonneg)
  rw [g.phase_later h]
  exact max_le zero_le_one (by linarith)

/-- A change of rate scales the rest of the phase to the new interval, up to the longest duration. -/
theorem setRate_scaled {g g' : Gcra ℝ≥0} {rate : ℝ} {now : ℝ≥0} (h : g.setRate rate now = some g') :
    0 < g'.interval ∧ g'.interval ≤ durationMax ∧
      (g' = g ∨ g'.phase now = min (g.phase now) (((durationMax : ℝ≥0) : ℝ) / g'.interval)) := by
  obtain ⟨hi, hcases⟩ := setRate_cases h
  obtain ⟨-, hval, hmax⟩ := rateToInterval_exactTime hi
  have hpos : (0 : ℝ) < g'.interval := by
    rw [hval]
    exact lt_max_of_lt_right (by norm_num)
  refine ⟨hpos, hmax, ?_⟩
  rcases hcases with rfl | ⟨-, heq⟩
  · exact Or.inl rfl
  · have hphase : ((g.tat - now : ℝ≥0) : ℝ) / g.interval = g.phase now := by rw [phase, nextAt_sub]
    have htat : g'.tat = now + durationFromSecsSaturating (g.phase now * (g'.interval : ℝ)) := by
      rw [heq, ← hphase]
      exact saturatingAdd_exactTime _ _
    have h0 : 0 ≤ g.phase now * g'.interval := mul_nonneg (g.phase_nonneg now) hpos.le
    right
    rw [phase_eq, htat, durationFromSecs_exactTime h0, NNReal.coe_add, NNReal.coe_min, Real.coe_toNNReal _ h0,
      add_sub_cancel_left, ← min_div_div_right hpos.le, mul_div_cancel_right₀ _ hpos.ne', max_eq_right]
    exact le_min (g.phase_nonneg now) (div_nonneg (NNReal.coe_nonneg _) hpos.le)

/-- **A change of rate keeps the phase**, up to one interval. -/
theorem setRate_phase {g g' : Gcra ℝ≥0} {rate : ℝ} {now : ℝ≥0} (h : g.setRate rate now = some g') :
    0 < g'.interval ∧ min 1 (g.phase now) ≤ g'.phase now ∧ (g.phase now ≤ 1 → g'.phase now = g.phase now) := by
  obtain ⟨hpos, hmax, rfl | hscaled⟩ := setRate_scaled h
  · exact ⟨hpos, min_le_right _ _, fun _ => rfl⟩
  · have hone : 1 ≤ ((durationMax : ℝ≥0) : ℝ) / g'.interval := (one_le_div hpos).mpr (NNReal.coe_le_coe.mpr hmax)
    refine ⟨hpos, ?_, fun hp => ?_⟩
    · exact (le_min (min_le_right _ _) ((min_le_left _ _).trans hone)).trans hscaled.ge
    · exact hscaled.trans (min_eq_left (hp.trans hone))

/-- A slower rate moves a slot that is ahead further ahead, and only then. -/
theorem setRate_slower {g g' : Gcra ℝ≥0} {rate : ℝ} {now : ℝ≥0} (h : g.setRate rate now = some g') (hI : 0 < g.interval)
    (hp : g.phase now ≤ 1) (ht : now < g.tat) (hle : g.interval ≤ g'.interval) :
    g' = g ∨ (g.interval < g'.interval ∧ g.tat < g'.tat) := by
  rcases hle.eq_or_lt with heq | hlt
  · exact Or.inl (setRate_same h heq.symm)
  · refine Or.inr ⟨hlt, ?_⟩
    have hI : (0 : ℝ) < g.interval := hI
    have hlt : (g.interval : ℝ) < g'.interval := NNReal.coe_lt_coe.mpr hlt
    have hleft : (0 : ℝ) < g.tat - now := sub_pos.mpr (NNReal.coe_lt_coe.mpr ht)
    have hpos : 0 < ((g.tat : ℝ) - now) / g.interval := div_pos hleft hI
    have hphase := (setRate_phase h).2.2 hp
    rw [phase_eq, phase_eq, max_eq_right hpos.le] at hphase
    have hphase : ((g'.tat : ℝ) - now) / g'.interval = ((g.tat : ℝ) - now) / g.interval := by
      rcases max_choice 0 (((g'.tat : ℝ) - now) / g'.interval) with h0 | h0
      · rw [h0] at hphase
        exact absurd hphase hpos.ne
      · rw [← hphase, h0]
    rw [div_eq_div_iff (hI.trans hlt).ne' hI.ne'] at hphase
    have hmul : ((g.tat : ℝ) - now) * g.interval < (g'.tat - now) * g.interval := by
      rw [hphase]
      exact mul_lt_mul_of_pos_left hlt hleft
    have hsub := lt_of_mul_lt_mul_right hmul hI.le
    have hreal : (g.tat : ℝ) < g'.tat := by linarith
    exact NNReal.coe_lt_coe.mp hreal

/-- The pacer is no faster than its rate. -/
theorem setRate_interval {g g' : Gcra ℝ≥0} {rate : ℝ} {now : ℝ≥0} (h : g.setRate rate now = some g') :
    (g'.interval : ℝ)⁻¹ ≤ rate := by
  obtain ⟨hrate, hval, -⟩ := rateToInterval_exactTime (setRate_cases h).1
  rw [hval]
  exact inv_le_of_inv_le₀ hrate ((one_div rate ▸ le_max_left _ _ : rate⁻¹ ≤ max (1 / rate) (1 / 1000000000)))

/-- A dispatch that is due takes one interval. -/
theorem commit_phase {g : Gcra ℝ≥0} {now : ℝ≥0} (hI : 0 < g.interval) (h : g.tat ≤ now) :
    (g.commit now).phase now = 1 := by
  have hI' : (0 : ℝ) < g.interval := hI
  have htat : (g.commit now).tat = now + g.interval := by
    rw [commit, nextAt, max_eq_right h, saturatingAdd_exactTime]
  have hint : (g.commit now).interval = g.interval := rfl
  rw [phase_eq, htat, hint, NNReal.coe_add, add_sub_cancel_left, div_self hI'.ne', max_eq_right zero_le_one]

end Gcra

end Loadpace
