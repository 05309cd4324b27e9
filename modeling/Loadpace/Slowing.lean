import Loadpace.Repeat

/-!
# Time alone does not bring a slot forward

Between two probe transitions time only lets the rate decay. In every arithmetic whose operations round monotonically
(`SlowingLaws`) the interval then does not shrink (`interval_later`), and a slot that is ahead stays ahead (`setRate_ahead`):
a queue head that waits is not ready before the instant at which it is told to check again (`check_waits`).
-/

namespace Loadpace

open EndpointController

/-! ## What is asked of the arithmetic -/

/-- The operations round monotonically, where they do not yield a number that is not finite; and a positive time that is
stretched stays positive. -/
class SlowingLaws (T F : Type) [AddCommMonoid T] [LinearOrder T] [Sub T] [Time T] [F64 F] [Secs T F] : Prop where
  one_nonneg : (0.0 : F) ≤ 1.0
  decay_nonneg : ∀ a b : T, a ≠ 0 → (0.0 : F) ≤ F64.exp2 (-(asSecsF64 a / asSecsF64 b))
  decay_le_one : ∀ a b : T, a ≠ 0 → (F64.exp2 (-(asSecsF64 a / asSecsF64 b)) : F) ≤ 1.0
  decay_antitone : ∀ a a' b : T, a ≠ 0 → a ≤ a' →
    (F64.exp2 (-(asSecsF64 a' / asSecsF64 b)) : F) ≤ F64.exp2 (-(asSecsF64 a / asSecsF64 b))
  max_mono : ∀ x y z : F, x ≤ y → F64.max x z ≤ F64.max y z
  max_le : ∀ x y z : F, x ≤ z → y ≤ z → F64.max x y ≤ z
  max_nonneg : ∀ x y : F, 0.0 ≤ x → 0.0 ≤ F64.max x y
  min_le_one : ∀ x : F, F64.min x 1.0 ≤ 1.0
  mul_mono : ∀ x y z : F, F64.isFinite (x * z) → 0.0 < x * z → 0.0 ≤ z → y ≤ z → x * y ≤ x * z
  recip_antitone : ∀ x y : F, 0.0 < x → x ≤ y → 1.0 / y ≤ 1.0 / x
  tryFromSecsF64_mono : ∀ (x y : F) (a b : T), x ≤ y → tryFromSecsF64 x = some a → tryFromSecsF64 y = some b → a ≤ b
  tryFromSecsF64_le : ∀ (x : F) (d : T), tryFromSecsF64 x = some d → d ≤ durationMax
  stretch_pos : ∀ d i i' : T, 0 < d → 0 < i → i ≤ i' →
    0 < (durationFromSecsSaturating (asSecsF64 d / asSecsF64 i * asSecsF64 i' : F) : T)

/-! ## The interval and the slot -/

section

variable {T F R : Type} [AddCommMonoid T] [LinearOrder T] [Sub T] [Time T] [F64 F] [Secs T F] [Rng R F]
variable {c c' m : EndpointController T F R} {r : DispatchReservation} {now s t : T}

omit [Rng R F] in
/-- The longer the silence, the stronger the decay. -/
theorem feedbackFactor_later [SlowingLaws T F] (c : EndpointController T F R) (rate : F) (h : now ≤ s) :
    0.0 ≤ c.feedbackFactor now rate ∧
      (c.feedbackFactor s rate = c.feedbackFactor now rate ∨ c.feedbackFactor s rate ≤ c.feedbackFactor now rate) := by
  unfold feedbackFactor
  cases c.feedbackEpoch with
  | none => exact ⟨SlowingLaws.one_nonneg T, Or.inl rfl⟩
  | some epoch =>
    dsimp only
    have hexcess : now - epoch.lastFeedbackAt - epoch.expectedRtt ≤ s - epoch.lastFeedbackAt - epoch.expectedRtt :=
      tsub_le_tsub_right (tsub_le_tsub_right h _) _
    generalize now - epoch.lastFeedbackAt - epoch.expectedRtt = a at hexcess
    generalize s - epoch.lastFeedbackAt - epoch.expectedRtt = a' at hexcess
    by_cases ha : a = 0
    · rw [if_pos ha]
      refine ⟨SlowingLaws.one_nonneg T, ?_⟩
      by_cases ha' : a' = 0
      · rw [if_pos ha']
        exact Or.inl rfl
      · rw [if_neg ha']
        exact Or.inr (SlowingLaws.max_le T _ _ _ (SlowingLaws.decay_le_one _ _ ha') (SlowingLaws.min_le_one T _))
    · have ha' : a' ≠ 0 := fun hz => ha (le_zero_iff.mp (hz ▸ hexcess))
      rw [if_neg ha, if_neg ha']
      have hanti := SlowingLaws.decay_antitone (F := F) a a' epoch.expectedRtt ha hexcess
      refine ⟨SlowingLaws.max_nonneg T _ _ ?_, Or.inr (SlowingLaws.max_mono T _ _ _ hanti)⟩
      exact SlowingLaws.decay_nonneg _ _ ha

theorem durationFromSecs_le [SlowingLaws T F] (x : F) : (durationFromSecsSaturating x : T) ≤ durationMax := by
  unfold durationFromSecsSaturating
  split
  · exact zero_le
  · split
    · exact le_rfl
    · split
      · rename_i d hd
        exact SlowingLaws.tryFromSecsF64_le x d hd
      · exact le_rfl

/-- A rate that has an interval is finite and positive. -/
theorem rateToInterval_cases {rate : F} {interval : T} (h : rateToInterval rate = some interval) :
    F64.isFinite rate = true ∧ (0.0 : F) < rate ∧
      ∃ d, tryFromSecsF64 (1.0 / rate) = some d ∧ interval = max d (Time.fromNanos 1) := by
  unfold rateToInterval at h
  dsimp only at h
  split at h
  · rename_i hrate
    split at h
    · rename_i d hd
      exact ⟨hrate.1, hrate.2, d, hd, (Option.some.inj h).symm⟩
    · cases h
  · cases h

/-- A lower rate has a longer interval. -/
theorem rateToInterval_antitone [SlowingLaws T F] {rate rate' : F} {i i' : T} (h : rate' ≤ rate)
    (hi : rateToInterval rate = some i) (hi' : rateToInterval rate' = some i') : i ≤ i' := by
  obtain ⟨-, -, d, hd, rfl⟩ := rateToInterval_cases hi
  obtain ⟨-, hpos, d', hd', rfl⟩ := rateToInterval_cases hi'
  exact max_le_max_right _ (SlowingLaws.tryFromSecsF64_mono _ _ _ _ (SlowingLaws.recip_antitone T _ _ hpos h) hd hd')

omit [Rng R F] in
/-- **Between two probe transitions the interval does not shrink.** -/
theorem interval_later [SlowingLaws T F] {i i' : T} (hactive : c.probe.active s = c.probe.active now) (hle : now ≤ s)
    (hi : rateToInterval (c.rateAt now) = some i) (hi' : rateToInterval (c.rateAt s) = some i') : i ≤ i' := by
  obtain ⟨hfinite, hpos, -⟩ := rateToInterval_cases hi
  rw [rateAt_probed] at hfinite hpos
  have hs : c.rateAt s = c.probedRateAt now * c.feedbackFactor s (c.probedRateAt now) := by
    rw [rateAt_probed, probedRateAt_congr hactive]
  obtain ⟨hfactor, heq | hlower⟩ := feedbackFactor_later c (c.probedRateAt now) hle
  · rw [hs, heq, ← rateAt_probed] at hi'
    exact (Option.some.inj (hi.symm.trans hi')).le
  · refine rateToInterval_antitone ?_ hi hi'
    rw [hs, rateAt_probed]
    exact SlowingLaws.mul_mono T _ _ _ hfinite hpos hfactor hlower

/-- A longer interval leaves a slot that is ahead ahead. -/
theorem setRate_ahead [SlowingLaws T F] {g g' : Gcra T} {rate : F} (h : g.setRate rate now = some g') (hI : 0 < g.interval)
    (hle : g.interval ≤ g'.interval) (hin : Inside now) (ht : now < g.tat) : now < g'.tat := by
  obtain ⟨-, rfl | ⟨-, heq⟩⟩ := Gcra.setRate_cases h
  · exact ht
  · rw [heq]
    exact hin.lt (SlowingLaws.stretch_pos _ _ _ (tsub_pos_of_lt ht) hI hle) (durationFromSecs_le _)

omit [AddCommMonoid T] [Sub T] [Time T] [F64 F] [Secs T F] [Rng R F] in
/-- The next check is later when the slot is ahead and no probe transition falls due. -/
theorem lt_recheckAt_iff {slot : T} : s < c.recheckAt slot ↔ s < slot ∧ c.Undisturbed s := by
  unfold recheckAt Undisturbed
  cases c.nextDispatchRefreshAt with
  | none => exact ⟨fun h => ⟨h, fun u hu => by cases hu⟩, And.left⟩
  | some u =>
    refine lt_min_iff.trans (and_congr_right fun _ => ⟨fun h v hv => Option.some.inj hv ▸ h, fun h => h u rfl⟩)

/-- A head that a controller at rest tells to wait has its slot at the committed TAT. -/
theorem wait_slot (hl : c.Lazy now) (hidle : c.refresh now = some c)
    (hw : c.dispatchState r now = some (.waitUntil t, c)) : t = c.recheckAt c.pacer.tat := by
  obtain ⟨-, m, front, rest, hm, hp, -, -, hslot, ht, hc⟩ := waitUntil_cases hw
  obtain rfl : m = c := Option.some.inj (hm.symm.trans hidle)
  have hhead : front.scheduledAt = m.pacer.nextAt now := (refresh_settled hl le_rfl hidle).head hp
  rw [hhead] at hslot ht
  rw [← hc] at ht
  rw [ht, Gcra.nextAt, max_eq_left ((lt_max_iff.mp hslot).resolve_right (lt_irrefl now)).le]

/-- **A head that waits is not ready** before the instant at which it is told to check again. -/
theorem check_waits [SlowingLaws T F] (hl : c.Lazy now) (hidle : c.refresh now = some c)
    (hw : c.dispatchState r now = some (.waitUntil t, c)) (hle : now ≤ s) (hst : s < t) (hin : Inside s) :
    c.dispatchState r s ≠ some (.ready, m) := by
  intro hready
  obtain ⟨hahead, hu⟩ := lt_recheckAt_iff.mp (wait_slot hl hidle hw ▸ hst)
  have hscheduled : c.Scheduled := fun hd hnone hne => by
    obtain ⟨t, ht, -⟩ := refresh_scheduled hidle hd hnone
    rw [hne] at ht
    cases ht
  have hnow : c.Undisturbed now := fun u hu' => hle.trans_lt (hu u hu')
  -- the rate at `now` is in force
  have hi := (Gcra.setRate_cases (hnow.refresh hscheduled hidle).2.2).1
  obtain ⟨-, hrefresh, front, rest, hp, -, -, hdue⟩ := ready_cases hready
  have hset := (hu.refresh hscheduled hrefresh).2.2
  have hslower := interval_later (hu.active.trans hnow.active.symm) hle hi (Gcra.setRate_cases hset).1
  have hlater := setRate_ahead hset (rateToInterval_pos hi) hslower hin hahead
  exact absurd ((le_max_left _ _).trans ((refresh_head hrefresh hp).trans hdue)) (not_le.mpr hlater)

end

/-! ## Two arithmetics -/

/-- Arithmetic that does not round: what is left is asked of the powers and the conversions. -/
theorem exact_slowingLaws {T F : Type} [AddCommMonoid T] [LinearOrder T] [Sub T] [Time T] [Field F] [LinearOrder F]
    [IsStrictOrderedRing F] [Powers F] [Secs T F] (hmono : Monotone (Powers.exp2 : F → F)) (hzero : Powers.exp2 (0 : F) ≤ 1)
    (hnonneg : ∀ x : F, 0 ≤ Powers.exp2 x) (hsecs : Monotone (asSecsF64 : T → F)) (hsecs0 : ∀ d : T, (0 : F) ≤ asSecsF64 d)
    (htry : ∀ (x y : F) (a b : T), x ≤ y → tryFromSecsF64 x = some a → tryFromSecsF64 y = some b → a ≤ b)
    (hle : ∀ (x : F) (d : T), tryFromSecsF64 x = some d → d ≤ durationMax)
    (hstretch : ∀ d i i' : T, 0 < d → 0 < i → i ≤ i' →
      0 < (durationFromSecsSaturating (asSecsF64 d / asSecsF64 i * asSecsF64 i' : F) : T)) : SlowingLaws T F := by
  have hone : (1.0 : F) = 1 := by norm_num
  have hz : (0.0 : F) = 0 := by norm_num
  refine {
    one_nonneg := ?_
    decay_nonneg := fun a b _ => ?_
    decay_le_one := fun a b _ => ?_
    decay_antitone := fun a a' b _ h => ?_
    max_mono := fun x y z h => ?_
    max_le := fun x y z hx hy => ?_
    max_nonneg := fun x y h => ?_
    min_le_one := fun x => ?_
    mul_mono := fun x y z _ hpos hz' h => ?_
    recip_antitone := fun x y hx h => ?_
    tryFromSecsF64_mono := htry
    tryFromSecsF64_le := hle
    stretch_pos := hstretch }
  · show (0.0 : F) ≤ 1.0
    rw [hone, hz]
    exact zero_le_one
  · show (0.0 : F) ≤ Powers.exp2 _
    rw [hz]
    exact hnonneg _
  · show Powers.exp2 (-(asSecsF64 a / asSecsF64 b) : F) ≤ 1.0
    rw [hone]
    exact (hmono (neg_nonpos.mpr (div_nonneg (hsecs0 a) (hsecs0 b)))).trans hzero
  · exact hmono (neg_le_neg (div_le_div_of_nonneg_right (hsecs h) (hsecs0 b)))
  · exact max_le_max_right z h
  · exact max_le hx hy
  · exact le_max_of_le_left h
  · exact min_le_right x _
  · have hpos : (0.0 : F) < x * z := hpos
    have hz' : (0.0 : F) ≤ z := hz'
    rw [hz] at hpos hz'
    exact mul_le_mul_of_nonneg_left h (pos_of_mul_pos_left hpos hz').le
  · have hx : (0.0 : F) < x := hx
    rw [hz] at hx
    show (1.0 : F) / y ≤ 1.0 / x
    rw [hone]
    exact one_div_le_one_div_of_le hx h

open scoped NNReal in
instance exactTimeSlowingLaws : SlowingLaws ℝ≥0 ℝ := by
  refine exact_slowingLaws ?_ ?_ ?_ NNReal.coe_mono NNReal.coe_nonneg ?_ ?_ ?_
  · intro x y h
    show ((2 : ℕ) : ℝ) ^ x ≤ ((2 : ℕ) : ℝ) ^ y
    exact Real.rpow_le_rpow_of_exponent_le (by norm_num) h
  · show ((2 : ℕ) : ℝ) ^ (0 : ℝ) ≤ 1
    rw [Real.rpow_zero]
  · intro x
    show 0 ≤ ((2 : ℕ) : ℝ) ^ x
    positivity
  · intro x y a b h ha hb
    rw [← NNReal.coe_le_coe, (tryFromSecs_some ha).1, (tryFromSecs_some hb).1]
    exact h
  · intro x d h
    exact (tryFromSecs_some h).2
  · intro d i i' hd hi hle
    have hpos : (0 : ℝ) < (d : ℝ) / i * i' :=
      mul_pos (div_pos (NNReal.coe_pos.mpr hd) (NNReal.coe_pos.mpr hi)) (NNReal.coe_pos.mpr (hi.trans_le hle))
    show 0 < (durationFromSecsSaturating ((d : ℝ) / i * i') : ℝ≥0)
    rw [durationFromSecs_exactTime hpos.le]
    exact lt_min (Real.toNNReal_pos.mpr hpos) (NNReal.coe_pos.mp durationMax_pos)

/-- The approximate powers grow. -/
theorem exp2Approx_mono : Monotone exp2Approx := by
  intro x y h
  have hone (f : ℚ) (h0 : 0 ≤ f) : 1 ≤ 1 + f * (33 / 50 + f * (17 / 50)) := by nlinarith
  have htwo (f : ℚ) (h0 : 0 ≤ f) (h1 : f < 1) : 1 + f * (33 / 50 + f * (17 / 50)) ≤ 2 := by nlinarith
  have hx0 := Int.fract_nonneg x
  have hx1 := Int.fract_lt_one x
  have hy0 := Int.fract_nonneg y
  unfold exp2Approx
  dsimp only
  rcases (Int.floor_le_floor h).lt_or_eq with hlt | heq
  · -- the power doubles before the next whole number
    have hstep : (2 : ℚ) ^ ⌊x⌋ * 2 ≤ 2 ^ ⌊y⌋ := by
      rw [← zpow_add_one₀ (by norm_num)]
      exact zpow_le_zpow_right₀ (by norm_num) hlt
    have hpos : (0 : ℚ) < 2 ^ ⌊x⌋ := by positivity
    calc (2 : ℚ) ^ ⌊x⌋ * (1 + Int.fract x * (33 / 50 + Int.fract x * (17 / 50)))
        ≤ 2 ^ ⌊x⌋ * 2 := mul_le_mul_of_nonneg_left (htwo _ hx0 hx1) hpos.le
      _ ≤ 2 ^ ⌊y⌋ := hstep
      _ ≤ 2 ^ ⌊y⌋ * (1 + Int.fract y * (33 / 50 + Int.fract y * (17 / 50))) :=
        le_mul_of_one_le_right (by positivity) (hone _ hy0)
  · have hfract : Int.fract x ≤ Int.fract y := by
      unfold Int.fract
      rw [heq]
      exact sub_le_sub_right h _
    rw [heq]
    refine mul_le_mul_of_nonneg_left ?_ (by positivity)
    nlinarith

theorem machineTryFromSecs_some {x : ℚ} {d : ℕ} (h : tryFromSecsF64 x = some d) :
    0 ≤ x ∧ ⌊x * 1000000000 + 1 / 2⌋ ≤ 18446744073709551615999999999 ∧ d = ⌊x * 1000000000 + 1 / 2⌋.toNat := by
  have h : (if 0 ≤ x ∧ ⌊x * 1000000000 + 1 / 2⌋ ≤ 18446744073709551615999999999 then
    some ⌊x * 1000000000 + 1 / 2⌋.toNat else none) = some d := h
  split at h
  · rename_i hx
    exact ⟨hx.1, hx.2, (Option.some.inj h).symm⟩
  · cases h

instance machineSlowingLaws : SlowingLaws ℕ ℚ := by
  have hsecs (d : ℕ) : (asSecsF64 d : ℚ) = d / 1000000000 := rfl
  refine exact_slowingLaws exp2Approx_mono ?_ ?_ ?_ ?_ ?_ ?_ ?_
  · show exp2Approx 0 ≤ 1
    decide +kernel
  · intro x
    show 0 ≤ exp2Approx x
    have hx := Int.fract_nonneg x
    unfold exp2Approx
    dsimp only
    positivity
  · intro a b h
    rw [hsecs, hsecs]
    have h : (a : ℚ) ≤ b := Nat.cast_le.mpr h
    linarith
  · intro d
    rw [hsecs]
    positivity
  · intro x y a b h ha hb
    obtain ⟨-, -, rfl⟩ := machineTryFromSecs_some ha
    obtain ⟨-, -, rfl⟩ := machineTryFromSecs_some hb
    exact Int.toNat_le_toNat (Int.floor_le_floor (by linarith))
  · intro x d h
    obtain ⟨-, hle, rfl⟩ := machineTryFromSecs_some h
    exact Int.toNat_le.mpr hle
  · intro d i i' hd hi hle
    -- at least the nanosecond that was left
    have hstretched : (1 : ℚ) / 1000000000 ≤ (d : ℚ) / 1000000000 / (i / 1000000000) * (i' / 1000000000) := by
      have hd : (1 : ℚ) ≤ d := Nat.one_le_cast.mpr hd
      have hi : (0 : ℚ) < i := Nat.cast_pos.mpr hi
      have hle : (i : ℚ) ≤ i' := Nat.cast_le.mpr hle
      rw [div_div_div_cancel_right₀ (by norm_num), ← mul_div_assoc]
      refine div_le_div_of_nonneg_right ?_ (by norm_num)
      rw [div_mul_eq_mul_div, le_div_iff₀ hi]
      nlinarith
    show 0 < (durationFromSecsSaturating ((d : ℚ) / 1000000000 / (i / 1000000000) * (i' / 1000000000)) : ℕ)
    generalize (d : ℚ) / 1000000000 / (i / 1000000000) * (i' / 1000000000) = x at hstretched
    have hpos : ¬(F64.isNan x = true ∨ x ≤ 0.0) := by
      rintro (hnan | hle)
      · cases hnan
      · have hle : x ≤ (0.0 : ℚ) := hle
        norm_num at hle
        linarith
    have hfinite : ¬¬F64.isFinite x = true := not_not.mpr rfl
    unfold durationFromSecsSaturating
    rw [if_neg hpos, if_neg hfinite]
    cases ht : (tryFromSecsF64 x : Option ℕ) with
    | none => decide
    | some n =>
      obtain ⟨-, -, rfl⟩ := machineTryFromSecs_some ht
      refine Int.lt_toNat.mpr (Int.floor_pos.mpr ?_)
      linarith

end Loadpace
