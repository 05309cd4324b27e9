import Loadpace.Deadline

/-!
# Which rates are representable

The decay of a rate has a floor, so what decides whether the interval of a rate is a duration is the rate before its decay
(`decayed_representable`): the operating point over the round-trip estimate, as a probe leaves it. Failures lower the operating
point down to a quarter and a negative probe lowers it further, and no floor holds there, so a long estimate can outrun them
(`Tuned.representable`). `pacing_rate_representable` says of every call of every history when it does.
-/

namespace Loadpace

open Systems EndpointController

open scoped NNReal

/-! ## The rate before its decay -/

section

variable {R : Type} {c m : EndpointController ℝ≥0 ℝ R} {now : ℝ≥0}

/-- The operating point, as the probe leaves it, paces the round-trip estimate with an interval that is a duration. -/
def EndpointController.Sustained (m : EndpointController ℝ≥0 ℝ R) (now : ℝ≥0) : Prop :=
  match (m.probe.active now).current with
  | none => (m.latency.expectedRtt : ℝ) ≤ ((durationMax : ℝ≥0) : ℝ) * m.gradient.concurrency
  | some { kind := .positive _, .. } => True
  | some { kind := .negative factor, .. } =>
    (m.latency.expectedRtt : ℝ) ≤ ((durationMax : ℝ≥0) : ℝ) * (m.gradient.concurrency * factor)

/-- What the constructors check and every call keeps. -/
structure Tuned (c : EndpointController ℝ≥0 ℝ R) : Prop where
  gradient : c.gradient.Valid
  least : c.gradient.config.minConcurrency = (0.25 : ℝ)
  minRtt : 0 < c.latency.config.minRtt
  weight_pos : 0 < c.latency.config.longAlpha
  weight_le : c.latency.config.longAlpha ≤ 1
  probe : ∀ probe, c.probe.current = some probe → (ProbeSchedule.default : ProbeSchedule ℝ≥0 ℝ).Starts probe.kind

theorem expectedRtt_exactTime (l : LatencyEstimator ℝ≥0 ℝ) :
    l.expectedRtt = min (max l.long (l.config.minRtt : ℝ)).toNNReal durationMax :=
  durationFromSecs_exactTime ((NNReal.coe_nonneg _).trans (le_max_right _ _))

/-- **When the rate of a call has an interval.** -/
theorem Tuned.representable (h : Tuned m) (now : ℝ≥0) :
    (0 < m.rateAt now ∧ 1 / m.rateAt now ≤ ((durationMax : ℝ≥0) : ℝ)) ↔ m.Sustained now := by
  have hrtt : (0 : ℝ) < m.latency.expectedRtt := by
    rw [NNReal.coe_pos, expectedRtt_exactTime]
    have hmin : (0 : ℝ) < m.latency.config.minRtt := NNReal.coe_pos.mpr h.minRtt
    exact lt_min (Real.toNNReal_pos.mpr (hmin.trans_le (le_max_right _ _))) (zero_lt_one.trans_le one_le_durationMax)
  have hconc : 0 < m.gradient.concurrency := h.gradient.min_pos.trans_le h.gradient.min_le
  have hbase : 0 < m.gradient.concurrency / (m.latency.expectedRtt : ℝ) := div_pos hconc hrtt
  have hD := durationMax_pos
  -- the rate before its decay decides
  have decides (hpos : 0 < m.probedRateAt now) : (0 < m.rateAt now ∧ 1 / m.rateAt now ≤ ((durationMax : ℝ≥0) : ℝ)) ↔
      1 ≤ ((durationMax : ℝ≥0) : ℝ) * m.probedRateAt now := by
    have hrate : 0 < m.rateAt now := by
      rw [rateAt_probed]
      exact mul_pos hpos (feedbackFactor_pos m now _)
    rw [div_le_iff₀ hrate, ← decayed_representable m now hpos, ← rateAt_probed]
    exact and_iff_right hrate
  have hover (x : ℝ) : 1 ≤ ((durationMax : ℝ≥0) : ℝ) * (x / (m.latency.expectedRtt : ℝ)) ↔
      (m.latency.expectedRtt : ℝ) ≤ ((durationMax : ℝ≥0) : ℝ) * x := by
    rw [← mul_div_assoc, one_le_div hrtt]
  have hprobed : m.probedRateAt now = (m.probe.effectiveRate (m.gradient.concurrency / (m.latency.expectedRtt : ℝ)) now).1 :=
    rfl
  unfold ProbeState.effectiveRate at hprobed
  dsimp only at hprobed
  unfold Sustained
  cases hc : (m.probe.active now).current with
  | none =>
    rw [hc] at hprobed
    have hprobed : m.probedRateAt now = m.gradient.concurrency / (m.latency.expectedRtt : ℝ) := hprobed
    rw [decides (hprobed ▸ hbase), hprobed]
    exact hover _
  | some probe =>
    have hkind := h.probe probe (ProbeState.active_some hc)
    obtain ⟨kind, expiry⟩ := probe
    rw [hc] at hprobed
    rcases hkind with rfl | rfl
    · -- a positive probe alone paces one request a second
      have hprobed : m.probedRateAt now = m.gradient.concurrency / (m.latency.expectedRtt : ℝ) + (20.0 : ℝ) := hprobed
      have hdelta : (1 : ℝ) ≤ 20.0 := by norm_num
      have hone : (1 : ℝ) ≤ m.probedRateAt now := by
        rw [hprobed]
        linarith
      rw [decides (one_pos.trans_le hone), iff_true]
      exact one_le_mul_of_one_le_of_one_le (NNReal.coe_le_coe.mpr one_le_durationMax) hone
    · have hprobed : m.probedRateAt now = m.gradient.concurrency / (m.latency.expectedRtt : ℝ) * (0.8 : ℝ) := hprobed
      have hfactor : (0 : ℝ) < 0.8 := by norm_num
      rw [decides (hprobed ▸ mul_pos hbase hfactor), hprobed, div_mul_eq_mul_div]
      exact hover _

end

/-! ## What the calls keep -/

section

variable {R : Type} [Rng R ℝ] {c₀ c c' m : EndpointController ℝ≥0 ℝ R} {call : Call ℝ≥0} {e : Entry ℝ≥0 ℝ R}
variable {tr : List (Entry ℝ≥0 ℝ R)} {now bound : ℝ≥0}

omit [Rng R ℝ] in
/-- What `LatencyEstimator::new` checks and makes. -/
theorem newLatency_cases {config : LatencyEstimatorConfig ℝ≥0 ℝ} {l : LatencyEstimator ℝ≥0 ℝ}
    (h : LatencyEstimator.new config = some l) : config.minRtt ≠ 0 ∧ config.minRtt ≤ config.initialRtt ∧
      0 < config.longAlpha ∧ config.longAlpha ≤ 1 ∧ l.config = config ∧ l.long = config.initialRtt := by
  unfold LatencyEstimator.new at h
  simp only [Option.bind_eq_bind, Option.bind_eq_some_iff, Option.guard_eq_some'] at h
  obtain ⟨_, hmin, _, hle, _, -, _, ⟨⟨-, hone⟩, hpos⟩, _, -, h⟩ := h
  cases h
  have hone : config.longAlpha ≤ (1.0 : ℝ) := hone
  have hpos : (0.0 : ℝ) < config.longAlpha := hpos
  norm_num at hone hpos
  exact ⟨hmin, hle, hpos, hone, rfl, rfl⟩

/-- A sample keeps the configuration of the operating point. -/
theorem onRtt_config (g : Gradient2 ℝ≥0 ℝ) (currentRtt baselineRtt : ℝ≥0) (inflight : ℕ) (wasPaced : Bool) (now : ℝ≥0) :
    (g.onRttWithBaselineAt currentRtt baselineRtt inflight wasPaced now).2.config = g.config := by
  unfold Gradient2.onRttWithBaselineAt Gradient2.onRttWithReferenceAt
  dsimp only
  split
  · rfl
  · split
    · rfl
    · rfl

/-- A probe decision starts the probes of the schedule. -/
theorem probeDecision_starts {probe : ProbeState ℝ≥0 ℝ} {rng : R} (hd : c.probeDecision now = some (probe, rng))
    (h : ∀ probe, c.probe.current = some probe → (ProbeSchedule.default : ProbeSchedule ℝ≥0 ℝ).Starts probe.kind) :
    ∀ p, (probe.active now).current = some p → (ProbeSchedule.default : ProbeSchedule ℝ≥0 ℝ).Starts p.kind := by
  intro p hp
  have hp := ProbeState.active_some hp
  unfold probeDecision at hd
  split at hd
  · rcases ProbeSchedule.maybeStart_cases hd with ⟨heq, -, -⟩ | ⟨-, -, _, _, -, -, hnone | ⟨kind, hkind, hsome⟩⟩
    · rw [heq] at hp
      exact h p (ProbeState.active_some hp)
    · rw [hnone] at hp
      cases hp
    · rw [hsome] at hp
      obtain rfl := Option.some.inj hp
      exact hkind
  · obtain ⟨rfl, -⟩ := Prod.mk.inj (Option.some.inj hd)
    exact h p hp

/-- What a call has by the time it comes to `update_rate`. -/
theorem SetsRate.tuned (h : SetsRate c call m now) (ht : Tuned c) : Tuned m := by
  have hfail := (Gradient2.onFailureAt_le ht.gradient now).1
  cases h with
  | read _ _ hd => exact { ht with probe := probeDecision_starts hd ht.probe }
  | check _ _ hd => exact { ht with probe := probeDecision_starts hd ht.probe }
  | @release _ q completion latency _ _ _ _ =>
    cases completion with
    | success =>
      have hg := Gradient2.onRtt_growth ht.gradient (c.latency.observeAt latency now).shortRtt
        (c.latency.observeAt latency now).baselineRtt c.inflight q.wasPaced now
      have hconfig := (c.latency.observeAt_averages latency now).1
      refine ⟨hg.1, ?_, ?_, ?_, ?_, ht.probe⟩
      · exact (congrArg Gradient2Config.minConcurrency (onRtt_config _ _ _ _ _ _)).trans ht.least
      · exact (congrArg LatencyEstimatorConfig.minRtt hconfig).symm ▸ ht.minRtt
      · exact (congrArg LatencyEstimatorConfig.longAlpha hconfig).symm ▸ ht.weight_pos
      · exact (congrArg LatencyEstimatorConfig.longAlpha hconfig).symm ▸ ht.weight_le
    | failure => exact ⟨hfail, ht.least, ht.minRtt, ht.weight_pos, ht.weight_le, ht.probe⟩
    | abandoned => exact ⟨hfail, ht.least, ht.minRtt, ht.weight_pos, ht.weight_le, ht.probe⟩
  | admissionFailure => exact ⟨hfail, ht.least, ht.minRtt, ht.weight_pos, ht.weight_le, ht.probe⟩

omit [Rng R ℝ] in
theorem Tuned.congr (h : Tuned m) (hg : c.gradient = m.gradient) (hl : c.latency = m.latency)
    (hp : c.probe = m.probe.active now) : Tuned c := by
  refine ⟨hg ▸ h.gradient, hg ▸ h.least, hl ▸ h.minRtt, hl ▸ h.weight_pos, hl ▸ h.weight_le, fun probe hc => ?_⟩
  rw [hp] at hc
  exact h.probe probe (ProbeState.active_some hc)

theorem Tuned.step (h : Tuned c) (hs : Step c e c') : Tuned c' := by
  cases hs.rating with
  | kept _ _ hg hl hp _ => exact ⟨hg ▸ h.gradient, hg ▸ h.least, hl ▸ h.minRtt, hl ▸ h.weight_pos, hl ▸ h.weight_le, hp ▸ h.probe⟩
  | repaced hsets _ hrates _ => exact (hsets.tuned h).congr hrates.gradient.symm hrates.latency.symm hrates.probe.symm
  | committed hsets _ hrates _ _ _ =>
    exact (hsets.tuned h).congr hrates.gradient.symm hrates.latency.symm hrates.probe.symm

theorem run_tuned (h0 : Fresh c₀) (h : Run Step c₀ tr c) : Tuned c := by
  refine h.invariant ?_ fun _ _ _ hs ht => ht.step hs
  obtain ⟨config, now, rng, controllerId, hn⟩ := h0
  obtain ⟨_, _, _, latency, gradient, _, hl, hg, _, rfl⟩ := newWithRng_cases hn
  obtain ⟨hmin, -, hpos, hone, hconfig, -⟩ := newLatency_cases hl
  refine ⟨Gradient2.new_valid hg, congrArg Gradient2Config.minConcurrency (newGradient_config hg), ?_, ?_, ?_, fun probe hp => ?_⟩
  · exact hconfig.symm ▸ pos_iff_ne_zero.mpr hmin
  · exact hconfig.symm ▸ hpos
  · exact hconfig.symm ▸ hone
  · cases hp

/-! ## Bounded round-trip times -/

/-- The call reports no success that took longer than `bound`. -/
def Call.Within (bound : ℝ≥0) (call : Call ℝ≥0) : Prop :=
  ∀ q latency now, call.release? = some (q, .success, latency, now) → latency ≤ bound

/-- The estimate stays within the bound. -/
structure Bounded (bound : ℝ≥0) (c : EndpointController ℝ≥0 ℝ R) : Prop where
  long : c.latency.long ≤ bound
  minRtt : c.latency.config.minRtt ≤ bound

theorem SetsRate.bounded (h : SetsRate c call m now) (ht : Tuned c) (hb : Bounded bound c) (hcall : call.Within bound) :
    Bounded bound m := by
  cases h with
  | read _ _ _ => exact ⟨hb.long, hb.minRtt⟩
  | check _ _ _ => exact ⟨hb.long, hb.minRtt⟩
  | @release _ q completion latency _ hr _ _ =>
    cases completion with
    | success =>
      obtain ⟨hconfig, -, hlong⟩ := c.latency.observeAt_averages latency now
      have hvalue : max latency c.latency.config.minRtt ≤ bound := max_le (hcall q latency now hr) hb.minRtt
      have hvalue : ((max latency c.latency.config.minRtt : ℝ≥0) : ℝ) ≤ bound := NNReal.coe_le_coe.mpr hvalue
      refine ⟨?_, (congrArg LatencyEstimatorConfig.minRtt hconfig).trans_le hb.minRtt⟩
      -- the average of two numbers within the bound
      have hmean : (c.latency.observeAt latency now).long = (1 - c.latency.config.longAlpha) * c.latency.long +
          c.latency.config.longAlpha * ((max latency c.latency.config.minRtt : ℝ≥0) : ℝ) := by
        have hone : (1.0 : ℝ) = 1 := by norm_num
        rw [hlong]
        unfold ewma
        rw [hone]
        rfl
      have h1 := mul_le_mul_of_nonneg_left hb.long (sub_nonneg.mpr ht.weight_le)
      have h2 := mul_le_mul_of_nonneg_left hvalue ht.weight_pos.le
      have hsum : (c.latency.observeAt latency now).long ≤ bound := by
        rw [hmean]
        linarith
      exact hsum
    | failure => exact ⟨hb.long, hb.minRtt⟩
    | abandoned => exact ⟨hb.long, hb.minRtt⟩
  | admissionFailure => exact ⟨hb.long, hb.minRtt⟩

theorem Bounded.step (hb : Bounded bound c) (ht : Tuned c) (hs : Step c e c') (hcall : e.call.Within bound) :
    Bounded bound c' := by
  cases hs.rating with
  | kept _ _ _ hl _ _ => exact ⟨hl ▸ hb.long, hl ▸ hb.minRtt⟩
  | repaced hsets _ hrates _ =>
    obtain ⟨hlong, hmin⟩ := hsets.bounded ht hb hcall
    exact ⟨hrates.latency ▸ hlong, hrates.latency ▸ hmin⟩
  | committed hsets _ hrates _ _ _ =>
    obtain ⟨hlong, hmin⟩ := hsets.bounded ht hb hcall
    exact ⟨hrates.latency ▸ hlong, hrates.latency ▸ hmin⟩

theorem run_bounded_estimate (h0 : Fresh c₀) (hconfig : c₀.config.expectedRtt ≤ bound) (h : Run Step c₀ tr c)
    (hcalls : ∀ e ∈ tr, e.call.Within bound) : Bounded bound c := by
  induction h with
  | nil =>
    obtain ⟨config, now, rng, controllerId, hn⟩ := h0
    obtain ⟨_, _, _, latency, _, _, hl, _, _, rfl⟩ := newWithRng_cases hn
    obtain ⟨-, hmin, -, -, hkept, hlong⟩ := newLatency_cases hl
    have hrtt : config.expectedRtt ≤ bound := hconfig
    refine ⟨?_, ?_⟩
    · exact hlong.trans_le (NNReal.coe_le_coe.mpr hrtt)
    · exact (congrArg LatencyEstimatorConfig.minRtt hkept).trans_le (hmin.trans hrtt)
  | snoc hr hs ih =>
    exact (ih fun e he => hcalls e (List.mem_append_left _ he)).step (run_tuned h0 hr) hs
      (hcalls _ (List.mem_append_right _ List.mem_cons_self))

omit [Rng R ℝ] in
/-- A fifth of the longest duration is a quarter of it under a negative probe. -/
theorem Bounded.sustained (hb : Bounded (durationMax / 5) m) (ht : Tuned m) (now : ℝ≥0) : m.Sustained now := by
  have hD := durationMax_pos
  have hconc : (0.25 : ℝ) ≤ m.gradient.concurrency := ht.least.symm.trans_le ht.gradient.min_le
  norm_num at hconc
  have hrtt : (m.latency.expectedRtt : ℝ) ≤ ((durationMax : ℝ≥0) : ℝ) / 5 := by
    have hmax : max m.latency.long (m.latency.config.minRtt : ℝ) ≤ ((durationMax / 5 : ℝ≥0) : ℝ) :=
      max_le hb.long (NNReal.coe_le_coe.mpr hb.minRtt)
    have hle : m.latency.expectedRtt ≤ durationMax / 5 := by
      rw [expectedRtt_exactTime]
      exact (min_le_left _ _).trans (Real.toNNReal_le_iff_le_coe.mpr hmax)
    exact_mod_cast hle
  unfold Sustained
  cases hc : (m.probe.active now).current with
  | none =>
    have hle : ((durationMax : ℝ≥0) : ℝ) / 5 ≤ ((durationMax : ℝ≥0) : ℝ) * m.gradient.concurrency := by nlinarith
    exact hrtt.trans hle
  | some probe =>
    have hkind := ht.probe probe (ProbeState.active_some hc)
    obtain ⟨kind, expiry⟩ := probe
    rcases hkind with rfl | rfl
    · trivial
    · have hle : ((durationMax : ℝ≥0) : ℝ) / 5 ≤ ((durationMax : ℝ≥0) : ℝ) * (m.gradient.concurrency * (0.8 : ℝ)) := by
        norm_num
        nlinarith
      exact hrtt.trans hle

/-! ## Every call of every history -/

omit [Rng R ℝ] in
/-- A new controller has a rate with an interval. -/
theorem EndpointConfig.Accepted.new {config : EndpointConfig ℝ≥0} (h : config.Accepted) (now : ℝ≥0) (rng : R)
    (controllerId : ℕ) : ∃ c : EndpointController ℝ≥0 ℝ R, newWithRng config now rng controllerId = some c := by
  obtain ⟨l, hl, hrtt, -⟩ := h.latency
  obtain ⟨g, hg, hconc⟩ := h.gradient
  have hD := durationMax_pos
  have hpos : (0 : ℝ) < l.expectedRtt := by
    rw [hrtt, NNReal.coe_pos]
    exact lt_min h.expectedRtt (NNReal.coe_pos.mp hD)
  have hle : (l.expectedRtt : ℝ) ≤ ((durationMax : ℝ≥0) : ℝ) := by
    rw [hrtt]
    exact NNReal.coe_le_coe.mpr (min_le_right _ _)
  have hone : (1 : ℝ) ≤ g.concurrency := hconc ▸ Nat.one_le_cast.mpr h.initialConcurrency
  have hrate : 1 ≤ ((durationMax : ℝ≥0) : ℝ) * (g.concurrency / (l.expectedRtt : ℝ)) := by
    rw [← mul_div_assoc, one_le_div hpos]
    exact hle.trans (le_mul_of_one_le_right hD.le hone)
  obtain ⟨interval, hi⟩ := rateToInterval_isSome (div_pos (one_pos.trans_le hone) hpos) hrate
  have hpacer : Gcra.new (g.concurrency / asSecsF64 l.expectedRtt) now = some { interval, tat := now } := by
    unfold Gcra.new
    show (rateToInterval (g.concurrency / (l.expectedRtt : ℝ)) >>= _) = _
    rw [hi]
    rfl
  unfold newWithRng
  simp only [Option.bind_eq_bind, Option.bind_eq_some_iff, Option.guard_eq_some']
  exact ⟨_, (), h.queueCapacity, (), h.maxInflight, (), h.withinMax, (), exactSchedule_valid, l, hl, g, hg, _, hpacer, rfl⟩

/-- A call that sets the rate returns exactly when the operating point sustains the round-trip estimate. -/
theorem SetsRate.returns_iff (h : SetsRate c call m now) (ht : Tuned c) : (c.exec call).isSome ↔ m.Sustained now := by
  rw [h.exec_isSome, ← (h.tuned ht).representable now]
  constructor
  · rintro ⟨interval, hi⟩
    obtain ⟨hpos, hval, hmax⟩ := rateToInterval_exactTime hi
    exact ⟨hpos, (le_max_left _ _).trans (hval.symm.trans_le (NNReal.coe_le_coe.mpr hmax))⟩
  · rintro ⟨hpos, hle⟩
    rw [div_le_iff₀ hpos] at hle
    exact rateToInterval_isSome hpos hle

theorem SetsRate.sustained (h : SetsRate c call m now) (h0 : Fresh c₀) (hconfig : c₀.config.expectedRtt ≤ durationMax / 5)
    (hrun : Run Step c₀ tr c) (hcalls : ∀ e ∈ tr, e.call.Within (durationMax / 5)) (hcall : call.Within (durationMax / 5)) :
    m.Sustained now := by
  have ht := run_tuned h0 hrun
  exact (h.bounded ht (run_bounded_estimate h0 hconfig hrun hcalls) hcall).sustained (h.tuned ht) now

/-- **Which rates are representable.** A new controller has a rate with an interval. Of a call of a history that sets the rate,
the rate is positive and its interval a duration exactly when the operating point sustains the round-trip estimate, and only
then does the call return; and the operating point sustains the estimate in every history whose round-trip times are at most
a fifth of the longest duration. -/
theorem pacing_rate_representable :
    (∀ config : EndpointConfig ℝ≥0, config.Accepted → ∀ (now : ℝ≥0) (rng : R) (controllerId : ℕ),
      ∃ c : EndpointController ℝ≥0 ℝ R, newWithRng config now rng controllerId = some c) ∧
    ∀ (c₀ c : EndpointController ℝ≥0 ℝ R) (tr : List (Entry ℝ≥0 ℝ R)), Fresh c₀ → Run Step c₀ tr c →
      ∀ call m now, SetsRate c call m now →
        ((0 < m.rateAt now ∧ 1 / m.rateAt now ≤ ((durationMax : ℝ≥0) : ℝ)) ↔ m.Sustained now) ∧
        ((c.exec call).isSome ↔ m.Sustained now) ∧
        (c₀.config.expectedRtt ≤ durationMax / 5 → (∀ e ∈ tr, e.call.Within (durationMax / 5)) →
          call.Within (durationMax / 5) → m.Sustained now) := by
  refine ⟨fun config h now rng controllerId => h.new now rng controllerId, fun c₀ c tr h0 h call m now hsets => ?_⟩
  have ht := run_tuned h0 h
  exact ⟨(hsets.tuned ht).representable now, hsets.returns_iff ht,
    fun hconfig hcalls hcall => hsets.sustained h0 hconfig h hcalls hcall⟩

end

theorem pacing_rate_representable_failure : ∃ c₀ m : EndpointController ℝ≥0 ℝ Unit, Fresh c₀ ∧
    SetsRate c₀ (.onAdmissionFailure 0) m 0 ∧ (c₀.exec (.onAdmissionFailure 0)).isSome ∧ 0 < m.rateAt 0 ∧
      1 / m.rateAt 0 ≤ ((durationMax : ℝ≥0) : ℝ) := by
  obtain ⟨c₀, hnew, hs, -⟩ := exactSample_exists () nano_le_one one_le_durationMax
  have h0 : Fresh c₀ := ⟨_, _, _, _, hnew⟩
  have hsets : SetsRate c₀ (.onAdmissionFailure 0)
      { c₀ with failures := c₀.failures + 1, gradient := c₀.gradient.onFailureAt 0 } 0 := .admissionFailure
  obtain ⟨hrate, hreturns, hshort⟩ := pacing_rate_representable.2 c₀ c₀ [] h0 .nil _ _ _ hsets
  have hfifth : c₀.config.expectedRtt ≤ durationMax / 5 := by
    rw [hs.config]
    exact le_fifth one_le_two
  have hsustained := hshort hfifth (fun e he => absurd he List.not_mem_nil) (fun q latency now hr => by cases hr)
  exact ⟨c₀, _, h0, hsets, hreturns.mpr hsustained, hrate.mpr hsustained⟩

/-- A single admission failure takes the rate of an endpoint with a round trip of fifteen times `10 ^ 18` seconds below the
lowest one. -/
theorem failure_outruns_the_longest_interval : ¬∀ (config : EndpointConfig ℝ≥0) (start : ℝ≥0) (controllerId : ℕ)
    (c₀ c : EndpointController ℝ≥0 ℝ Unit) (tr : List (Entry ℝ≥0 ℝ Unit)) (call : Call ℝ≥0)
    (m : EndpointController ℝ≥0 ℝ Unit) (now : ℝ≥0), config.Accepted → config.expectedRtt ≤ durationMax →
    newWithRng config start () controllerId = some c₀ → Run Step c₀ tr c → SetsRate c call m now →
    0 < m.rateAt now ∧ 1 / m.rateAt now ≤ ((durationMax : ℝ≥0) : ℝ) := by
  intro h
  have hlo : Time.fromNanos 1 ≤ (15000000000000000000 : ℝ≥0) := nano_le_one.trans (by norm_num)
  have hhi : (15000000000000000000 : ℝ≥0) ≤ durationMax := le_durationMax (by norm_num)
  obtain ⟨c₀, hnew, hs, -⟩ := exactSample_exists () hlo hhi
  have hsets : SetsRate c₀ (.onAdmissionFailure 0)
      { c₀ with failures := c₀.failures + 1, gradient := c₀.gradient.onFailureAt 0 } 0 := .admissionFailure
  have htuned := hsets.tuned (run_tuned ⟨_, _, _, _, hnew⟩ .nil)
  have hrate := h _ _ _ _ _ _ _ _ _ (exactConfigOf_accepted hlo) hhi hnew .nil hsets
  rw [htuned.representable 0] at hrate
  have hnone : (c₀.probe.active 0).current = none := by
    rw [hs.probe]
    rfl
  unfold Sustained at hrate
  dsimp only at hrate
  rw [hnone, hs.expectedRtt] at hrate
  have hconc : (c₀.gradient.onFailureAt 0).concurrency ≤ 7 / 10 := (hs.failed 0).le
  have hD : ((durationMax : ℝ≥0) : ℝ) ≤ 20000000000000000000 := by
    show ((18446744073709551615999999999 / 1000000000 : ℝ≥0) : ℝ) ≤ 20000000000000000000
    push_cast
    norm_num
  have hprod := mul_le_mul_of_nonneg_left hconc durationMax_pos.le
  have hrate : ((15000000000000000000 : ℝ≥0) : ℝ) ≤ ((durationMax : ℝ≥0) : ℝ) * (c₀.gradient.onFailureAt 0).concurrency := hrate
  push_cast at hrate
  linarith

end Loadpace
