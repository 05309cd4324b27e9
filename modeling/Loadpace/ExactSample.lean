import Loadpace.ExactTime
import Loadpace.History

/-!
# A controller in exact time

The controllers of one configuration in exact time, for every generator and every round-trip estimate: a fresh one
(`exactSample_exists`), the one that has dispatched its first reservation (`exactSample_dispatch`), and the one that has given
up its first request and dispatched a second one at a lower rate (`exactSample_abandoned`).
-/

namespace Loadpace

open Systems EndpointController

open scoped NNReal

/-- A generator that always draws zero. -/
noncomputable instance : Rng Unit ℝ where
  random _ := (0, ())

/-- A generator that draws one half twice, and 0.12 from then on. -/
noncomputable instance steadyRng : Rng ℕ ℝ where
  random n := (if n < 2 then 0.5 else 0.12, n + 1)

theorem steadyRng_low {n : ℕ} (h : 2 ≤ n) : (Rng.random n : ℝ × ℕ) = (3 / 25, n + 1) := by
  show (if n < 2 then (0.5 : ℝ) else 0.12, n + 1) = _
  rw [if_neg (not_lt.mpr h)]
  norm_num

theorem steadyRng_half {n : ℕ} (h : n < 2) : (Rng.random n : ℝ × ℕ) = (1 / 2, n + 1) := by
  show (if n < 2 then (0.5 : ℝ) else 0.12, n + 1) = _
  rw [if_pos h]
  norm_num

noncomputable def exactConfig : EndpointConfig ℝ≥0 where
  expectedRtt := 1
  initialConcurrency := 1
  queueTolerance := 1
  queueCapacity := 4
  maxInflight := 1024

/-- The configuration with another round-trip estimate. -/
noncomputable def exactConfigOf (rtt : ℝ≥0) : EndpointConfig ℝ≥0 := { exactConfig with expectedRtt := rtt }

/-! ## The durations of the configuration -/

theorem nano_exactTime (n : ℕ) : (Time.fromNanos n : ℝ≥0) = n / 1000000000 := rfl

/-- The whole seconds of the longest duration. -/
theorem le_durationMax {x : ℝ≥0} (h : x ≤ 18446744073709551615) : x ≤ durationMax := by
  refine h.trans ?_
  show (18446744073709551615 : ℝ≥0) ≤ 18446744073709551615999999999 / 1000000000
  rw [le_div_iff₀ (by norm_num)]
  norm_num

theorem one_le_durationMax : (1 : ℝ≥0) ≤ durationMax := le_durationMax (by norm_num)

theorem le_fifth {x : ℝ≥0} (h : x ≤ 2) : x ≤ durationMax / 5 := by
  rw [le_div_iff₀ (by norm_num)]
  exact le_durationMax ((mul_le_mul_of_nonneg_right h zero_le).trans (by norm_num))

theorem nano_le_one : (Time.fromNanos 1 : ℝ≥0) ≤ 1 := by
  rw [nano_exactTime, div_le_iff₀ (by norm_num)]
  norm_num

theorem nano_pos : (0 : ℝ≥0) < Time.fromNanos 1 := by
  rw [nano_exactTime]
  norm_num

theorem exactSchedule_valid : (ProbeSchedule.default : ProbeSchedule ℝ≥0 ℝ).validate = some () := by
  unfold ProbeSchedule.validate
  simp only [Option.bind_eq_bind, Option.bind_eq_some_iff, Option.guard_eq_some']
  refine ⟨(), ⟨rfl, ?_, rfl, ?_, ?_⟩, (), ⟨rfl, ?_⟩, (), ⟨rfl, ?_, ?_⟩, (), ?_, ?_, ?_⟩
  · show (0.0 : ℝ) ≤ 0.10
    norm_num
  · show (0.0 : ℝ) ≤ 0.05
    norm_num
  · show (0.10 + 0.05 : ℝ) ≤ 1.0
    norm_num
  · show (0.0 : ℝ) < 20.0
    norm_num
  · show (0.0 : ℝ) ≤ 0.8
    norm_num
  · show (0.8 : ℝ) < 1.0
    norm_num
  · show (fromSecs 1 : ℝ≥0) ≠ 0
    rw [fromSecs_exactTime]
    norm_num
  · show (fromSecs 1 : ℝ≥0) ≠ 0
    rw [fromSecs_exactTime]
    norm_num
  · show (fromSecs 1 : ℝ≥0) ≤ fromSecs 5
    rw [fromSecs_exactTime, fromSecs_exactTime]
    norm_num

theorem newGradient_config {config : Gradient2Config ℝ≥0 ℝ} {g : Gradient2 ℝ≥0 ℝ} (h : Gradient2.new config = some g) :
    g.config = config := by
  unfold Gradient2.new at h
  simp only [Option.bind_eq_bind, Option.bind_eq_some_iff, Option.guard_eq_some'] at h
  obtain ⟨_, -, _, -, _, -, _, -, _, -, _, -, h⟩ := h
  cases h
  rfl

/-- The configurations that `new` and `new_with_seed` accept. -/
structure EndpointConfig.Accepted (config : EndpointConfig ℝ≥0) : Prop where
  expectedRtt : 0 < config.expectedRtt
  initialConcurrency : 0 < config.initialConcurrency
  queueCapacity : 0 < config.queueCapacity
  maxInflight : 0 < config.maxInflight
  withinMax : config.initialConcurrency ≤ config.maxInflight

section

variable {config : EndpointConfig ℝ≥0}

theorem EndpointConfig.Accepted.gradient (h : config.Accepted) : ∃ g : Gradient2 ℝ≥0 ℝ,
    Gradient2.new config.gradientConfig = some g ∧ g.concurrency = (config.initialConcurrency : ℝ) := by
  have hone : (1 : ℝ) ≤ (config.initialConcurrency : ℝ) := Nat.one_le_cast.mpr h.initialConcurrency
  have hmax : (config.initialConcurrency : ℝ) ≤ (config.maxInflight : ℝ) := Nat.cast_le.mpr h.withinMax
  unfold Gradient2.new
  simp only [Option.bind_eq_bind, Option.bind_eq_some_iff, Option.guard_eq_some']
  refine ⟨_, ⟨(), ⟨rfl, ?_, rfl, ?_⟩, (), ⟨?_, ?_⟩, (), ⟨rfl, ?_⟩, (), ⟨rfl, ⟨?_, ?_⟩, ?_⟩, (), ?_, (), ⟨⟨?_, ?_⟩, ?_⟩, rfl⟩, rfl⟩
  · show (0.0 : ℝ) < 0.25
    norm_num
  · show (0.25 : ℝ) ≤ (config.maxInflight : ℝ)
    linarith
  · show (0.25 : ℝ) ≤ (config.initialConcurrency : ℝ)
    linarith
  · exact hmax
  · show (0.0 : ℝ) < 0.1
    norm_num
  · show (0.0 : ℝ) ≤ 0.2
    norm_num
  · show (0.2 : ℝ) ≤ 1.0
    norm_num
  · show (0.0 : ℝ) < 0.2
    norm_num
  · show min (2 • config.expectedRtt) durationMax ≠ 0
    exact (lt_min (nsmul_pos h.expectedRtt two_ne_zero) (zero_lt_one.trans_le one_le_durationMax)).ne'
  · show (0.0 : ℝ) ≤ 0.7
    norm_num
  · show (0.7 : ℝ) ≤ 1.0
    norm_num
  · show (0.0 : ℝ) < 0.7
    norm_num

theorem ewmaAlpha_exact {x : ℝ} (h : 0 < x) :
    0 < (EndpointConfig.ewmaAlpha x : ℝ) ∧ (EndpointConfig.ewmaAlpha x : ℝ) ≤ 1 := by
  have hdef : (EndpointConfig.ewmaAlpha x : ℝ) = 1 - (1 / 2) ^ (1 / x) := by
    show (1.0 : ℝ) - (0.5 : ℝ) ^ ((1.0 : ℝ) / x) = _
    norm_num
  have hlt : ((1 : ℝ) / 2) ^ (1 / x) < 1 := Real.rpow_lt_one (by norm_num) (by norm_num) (one_div_pos.mpr h)
  have hpos : 0 < ((1 : ℝ) / 2) ^ (1 / x) := Real.rpow_pos_of_pos (by norm_num) _
  rw [hdef]
  constructor <;> linarith

theorem EndpointConfig.Accepted.latency (h : config.Accepted) : ∃ l : LatencyEstimator ℝ≥0 ℝ,
    LatencyEstimator.new config.latencyConfig = some l ∧ l.expectedRtt = min config.expectedRtt durationMax ∧
      l.samples = 0 := by
  have hconc : (0 : ℝ) < (config.initialConcurrency : ℝ) := Nat.cast_pos.mpr h.initialConcurrency
  have hmin : (0 : ℝ≥0) < min (fromMicros 1) config.expectedRtt := by
    refine lt_min ?_ h.expectedRtt
    show (0 : ℝ≥0) < ((1 * 1000 : ℕ) : ℝ≥0) / 1000000000
    norm_num
  -- the weights of the averages
  have halpha {halfLives : ℝ} (hh : 0 < halfLives) :
      ((0.0 : ℝ) ≤ EndpointConfig.ewmaAlpha ((config.initialConcurrency : ℝ) * halfLives) ∧
        (EndpointConfig.ewmaAlpha ((config.initialConcurrency : ℝ) * halfLives) : ℝ) ≤ 1.0) ∧
      (0.0 : ℝ) < EndpointConfig.ewmaAlpha ((config.initialConcurrency : ℝ) * halfLives) := by
    obtain ⟨hpos, hle⟩ := ewmaAlpha_exact (mul_pos hconc hh)
    norm_num
    exact ⟨⟨hpos.le, hle⟩, hpos⟩
  unfold LatencyEstimator.new
  simp only [Option.bind_eq_bind, Option.bind_eq_some_iff, Option.guard_eq_some']
  refine ⟨_, ⟨(), hmin.ne', (), min_le_right _ _, (), ?_, (), ?_, (), ?_, rfl⟩, ?_, rfl⟩
  · have hshort : (0 : ℝ) < 2.0 := by norm_num
    exact halpha hshort
  · have hlong : (0 : ℝ) < 20.0 := by norm_num
    exact halpha hlong
  · show ((8 : ℕ) : ℝ≥0) / 1000000000 ≤ max _ (fromSecs 60)
    refine le_max_of_le_right ?_
    rw [fromSecs_exactTime, div_le_iff₀ (by norm_num)]
    norm_num
  · show (durationFromSecsSaturating (max (config.expectedRtt : ℝ)
      ((min (fromMicros 1) config.expectedRtt : ℝ≥0) : ℝ)) : ℝ≥0) = min config.expectedRtt durationMax
    rw [max_eq_left (NNReal.coe_le_coe.mpr (min_le_right _ _)), durationFromSecs_exactTime config.expectedRtt.coe_nonneg,
      Real.toNNReal_coe]

end

section

variable {rtt : ℝ≥0} (hlo : Time.fromNanos 1 ≤ rtt) (hhi : rtt ≤ durationMax)
include hlo

theorem exactConfigOf_accepted : (exactConfigOf rtt).Accepted :=
  ⟨nano_pos.trans_le hlo, one_pos, four_pos, (by decide : 0 < 1024), (by decide : 1 ≤ 1024)⟩

theorem exactGradient : ∃ g : Gradient2 ℝ≥0 ℝ,
    Gradient2.new (exactConfigOf rtt).gradientConfig = some g ∧ g.concurrency = 1 := by
  obtain ⟨g, hg, hconc⟩ := (exactConfigOf_accepted hlo).gradient
  refine ⟨g, hg, hconc.trans ?_⟩
  show ((1 : ℕ) : ℝ) = 1
  norm_num

include hhi

theorem exactLatency : ∃ l : LatencyEstimator ℝ≥0 ℝ, LatencyEstimator.new (exactConfigOf rtt).latencyConfig = some l ∧
    l.expectedRtt = rtt ∧ l.samples = 0 := by
  obtain ⟨l, hl, hrtt, hsamples⟩ := (exactConfigOf_accepted hlo).latency
  exact ⟨l, hl, hrtt.trans (min_eq_left hhi), hsamples⟩

theorem exactInterval : (rateToInterval (1 / (rtt : ℝ)) : Option ℝ≥0) = some rtt := by
  have hpos : (0 : ℝ) < rtt := NNReal.coe_pos.mpr (nano_pos.trans_le hlo)
  have hone : 1 ≤ ((durationMax : ℝ≥0) : ℝ) * (1 / rtt) := by
    rw [mul_one_div, one_le_div hpos]
    exact NNReal.coe_le_coe.mpr hhi
  obtain ⟨interval, hi⟩ := rateToInterval_isSome (one_div_pos.mpr hpos) hone
  have hval := (rateToInterval_exactTime hi).2.1
  have hnano : (1 / 1000000000 : ℝ) ≤ rtt := by
    have h := NNReal.coe_le_coe.mpr hlo
    rw [nano_exactTime] at h
    push_cast at h
    exact h
  rw [one_div_one_div, max_eq_left hnano] at hval
  rw [hi, NNReal.coe_injective hval]

end

/-! ## The first controller -/

section

variable {R : Type} [Rng R ℝ] {rng : R} {rtt : ℝ≥0}

/-- A controller of the configuration that has seen no feedback and made no probe decision. -/
structure ExactSample (rng : R) (rtt : ℝ≥0) (c : EndpointController ℝ≥0 ℝ R) : Prop where
  controllerId : c.controllerId = 7
  config : c.config = exactConfigOf rtt
  expectedRtt : c.latency.expectedRtt = rtt
  samples : c.latency.samples = 0
  gradient : c.gradient.config = (exactConfigOf rtt).gradientConfig
  concurrency : c.gradient.concurrency = 1
  interval : c.pacer.interval = rtt
  probe : c.probe = ProbeState.new
  probeRng : c.probeRng = rng

omit [Rng R ℝ] in
theorem exactSample_exists (rng : R) (hlo : Time.fromNanos 1 ≤ rtt) (hhi : rtt ≤ durationMax) :
    ∃ c : EndpointController ℝ≥0 ℝ R, newWithRng (exactConfigOf rtt) 0 rng 7 = some c ∧ ExactSample rng rtt c ∧
      c.pacer.tat = 0 ∧ c.pending = [] ∧ c.nextId = 0 ∧ c.inflight = 0 ∧ c.feedbackEpoch = none := by
  obtain ⟨l, hl, hrtt, hsamples⟩ := exactLatency hlo hhi
  obtain ⟨g, hg, hconc⟩ := exactGradient hlo
  have hpacer : Gcra.new (g.concurrency / asSecsF64 l.expectedRtt) (0 : ℝ≥0) = some { interval := rtt, tat := 0 } := by
    unfold Gcra.new
    rw [hconc, hrtt]
    show (rateToInterval ((1 : ℝ) / (rtt : ℝ)) >>= fun interval =>
      some ({ interval, tat := 0 } : Gcra ℝ≥0)) = some { interval := rtt, tat := 0 }
    rw [exactInterval hlo hhi]
    rfl
  refine ⟨{
    controllerId := 7, config := exactConfigOf rtt, latency := l, gradient := g, pacer := { interval := rtt, tat := 0 }
    probe := ProbeState.new, pending := [], nextId := 0, inflight := 0, completed := 0, failures := 0
    feedbackEpoch := none, probeRng := rng, changes := ControllerChanges.none }, ?_,
    ⟨rfl, rfl, hrtt, hsamples, newGradient_config hg, hconc, rfl, rfl, rfl⟩, rfl, rfl, rfl, rfl, rfl⟩
  unfold newWithRng
  simp only [Option.bind_eq_bind, Option.bind_eq_some_iff, Option.guard_eq_some']
  exact ⟨(), show 0 < 4 by decide, (), show 0 < 1024 by decide, (), show 1 ≤ 1024 by decide, (), exactSchedule_valid, l, hl,
    g, hg, _, hpacer, rfl⟩

omit [Rng R ℝ] in
/-- The rate without a probe and without feedback. -/
theorem rateAt_unfed {c : EndpointController ℝ≥0 ℝ R} {now : ℝ≥0} (hprobe : (c.probe.active now).current = none)
    (he : c.feedbackEpoch = none) : c.rateAt now = c.gradient.concurrency / c.latency.expectedRtt := by
  have hfactor (rate : ℝ) : c.feedbackFactor now rate = (1.0 : ℝ) := by
    unfold feedbackFactor
    rw [he]
  rw [rateAt_unprobed hprobe, hfactor]
  show c.gradient.concurrency / (c.latency.expectedRtt : ℝ) * (1.0 : ℝ) = _
  norm_num

omit [Rng R ℝ] in
theorem ExactSample.unprobed {c : EndpointController ℝ≥0 ℝ R} (h : ExactSample rng rtt c) (now : ℝ≥0) :
    (c.probe.active now).current = none := by
  rw [h.probe]
  rfl

omit [Rng R ℝ] in
/-- The rate while nothing has been learned. -/
theorem ExactSample.rateAt {c : EndpointController ℝ≥0 ℝ R} {now : ℝ≥0} (h : ExactSample rng rtt c)
    (he : c.feedbackEpoch = none) : c.rateAt now = 1 / rtt := by
  rw [rateAt_unfed (h.unprobed now) he, h.concurrency, h.expectedRtt]

omit [Rng R ℝ] in
/-- A failure leaves seven tenths of the concurrency. -/
theorem ExactSample.failed {c : EndpointController ℝ≥0 ℝ R} (h : ExactSample rng rtt c) (now : ℝ≥0) :
    (c.gradient.onFailureAt now).concurrency = 7 / 10 := by
  have hmin : c.gradient.config.minConcurrency = 1 / 4 := by
    rw [h.gradient]
    show (0.25 : ℝ) = 1 / 4
    norm_num
  have hmax : c.gradient.config.maxConcurrency = 1024 := by
    rw [h.gradient]
    show ((1024 : ℕ) : ℝ) = 1024
    norm_num
  have hfactor : c.gradient.config.failureFactor = 7 / 10 := by
    rw [h.gradient]
    show (0.7 : ℝ) = 7 / 10
    norm_num
  have hclamp : (c.gradient.onFailureAt now).concurrency = max c.gradient.config.minConcurrency
      (min (c.gradient.concurrency * c.gradient.config.failureFactor) c.gradient.config.maxConcurrency) :=
    exact_clamp _ _ _ (by rw [hmin, hmax]; norm_num)
  rw [hclamp, hmin, hmax, hfactor, h.concurrency]
  norm_num

/-- Nothing changes while nothing is in flight and the head has not expired. -/
theorem ExactSample.refresh {c : EndpointController ℝ≥0 ℝ R} {now : ℝ≥0} (h : ExactSample rng rtt c)
    (hlo : Time.fromNanos 1 ≤ rtt) (hhi : rtt ≤ durationMax) (hinflight : c.inflight = 0) (he : c.feedbackEpoch = none)
    (hhead : ¬HeadExpired c.pending (c.pacer.nextAt now)) : c.refresh now = some c := by
  have hcurrent : c.probe.current = none := by
    rw [h.probe]
    rfl
  have hdemand : c.probingHasDemand = false := by
    unfold probingHasDemand
    rw [h.samples, hinflight]
    rfl
  have hrate : rateToInterval (c.rateAt now) = some c.pacer.interval := by
    rw [h.rateAt he, exactInterval hlo hhi, h.interval]
  exact refresh_idle hcurrent hdemand hrate hhead

end

/-! ## A reservation on an empty queue -/

namespace EndpointController

section

variable {R : Type} [Rng R ℝ] {c : EndpointController ℝ≥0 ℝ R} {rng : R} {rtt now clock : ℝ≥0}

/-- The controller that holds one reservation, due at the instant. -/
def withHead (c : EndpointController ℝ≥0 ℝ R) (now : ℝ≥0) : EndpointController ℝ≥0 ℝ R :=
  { c with nextId := c.nextId + 1, pending := [{ id := c.nextId, scheduledAt := now, wasPaced := false }] }

/-- The controller that has dispatched it. -/
noncomputable def begun (c : EndpointController ℝ≥0 ℝ R) (now : ℝ≥0) : EndpointController ℝ≥0 ℝ R :=
  ((c.withHead now).dispatchedFrom [] now).rebuildVirtualQueue now

/-- The call that reserves on an empty queue. -/
def reserving (c : EndpointController ℝ≥0 ℝ R) (now : ℝ≥0) : Entry ℝ≥0 ℝ R :=
  ⟨.reserve now, .reserved (.ok ⟨c.controllerId, c.nextId⟩), c, c.withHead now⟩

/-- The call that dispatches the reservation. -/
noncomputable def dispatching (c : EndpointController ℝ≥0 ℝ R) (now : ℝ≥0) : Entry ℝ≥0 ℝ R :=
  ⟨.onDispatched ⟨c.controllerId, c.nextId⟩ now, .dispatched (.ok ⟨c.controllerId, now, false⟩), c.withHead now, c.begun now⟩

omit [Rng R ℝ] in
/-- A reservation on an empty queue is due at once when the next slot of the pacer has come. -/
theorem reserve_first (hp : c.pending = []) (hcap : 0 < c.config.queueCapacity) (hid : c.nextId ≠ u64Max)
    (hdue : c.pacer.tat ≤ now) : c.reserve now = (.ok { controllerId := c.controllerId, id := c.nextId }, c.withHead now) := by
  have hslot : c.nextVirtualSlot now = now := by
    unfold nextVirtualSlot
    rw [hp]
    show max (max c.pacer.tat now) now = now
    rw [max_eq_right hdue, max_self]
  have hreserve := reserve_ok c now (by rwa [hp]) hid
  rw [hslot, hp, List.nil_append] at hreserve
  exact hreserve

omit [Rng R ℝ] in
theorem withHead_heads : (c.withHead now).Heads { controllerId := c.controllerId, id := c.nextId } := ⟨rfl, rfl⟩

/-- Nothing is queued or in flight, nothing has been learned or probed, and the next slot of the pacer has come. -/
structure Idle (c : EndpointController ℝ≥0 ℝ R) (now : ℝ≥0) : Prop where
  pending : c.pending = []
  capacity : 0 < c.config.queueCapacity
  nextId : c.nextId ≠ u64Max
  inflight : c.inflight = 0
  room : 0 < c.config.maxInflight
  samples : c.latency.samples = 0
  probe : c.probe.current = none
  rate : rateToInterval (c.rateAt now) = some c.pacer.interval
  due : c.pacer.tat ≤ now

theorem Idle.refresh (h : c.Idle now) : (c.withHead now).refresh now = some (c.withHead now) := by
  have hdemand : (c.withHead now).probingHasDemand = false := by
    show (decide (0 < c.latency.samples) || (decide (0 < c.inflight) && _)) = false
    rw [h.samples, h.inflight]
    rfl
  have hhead : ¬HeadExpired (c.withHead now).pending ((c.withHead now).pacer.nextAt now) := by
    show ¬(decide (now < max c.pacer.tat now) = true)
    rw [max_eq_right h.due, decide_eq_true_eq]
    exact lt_irrefl now
  exact refresh_idle h.probe hdemand h.rate hhead

theorem Idle.run (h : c.Idle now) (hle : clock ≤ now) :
    Run TimedStep (c, clock) [c.reserving now, c.dispatching now] (c.begun now, now) := by
  have hroom : (c.withHead now).inflight < (c.withHead now).config.maxInflight := h.inflight.trans_lt h.room
  have hreserve : c.exec (.reserve now) = some (.reserved (.ok ⟨c.controllerId, c.nextId⟩), c.withHead now) := by
    show some ((c.reserve now).map Reply.reserved id) = _
    rw [reserve_first h.pending h.capacity h.nextId h.due]
    rfl
  have hdispatch : (c.withHead now).exec (.onDispatched ⟨c.controllerId, c.nextId⟩ now) =
      some (.dispatched (.ok ⟨c.controllerId, now, false⟩), c.begun now) := by
    show ((c.withHead now).onDispatched _ now).map _ = _
    rw [onDispatched_ok withHead_heads h.refresh rfl hroom le_rfl]
    rfl
  exact .cons (s := (c.withHead now, now)) ⟨⟨rfl, rfl, hreserve⟩, hle, rfl⟩ (.single ⟨⟨rfl, rfl, hdispatch⟩, le_rfl, rfl⟩)

omit [Rng R ℝ] in
theorem begun_tat (hdue : c.pacer.tat ≤ now) : (c.begun now).pacer.tat = now + c.pacer.interval := by
  show saturatingAdd (max c.pacer.tat now) c.pacer.interval = _
  rw [max_eq_right hdue, saturatingAdd_exactTime]

omit [Rng R ℝ] in
theorem begun_inflight (hidle : c.inflight = 0) : (c.begun now).inflight = 1 := by
  show c.inflight + 1 = 1
  rw [hidle]

omit [Rng R ℝ] in
theorem begun_epoch (hidle : c.inflight = 0) :
    (c.begun now).feedbackEpoch = some { lastFeedbackAt := now, expectedRtt := c.latency.expectedRtt } := if_pos hidle

end

end EndpointController

section

variable {R : Type} [Rng R ℝ] {rng : R} {rtt : ℝ≥0} {c : EndpointController ℝ≥0 ℝ R} {now : ℝ≥0}

omit [Rng R ℝ] in
theorem ExactSample.withHead (h : ExactSample rng rtt c) : ExactSample rng rtt (c.withHead now) :=
  ⟨h.controllerId, h.config, h.expectedRtt, h.samples, h.gradient, h.concurrency, h.interval, h.probe, h.probeRng⟩

omit [Rng R ℝ] in
theorem ExactSample.begun (h : ExactSample rng rtt c) : ExactSample rng rtt (c.begun now) :=
  ⟨h.controllerId, h.config, h.expectedRtt, h.samples, h.gradient, h.concurrency, h.interval, h.probe, h.probeRng⟩

omit [Rng R ℝ] in
theorem ExactSample.capacity (h : ExactSample rng rtt c) : 0 < c.config.queueCapacity := by
  rw [h.config]
  exact four_pos

omit [Rng R ℝ] in
theorem ExactSample.room (h : ExactSample rng rtt c) (hle : c.inflight ≤ 1) : c.inflight < c.config.maxInflight := by
  rw [h.config]
  exact hle.trans_lt (by decide : 1 < 1024)

omit [Rng R ℝ] in
theorem ExactSample.idle (h : ExactSample rng rtt c) (hlo : Time.fromNanos 1 ≤ rtt) (hhi : rtt ≤ durationMax)
    (hp : c.pending = []) (hid : c.nextId = 0) (hidle : c.inflight = 0) (he : c.feedbackEpoch = none)
    (hdue : c.pacer.tat ≤ now) : c.Idle now where
  pending := hp
  capacity := h.capacity
  nextId := by rw [hid]; decide
  inflight := hidle
  room := hidle ▸ h.room (hidle.trans_le zero_le_one)
  samples := h.samples
  probe := by rw [h.probe]; rfl
  rate := by rw [h.rateAt he, exactInterval hlo hhi, h.interval]
  due := hdue

/-- Its first reservation is due at once. -/
theorem exactSample_reserved (rng : R) (hlo : Time.fromNanos 1 ≤ rtt) (hhi : rtt ≤ durationMax) :
    ∃ c₀ c₁ : EndpointController ℝ≥0 ℝ R, newWithRng (exactConfigOf rtt) 0 rng 7 = some c₀ ∧
      c₀.reserve 0 = (.ok { controllerId := 7, id := 0 }, c₁) ∧ c₁.refresh 0 = some c₁ ∧ ExactSample rng rtt c₁ ∧
      c₁.pacer.tat = 0 ∧ c₁.pending = [{ id := 0, scheduledAt := 0, wasPaced := false }] ∧ c₁.nextId = 1 ∧
      c₁.inflight = 0 ∧ c₁.feedbackEpoch = none ∧ c₁.changes = ControllerChanges.none := by
  obtain ⟨c₀, hnew, hs, htat, hpend, hnext, hinflight, hepoch⟩ := exactSample_exists rng hlo hhi
  have hidle : c₀.Idle 0 := hs.idle hlo hhi hpend hnext hinflight hepoch htat.le
  have hchanges : c₀.changes = ControllerChanges.none := by
    obtain ⟨_, _, _, _, _, _, _, _, _, rfl⟩ := newWithRng_cases hnew
    rfl
  have hreserve := reserve_first hidle.pending hidle.capacity hidle.nextId hidle.due
  rw [hs.controllerId, hnext] at hreserve
  refine ⟨c₀, c₀.withHead 0, hnew, hreserve, hidle.refresh, hs.withHead, htat, ?_, ?_, hinflight, hepoch, hchanges⟩
  · show [({ id := c₀.nextId, scheduledAt := 0, wasPaced := false } : PendingReservation ℝ≥0)] = _
    rw [hnext]
  · show c₀.nextId + 1 = 1
    rw [hnext]

/-- It dispatches its first reservation at once. -/
theorem exactSample_dispatch (rng : R) (hlo : Time.fromNanos 1 ≤ rtt) (hhi : rtt ≤ durationMax) :
    ∃ (c₀ c : EndpointController ℝ≥0 ℝ R) (before : List (Entry ℝ≥0 ℝ R)) (d : Entry ℝ≥0 ℝ R), FreshAt c₀ 0 ∧
      Run TimedStep (c₀, 0) (before ++ [d]) (c, 0) ∧ d.dispatched?.isSome ∧ d.before.inflight = 0 ∧ d.call.now? = some 0 ∧
      ExactSample rng rtt c ∧ c.pacer.tat = rtt ∧ c.pending = [] ∧ c.nextId = 1 ∧ c.inflight = 1 ∧
      c.feedbackEpoch = some { lastFeedbackAt := 0, expectedRtt := rtt } := by
  obtain ⟨c₀, hnew, hs, htat, hpend, hnext, hinflight, hepoch⟩ := exactSample_exists rng hlo hhi
  have hidle : c₀.Idle 0 := hs.idle hlo hhi hpend hnext hinflight hepoch htat.le
  refine ⟨c₀, c₀.begun 0, [c₀.reserving 0], c₀.dispatching 0, ⟨exactConfigOf rtt, rng, 7, hnew⟩, hidle.run le_rfl, rfl,
    hinflight, rfl, hs.begun, ?_, rfl, ?_, begun_inflight hinflight, ?_⟩
  · rw [begun_tat htat.le, hs.interval, zero_add]
  · show c₀.nextId + 1 = 1
    rw [hnext]
  · rw [begun_epoch hinflight, hs.expectedRtt]

omit [Rng R ℝ] in
/-- The rate when its only request has been given up. -/
theorem ExactSample.abandoned {m : EndpointController ℝ≥0 ℝ R} (h : ExactSample rng 1 c) (hone : c.inflight = 1)
    (hled : m.ledger = (c.abandoned 0).ledger) (hprobe : (m.probe.active now).current = none) : m.rateAt now = 7 / 10 := by
  have hepoch : m.feedbackEpoch = none := by
    refine (congrArg Ledger.feedbackEpoch hled).trans ?_
    show (if c.inflight - 1 = 0 then none else c.feedbackEpoch) = none
    rw [hone]
    rfl
  have hconc : m.gradient.concurrency = 7 / 10 := (congrArg (fun l => l.gradient.concurrency) hled).trans (h.failed 0)
  have hrtt : m.latency.expectedRtt = 1 := (congrArg (fun l => l.latency.expectedRtt) hled).trans h.expectedRtt
  rw [rateAt_unfed hprobe hepoch, hconc, hrtt]
  norm_num

theorem tenSevenths_interval : (rateToInterval (7 / 10 : ℝ) : Option ℝ≥0) = some (10 / 7) := by
  have hlo : Time.fromNanos 1 ≤ (10 / 7 : ℝ≥0) := nano_le_one.trans (by rw [le_div_iff₀ (by norm_num)]; norm_num)
  have hhi : (10 / 7 : ℝ≥0) ≤ durationMax := le_durationMax (by rw [div_le_iff₀ (by norm_num)]; norm_num)
  have hval : (1 : ℝ) / ((10 / 7 : ℝ≥0) : ℝ) = 7 / 10 := by
    push_cast
    norm_num
  rw [← hval]
  exact exactInterval hlo hhi

/-- The first request is given up at once, and a second one is dispatched after two seconds. -/
theorem exactSample_abandoned (rng : R) : ∃ c₀ m : EndpointController ℝ≥0 ℝ R, FreshAt c₀ 0 ∧
    Run TimedStep (c₀, 0) [c₀.reserving 0, c₀.dispatching 0,
      ⟨.finish ⟨7, 0, false⟩ .abandoned 0, .finished true, c₀.begun 0, m⟩, m.reserving 2, m.dispatching 2] (m.begun 2, 2) ∧
    c₀.controllerId = 7 ∧ m.controllerId = 7 ∧ (c₀.begun 0).pacer.interval = 1 ∧ m.pacer.interval = 10 / 7 ∧
    m.inflight = 0 := by
  obtain ⟨c₀, hnew, hs₀, htat, hpend, hnext, hinflight, hepoch⟩ := exactSample_exists rng nano_le_one one_le_durationMax
  have hidle : c₀.Idle 0 := hs₀.idle nano_le_one one_le_durationMax hpend hnext hinflight hepoch htat.le
  have hs : ExactSample rng 1 (c₀.begun 0) := hs₀.begun
  have hone : (c₀.begun 0).inflight = 1 := begun_inflight hinflight
  -- the abandonment lowers the rate, and keeps the phase of the pacer
  have hi : rateToInterval (((c₀.begun 0).abandoned 0).rateAt 0) = some (10 / 7 : ℝ≥0) := by
    rw [hs.abandoned hone rfl (hs.unprobed 0), tenSevenths_interval]
  obtain ⟨m, hm⟩ := updateRate_isSome hi
  have hled := updateRate_ledger hm
  obtain ⟨pacer, hset, hcase⟩ := updateRate_cases hm
  have hkept : m.pacer = pacer ∧ m.probe = (c₀.begun 0).probe.active 0 := by
    rcases hcase with ⟨-, rfl⟩ | ⟨-, -, rfl⟩
    · exact ⟨rfl, rfl⟩
    · exact ⟨rfl, rfl⟩
  obtain ⟨rfl, hprobe⟩ := hkept
  have hunprobed (now : ℝ≥0) : (m.probe.active now).current = none := by
    rw [hprobe, hs.probe]
    rfl
  have hinterval : m.pacer.interval = 10 / 7 := (Option.some.inj (hi.symm.trans (Gcra.setRate_cases hset).1)).symm
  have hdue : m.pacer.tat ≤ 2 := by
    have hphase : (c₀.begun 0).pacer.phase 0 = 1 := by
      rw [Gcra.phase_eq, begun_tat htat.le, hs.interval, hs₀.interval]
      norm_num
    have hfull := ((Gcra.setRate_phase hset).2.2 hphase.le).trans hphase
    rw [Gcra.phase_eq, hinterval] at hfull
    have hle : ((m.pacer.tat : ℝ) - (0 : ℝ≥0)) / ((10 / 7 : ℝ≥0) : ℝ) ≤ 1 := (le_max_right _ _).trans hfull.le
    push_cast at hle
    rw [div_le_one (by norm_num)] at hle
    rw [← NNReal.coe_le_coe]
    push_cast
    linarith
  have hmidle : m.Idle 2 := {
    pending := List.map_eq_nil_iff.mp (congrArg Ledger.entries hled)
    capacity := (congrArg (fun l => l.config.queueCapacity) hled).trans_gt hs.capacity
    nextId := by
      have hid : m.nextId = c₀.nextId + 1 := congrArg Ledger.nextId hled
      rw [hid, hnext]
      decide
    inflight := by
      have hkept : m.inflight = (c₀.begun 0).inflight - 1 := congrArg Ledger.inflight hled
      rw [hkept, hone]
    room := by
      have hconfig : m.config = (c₀.begun 0).config := congrArg Ledger.config hled
      rw [hconfig]
      exact (Nat.zero_le _).trans_lt (hs.room hone.le)
    samples := (congrArg (fun l => l.latency.samples) hled).trans hs.samples
    probe := by
      rw [hprobe, hs.probe]
      rfl
    rate := by rw [hs.abandoned hone hled (hunprobed 2), tenSevenths_interval, hinterval]
    due := hdue }
  have hfinish : (c₀.begun 0).exec (.finish ⟨7, 0, false⟩ .abandoned 0) = some (.finished true, m) := by
    have hown : 7 = (c₀.begun 0).controllerId := hs.controllerId.symm
    have hpos : 0 < (c₀.begun 0).inflight := hone ▸ one_pos
    show ((c₀.begun 0).onAbandoned ⟨7, 0, false⟩ 0).map _ = _
    unfold onAbandoned
    rw [if_neg (not_not.mpr hown), guard, if_pos hpos]
    show ((((c₀.begun 0).abandoned 0).updateRate 0).bind fun m => some (true, m)).map _ = _
    rw [hm]
    rfl
  have hgiven : TimedStep (c₀.begun 0, 0) ⟨.finish ⟨7, 0, false⟩ .abandoned 0, .finished true, c₀.begun 0, m⟩ (m, 0) :=
    ⟨⟨rfl, rfl, hfinish⟩, le_rfl, rfl⟩
  have hrun := (hidle.run le_rfl).append ((Run.single hgiven).append (hmidle.run zero_le))
  exact ⟨c₀, m, ⟨_, rng, 7, hnew⟩, hrun, hs₀.controllerId, (congrArg Ledger.controllerId hled).trans hs.controllerId,
    hs.interval, hinterval, hmidle.inflight⟩

/-- The next reservation waits for one interval. -/
theorem exactSample_queued (rng : R) (hlo : Time.fromNanos 1 ≤ rtt) (hhi : rtt ≤ durationMax) :
    ∃ (c₀ c : EndpointController ℝ≥0 ℝ R) (tr : List (Entry ℝ≥0 ℝ R)), FreshAt c₀ 0 ∧ Run TimedStep (c₀, 0) tr (c, 0) ∧
      ExactSample rng rtt c ∧ c.pacer.tat = rtt ∧ c.Heads { controllerId := 7, id := 1 } ∧
      c.inflight = 1 ∧ c.feedbackEpoch = some { lastFeedbackAt := 0, expectedRtt := rtt } := by
  obtain ⟨c₀, c, before, d, h0, hrun, -, -, -, hs, htat, hpend, hnext, hinflight, hepoch⟩ :=
    exactSample_dispatch rng hlo hhi
  have hreserve := reserve_ok c 0 (by rw [hpend, hs.config]; show 0 < 4; decide) (by rw [hnext]; decide)
  let e : Entry ℝ≥0 ℝ R := {
    call := .reserve 0, reply := .reserved (c.reserve 0).1, before := c, after := (c.reserve 0).2 }
  have hstep : TimedStep (c, 0) e ((c.reserve 0).2, 0) := ⟨⟨rfl, rfl, rfl⟩, le_rfl, rfl⟩
  refine ⟨c₀, (c.reserve 0).2, before ++ [d] ++ [e], h0, hrun.snoc hstep, ?_⟩
  rw [hreserve]
  refine ⟨⟨hs.controllerId, hs.config, hs.expectedRtt, hs.samples, hs.gradient, hs.concurrency, hs.interval, hs.probe,
    hs.probeRng⟩, htat, ⟨hs.controllerId.symm, ?_⟩, hinflight, hepoch⟩
  rw [hpend, hnext]
  rfl

end

/-! ## Probe decisions -/

section

variable {R : Type} [Rng R ℝ] {s : ProbeState ℝ≥0 ℝ} {rng rng₁ rng₂ : R} {now : ℝ≥0} {jitter kind : ℝ}

theorem randomInterval_exact (h0 : 0 ≤ jitter) (h1 : jitter ≤ 1) (hj : Rng.random rng = (jitter, rng₁)) :
    (ProbeSchedule.default : ProbeSchedule ℝ≥0 ℝ).randomInterval rng = some (1 + 4 * jitter.toNNReal, rng₁) := by
  have hspan : (fromSecs 5 - fromSecs 1 : ℝ≥0) = 4 := by
    rw [fromSecs_exactTime, fromSecs_exactTime]
    refine tsub_eq_of_eq_add ?_
    norm_num
  have hval : (4 : ℝ) * jitter = ((4 * jitter.toNNReal : ℝ≥0) : ℝ) := by
    rw [NNReal.coe_mul, Real.coe_toNNReal _ h0]
    norm_num
  have hle : 4 * jitter.toNNReal ≤ (4 : ℝ≥0) := by
    refine mul_le_of_le_one_right zero_le ?_
    rwa [Real.toNNReal_le_iff_le_coe, NNReal.coe_one]
  have htry : (tryFromSecsF64 ((4 : ℝ) * jitter) : Option ℝ≥0) = some (4 * jitter.toNNReal) := by
    have hmax : 4 * jitter.toNNReal ≤ (durationMax : ℝ≥0) := le_durationMax (hle.trans (by norm_num))
    rw [hval]
    show (if _ ∧ _ then some (((4 * jitter.toNNReal : ℝ≥0) : ℝ).toNNReal) else none) = _
    rw [Real.toNNReal_coe, if_pos ⟨NNReal.coe_nonneg _, hmax⟩]
  unfold ProbeSchedule.randomInterval
  show (if (fromSecs 5 - fromSecs 1 : ℝ≥0) = 0 then _ else _) = _
  rw [hspan, if_neg (by norm_num)]
  simp only [hj]
  show (tryFromSecsF64 (((fromSecs 5 - fromSecs 1 : ℝ≥0) : ℝ) * jitter) >>= fun j =>
    some ((fromSecs 1 : ℝ≥0) + min j (fromSecs 5 - fromSecs 1), rng₁)) = _
  rw [hspan]
  show (tryFromSecsF64 ((4 : ℝ) * jitter) >>= fun j => some ((fromSecs 1 : ℝ≥0) + min j 4, rng₁)) = _
  rw [htry, Option.bind_eq_bind, Option.bind_some, fromSecs_exactTime, min_eq_left hle, Nat.cast_one]

variable (hnone : (s.active now).current = none) (hdue : s.nextProbeAt.getD now ≤ now) (h0 : 0 ≤ jitter) (h1 : jitter ≤ 1)
variable (hj : Rng.random rng = (jitter, rng₁)) (hk : Rng.random rng₁ = (kind, rng₂))
include hnone hdue h0 h1 hj hk

/-- A decision that is due and starts a negative probe. -/
theorem maybeStart_negative (hlo : 1 / 10 ≤ kind) (hhi : kind < 15 / 100) :
    (ProbeSchedule.default : ProbeSchedule ℝ≥0 ℝ).maybeStart s rng now =
      some ({ current := some { kind := .negative 0.8, expiry := now + 1 }
              nextProbeAt := some (now + (1 + 4 * jitter.toNNReal)) }, rng₂) := by
  have hnext := s.active_nextProbeAt now
  have hpos : ¬kind < (0.10 : ℝ) := by
    norm_num
    linarith
  have hneg : kind < (0.10 : ℝ) + 0.05 := by
    norm_num at hhi ⊢
    linarith
  have hguard : F64.isFinite (0.8 : ℝ) = true ∧ (0.0 : ℝ) ≤ 0.8 ∧ (0.8 : ℝ) < 1.0 :=
    ⟨rfl, by norm_num, by norm_num⟩
  unfold ProbeSchedule.maybeStart
  simp only [hnone, hnext, if_neg (not_lt.mpr hdue), randomInterval_exact h0 h1 hj, Option.bind_eq_bind, Option.bind_some, hk]
  show (if kind < (0.10 : ℝ) then _ else if kind < (0.10 : ℝ) + 0.05 then _ else _) = _
  rw [if_neg hpos, if_pos hneg]
  unfold ProbeState.startNegative
  show (guard (F64.isFinite (0.8 : ℝ) = true ∧ (0.0 : ℝ) ≤ 0.8 ∧ (0.8 : ℝ) < 1.0) >>= fun _ => some _).bind _ = _
  rw [guard, if_pos hguard]
  show some (_, rng₂) = _
  simp only [saturatingAdd_exactTime]
  show some (({ current := some { kind := .negative 0.8, expiry := now + fromSecs 1 }, nextProbeAt := _ } : ProbeState ℝ≥0 ℝ),
    rng₂) = _
  rw [fromSecs_exactTime, Nat.cast_one]

/-- A decision that is due and starts none. -/
theorem maybeStart_none (hlo : 15 / 100 ≤ kind) :
    (ProbeSchedule.default : ProbeSchedule ℝ≥0 ℝ).maybeStart s rng now =
      some ({ current := none, nextProbeAt := some (now + (1 + 4 * jitter.toNNReal)) }, rng₂) := by
  have hnext := s.active_nextProbeAt now
  have hpos : ¬kind < (0.10 : ℝ) := by
    norm_num
    linarith
  have hneg : ¬kind < (0.10 : ℝ) + 0.05 := by
    norm_num at hlo ⊢
    linarith
  unfold ProbeSchedule.maybeStart
  simp only [hnone, hnext, if_neg (not_lt.mpr hdue), randomInterval_exact h0 h1 hj, Option.bind_eq_bind, Option.bind_some, hk]
  show (if kind < (0.10 : ℝ) then _ else if kind < (0.10 : ℝ) + 0.05 then _ else _) = _
  rw [if_neg hpos, if_neg hneg]
  simp only [saturatingAdd_exactTime]

end

section

variable {R : Type} [Rng R ℝ] {c m : EndpointController ℝ≥0 ℝ R} {p : ProbeState ℝ≥0 ℝ} {rng : R} {now : ℝ≥0}

omit [Rng R ℝ] in
/-- Work in flight and a queue head make demand. -/
theorem demand_of_heads {r : DispatchReservation} (hh : c.Heads r) (hi : c.inflight = 1) : c.probingHasDemand = true := by
  obtain ⟨front, rest, hp, -⟩ := hh.front
  unfold probingHasDemand
  rw [hi, hp]
  simp

/-- A refresh after a probe decision. -/
theorem refresh_decided {interval : ℝ≥0} (hd : c.probeDecision now = some (p, rng))
    (hi : rateToInterval (rateAt { c with probe := p.active now, probeRng := rng } now) = some interval) :
    ∃ m, c.refresh now = some m ∧ m.probe = p.active now ∧ m.probeRng = rng ∧ m.pacer.interval = interval ∧
      c.pacer.setRate (rateAt { c with probe := p.active now, probeRng := rng } now) now = some m.pacer := by
  obtain ⟨u, hu⟩ := updateRate_isSome hi
  have hm : ∃ m, c.refresh now = some m := by
    unfold EndpointController.refresh
    rw [hd]
    simp only [Option.bind_eq_bind, Option.bind_some, hu]
    exact ⟨_, rfl⟩
  obtain ⟨m, hm⟩ := hm
  refine ⟨m, hm, ?_⟩
  obtain ⟨p', rng', m', hp', hm', rfl⟩ := refresh_cases hm
  rw [hd] at hp'
  obtain ⟨rfl, rfl⟩ := Prod.mk.inj (Option.some.inj hp')
  obtain ⟨pacer, hset, hcase⟩ := updateRate_cases hm'
  have hinterval : pacer.interval = interval := Option.some.inj ((Gcra.setRate_cases hset).1.symm.trans hi)
  rcases hcase with ⟨-, rfl⟩ | ⟨-, -, rfl⟩
  · exact ⟨ProbeState.active_active p now, rfl, hinterval, hset⟩
  · exact ⟨ProbeState.active_active p now, rfl, hinterval, hset⟩

/-- The only reservation is still due after a refresh whose pacer has room for it. -/
theorem refresh_withHead (h : (c.withHead now).refresh now = some m) (hdue : m.pacer.tat ≤ now) :
    m.pending = [{ id := c.nextId, scheduledAt := now, wasPaced := false }] := by
  obtain ⟨p, rng, m', -, hm', rfl⟩ := refresh_cases h
  obtain ⟨pacer, -, ⟨-, rfl⟩ | ⟨-, -, rfl⟩⟩ := updateRate_cases hm'
  · show [({ id := c.nextId, scheduledAt := max pacer.tat now, wasPaced := false } : PendingReservation ℝ≥0)] = _
    rw [max_eq_right hdue]
  · rfl

/-- The first decision of the generator that draws one half starts none. -/
theorem decision_none {c : EndpointController ℝ≥0 ℝ ℕ} (hdemand : c.probingHasDemand = true)
    (hnone : (c.probe.active now).current = none) (hdue : c.probe.nextProbeAt.getD now ≤ now) (hrng : c.probeRng = 0) :
    c.probeDecision now = some ({ current := none, nextProbeAt := some (now + 3) }, 2) := by
  have hhalf : 1 + 4 * (1 / 2 : ℝ).toNNReal = 3 := by
    refine NNReal.coe_injective ?_
    rw [NNReal.coe_add, NNReal.coe_mul, Real.coe_toNNReal _ (by norm_num)]
    norm_num
  have hdecide : (ProbeSchedule.default : ProbeSchedule ℝ≥0 ℝ).maybeStart c.probe c.probeRng now =
      some ({ current := none, nextProbeAt := some (now + (1 + 4 * (1 / 2 : ℝ).toNNReal)) }, 2) := by
    refine maybeStart_none hnone hdue (by norm_num) (by norm_num) ?_ (steadyRng_half one_lt_two) (by norm_num)
    rw [hrng]
    exact steadyRng_half two_pos
  rw [hhalf] at hdecide
  unfold probeDecision
  rw [if_pos hdemand]
  exact hdecide

end

end Loadpace
