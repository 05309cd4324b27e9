import Loadpace.Representable
import Loadpace.Lib.Smoothing

/-!
# What a controller has learned of the round-trip time (`latency.rs`)

A controller moves its two estimates of the round-trip time by the successes of its own requests, and by nothing else
(`run_averages`). `estimates_follow_evidence`: after any history, in exact arithmetic, either estimate is the exponential
average of the round-trip times that were measured; what it was before halves with every two (`short`) or twenty (`long`)
samples for each request of the initial concurrency, and so does its distance from a band that holds the samples.
-/

namespace Loadpace

open Systems EndpointController Smoothing
open scoped NNReal

/-! ## What is measured -/

section

variable {T F R : Type} [Sub T]

/-- The round-trip time that the call reports, when it is a success of a request of the controller. -/
def Entry.measured? (e : Entry T F R) : Option T :=
  e.call.release?.bind fun (q, completion, latency, _) =>
    if q.controllerId = e.before.controllerId ∧ completion = .success then some latency else none

/-- The round-trip times that a history has measured, oldest first. -/
def measuredRtts (tr : List (Entry T F R)) : List T := tr.filterMap Entry.measured?

theorem measuredRtts_snoc (tr : List (Entry T F R)) (e : Entry T F R) :
    measuredRtts (tr ++ [e]) = measuredRtts tr ++ e.measured?.toList := by
  rw [measuredRtts, List.filterMap_append]
  cases h : e.measured? <;> simp [h, measuredRtts]

end

section

variable {T F R : Type} [AddCommMonoid T] [LinearOrder T] [Sub T] [Time T] [F64 F] [Secs T F] [Rng R F]
variable {c c' : EndpointController T F R} {e : Entry T F R}

/-- **One call** observes what it measures. -/
theorem Step.estimates (h : Step c e c') : (e.measured? = none ∧ c'.latency = c.latency) ∨
    ∃ latency now, e.measured? = some latency ∧ c'.latency = c.latency.observeAt latency now := by
  have hbefore := h.1
  rcases h.ledger.kinds with ⟨r, q, waited, rest, now, hc, -, -, -, -, -, hl⟩ |
    ⟨q, completion, latency, now, hr, hq, -, -, hl⟩ | ⟨now, hc, -, hl⟩ | ⟨-, hr, -, hl⟩
  · refine .inl ⟨?_, congrArg Ledger.latency hl⟩
    rw [Entry.measured?, hc]
    rfl
  · have hown : q.controllerId = e.before.controllerId := hbefore ▸ hq
    rw [Entry.measured?, hr, Option.bind_some]
    cases completion with
    | success => exact .inr ⟨latency, now, if_pos ⟨hown, rfl⟩, congrArg Ledger.latency hl⟩
    | failure | abandoned => exact .inl ⟨if_neg (by simp), congrArg Ledger.latency hl⟩
  · refine .inl ⟨?_, congrArg Ledger.latency hl⟩
    rw [Entry.measured?, hc]
    rfl
  · refine .inl ⟨?_, hl.latency⟩
    rw [Entry.measured?]
    rw [ownReleaseOf] at hr
    cases hrel : e.call.release? with
    | none => rfl
    | some x =>
      rw [hrel, Option.bind_some] at hr
      have hforeign : ¬ x.1.controllerId = c.controllerId := by
        intro hq
        dsimp only at hr
        rw [if_pos (show x.1.controllerId = c.ledger.controllerId from hq)] at hr
        cases hr
      exact if_neg fun hx => hforeign (hbefore ▸ hx.1)

end

/-! ## The averages in exact time -/

/-- What is left of an estimate after so many samples, with a half-life of `halfLife` samples. -/
noncomputable def halved (halfLife : ℝ) (samples : ℕ) : ℝ := 0.5 ^ ((samples : ℝ) / halfLife)

/-- **An estimate follows the samples**, from what it was on, with a half-life of `halfLife` samples. -/
structure Follows (halfLife before : ℝ) (samples : List ℝ) (estimate : ℝ) : Prop where
  /-- It is the average of what it was and of the samples, each with the weight of its age. -/
  exact : estimate = halved halfLife samples.length * before + (1 - halved halfLife 1) *
    ∑ i ∈ Finset.range samples.length, halved halfLife (samples.length - 1 - i) * samples.getD i 0
  /-- The samples draw it to their upper bounds. -/
  le : ∀ bound, (∀ s ∈ samples, s ≤ bound) →
    estimate ≤ bound + halved halfLife samples.length * max (before - bound) 0
  /-- They draw it to their lower bounds. -/
  ge : ∀ bound, (∀ s ∈ samples, bound ≤ s) →
    bound - halved halfLife samples.length * max (bound - before) 0 ≤ estimate

/-- Each sample leaves the same share. -/
theorem ewmaAlpha_halved (halfLife : ℝ) (samples : ℕ) :
    (1 - (EndpointConfig.ewmaAlpha halfLife : ℝ)) ^ samples = halved halfLife samples := by
  have hdef : (EndpointConfig.ewmaAlpha halfLife : ℝ) = 1 - 0.5 ^ (1 / halfLife) := by
    show (1.0 : ℝ) - (0.5 : ℝ) ^ ((1.0 : ℝ) / halfLife) = _
    norm_num
  rw [hdef, sub_sub_cancel, ← Real.rpow_natCast, ← Real.rpow_mul (by norm_num), one_div_mul_eq_div]
  rfl

theorem average_follows {halfLife : ℝ} (h : 0 ≤ halfLife) (before : ℝ) (samples : List ℝ) :
    Follows halfLife before samples (average (EndpointConfig.ewmaAlpha halfLife) before samples) := by
  have hone : 1 - (EndpointConfig.ewmaAlpha halfLife : ℝ) = halved halfLife 1 := by
    rw [← ewmaAlpha_halved, pow_one]
  have hpos : 0 ≤ halved halfLife 1 := Real.rpow_nonneg (by norm_num) _
  have hle : halved halfLife 1 ≤ 1 := Real.rpow_le_one (by norm_num) (by norm_num) (div_nonneg (Nat.cast_nonneg 1) h)
  have h0 : (0 : ℝ) ≤ EndpointConfig.ewmaAlpha halfLife := by linarith
  have h1 : (EndpointConfig.ewmaAlpha halfLife : ℝ) ≤ 1 := by linarith
  refine ⟨?_, fun bound hs => ?_, fun bound hs => ?_⟩
  · rw [average_eq, average_zero, ← hone, sub_sub_cancel]
    simp only [ewmaAlpha_halved]
  · rw [← ewmaAlpha_halved]
    refine average_le h0 h1 hs (le_max_right _ _) ?_
    linarith [le_max_left (before - bound) 0]
  · rw [← ewmaAlpha_halved]
    refine le_average h0 h1 hs (le_max_right _ _) ?_
    linarith [le_max_left (bound - before) 0]

section

variable {R : Type} [Rng R ℝ] {c₀ m c c' : EndpointController ℝ≥0 ℝ R} {e : Entry ℝ≥0 ℝ R} {before tr : List (Entry ℝ≥0 ℝ R)}

/-- The samples of round-trip times, in seconds. -/
def sampledRtts (minRtt : ℝ≥0) (tr : List (Entry ℝ≥0 ℝ R)) : List ℝ := (measuredRtts tr).map fun rtt => ((max rtt minRtt : ℝ≥0) : ℝ)

omit [Rng R ℝ] in
theorem ewma_exact (previous sample alpha : ℝ) : ewma previous sample alpha = smooth alpha previous sample := by
  unfold ewma smooth
  norm_num

omit [Rng R ℝ] in
theorem observeAt_exact (l : LatencyEstimator ℝ≥0 ℝ) (latency now : ℝ≥0) :
    (l.observeAt latency now).short = smooth l.config.shortAlpha l.short ((max latency l.config.minRtt : ℝ≥0) : ℝ) ∧
    (l.observeAt latency now).long = smooth l.config.longAlpha l.long ((max latency l.config.minRtt : ℝ≥0) : ℝ) := by
  rw [← ewma_exact, ← ewma_exact]
  exact ⟨l.observeAt_short latency now, (l.observeAt_averages latency now).2.2⟩

/-- **The estimates are the averages** of what was measured. -/
theorem run_averages (h : Run Step m tr c) : c.latency.config = m.latency.config ∧
    c.latency.short = average m.latency.config.shortAlpha m.latency.short (sampledRtts m.latency.config.minRtt tr) ∧
    c.latency.long = average m.latency.config.longAlpha m.latency.long (sampledRtts m.latency.config.minRtt tr) := by
  induction h with
  | nil => exact ⟨rfl, rfl, rfl⟩
  | @snoc tr c e c' _ hs ih =>
    obtain ⟨hconfig, hshort, hlong⟩ := ih
    rw [sampledRtts, measuredRtts_snoc, List.map_append, average_append, average_append]
    rcases hs.estimates with ⟨hnone, hl⟩ | ⟨latency, now, hsome, hl⟩
    · rw [hnone, hl]
      exact ⟨hconfig, hshort, hlong⟩
    · obtain ⟨hobserved, -, -⟩ := c.latency.observeAt_averages latency now
      obtain ⟨hshort', hlong'⟩ := observeAt_exact c.latency latency now
      rw [hconfig, hshort] at hshort'
      rw [hconfig, hlong] at hlong'
      rw [hsome, hl]
      exact ⟨hobserved.trans hconfig, hshort', hlong'⟩

omit [Rng R ℝ] in
/-- What a new controller starts from. -/
theorem fresh_latency (h0 : Fresh c₀) : c₀.latency.config = c₀.config.latencyConfig ∧
    c₀.latency.short = c₀.config.expectedRtt ∧ c₀.latency.long = c₀.config.expectedRtt := by
  obtain ⟨config, now, rng, controllerId, hn⟩ := h0
  obtain ⟨_, _, _, latency, _, _, hl, _, _, rfl⟩ := newWithRng_cases hn
  unfold LatencyEstimator.new at hl
  simp only [Option.bind_eq_bind, Option.bind_eq_some_iff, Option.guard_eq_some'] at hl
  obtain ⟨_, -, _, -, _, -, _, -, _, -, hl⟩ := hl
  cases hl
  exact ⟨rfl, rfl, rfl⟩

/-- The estimate does not fall below the least round-trip time. -/
theorem run_minRtt_le (h0 : Fresh c₀) (h : Run Step c₀ tr c) : (c.latency.config.minRtt : ℝ) ≤ c.latency.long := by
  obtain ⟨hconfig, -, hlong⟩ := run_averages h
  obtain ⟨hc, -, hl⟩ := fresh_latency h0
  have hmin : c₀.latency.config.minRtt ≤ c₀.config.expectedRtt := by
    rw [hc]
    exact min_le_right _ _
  have hlow : ∀ s ∈ sampledRtts c₀.latency.config.minRtt tr, (c₀.latency.config.minRtt : ℝ) ≤ s := by
    intro s hs
    obtain ⟨rtt, -, rfl⟩ := List.mem_map.mp hs
    exact NNReal.coe_le_coe.mpr (le_max_right _ _)
  have hstart : (c₀.latency.config.minRtt : ℝ) - 0 ≤ c₀.latency.long := by
    rw [hl, sub_zero]
    exact NNReal.coe_le_coe.mpr hmin
  have ht := run_tuned h0 .nil
  have hle := le_average ht.weight_pos.le ht.weight_le hlow le_rfl hstart
  rw [hconfig, hlong]
  rwa [mul_zero, sub_zero] at hle

/-- **The estimates follow the evidence.** From any reached controller `m` on. -/
theorem estimates_follow_evidence (h0 : Fresh c₀) (hb : Run Step c₀ before m) (h : Run Step m tr c) :
    Follows (2 * c₀.config.initialConcurrency) m.latency.short
      (sampledRtts (min (fromMicros 1) c₀.config.expectedRtt) tr) c.latency.short ∧
    Follows (20 * c₀.config.initialConcurrency) m.latency.long
      (sampledRtts (min (fromMicros 1) c₀.config.expectedRtt) tr) c.latency.long ∧
    c.latency.expectedRtt = min c.latency.long.toNNReal durationMax ∧
    c₀.latency.short = c₀.config.expectedRtt ∧ c₀.latency.long = c₀.config.expectedRtt := by
  obtain ⟨hc, hshort₀, hlong₀⟩ := fresh_latency h0
  obtain ⟨hconfig, -, -⟩ := run_averages hb
  obtain ⟨-, hshort, hlong⟩ := run_averages h
  rw [hconfig, hc] at hshort hlong
  have hN : (0 : ℝ) ≤ c₀.config.initialConcurrency := Nat.cast_nonneg _
  have htwo : (c₀.config.latencyConfig : LatencyEstimatorConfig ℝ≥0 ℝ).shortAlpha =
      EndpointConfig.ewmaAlpha (2 * (c₀.config.initialConcurrency : ℝ)) := by
    show EndpointConfig.ewmaAlpha ((c₀.config.initialConcurrency : ℝ) * (2.0 : ℝ)) = _
    norm_num [mul_comm]
  have htwenty : (c₀.config.latencyConfig : LatencyEstimatorConfig ℝ≥0 ℝ).longAlpha =
      EndpointConfig.ewmaAlpha (20 * (c₀.config.initialConcurrency : ℝ)) := by
    show EndpointConfig.ewmaAlpha ((c₀.config.initialConcurrency : ℝ) * (20.0 : ℝ)) = _
    norm_num [mul_comm]
  refine ⟨?_, ?_, ?_, hshort₀, hlong₀⟩
  · rw [hshort, htwo]
    exact average_follows (mul_nonneg (by norm_num) hN) _ _
  · rw [hlong, htwenty]
    exact average_follows (mul_nonneg (by norm_num) hN) _ _
  · rw [expectedRtt_exactTime, max_eq_left (run_minRtt_le h0 (hb.append h))]

end

/-- The first request of an endpoint takes twice the initial estimate. -/
theorem exactSample_completed : ∃ (c₀ m c : EndpointController ℝ≥0 ℝ Unit) (before : List (Entry ℝ≥0 ℝ Unit))
    (e : Entry ℝ≥0 ℝ Unit), Fresh c₀ ∧ Run Step c₀ before m ∧ Run Step m [e] c ∧ m.latency.expectedRtt = 1 ∧ measuredRtts [e] = [2] := by
  obtain ⟨c₀, m, before, d, h0, hrun, -, -, -, hs, -, -, -, hinflight, -⟩ :=
    exactSample_dispatch () nano_le_one one_le_durationMax
  let q : InFlightRequest ℝ≥0 := { controllerId := 7, dispatchedAt := 0, wasPaced := false }
  let call : Call ℝ≥0 := .onComplete q .success 2 2
  have hq : q.controllerId = m.controllerId := hs.controllerId.symm
  have hsets : SetsRate m call (m.released q 2 2 .success) 2 := .release rfl hq (by rw [hinflight]; exact one_pos)
  have ht := run_tuned h0.fresh hrun.untimed
  have hD : (1 : ℝ≥0) ≤ durationMax / 5 := le_fifth one_le_two
  -- nothing has been learned yet
  have hlong : max m.latency.long (m.latency.config.minRtt : ℝ) ≤ 1 := by
    have hrtt := hs.expectedRtt
    rw [expectedRtt_exactTime] at hrtt
    have hlt : (1 : ℝ≥0) < durationMax := by
      refine hD.trans_lt (div_lt_self (NNReal.coe_pos.mp durationMax_pos) ?_)
      norm_num
    rcases min_choice (max m.latency.long (m.latency.config.minRtt : ℝ)).toNNReal durationMax with h | h
    · rw [h] at hrtt
      exact Real.toNNReal_le_one.mp hrtt.le
    · rw [h] at hrtt
      exact absurd hrtt hlt.ne'
  have hone : (1 : ℝ) ≤ ((durationMax / 5 : ℝ≥0) : ℝ) := by exact_mod_cast hD
  have hb : Bounded (durationMax / 5) m :=
    ⟨(le_max_left _ _).trans (hlong.trans hone), (by exact_mod_cast (le_max_right _ _).trans (hlong.trans hone))⟩
  have hcall : call.Within (durationMax / 5) := by
    intro q' latency now hr
    cases hr
    exact le_fifth le_rfl
  have hsome := (hsets.returns_iff ht).mpr ((hsets.bounded ht hb hcall).sustained (hsets.tuned ht) 2)
  obtain ⟨⟨reply, c⟩, hexec⟩ := Option.isSome_iff_exists.mp hsome
  let e : Entry ℝ≥0 ℝ Unit := { call, reply, before := m, after := c }
  have hmeasured : e.measured? = some 2 := if_pos ⟨hq, rfl⟩
  refine ⟨c₀, m, c, before ++ [d], e, h0.fresh, hrun.untimed, Run.single ⟨rfl, rfl, hexec⟩, hs.expectedRtt, ?_⟩
  rw [measuredRtts, List.filterMap_cons_some hmeasured]
  rfl

theorem estimates_follow_evidence_one : ∃ (c₀ m c : EndpointController ℝ≥0 ℝ Unit) (before : List (Entry ℝ≥0 ℝ Unit))
    (e : Entry ℝ≥0 ℝ Unit), Run Step c₀ before m ∧ Run Step m [e] c ∧ m.latency.expectedRtt = 1 ∧ measuredRtts [e] = [2] ∧
    Follows (20 * c₀.config.initialConcurrency) m.latency.long
      (sampledRtts (min (fromMicros 1) c₀.config.expectedRtt) [e]) c.latency.long := by
  obtain ⟨c₀, m, c, before, e, h0, hb, h, hrtt, hm⟩ := exactSample_completed
  obtain ⟨-, hlong, -⟩ := estimates_follow_evidence h0 hb h
  exact ⟨c₀, m, c, before, e, hb, h, hrtt, hm, hlong⟩

end Loadpace
