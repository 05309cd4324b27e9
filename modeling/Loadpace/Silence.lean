import Loadpace.Deadline

/-!
# Silence never speeds an endpoint up

The rate is the product of a base rate, which failures lower, and a decay whose floor depends on that same base rate. The
product is monotone all the same: above the lowest rate the floor of the product does not depend on the base, and below it
there is no decay (`decayedRate_mono`). The interval of the pacer is the one that the rate had at some instant the clock has
passed (`run_derived`), so a call that answers no request can only lengthen it: `silence_is_monotone`.
-/

namespace Loadpace

open Systems EndpointController

open scoped NNReal

/-! ## The decayed rate -/

section

variable {R : Type} {c m : EndpointController ℝ≥0 ℝ R} {now s : ℝ≥0}

/-- **A lower base rate decays to a lower rate**, floor included. -/
theorem decayedRate_mono (c : EndpointController ℝ≥0 ℝ R) (now : ℝ≥0) {base base' : ℝ} (h0 : 0 < base)
    (hle : base ≤ base') : base * c.feedbackFactor now base ≤ base' * c.feedbackFactor now base' := by
  cases he : c.feedbackEpoch with
  | none =>
    have hone (rate : ℝ) : c.feedbackFactor now rate = (1.0 : ℝ) := by
      unfold feedbackFactor
      rw [he]
    rw [hone, hone]
    linarith
  | some epoch =>
    rcases feedbackFactor_exactTime now he base with ⟨hz, hf⟩ | ⟨hne, hf⟩
    · rcases feedbackFactor_exactTime now he base' with ⟨-, hf'⟩ | ⟨hne, -⟩
      · rw [hf, hf']
        linarith
      · exact absurd hz hne
    · rcases feedbackFactor_exactTime now he base' with ⟨hz, -⟩ | ⟨-, hf'⟩
      · exact absurd hz hne
      · rw [hf, hf']
        -- the floor of the product is the lowest rate, or the base rate when that is lower
        have hfloor (decay lowest : ℝ) {rate : ℝ} (hrate : 0 < rate) :
            rate * max decay (min (lowest / rate) 1) = max (rate * decay) (min lowest rate) := by
          rw [mul_max_of_nonneg _ _ hrate.le, mul_min_of_nonneg _ _ hrate.le, mul_div_cancel₀ _ hrate.ne', mul_one]
        rw [hfloor _ _ h0, hfloor _ _ (h0.trans_le hle)]
        refine max_le_max ?_ (min_le_min le_rfl hle)
        exact mul_le_mul_of_nonneg_right hle (Real.rpow_nonneg zero_le_two _)

/-- The rate of an endpoint that has not been answered in between: its concurrency has not grown, and it has waited longer. -/
theorem rateAt_unanswered (hpos : 0 < m.rateAt s) (hle : now ≤ s)
    (hconc : m.gradient.concurrency ≤ c.gradient.concurrency) (hlat : m.latency = c.latency)
    (hepoch : m.feedbackEpoch = c.feedbackEpoch) (hprobe : (c.probe.active now).current = none)
    (hprobe' : (m.probe.active s).current = none) : m.rateAt s ≤ c.rateAt now := by
  have hrate : c.rateAt now = c.gradient.concurrency / (c.latency.expectedRtt : ℝ) *
      c.feedbackFactor now (c.gradient.concurrency / (c.latency.expectedRtt : ℝ)) := rateAt_unprobed hprobe
  have hrate' : m.rateAt s = m.gradient.concurrency / (m.latency.expectedRtt : ℝ) *
      m.feedbackFactor s (m.gradient.concurrency / (m.latency.expectedRtt : ℝ)) := rateAt_unprobed hprobe'
  have hfactor (rate : ℝ) : m.feedbackFactor s rate = c.feedbackFactor s rate := by
    unfold feedbackFactor
    rw [hepoch]
  have hbase : 0 < m.gradient.concurrency / (c.latency.expectedRtt : ℝ) := by
    rw [hrate', hlat] at hpos
    exact pos_of_mul_pos_left hpos (feedbackFactor_pos m s _).le
  have hmono : m.gradient.concurrency / (c.latency.expectedRtt : ℝ) ≤
      c.gradient.concurrency / (c.latency.expectedRtt : ℝ) :=
    div_le_div_of_nonneg_right hconc (NNReal.coe_nonneg _)
  calc m.rateAt s
      = m.gradient.concurrency / (c.latency.expectedRtt : ℝ) *
          c.feedbackFactor s (m.gradient.concurrency / (c.latency.expectedRtt : ℝ)) := by rw [hrate', hlat, hfactor]
    _ ≤ m.gradient.concurrency / (c.latency.expectedRtt : ℝ) *
          c.feedbackFactor now (m.gradient.concurrency / (c.latency.expectedRtt : ℝ)) :=
        mul_le_mul_of_nonneg_left (feedbackFactor_antitone c _ hle) hbase.le
    _ ≤ c.rateAt now := by
        rw [hrate]
        exact decayedRate_mono c now hbase hmono

/-- A lower rate has a longer interval. -/
theorem interval_le_of_rate_le {rate rate' : ℝ} {interval interval' : ℝ≥0} (h : rateToInterval rate = some interval)
    (h' : rateToInterval rate' = some interval') (hle : rate' ≤ rate) : interval ≤ interval' := by
  obtain ⟨-, hval, -⟩ := rateToInterval_exactTime h
  obtain ⟨hpos', hval', -⟩ := rateToInterval_exactTime h'
  rw [← NNReal.coe_le_coe, hval, hval']
  exact max_le_max (one_div_le_one_div_of_le hpos' hle) le_rfl

end

/-! ## Where the interval comes from -/

section

variable {R : Type} [Rng R ℝ] {c₀ c c' : EndpointController ℝ≥0 ℝ R} {e : Entry ℝ≥0 ℝ R} {tr rest : List (Entry ℝ≥0 ℝ R)}
variable {start clock now : ℝ≥0}

/-- The interval of the pacer is the one of the rate at an instant the clock has passed. -/
def Derived (c : EndpointController ℝ≥0 ℝ R) (clock : ℝ≥0) : Prop :=
  ∃ t ≤ clock, c.probe.active t = c.probe ∧ rateToInterval (c.rateAt t) = some c.pacer.interval

omit [Rng R ℝ] in
theorem SameRates.derived {m : EndpointController ℝ≥0 ℝ R} {interval : ℝ≥0}
    (h : SameRates m c'.gradient c'.latency c'.probe c'.feedbackEpoch now)
    (hi : rateToInterval (m.rateAt now) = some interval) (heq : c'.pacer.interval = interval) : Derived c' now := by
  have hactive : c'.probe.active now = c'.probe := by rw [← h.probe, ProbeState.active_active]
  have hrate : m.rateAt now = c'.rateAt now :=
    rateAt_congr h.gradient h.latency (h.probe.trans hactive.symm) h.epoch
  exact ⟨now, le_rfl, hactive, by rw [← hrate, hi, heq]⟩

omit [Rng R ℝ] in
/-- There is no decay at the instant of the feedback. -/
theorem feedbackFactor_fresh (c : EndpointController ℝ≥0 ℝ R) (rate : ℝ)
    (h : ∀ epoch, c.feedbackEpoch = some epoch → epoch.lastFeedbackAt = now) : c.feedbackFactor now rate = 1 := by
  cases he : c.feedbackEpoch with
  | none =>
    have hone : c.feedbackFactor now rate = (1.0 : ℝ) := by
      unfold feedbackFactor
      rw [he]
    rw [hone]
    norm_num
  | some epoch =>
    rcases feedbackFactor_exactTime now he rate with ⟨-, hf⟩ | ⟨hne, -⟩
    · exact hf
    · refine absurd ?_ hne
      rw [h epoch he, tsub_self, zero_tsub]

omit [Rng R ℝ] in
/-- A dispatch that gives feedback is the first in flight. -/
theorem Entry.feedback_of_dispatch {epoch : FeedbackEpoch ℝ≥0} (hd : e.dispatched?.isSome)
    (hnow : e.call.now? = some now) (h : e.feedback? = some epoch) :
    e.before.inflight = 0 ∧ epoch.lastFeedbackAt = now := by
  obtain ⟨_, _, -, hown⟩ := Entry.of_dispatched hd
  unfold Entry.feedback? at h
  split at h
  · rename_i hg
    rw [hnow] at h
    obtain rfl := Option.some.inj h
    rcases hg with ⟨-, hz⟩ | ⟨hs | hs, -⟩
    · exact ⟨hz, rfl⟩
    · rw [hown] at hs
      cases hs
    · rw [hown] at hs
      cases hs
  · cases h

/-- One call keeps the origin of the interval. -/
theorem Derived.step (hd : Derived c clock) (hidle : c.inflight = 0 → c.feedbackEpoch = none)
    (h : TimedStep (c, clock) e (c', now)) : Derived c' now := by
  obtain ⟨hstep, hcases⟩ := h.cases
  have hle : clock ≤ now := by
    rcases hcases with ⟨t, -, hle, rfl⟩ | ⟨-, -, rfl⟩
    · exact hle
    · exact le_rfl
  have hnow {t : ℝ≥0} (ht : e.call.now? = some t) : t = now := by
    rcases hcases with ⟨t', ht', -, rfl⟩ | ⟨hcall, -, -⟩
    · exact Option.some.inj (ht.symm.trans ht')
    · rw [hcall] at ht
      cases ht
  have hstep : Step c e c' := hstep
  cases hstep.rating with
  | kept hdis hpacer hgradient hlatency hprobe hepoch =>
    obtain ⟨t, ht, hactive, hi⟩ := hd
    refine ⟨t, ht.trans hle, by rw [hprobe, hactive], ?_⟩
    rw [rateAt_congr hgradient hlatency (by rw [hprobe]) hepoch, hi, hpacer]
  | repaced hsets hdis hrates hset =>
    obtain rfl := hnow hsets.now?
    exact hrates.derived (Gcra.setRate_cases hset).1 rfl
  | @committed t m pacer hsets hdis hrates hset htat heq =>
    have ht := hsets.now?
    obtain rfl := hnow ht
    have hi := (Gcra.setRate_cases hset).1
    have hinterval : c'.pacer.interval = pacer.interval := by
      rw [heq]
      rfl
    rcases hstep.epoch with ⟨epoch, hf, -, hepoch⟩ | ⟨-, hown, -, -⟩ | ⟨-, -, -, hepoch⟩
    · -- the dispatch began an epoch: there is no decay before it and none after it
      obtain ⟨hbefore, hat⟩ := Entry.feedback_of_dispatch hdis ht hf
      have hzero : c.inflight = 0 := by rwa [hstep.1] at hbefore
      have hactive : c'.probe.active t = c'.probe := by rw [← hrates.probe, ProbeState.active_active]
      have hrate : m.rateAt t = c'.rateAt t := by
        have hprobed : m.probedRateAt t = c'.probedRateAt t := by
          unfold probedRateAt ProbeState.effectiveRate
          dsimp only
          rw [hrates.gradient, hrates.latency, hrates.probe, hactive]
        have hm : m.feedbackFactor t (m.probedRateAt t) = 1 := by
          refine feedbackFactor_fresh m _ fun epoch he => ?_
          rw [hrates.epoch, hidle hzero] at he
          cases he
        have hc : c'.feedbackFactor t (c'.probedRateAt t) = 1 := by
          refine feedbackFactor_fresh c' _ fun epoch' he => ?_
          rw [hepoch] at he
          exact Option.some.inj he ▸ hat
        rw [rateAt_probed, rateAt_probed, hm, hc, hprobed]
      exact ⟨t, le_rfl, hactive, by rw [← hrate, hi, hinterval]⟩
    · obtain ⟨_, _, -, hnone⟩ := Entry.of_dispatched hdis
      rw [hnone] at hown
      cases hown
    · exact (hepoch.symm ▸ hrates : SameRates m c'.gradient c'.latency c'.probe c'.feedbackEpoch t).derived hi hinterval

theorem run_derived (h0 : FreshAt c₀ start) (h : Run TimedStep (c₀, start) tr (c, clock)) : Derived c clock := by
  generalize hx : (c, clock) = x at h
  induction h generalizing c clock with
  | nil =>
    obtain ⟨rfl, rfl⟩ := Prod.mk.inj hx
    obtain ⟨config, rng, controllerId, hn⟩ := h0
    obtain ⟨_, _, _, latency, gradient, pacer, _, _, hp, rfl⟩ := newWithRng_cases hn
    unfold Gcra.new at hp
    simp only [Option.bind_eq_bind, Option.bind_eq_some_iff] at hp
    obtain ⟨interval, hi, hp⟩ := hp
    obtain rfl := Option.some.inj hp
    refine ⟨clock, le_rfl, rfl, ?_⟩
    rw [rateAt_unprobed rfl, feedbackFactor_fresh _ _ (fun epoch he => by cases he), mul_one]
    exact hi
  | @snoc tr m e x hr he ih =>
    subst hx
    obtain ⟨m, t₀⟩ := m
    exact (ih rfl).step (run_epoch h0.fresh hr.untimed).idle he

/-! ## Silence -/

/-- The call leaves work in flight, answers none of it, and leaves no probe in force. -/
structure Entry.Unanswered (e : Entry ℝ≥0 ℝ R) : Prop where
  busy : 0 < e.after.inflight
  success : e.ownRelease? ≠ some .success
  failure : e.ownRelease? ≠ some .failure
  unprobed : e.after.probe.current = none

omit [Rng R ℝ] in
theorem active_unprobed {s : ProbeState ℝ≥0 ℝ} (h : s.current = none) (now : ℝ≥0) : (s.active now).current = none := by
  unfold ProbeState.active
  rw [h]
  exact h

/-- **A call of a silent endpoint never shortens the interval.** -/
theorem Derived.interval_le (hd : Derived c clock) (hvalid : c.gradient.Valid) (hbusy : 0 < c.inflight)
    (hprobe : c.probe.current = none) (h : TimedStep (c, clock) e (c', now)) (hu : e.Unanswered) :
    c.pacer.interval ≤ c'.pacer.interval := by
  obtain ⟨hstep, hcases⟩ := h.cases
  have hstep : Step c e c' := hstep
  have hafter : e.after = c' := hstep.2.1
  obtain ⟨hepoch, hlatency, -, hconc⟩ :=
    hstep.unanswered hvalid hbusy (hafter ▸ hu.busy) hu.success hu.failure
  have hprobe' : c'.probe.current = none := hafter ▸ hu.unprobed
  obtain ⟨t, ht, hactive, hi⟩ := hd
  -- a rate that the call sets is no higher than the one the interval comes from
  have slower {s : ℝ≥0} {m : EndpointController ℝ≥0 ℝ R} {pacer : Gcra ℝ≥0} (hs : e.call.now? = some s)
      (hrates : SameRates m c'.gradient c'.latency c'.probe c'.feedbackEpoch s)
      (hset : c.pacer.setRate (m.rateAt s) s = some pacer) : c.pacer.interval ≤ pacer.interval := by
    have hle : clock ≤ s := by
      rcases hcases with ⟨s', hs', hle, -⟩ | ⟨hcall, -, -⟩
      · exact hle.trans_eq (Option.some.inj (hs'.symm.trans hs))
      · rw [hcall] at hs
        cases hs
    have hi' := (Gcra.setRate_cases hset).1
    refine interval_le_of_rate_le hi hi' ?_
    refine rateAt_unanswered (rateToInterval_exactTime hi').1 (ht.trans hle) ?_ ?_ ?_ ?_ ?_
    · rw [hrates.gradient]
      exact hconc
    · exact hrates.latency.trans hlatency
    · exact hrates.epoch.trans hepoch
    · rw [hactive]
      exact hprobe
    · rw [hrates.probe]
      exact hprobe'
  cases hstep.rating with
  | kept _ hpacer _ _ _ _ => exact hpacer.symm ▸ le_rfl
  | repaced hsets _ hrates hset => exact slower hsets.now? hrates hset
  | @committed s m pacer hsets _ hrates hset _ heq =>
    have hle := slower hsets.now? (hepoch.symm ▸ hrates) hset
    rw [heq]
    exact hle

/-- **Silence is monotone.** While work stays in flight, none of it is answered and no probe is in force, no call ever
shortens the pacing interval. -/
theorem silence_is_monotone (h0 : FreshAt c₀ start) (h : Run TimedStep (c₀, start) tr (c, clock)) (hbusy : 0 < c.inflight)
    (hprobe : c.probe.current = none) (hrest : Run TimedStep (c, clock) rest (c', now))
    (hquiet : ∀ e ∈ rest, e.Unanswered) :
    (∀ e ∈ rest, e.before.pacer.interval ≤ e.after.pacer.interval) ∧ c.pacer.interval ≤ c'.pacer.interval := by
  suffices hs : (0 < c'.inflight ∧ c'.probe.current = none) ∧
      (∀ e ∈ rest, e.before.pacer.interval ≤ e.after.pacer.interval) ∧ c.pacer.interval ≤ c'.pacer.interval from hs.2
  generalize hx : (c', now) = x at hrest
  induction hrest generalizing c' now with
  | nil =>
    obtain ⟨rfl, rfl⟩ := Prod.mk.inj hx
    exact ⟨⟨hbusy, hprobe⟩, fun e he => absurd he List.not_mem_nil, le_rfl⟩
  | @snoc rest m e x hr he ih =>
    subst hx
    obtain ⟨m, t₀⟩ := m
    obtain ⟨⟨hbusym, hprobem⟩, hall, htotal⟩ := ih (fun e he => hquiet e (List.mem_append_left _ he)) rfl
    have hu := hquiet e (List.mem_append_right _ List.mem_cons_self)
    have hfull := h.append hr
    have hle := (run_derived h0 hfull).interval_le (run_valid h0.fresh hfull.untimed) hbusym hprobem he hu
    obtain ⟨hstep, -⟩ := TimedStep.cases he
    obtain ⟨hbefore, hafter, -⟩ := hstep
    have hbefore : e.before = m := hbefore
    have hafter : e.after = c' := hafter
    refine ⟨⟨hafter ▸ hu.busy, hafter ▸ hu.unprobed⟩, fun x hx => ?_, htotal.trans hle⟩
    rcases List.mem_append.mp hx with hx | hx
    · exact hall x hx
    · obtain rfl := List.mem_singleton.mp hx
      rw [hbefore, hafter]
      exact hle

theorem silence_is_monotone_refresh : ∃ (c₀ c c' : EndpointController ℝ≥0 ℝ Unit) (tr : List (Entry ℝ≥0 ℝ Unit))
    (e : Entry ℝ≥0 ℝ Unit), FreshAt c₀ 0 ∧ Run TimedStep (c₀, 0) tr (c, 0) ∧ Run TimedStep (c, 0) [e] (c', 5) ∧
      e.call = .refresh 5 ∧ e.Unanswered ∧ c.pacer.interval ≤ c'.pacer.interval := by
  obtain ⟨c₀, c, before, d, h0, hrun, -, -, -, hs, -, hpend, -, hinflight, hepoch⟩ :=
    exactSample_dispatch () nano_le_one one_le_durationMax
  have hnone : c.probe.current = none := by
    rw [hs.probe]
    rfl
  have hactive (now : ℝ≥0) : c.probe.active now = c.probe := by
    rw [hs.probe]
    rfl
  have hdecision : c.probeDecision 5 = some (c.probe, ()) := by
    have hdemand : c.probingHasDemand = false := by
      unfold probingHasDemand
      rw [hs.samples, hinflight, hpend]
      rfl
    unfold probeDecision
    rw [hdemand]
    rfl
  -- the rate at the dispatch has an interval, so the decayed rate has one
  have hrate : c.rateAt 0 = 1 / ((1 : ℝ≥0) : ℝ) := by
    rw [rateAt_unprobed (active_unprobed hnone 0), feedbackFactor_fresh c _ (fun epoch he => ?_), mul_one, hs.concurrency,
      hs.expectedRtt]
    · rfl
    · rw [hepoch] at he
      exact (Option.some.inj he).symm ▸ rfl
  have hnow : rateToInterval (c.rateAt 0) = some (1 : ℝ≥0) := by
    rw [hrate]
    exact exactInterval nano_le_one one_le_durationMax
  obtain ⟨interval, hi, -⟩ := rate_later (c := c) (s := 5) (by rw [hactive, hactive]) zero_le hnow
  have hsame : rateAt { c with probe := c.probe.active 5, probeRng := () } 5 = c.rateAt 5 := by
    rw [hactive]
  obtain ⟨m, hm, hprobe, -, -, -⟩ := refresh_decided hdecision (hsame.symm ▸ hi)
  let e : Entry ℝ≥0 ℝ Unit := { call := .refresh 5, reply := .done, before := c, after := m }
  have hbusy : 0 < c.inflight := by
    rw [hinflight]
    exact one_pos
  have hu : e.Unanswered := by
    refine ⟨?_, fun h => (by cases h), fun h => (by cases h), ?_⟩
    · have hkept : m.inflight = c.inflight := congrArg Ledger.inflight (refresh_ledger hm)
      show 0 < m.inflight
      omega
    · exact hprobe ▸ active_unprobed hnone 5
  have hstep : Run TimedStep (c, 0) [e] (m, 5) := by
    refine Run.single ⟨⟨rfl, rfl, ?_⟩, zero_le, rfl⟩
    show (c.refresh 5).map _ = _
    rw [hm]
    rfl
  obtain ⟨-, htotal⟩ := silence_is_monotone h0 hrun hbusy hnone hstep fun x hx => List.mem_singleton.mp hx ▸ hu
  exact ⟨c₀, c, m, before ++ [d], e, h0, hrun, hstep, rfl, hu, htotal⟩

end

end Loadpace
