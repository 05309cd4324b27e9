import Loadpace.Epoch
import Loadpace.Evidence
import Loadpace.Fluid
import Loadpace.Lib.Spacing

/-!
# The exposure of a silent endpoint

An endpoint that stops answering keeps its feedback epoch, and its rate falls: for one expected RTT it stays at the rate of
the epoch, and then it halves with every expected RTT (`rateAt_silent`). Each dispatch is spaced by the rate of its own
instant (`run_silent`), so the dispatches of each silent RTT are few, and fewer as the silence goes on
(`Spacing.Spaced.count_window`); `blackhole_exposure_bound` sums them up.
-/

namespace Loadpace

open Systems EndpointController

open scoped NNReal

/-! ## The rate while the endpoint is silent -/

/-- The silent RTTs that count at an instant, the first one not. -/
noncomputable def halvings (epoch : FeedbackEpoch ℝ≥0) (t : ℝ) : ℝ :=
  max 0 ((t - epoch.lastFeedbackAt) / epoch.expectedRtt - 1)

/-- The bound on the rate at an instant of the silence that began with the concurrency `concurrency`. -/
noncomputable def silentRate (concurrency : ℝ) (epoch : FeedbackEpoch ℝ≥0) (t : ℝ) : ℝ :=
  max (concurrency / epoch.expectedRtt * 2 ^ (-halvings epoch t)) (2 / ((durationMax : ℝ≥0) : ℝ))

theorem silentRate_antitone {concurrency : ℝ} (hc : 0 ≤ concurrency) (epoch : FeedbackEpoch ℝ≥0) :
    Antitone (silentRate concurrency epoch) := by
  intro s t hst
  have hle : halvings epoch s ≤ halvings epoch t := by
    unfold halvings
    gcongr
  have hpow : (2 : ℝ) ^ (-halvings epoch t) ≤ 2 ^ (-halvings epoch s) :=
    Real.rpow_le_rpow_of_exponent_le (by norm_num) (neg_le_neg hle)
  have hbase : 0 ≤ concurrency / (epoch.expectedRtt : ℝ) := div_nonneg hc epoch.expectedRtt.coe_nonneg
  exact max_le_max (mul_le_mul_of_nonneg_left hpow hbase) le_rfl

section

variable {R : Type} [Rng R ℝ] {m : EndpointController ℝ≥0 ℝ R} {epoch : FeedbackEpoch ℝ≥0} {now : ℝ≥0} {concurrency : ℝ}

theorem durationMax_pos : (0 : ℝ) < (durationMax : ℝ≥0) := by
  show (0 : ℝ) < ((18446744073709551615999999999 / 1000000000 : ℝ≥0) : ℝ)
  norm_num

omit [Rng R ℝ] in
/-- The decay of the rate in exact time. -/
theorem feedbackFactor_exactTime (now : ℝ≥0) (he : m.feedbackEpoch = some epoch) (rate : ℝ) :
    (now - epoch.lastFeedbackAt - epoch.expectedRtt = 0 ∧ m.feedbackFactor now rate = 1) ∨
    (now - epoch.lastFeedbackAt - epoch.expectedRtt ≠ 0 ∧ m.feedbackFactor now rate =
      max (2 ^ (-(((now - epoch.lastFeedbackAt - epoch.expectedRtt : ℝ≥0) : ℝ) / epoch.expectedRtt)))
        (min (2 / ((durationMax : ℝ≥0) : ℝ) / rate) 1)) := by
  have hone : (1.0 : ℝ) = 1 := by norm_num
  have htwo : (1.0 : ℝ) / ((durationMax : ℝ≥0) : ℝ) * 2.0 = 2 / ((durationMax : ℝ≥0) : ℝ) := by
    rw [hone, div_mul_eq_mul_div]
    norm_num
  unfold feedbackFactor
  rw [he]
  dsimp only
  by_cases hz : now - epoch.lastFeedbackAt - epoch.expectedRtt = 0
  · rw [if_pos hz]
    exact Or.inl ⟨hz, hone⟩
  · rw [if_neg hz]
    refine Or.inr ⟨hz, ?_⟩
    show max ((2 : ℝ) ^ (-(((now - epoch.lastFeedbackAt - epoch.expectedRtt : ℝ≥0) : ℝ) / (epoch.expectedRtt : ℝ))))
      (min ((1.0 : ℝ) / ((durationMax : ℝ≥0) : ℝ) * 2.0 / rate) 1.0) = _
    rw [htwo, hone]

omit [Rng R ℝ] in
theorem feedbackFactor_pos (c : EndpointController ℝ≥0 ℝ R) (now : ℝ≥0) (rate : ℝ) : 0 < c.feedbackFactor now rate := by
  cases he : c.feedbackEpoch with
  | none =>
    have hone : c.feedbackFactor now rate = (1.0 : ℝ) := by unfold feedbackFactor; rw [he]
    rw [hone]
    norm_num
  | some epoch =>
    rcases feedbackFactor_exactTime now he rate with ⟨-, hf⟩ | ⟨-, hf⟩
    · rw [hf]
      exact one_pos
    · rw [hf]
      exact lt_max_of_lt_left (Real.rpow_pos_of_pos two_pos _)

omit [Rng R ℝ] in
/-- The decay stops at the longest interval. -/
theorem feedbackFactor_bounds (c : EndpointController ℝ≥0 ℝ R) (now : ℝ≥0) (rate : ℝ) :
    min (2 / ((durationMax : ℝ≥0) : ℝ) / rate) 1 ≤ c.feedbackFactor now rate ∧ c.feedbackFactor now rate ≤ 1 := by
  cases he : c.feedbackEpoch with
  | none =>
    have hone : c.feedbackFactor now rate = 1 := by
      have h : c.feedbackFactor now rate = (1.0 : ℝ) := by unfold feedbackFactor; rw [he]
      rw [h]
      norm_num
    rw [hone]
    exact ⟨min_le_right _ _, le_rfl⟩
  | some epoch =>
    rcases feedbackFactor_exactTime now he rate with ⟨-, hf⟩ | ⟨-, hf⟩
    · rw [hf]
      exact ⟨min_le_right _ _, le_rfl⟩
    · rw [hf]
      refine ⟨le_max_right _ _, max_le (Real.rpow_le_one_of_one_le_of_nonpos one_le_two ?_) (min_le_right _ _)⟩
      exact neg_nonpos.mpr (div_nonneg (NNReal.coe_nonneg _) epoch.expectedRtt.coe_nonneg)

omit [Rng R ℝ] in
/-- The longer the silence, the stronger the decay. -/
theorem feedbackFactor_antitone (c : EndpointController ℝ≥0 ℝ R) (rate : ℝ) {now s : ℝ≥0} (h : now ≤ s) :
    c.feedbackFactor s rate ≤ c.feedbackFactor now rate := by
  cases he : c.feedbackEpoch with
  | none =>
    unfold feedbackFactor
    rw [he]
  | some epoch =>
    have hexcess : now - epoch.lastFeedbackAt - epoch.expectedRtt ≤ s - epoch.lastFeedbackAt - epoch.expectedRtt :=
      tsub_le_tsub_right (tsub_le_tsub_right h _) _
    rcases feedbackFactor_exactTime now he rate with ⟨-, hf⟩ | ⟨hne, hf⟩
    · rw [hf]
      exact (feedbackFactor_bounds c s rate).2
    · rcases feedbackFactor_exactTime s he rate with ⟨hz, -⟩ | ⟨-, hf'⟩
      · rw [hz] at hexcess
        exact absurd (le_zero_iff.mp hexcess) hne
      · rw [hf, hf']
        refine max_le_max (Real.rpow_le_rpow_of_exponent_le one_le_two (neg_le_neg ?_)) le_rfl
        have hexcess := NNReal.coe_le_coe.mpr hexcess
        gcongr

omit [Rng R ℝ] in
/-- **The decay never takes the interval of a rate beyond the longest duration.** -/
theorem decayed_representable (c : EndpointController ℝ≥0 ℝ R) (now : ℝ≥0) {base : ℝ} (hbase : 0 < base) :
    1 ≤ ((durationMax : ℝ≥0) : ℝ) * (base * c.feedbackFactor now base) ↔ 1 ≤ ((durationMax : ℝ≥0) : ℝ) * base := by
  have hD := durationMax_pos
  obtain ⟨hlo, hhi⟩ := feedbackFactor_bounds c now base
  constructor
  · intro h
    exact h.trans (mul_le_mul_of_nonneg_left (mul_le_of_le_one_right hbase.le hhi) hD.le)
  · intro h
    have hfloor := mul_le_mul_of_nonneg_left hlo hbase.le
    rw [mul_min_of_nonneg _ _ hbase.le, mul_div_cancel₀ _ hbase.ne', mul_one] at hfloor
    refine le_trans ?_ (mul_le_mul_of_nonneg_left hfloor hD.le)
    rw [mul_min_of_nonneg _ _ hD.le, mul_div_cancel₀ _ hD.ne']
    exact le_min one_le_two h

omit [Rng R ℝ] in
/-- **The rate of a silent endpoint.** -/
theorem rateAt_silent (he : m.feedbackEpoch = some epoch) (hrtt : m.latency.expectedRtt = epoch.expectedRtt)
    (hT : 0 < epoch.expectedRtt) (hprobe : (m.probe.active now).current = none) (hpos : 0 < m.gradient.concurrency)
    (hle : m.gradient.concurrency ≤ concurrency) : m.rateAt now ≤ silentRate concurrency epoch now := by
  have hT : (0 : ℝ) < epoch.expectedRtt := hT
  have hrate : m.rateAt now = m.gradient.concurrency / (epoch.expectedRtt : ℝ) *
      m.feedbackFactor now (m.gradient.concurrency / (epoch.expectedRtt : ℝ)) := by
    rw [← hrtt]
    exact rateAt_unprobed hprobe
  have hbase : 0 < m.gradient.concurrency / (epoch.expectedRtt : ℝ) := div_pos hpos hT
  have hmono : m.gradient.concurrency / (epoch.expectedRtt : ℝ) ≤ concurrency / epoch.expectedRtt := by gcongr
  rw [hrate]
  generalize m.gradient.concurrency / (epoch.expectedRtt : ℝ) = base at hbase hmono
  rcases feedbackFactor_exactTime now he base with ⟨hz, hf⟩ | ⟨hz, hf⟩
  · -- the first expected RTT: no decay
    have hsilence : (now : ℝ) - epoch.lastFeedbackAt ≤ epoch.expectedRtt := by
      have h1 : now - epoch.lastFeedbackAt ≤ epoch.expectedRtt := tsub_eq_zero_iff_le.mp hz
      have h2 : now ≤ epoch.expectedRtt + epoch.lastFeedbackAt := tsub_le_iff_right.mp h1
      have h3 : (now : ℝ) ≤ epoch.expectedRtt + epoch.lastFeedbackAt := by exact_mod_cast h2
      linarith
    have hh : halvings epoch now = 0 := by
      have hle1 : ((now : ℝ) - epoch.lastFeedbackAt) / epoch.expectedRtt ≤ 1 := (div_le_one hT).mpr hsilence
      exact max_eq_left (by linarith)
    rw [hf, mul_one, silentRate, hh, neg_zero, Real.rpow_zero, mul_one]
    exact hmono.trans (le_max_left _ _)
  · have hexcess : ((now - epoch.lastFeedbackAt - epoch.expectedRtt : ℝ≥0) : ℝ) / epoch.expectedRtt =
        halvings epoch now := by
      have h1 : ¬now - epoch.lastFeedbackAt ≤ epoch.expectedRtt := fun h => hz (tsub_eq_zero_of_le h)
      have h2 : epoch.expectedRtt ≤ now - epoch.lastFeedbackAt := (not_le.mp h1).le
      have h3 : epoch.lastFeedbackAt ≤ now := by
        by_contra hc
        rw [tsub_eq_zero_of_le (not_le.mp hc).le] at h1
        exact h1 zero_le
      have h4 : (epoch.expectedRtt : ℝ) ≤ now - epoch.lastFeedbackAt := by
        rw [← NNReal.coe_sub h3]
        exact NNReal.coe_le_coe.mpr h2
      rw [NNReal.coe_sub h2, NNReal.coe_sub h3, sub_div, div_self hT.ne']
      refine (max_eq_right ?_).symm
      have h5 : 1 ≤ ((now : ℝ) - epoch.lastFeedbackAt) / epoch.expectedRtt := (one_le_div hT).mpr h4
      linarith
    rw [hf, hexcess, mul_max_of_nonneg _ _ hbase.le]
    refine max_le_max ?_ ?_
    · exact mul_le_mul_of_nonneg_right hmono (Real.rpow_nonneg (by norm_num) _)
    · refine (mul_le_mul_of_nonneg_left (min_le_left _ _) hbase.le).trans ?_
      rw [mul_div_cancel₀ _ hbase.ne']

end

/-! ## Silence -/

/-- The instants of the dispatches of a history. -/
def dispatchInstants {T F R : Type} (tr : List (Entry T F R)) : List T :=
  tr.filterMap fun e => if e.dispatched?.isSome then e.call.now? else none

/-- The call leaves work in flight, releases nothing but abandoned requests, and no probe is active at its instant. -/
structure Entry.Quiet {T F R : Type} [LinearOrder T] [Sub T] (e : Entry T F R) : Prop where
  busy : 0 < e.after.inflight
  success : e.ownRelease? ≠ some .success
  failure : e.ownRelease? ≠ some .failure
  probe : ∀ now, e.call.now? = some now → (e.after.probe.active now).current = none

section

variable {R : Type} [Rng R ℝ] {c₀ c c' : EndpointController ℝ≥0 ℝ R} {e : Entry ℝ≥0 ℝ R} {tr rest : List (Entry ℝ≥0 ℝ R)}
variable {epoch : FeedbackEpoch ℝ≥0} {concurrency : ℝ} {start clock now t₀ : ℝ≥0}

/-- The controller has been waiting since the epoch, and its concurrency has not grown. -/
structure Waiting (concurrency : ℝ) (epoch : FeedbackEpoch ℝ≥0) (c : EndpointController ℝ≥0 ℝ R) : Prop where
  busy : 0 < c.inflight
  feedbackEpoch : c.feedbackEpoch = some epoch
  rtt : c.latency.expectedRtt = epoch.expectedRtt
  valid : c.gradient.Valid
  concurrency : c.gradient.concurrency ≤ concurrency

/-- A call that answers no request, while work is in flight, only lowers the concurrency. -/
theorem Step.unanswered (h : Step c e c') (hvalid : c.gradient.Valid) (hbusy : 0 < c.inflight) (hbusy' : 0 < c'.inflight)
    (hsuccess : e.ownRelease? ≠ some .success) (hfailure : e.ownRelease? ≠ some .failure) :
    c'.feedbackEpoch = c.feedbackEpoch ∧ c'.latency = c.latency ∧ c'.gradient.Valid ∧
      c'.gradient.concurrency ≤ c.gradient.concurrency := by
  have hnofeed : e.feedback? = none := by
    refine if_neg ?_
    rintro (⟨-, hidle⟩ | ⟨hs | hf, -⟩)
    · rw [h.1] at hidle
      exact absurd hidle hbusy.ne'
    · exact hsuccess hs
    · exact hfailure hf
  obtain ⟨hvalid', hgrow⟩ := h.ledger.growth hvalid
  refine ⟨?_, ?_, hvalid', ?_⟩
  · rcases h.epoch with ⟨_, hf, -, -⟩ | ⟨-, -, hz, -⟩ | ⟨-, -, -, hsame⟩
    · rw [hnofeed] at hf
      cases hf
    · exact absurd hz hbusy'.ne'
    · exact hsame
  · rcases h.ledger.kinds with ⟨r, q, waited, rest, t, -, -, -, -, -, -, hl⟩ | ⟨q, completion, latency, t, hr, hown, -, -, hl⟩ |
      ⟨t, -, -, hl⟩ | ⟨-, -, -, hl⟩
    · exact congrArg Ledger.latency hl
    · cases completion with
      | success =>
        refine absurd ?_ hsuccess
        rw [Entry.ownRelease?, ownReleaseOf, hr, Option.bind_some, h.1]
        exact if_pos hown
      | failure => exact congrArg Ledger.latency hl
      | abandoned => exact congrArg Ledger.latency hl
    · exact congrArg Ledger.latency hl
    · exact hl.latency
  · -- only a success raises the concurrency
    by_contra hlt
    obtain ⟨q, latency, t, hr, hown, -⟩ := hgrow (not_le.mp hlt)
    refine hsuccess ?_
    rw [Entry.ownRelease?, ownReleaseOf, hr, Option.bind_some, h.1]
    exact if_pos hown

/-- A quiet call keeps the controller waiting. -/
theorem Waiting.step (hw : Waiting concurrency epoch c) (h : Step c e c') (hq : e.Quiet) :
    Waiting concurrency epoch c' := by
  have hbusy : 0 < c'.inflight := h.2.1 ▸ hq.busy
  obtain ⟨hepoch, hlatency, hvalid, hle⟩ := h.unanswered hw.valid hw.busy hbusy hq.success hq.failure
  exact ⟨hbusy, hepoch.trans hw.feedbackEpoch, hlatency ▸ hw.rtt, hvalid, hle.trans hw.concurrency⟩

omit [Rng R ℝ] in
/-- The rate that a call of a silent endpoint sets. -/
theorem Waiting.rate {m : EndpointController ℝ≥0 ℝ R} (hw : Waiting concurrency epoch c) (hT : 0 < epoch.expectedRtt)
    (hprobe : (c.probe.active now).current = none)
    (hrates : SameRates m c.gradient c.latency c.probe c.feedbackEpoch now) :
    m.rateAt now ≤ silentRate concurrency epoch now := by
  refine rateAt_silent (hrates.epoch.trans hw.feedbackEpoch) ?_ hT ?_ ?_ ?_
  · rw [hrates.latency]
    exact hw.rtt
  · rwa [← ProbeState.active_active, hrates.probe]
  · rw [hrates.gradient]
    exact hw.valid.min_pos.trans_le hw.valid.min_le
  · rw [hrates.gradient]
    exact hw.concurrency

/-! ## The spacing of the dispatches -/

/-- The dispatches are spaced by the rates of their instants, and so is the next one: what is left of the pacer's phase is
what the rate of the last dispatch has not drained. -/
structure Paced (rate : ℝ → ℝ) (ts : List ℝ) (c : EndpointController ℝ≥0 ℝ R) (clock : ℝ≥0) : Prop where
  spaced : Spacing.Spaced rate ts
  last : ∀ t ∈ ts.getLast?, t ≤ clock ∧ (c.pacer.interval : ℝ)⁻¹ ≤ rate t ∧
    1 - (clock - t) * rate t ≤ c.pacer.phase clock

theorem dispatchInstants_snoc {T F R : Type} (tr : List (Entry T F R)) (e : Entry T F R) :
    dispatchInstants (tr ++ [e]) =
      dispatchInstants tr ++ (if e.dispatched?.isSome then e.call.now? else none).toList := by
  rw [dispatchInstants, List.filterMap_append]
  rfl

/-- The dispatch that a call makes, as an instant. -/
noncomputable def Entry.dispatchAt (e : Entry ℝ≥0 ℝ R) : List ℝ :=
  (if e.dispatched?.isSome then e.call.now? else none).toList.map NNReal.toReal

omit [Rng R ℝ] in
/-- A call at an instant the clock has not passed keeps the dispatches spaced. -/
theorem Paced.step (hT : 0 < epoch.expectedRtt) (hw : Waiting concurrency epoch c) (hw' : Waiting concurrency epoch c')
    {ts : List ℝ} (hp : Paced (silentRate concurrency epoch) ts c clock) (hle : clock ≤ now)
    (hnow : e.call.now? = some now) (hprobe : (c'.probe.active now).current = none) (hpac : Pacing c e c') :
    Paced (silentRate concurrency epoch) (ts ++ e.dispatchAt) c' now := by
  have hle' : (clock : ℝ) ≤ now := NNReal.coe_le_coe.mpr hle
  have hanti : Antitone (silentRate concurrency epoch) :=
    silentRate_antitone ((hw.valid.min_pos.le.trans hw.valid.min_le).trans hw.concurrency) epoch
  -- what is left of the phase when the call comes
  have hleft : ∀ t ∈ ts.getLast?, t ≤ now ∧
      1 - (now - t) * silentRate concurrency epoch t ≤ c.pacer.phase now := by
    intro t ht
    obtain ⟨htc, hI, hphase⟩ := hp.last t ht
    refine ⟨htc.trans hle', ?_⟩
    have hdrain : ((now : ℝ) - clock) * (c.pacer.interval : ℝ)⁻¹ ≤ (now - clock) * silentRate concurrency epoch t :=
      mul_le_mul_of_nonneg_left hI (sub_nonneg.mpr hle')
    have hsplit : ((now : ℝ) - t) * silentRate concurrency epoch t =
        (now - clock) * silentRate concurrency epoch t + (clock - t) * silentRate concurrency epoch t := by ring
    rw [c.pacer.phase_later hle]
    exact le_max_of_le_right (by linarith)
  -- what a change of the rate keeps of it
  have hkept {m : EndpointController ℝ≥0 ℝ R} {pacer : Gcra ℝ≥0}
      (hset : c.pacer.setRate (m.rateAt now) now = some pacer) : ∀ t ∈ ts.getLast?,
      1 - (now - t) * silentRate concurrency epoch t ≤ pacer.phase now := by
    intro t ht
    obtain ⟨htn, hphase⟩ := hleft t ht
    have hone : 1 - (now - t) * silentRate concurrency epoch t ≤ 1 := by
      have hpos : 0 ≤ silentRate concurrency epoch t :=
        (div_nonneg zero_le_two durationMax_pos.le).trans (le_max_right _ _)
      have hgap : 0 ≤ (now - t) * silentRate concurrency epoch t := mul_nonneg (sub_nonneg.mpr htn) hpos
      linarith
    exact (le_min hone hphase).trans (Gcra.setRate_phase hset).2.1
  cases hpac with
  | still hd hsame =>
    have hnone : e.dispatchAt = [] := by rw [Entry.dispatchAt, hd]; rfl
    rw [hnone, List.append_nil]
    refine ⟨hp.spaced, fun t ht => ?_⟩
    obtain ⟨htn, hphase⟩ := hleft t ht
    rw [hsame]
    exact ⟨htn, (hp.last t ht).2.1, hphase⟩
  | repaced hnow' hd hrates hset =>
    obtain rfl := Option.some.inj (hnow.symm.trans hnow')
    have hnone : e.dispatchAt = [] := by rw [Entry.dispatchAt, hd]; rfl
    rw [hnone, List.append_nil]
    refine ⟨hp.spaced, fun t ht => ?_⟩
    obtain ⟨htn, -⟩ := hleft t ht
    have hslow := (Gcra.setRate_interval hset).trans (hw'.rate hT hprobe hrates)
    exact ⟨htn, hslow.trans (hanti htn), hkept hset t ht⟩
  | committed hnow' hd hrates hset htat heq =>
    obtain rfl := Option.some.inj (hnow.symm.trans hnow')
    have hone : e.dispatchAt = [(now : ℝ)] := by
      rw [Entry.dispatchAt, if_pos hd, hnow]
      rfl
    obtain ⟨hI, -, -⟩ := Gcra.setRate_phase hset
    have hepoch : c.feedbackEpoch = c'.feedbackEpoch := hw.feedbackEpoch.trans hw'.feedbackEpoch.symm
    have hslow := (Gcra.setRate_interval hset).trans (hw'.rate hT hprobe (hepoch ▸ hrates))
    have hzero := (Gcra.phase_eq_zero hI).mpr htat
    rw [hone]
    refine ⟨?_, fun t ht => ?_⟩
    · -- the pacer has drained since the last dispatch
      refine List.isChain_append.mpr ⟨hp.spaced, List.isChain_singleton _, fun t ht t' ht' => ?_⟩
      obtain rfl : (now : ℝ) = t' := Option.some.inj ht'
      have hphase := hkept hset t ht
      rw [hzero] at hphase
      exact ⟨(hleft t ht).1, by linarith⟩
    · rw [List.getLast?_concat] at ht
      obtain rfl : (now : ℝ) = t := Option.some.inj ht
      have hfull := Gcra.commit_phase hI htat
      rw [heq]
      refine ⟨le_rfl, hslow, ?_⟩
      rw [hfull, sub_self, zero_mul, sub_zero]

/-- **The dispatches of a silent endpoint are spaced by its rate.** -/
theorem run_paced (hT : 0 < epoch.expectedRtt) (hw : Waiting concurrency epoch c)
    (h : Run TimedStep (c, t₀) rest (c', now)) (hquiet : ∀ e ∈ rest, e.Quiet) :
    Waiting concurrency epoch c' ∧
      Paced (silentRate concurrency epoch) ((dispatchInstants rest).map NNReal.toReal) c' now := by
  generalize hx : (c', now) = x at h
  induction h generalizing c' now with
  | nil =>
    obtain ⟨rfl, rfl⟩ := Prod.mk.inj hx
    exact ⟨hw, List.isChain_nil, fun t ht => by cases ht⟩
  | @snoc rest m e x hr he ih =>
    subst hx
    obtain ⟨m, clock⟩ := m
    obtain ⟨hwm, hpm⟩ := ih (fun e he => hquiet e (List.mem_append_left _ he)) rfl
    have hq := hquiet e (List.mem_append_right _ List.mem_cons_self)
    obtain ⟨hstep, hcases⟩ := TimedStep.cases he
    have hw' : Waiting concurrency epoch c' := hwm.step hstep hq
    refine ⟨hw', ?_⟩
    rw [dispatchInstants_snoc, List.map_append]
    rcases hcases with ⟨t, hnow, hle, heq⟩ | ⟨hcall, hsame, heq⟩
    · obtain rfl : now = t := heq
      have hprobe : (c'.probe.active now).current = none := by
        have hp := hq.probe now hnow
        rwa [hstep.2.1] at hp
      exact hpm.step hT hwm hw' hle hnow hprobe hstep.pacing
    · -- taking the changes takes no time and leaves the pacer
      obtain rfl : now = clock := heq
      obtain rfl : c' = { m with changes := ControllerChanges.none } := hsame
      have hnone : (if e.dispatched?.isSome then e.call.now? else none) = none := by
        rw [hcall]
        exact ite_self none
      rw [hnone]
      have hnil : (Option.toList (none : Option ℝ≥0)).map NNReal.toReal = [] := rfl
      rw [hnil, List.append_nil]
      exact ⟨hpm.spaced, hpm.last⟩

/-! ## The count -/

omit [Rng R ℝ] in
theorem halvings_rtt (hT : 0 < epoch.expectedRtt) (j : ℕ) :
    halvings epoch (epoch.lastFeedbackAt + (j + 1) * epoch.expectedRtt) = j := by
  have hT : (epoch.expectedRtt : ℝ) ≠ 0 := (NNReal.coe_pos.mpr hT).ne'
  rw [halvings, add_sub_cancel_left, mul_div_cancel_right₀ _ hT, add_sub_cancel_right]
  exact max_eq_right j.cast_nonneg

/-- A silent RTT in which the rate has come down to `share` of the concurrency holds at most one dispatch and that share. -/
theorem count_silent {ts : List ℝ} (hs : Spacing.Spaced (silentRate concurrency epoch) ts) (hc : 0 ≤ concurrency)
    (hT : 0 < epoch.expectedRtt) (hmax : epoch.expectedRtt < durationMax / 2) {lo share : ℝ} (hshare : 0 ≤ share)
    (hlo : (2 : ℝ) ^ (-halvings epoch lo) = share) :
    (ts.countP (fun t => lo < t ∧ t ≤ lo + epoch.expectedRtt) : ℝ) ≤ 1 + concurrency * share := by
  have hT' : (0 : ℝ) < epoch.expectedRtt := NNReal.coe_pos.mpr hT
  have hpos : 0 < silentRate concurrency epoch lo := lt_max_of_lt_right (div_pos zero_lt_two durationMax_pos)
  have hcount := hs.count_window (silentRate_antitone hc epoch) hpos (lt_add_of_pos_right lo hT')
  rw [add_sub_cancel_left, silentRate, hlo, mul_max_of_nonneg _ _ hT'.le] at hcount
  have hbase : (epoch.expectedRtt : ℝ) * (concurrency / epoch.expectedRtt * share) = concurrency * share := by
    field_simp
  rw [hbase] at hcount
  rcases le_total ((epoch.expectedRtt : ℝ) * (2 / ((durationMax : ℝ≥0) : ℝ))) (concurrency * share) with h | h
  · rw [max_eq_left h] at hcount
    exact hcount.le
  · -- at the slowest rate of the pacer less than one more fits
    rw [max_eq_right h] at hcount
    have hslow : (epoch.expectedRtt : ℝ) * (2 / ((durationMax : ℝ≥0) : ℝ)) < 1 := by
      have htwice : (epoch.expectedRtt : ℝ) < ((durationMax : ℝ≥0) : ℝ) / 2 := by exact_mod_cast hmax
      rw [← mul_div_assoc, div_lt_one durationMax_pos]
      linarith
    have hone : ts.countP (fun t => lo < t ∧ t ≤ lo + epoch.expectedRtt) < 2 := by
      have hlt : (ts.countP (fun t => lo < t ∧ t ≤ lo + epoch.expectedRtt) : ℝ) < 2 := by linarith
      exact_mod_cast hlt
    have hle : (ts.countP (fun t => lo < t ∧ t ≤ lo + epoch.expectedRtt) : ℝ) ≤ 1 := by
      exact_mod_cast Nat.lt_succ_iff.mp hone
    linarith [mul_nonneg hc hshare]

/-- One dispatch for each silent RTT, and the concurrency twice for the first two and half as often for each that follows. -/
theorem count_silence {ts : List ℝ} (hs : Spacing.Spaced (silentRate concurrency epoch) ts) (hc : 0 ≤ concurrency)
    (hT : 0 < epoch.expectedRtt) (hmax : epoch.expectedRtt < durationMax / 2) (k : ℕ) :
    (ts.countP (fun t => (epoch.lastFeedbackAt : ℝ) < t ∧ t ≤ epoch.lastFeedbackAt + (k + 1) * epoch.expectedRtt) : ℝ) ≤
      k + 1 + concurrency * (3 - 2 * (1 / 2) ^ k) := by
  have hT' : (0 : ℝ) < epoch.expectedRtt := NNReal.coe_pos.mpr hT
  induction k with
  | zero =>
    have hgrace : (2 : ℝ) ^ (-halvings epoch epoch.lastFeedbackAt) = 1 := by
      have hzero : halvings epoch epoch.lastFeedbackAt = 0 := by
        rw [halvings, sub_self, zero_div]
        exact max_eq_left (by norm_num)
      rw [hzero, neg_zero, Real.rpow_zero]
    have hcount := count_silent hs hc hT hmax zero_le_one hgrace
    norm_num
    norm_num at hcount
    exact hcount
  | succ k ih =>
    have hshare : (2 : ℝ) ^ (-halvings epoch (epoch.lastFeedbackAt + (k + 1) * epoch.expectedRtt)) = (1 / 2) ^ k := by
      rw [halvings_rtt hT, Real.rpow_neg zero_le_two, Real.rpow_natCast, one_div, inv_pow]
    have hcount := count_silent hs hc hT hmax (by positivity) hshare
    have hend : (epoch.lastFeedbackAt : ℝ) + ((k + 1 : ℕ) + 1) * epoch.expectedRtt =
        epoch.lastFeedbackAt + (k + 1) * epoch.expectedRtt + epoch.expectedRtt := by
      push_cast
      ring
    have hlo : (epoch.lastFeedbackAt : ℝ) ≤ epoch.lastFeedbackAt + (k + 1) * epoch.expectedRtt := by
      have hk : (0 : ℝ) ≤ (k + 1) * epoch.expectedRtt := by positivity
      linarith
    rw [hend, Spacing.count_split hlo (le_add_of_nonneg_right hT'.le), Nat.cast_add]
    have hpow : (1 / 2 : ℝ) ^ (k + 1) = (1 / 2) ^ k / 2 := by rw [pow_succ]; ring
    rw [hpow, Nat.cast_add, Nat.cast_one]
    linarith

/-- **The exposure of a silent endpoint.** After the call `d` that began a feedback epoch, while the calls are quiet, at most
`k + 1 + 3 * C` requests are dispatched in the first `k + 1` expected RTTs. -/
theorem blackhole_exposure_bound {d : Entry ℝ≥0 ℝ R} (h0 : Fresh c₀) (h : Run Step c₀ (tr ++ [d]) c)
    (hd : d.GivesFeedback) (ht : d.call.now? = some t₀) (hmax : c.latency.expectedRtt < durationMax / 2)
    (hrest : Run TimedStep (c, t₀) rest (c', now)) (hquiet : ∀ e ∈ rest, e.Quiet) (k : ℕ) :
    ((dispatchInstants rest).countP (fun t => t₀ < t ∧ t ≤ t₀ + (k + 1) • c.latency.expectedRtt) : ℝ) ≤
      k + 1 + 3 * c.gradient.concurrency := by
  obtain ⟨m, hm, hlast⟩ := h.snoc_inv
  have hvalid := run_valid h0 h
  have hpos : 0 < c.gradient.concurrency := hvalid.min_pos.trans_le hvalid.min_le
  -- the epoch that `d` began
  have hfeed : d.feedback? = some { lastFeedbackAt := t₀, expectedRtt := c.latency.expectedRtt } := by
    rw [Entry.feedback?, if_pos hd, ht, hlast.2.1]
    rfl
  have hw : Waiting c.gradient.concurrency { lastFeedbackAt := t₀, expectedRtt := c.latency.expectedRtt } c := by
    rcases hlast.epoch with ⟨epoch, hf, hbusy, hepoch⟩ | ⟨hf, -⟩ | ⟨hf, -⟩
    · obtain rfl := Option.some.inj (hfeed.symm.trans hf)
      exact ⟨hbusy, hepoch, rfl, hvalid, le_rfl⟩
    · rw [hfeed] at hf
      cases hf
    · rw [hfeed] at hf
      cases hf
  rcases eq_zero_or_pos c.latency.expectedRtt with hzero | hT
  · -- the window is empty
    have hnone : (dispatchInstants rest).countP (fun t => t₀ < t ∧ t ≤ t₀ + (k + 1) • c.latency.expectedRtt) = 0 := by
      rw [List.countP_eq_zero]
      intro t _ hin
      obtain ⟨hlt, hle⟩ := of_decide_eq_true hin
      rw [hzero, smul_zero, add_zero] at hle
      exact absurd hlt (not_lt.mpr hle)
    rw [hnone, Nat.cast_zero]
    positivity
  · obtain ⟨-, hpaced⟩ := run_paced hT hw hrest hquiet
    have hcount := count_silence hpaced.spaced hpos.le hT hmax k
    have hsame : ((dispatchInstants rest).map NNReal.toReal).countP
          (fun t => (t₀ : ℝ) < t ∧ t ≤ t₀ + (k + 1) * c.latency.expectedRtt) =
        (dispatchInstants rest).countP (fun t => t₀ < t ∧ t ≤ t₀ + (k + 1) • c.latency.expectedRtt) := by
      rw [List.countP_map]
      refine List.countP_congr fun t _ => ?_
      have hend : ((t₀ + (k + 1) • c.latency.expectedRtt : ℝ≥0) : ℝ) = t₀ + (k + 1) * c.latency.expectedRtt := by
        push_cast [nsmul_eq_mul]
        rfl
      simp only [Function.comp_apply, decide_eq_true_eq, ← hend, NNReal.coe_lt_coe, NNReal.coe_le_coe]
    rw [← hsame]
    have hshare : 0 ≤ c.gradient.concurrency * (2 * (1 / 2) ^ k) := by positivity
    have hsplit : c.gradient.concurrency * (3 - 2 * (1 / 2) ^ k) =
        3 * c.gradient.concurrency - c.gradient.concurrency * (2 * (1 / 2) ^ k) := by ring
    linarith

/-- An endpoint of one second that stays silent after its first dispatch, and dispatches once more after two seconds. -/
theorem exactSample_silent : ∃ (c₀ c c' : EndpointController ℝ≥0 ℝ ℕ) (before : List (Entry ℝ≥0 ℝ ℕ))
    (d e₁ e₂ : Entry ℝ≥0 ℝ ℕ), FreshAt c₀ 0 ∧ Run TimedStep (c₀, 0) (before ++ [d]) (c, 0) ∧ d.GivesFeedback ∧
      d.call.now? = some 0 ∧ c.latency.expectedRtt = 1 ∧ c.gradient.concurrency = 1 ∧
      Run TimedStep (c, 0) [e₁, e₂] (c', 2) ∧ e₁.Quiet ∧ e₂.Quiet ∧ dispatchInstants [e₁, e₂] = [2] := by
  obtain ⟨c₀, c, before, d, h0, hrun, hdis, hidle, hnow, hs, htat, hpend, hnext, hinflight, hepoch⟩ :=
    exactSample_dispatch (0 : ℕ) nano_le_one one_le_durationMax
  have hpast : c.pacer.tat ≤ 2 := htat.trans_le (by norm_num)
  have hreserve := reserve_first hpend hs.capacity (by rw [hnext]; decide) hpast
  have hs₁ : ExactSample 0 1 (c.withHead 2) := hs.withHead
  -- the decision starts no probe, and the floor of the decay keeps the rate representable
  let p : ProbeState ℝ≥0 ℝ := { current := none, nextProbeAt := some (2 + 3) }
  have hdecision : (c.withHead 2).probeDecision 2 = some (p, 2) := by
    refine decision_none (demand_of_heads withHead_heads hinflight) (hs₁.unprobed 2) ?_ hs₁.probeRng
    rw [hs₁.probe]
    exact le_rfl
  let decided : EndpointController ℝ≥0 ℝ ℕ := { c.withHead 2 with probe := p.active 2, probeRng := 2 }
  have hrate : decided.rateAt 2 = 1 * decided.feedbackFactor 2 1 := by
    have hbase : decided.gradient.concurrency / (asSecsF64 decided.latency.expectedRtt : ℝ) = 1 := by
      show c.gradient.concurrency / ((c.latency.expectedRtt : ℝ≥0) : ℝ) = 1
      rw [hs.concurrency, hs.expectedRtt]
      exact div_one 1
    rw [rateAt_unprobed rfl, hbase]
  have hrepresentable : 1 ≤ ((durationMax : ℝ≥0) : ℝ) * (1 * decided.feedbackFactor 2 1) := by
    rw [decayed_representable decided 2 one_pos, mul_one]
    exact_mod_cast one_le_durationMax
  have hpos : 0 < 1 * decided.feedbackFactor 2 1 := mul_pos one_pos (feedbackFactor_pos decided 2 1)
  obtain ⟨interval, hi⟩ := rateToInterval_isSome hpos hrepresentable
  rw [← hrate] at hi
  obtain ⟨m, hm, hprobe, -, -, hset⟩ := refresh_decided hdecision hi
  have hdue : m.pacer.tat ≤ 2 := by
    obtain ⟨hpos, -, hkept⟩ := Gcra.setRate_phase hset
    have hzero : c.pacer.phase 2 = 0 := (Gcra.phase_eq_zero (hs.interval ▸ one_pos)).mpr hpast
    have hzero' : (c.withHead 2).pacer.phase 2 = 0 := hzero
    rw [← Gcra.phase_eq_zero hpos, hkept (hzero'.trans_le zero_le_one)]
    exact hzero'
  have hled := refresh_ledger hm
  have hroom : m.inflight < m.config.maxInflight := (room_of_ledger hled).mpr (hs.room hinflight.le)
  have hdispatch := onDispatched_ok withHead_heads hm (refresh_withHead hm hdue) hroom le_rfl
  let e₁ : Entry ℝ≥0 ℝ ℕ := c.reserving 2
  let e₂ : Entry ℝ≥0 ℝ ℕ := ⟨.onDispatched ⟨c.controllerId, c.nextId⟩ 2, .dispatched (.ok ⟨m.controllerId, 2, false⟩),
    c.withHead 2, (m.dispatchedFrom [] 2).rebuildVirtualQueue 2⟩
  have hstep₁ : TimedStep (c, 0) e₁ (c.withHead 2, 2) := by
    refine ⟨⟨rfl, rfl, ?_⟩, zero_le, rfl⟩
    show some ((c.reserve 2).map Reply.reserved id) = _
    rw [hreserve]
    rfl
  have hstep₂ : TimedStep (c.withHead 2, 2) e₂ (e₂.after, 2) := by
    refine ⟨⟨rfl, rfl, ?_⟩, le_rfl, rfl⟩
    show ((c.withHead 2).onDispatched _ 2).map _ = _
    rw [hdispatch]
    rfl
  have hquiet₁ : e₁.Quiet := by
    refine ⟨?_, fun h => (by cases h), fun h => (by cases h), fun now _ => hs₁.unprobed now⟩
    show 0 < c.inflight
    rw [hinflight]
    exact one_pos
  have hquiet₂ : e₂.Quiet := by
    refine ⟨Nat.succ_pos _, fun h => (by cases h), fun h => (by cases h), fun now _ => ?_⟩
    show (m.probe.active now).current = none
    rw [hprobe]
    rfl
  exact ⟨c₀, c, e₂.after, before, d, e₁, e₂, h0, hrun, Or.inl ⟨hdis, hidle⟩, hnow, hs.expectedRtt, hs.concurrency,
    .cons hstep₁ (.single hstep₂), hquiet₁, hquiet₂, rfl⟩

theorem blackhole_exposure_bound_one : ∃ (c₀ c c' : EndpointController ℝ≥0 ℝ ℕ) (before : List (Entry ℝ≥0 ℝ ℕ))
    (d e₁ e₂ : Entry ℝ≥0 ℝ ℕ), Fresh c₀ ∧ Run Step c₀ (before ++ [d]) c ∧ d.GivesFeedback ∧
      Run TimedStep (c, 0) [e₁, e₂] (c', 2) ∧ e₁.Quiet ∧ e₂.Quiet ∧ dispatchInstants [e₁, e₂] = [2] ∧
      ∀ k : ℕ, ((dispatchInstants [e₁, e₂]).countP (fun t => 0 < t ∧ t ≤ 0 + (k + 1) • (1 : ℝ≥0)) : ℝ) ≤ k + 1 + 3 * 1 := by
  obtain ⟨c₀, c, c', before, d, e₁, e₂, h0, hrun, hd, hnow, hrtt, hconc, hrest, hquiet₁, hquiet₂, hinstants⟩ := exactSample_silent
  have hmax : c.latency.expectedRtt < durationMax / 2 := by
    rw [hrtt]
    rw [lt_div_iff₀ (by norm_num)]
    exact lt_of_lt_of_le (by norm_num) (le_durationMax (x := 3) (by norm_num))
  have hquiet : ∀ e ∈ [e₁, e₂], e.Quiet := by
    intro e he
    simp only [List.mem_cons, List.not_mem_nil, or_false] at he
    rcases he with rfl | rfl
    · exact hquiet₁
    · exact hquiet₂
  refine ⟨c₀, c, c', before, d, e₁, e₂, h0.fresh, hrun.untimed, hd, hrest, hquiet₁, hquiet₂, hinstants, fun k => ?_⟩
  have hbound := blackhole_exposure_bound h0.fresh hrun.untimed hd hnow hmax hrest hquiet k
  rwa [hrtt, hconc] at hbound

end

end Loadpace
