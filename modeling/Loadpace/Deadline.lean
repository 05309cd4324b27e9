import Loadpace.Exposure
import Loadpace.Readiness
import Loadpace.Wakeup

/-!
# Deadlines

A waiting queue head is told when to check again: at its slot, or at the next probe transition when that comes first.
Between two transitions time only lets the rate decay (`rate_later`), and a slower rate moves a slot that is ahead
further ahead (`Rested.later`). So a check before the deadline finds the head waiting (`Waits.before`). A reading in between
that finds the rate decayed does move the slot: `decay_slows_a_waiting_head`.
-/

namespace Loadpace

open Systems EndpointController

/-! ## Between two probe transitions -/

section

variable {T F R : Type} [AddCommMonoid T] [LinearOrder T] [Sub T] [Time T] [F64 F] [Secs T F] [Rng R F]
variable {c m : EndpointController T F R} {now s : T}

namespace EndpointController

/-- With demand and without a probe, the next decision is scheduled. -/
def Scheduled (c : EndpointController T F R) : Prop :=
  c.probingHasDemand = true → c.probe.current = none → c.probe.nextProbeAt ≠ none

/-- A running probe expires at `t`, or the next decision falls due there. -/
def ProbeDue (c : EndpointController T F R) (t : T) : Prop :=
  (∃ probe, c.probe.current = some probe ∧ probe.expiry = t) ∨
    (c.probe.current = none ∧ c.probingHasDemand = true ∧ c.probe.nextProbeAt = some t)

/-- No probe expires and no decision falls due up to `s`. -/
def Undisturbed (c : EndpointController T F R) (s : T) : Prop := ∀ t, c.nextDispatchRefreshAt = some t → s < t

omit [AddCommMonoid T] [Sub T] [Time T] [F64 F] [Secs T F] [Rng R F] [LinearOrder T] in
theorem probeDue_iff {t : T} : c.ProbeDue t ↔ c.nextDispatchRefreshAt = some t := by
  unfold ProbeDue nextDispatchRefreshAt
  cases hc : c.probe.current with
  | none =>
    dsimp only
    by_cases hd : c.probingHasDemand = true
    · simp [hd]
    · simp [hd]
  | some probe => simp

omit [AddCommMonoid T] [Sub T] [Time T] [F64 F] [Secs T F] [Rng R F] in
theorem Undisturbed.active (h : c.Undisturbed s) : c.probe.active s = c.probe := by
  rcases c.probe.active_cases s with ⟨probe, hp, hle, -⟩ | heq
  · have hnext : c.nextDispatchRefreshAt = some probe.expiry := by
      unfold nextDispatchRefreshAt
      rw [hp]
    exact absurd (h _ hnext) (not_lt.mpr hle)
  · exact heq

/-- Nothing is decided. -/
theorem Undisturbed.probeDecision (h : c.Undisturbed s) (hs : c.Scheduled) :
    c.probeDecision s = some (c.probe, c.probeRng) := by
  unfold EndpointController.probeDecision
  split
  · rename_i hd
    unfold ProbeSchedule.maybeStart
    dsimp only
    rw [h.active]
    cases hc : c.probe.current with
    | some probe => rfl
    | none =>
      obtain ⟨t, ht⟩ := Option.ne_none_iff_exists'.mp (hs hd hc)
      have hlt : s < t := h t (probeDue_iff.mp (Or.inr ⟨hc, hd, ht⟩))
      have hsame : ({ current := none, nextProbeAt := some t } : ProbeState T F) = c.probe := by rw [← hc, ← ht]
      simp only [ht, Option.getD_some, if_pos hlt, hsame]
  · rfl

/-- A refresh only updates the rate. -/
theorem Undisturbed.refresh (h : c.Undisturbed s) (hs : c.Scheduled) (hm : c.refresh s = some m) :
    m.probe = c.probe ∧ m.probeRng = c.probeRng ∧ c.pacer.setRate (c.rateAt s) s = some m.pacer := by
  obtain ⟨probe, rng, u, hp, hu, rfl⟩ := refresh_cases hm
  rw [h.probeDecision hs] at hp
  obtain ⟨rfl, rfl⟩ := Prod.mk.inj (Option.some.inj hp)
  obtain ⟨pacer, hset, hcases⟩ := updateRate_cases hu
  have hrate : rateAt { c with probe := c.probe.active s, probeRng := c.probeRng } s = c.rateAt s := by rw [h.active]
  rw [hrate] at hset
  rcases hcases with ⟨-, rfl⟩ | ⟨-, -, rfl⟩
  · exact ⟨by rw [h.active, h.active], rfl, hset⟩
  · exact ⟨by rw [h.active, h.active], rfl, hset⟩

/-- It succeeds when the rate has an interval. -/
theorem Undisturbed.refresh_isSome (h : c.Undisturbed s) (hs : c.Scheduled) {interval : T}
    (hi : rateToInterval (c.rateAt s) = some interval) : ∃ m, c.refresh s = some m := by
  have hrate : rateAt { c with probe := c.probe.active s, probeRng := c.probeRng } s = c.rateAt s := by rw [h.active]
  obtain ⟨m, hm⟩ := updateRate_isSome (hrate ▸ hi)
  unfold EndpointController.refresh
  rw [h.probeDecision hs]
  simp only [Option.bind_eq_bind, Option.bind_some, hm]
  exact ⟨_, rfl⟩

/-- The rate before its decay. -/
def probedRateAt (c : EndpointController T F R) (now : T) : F :=
  (c.probe.effectiveRate (c.gradient.concurrency / asSecsF64 c.latency.expectedRtt) now).1

omit [Rng R F] in
theorem rateAt_probed (c : EndpointController T F R) (now : T) :
    c.rateAt now = c.probedRateAt now * c.feedbackFactor now (c.probedRateAt now) := rfl

omit [Rng R F] in
theorem probedRateAt_congr (h : c.probe.active s = c.probe.active now) : c.probedRateAt s = c.probedRateAt now := by
  unfold probedRateAt ProbeState.effectiveRate
  dsimp only
  rw [h]

omit [Rng R F] in
/-- What the rate depends on. -/
theorem rateAt_congr (hg : m.gradient = c.gradient) (hl : m.latency = c.latency)
    (hp : m.probe.active now = c.probe.active now) (he : m.feedbackEpoch = c.feedbackEpoch) : m.rateAt now = c.rateAt now := by
  have hprobed : m.probedRateAt now = c.probedRateAt now := by
    unfold probedRateAt ProbeState.effectiveRate
    dsimp only
    rw [hg, hl, hp]
  have hfactor (rate : F) : m.feedbackFactor now rate = c.feedbackFactor now rate := by
    unfold feedbackFactor
    rw [he]
  rw [rateAt_probed, rateAt_probed, hprobed, hfactor]

/-- A reading is a refresh. -/
theorem exec_read {call : Call T} (hr : call.IsRead) (hnow : call.now? = some s) (hm : c.refresh s = some m)
    (ha : m.probe.active s = m.probe) : ∃ reply, c.exec call = some (reply, m) := by
  cases call with
  | refresh t =>
    cases hnow
    exact ⟨.done, by show (c.refresh s).map _ = _; rw [hm]; rfl⟩
  | load t =>
    cases hnow
    exact ⟨_, by show (c.load s).map _ = _; unfold load predictedCompletion; rw [hm]; rfl⟩
  | predictedCompletion t =>
    cases hnow
    exact ⟨_, by show (c.predictedCompletion s).map _ = _; unfold predictedCompletion; rw [hm]; rfl⟩
  | snapshot t =>
    cases hnow
    have hsame : ({ m with probe := m.probe.active s } : EndpointController T F R) = m := by rw [ha]
    have hview : ∃ view, c.snapshot s = some (view, m) := by
      unfold snapshot
      rw [hm]
      simp only [Option.bind_eq_bind, Option.bind_some, ratesAt_snd, hsame]
      exact ⟨_, rfl⟩
    obtain ⟨view, hview⟩ := hview
    exact ⟨.snapshot view, by show (c.snapshot s).map _ = _; rw [hview]; rfl⟩
  | _ => exact hr.elim

end EndpointController

end

/-! ## The decay -/

section

open scoped NNReal

variable {R : Type} {c : EndpointController ℝ≥0 ℝ R} {now s : ℝ≥0}

/-- **Between two probe transitions the interval only grows**, and the rate keeps an interval. -/
theorem rate_later {interval : ℝ≥0} (hactive : c.probe.active s = c.probe.active now) (hle : now ≤ s)
    (hi : rateToInterval (c.rateAt now) = some interval) :
    ∃ interval', rateToInterval (c.rateAt s) = some interval' ∧ interval ≤ interval' := by
  obtain ⟨hrate, hval, hmax⟩ := rateToInterval_exactTime hi
  have hprobed := probedRateAt_congr hactive
  rw [rateAt_probed] at hrate hval
  have hanti := feedbackFactor_antitone c (c.probedRateAt now) hle
  have hs : c.rateAt s = c.probedRateAt now * c.feedbackFactor s (c.probedRateAt now) := by rw [rateAt_probed, hprobed]
  generalize c.probedRateAt now = base at hrate hval hanti hs
  have hbase : 0 < base := pos_of_mul_pos_left hrate (feedbackFactor_pos c now base).le
  have hmono : c.rateAt s ≤ base * c.feedbackFactor now base := by
    rw [hs]
    exact mul_le_mul_of_nonneg_left hanti hbase.le
  have hpos : 0 < c.rateAt s := by
    rw [hs]
    exact mul_pos hbase (feedbackFactor_pos c s base)
  -- the decay of an interval that is a duration leaves one
  have hone : 1 ≤ ((durationMax : ℝ≥0) : ℝ) * c.rateAt s := by
    have hle : 1 / (base * c.feedbackFactor now base) ≤ ((durationMax : ℝ≥0) : ℝ) :=
      (le_max_left _ _).trans (hval.symm.trans_le (NNReal.coe_le_coe.mpr hmax))
    rw [div_le_iff₀ hrate, decayed_representable c now hbase] at hle
    rw [hs, decayed_representable c s hbase]
    exact hle
  obtain ⟨interval', hi'⟩ := rateToInterval_isSome hpos hone
  refine ⟨interval', hi', ?_⟩
  rw [← NNReal.coe_le_coe, hval, (rateToInterval_exactTime hi').2.1]
  exact max_le_max (one_div_le_one_div_of_le hpos hmono) le_rfl

/-! ## A refreshed controller -/

variable [Rng R ℝ] {c₀ c' m : EndpointController ℝ≥0 ℝ R} {tr : List (Entry ℝ≥0 ℝ R)} {r : DispatchReservation}
variable {start clock t : ℝ≥0}

theorem Ahead.lt {now t : ℝ≥0} (h : Ahead now t) : now < t := by
  rcases h with hlt | ⟨interval, hle, -, rfl⟩
  · exact hlt
  · rw [saturatingAdd_exactTime]
    refine lt_add_of_pos_right _ (lt_of_lt_of_le ?_ hle)
    rw [fromSecs_exactTime]
    norm_num

/-- A controller as a refresh at `now` leaves it. -/
structure Rested (c : EndpointController ℝ≥0 ℝ R) (now : ℝ≥0) : Prop where
  interval : rateToInterval (c.rateAt now) = some c.pacer.interval
  active : c.probe.active now = c.probe
  scheduled : c.Scheduled
  next : c.Undisturbed now
  settled : c.Settled now
  positive : 0 < c.pacer.interval
  phase : c.pacer.phase now ≤ 1

theorem refresh_rested (hl : c.Lazy clock) (hle : clock ≤ now) (hp : c.pacer.phase now ≤ 1)
    (hm : c.refresh now = some m) : Rested m now := by
  obtain ⟨m₁, hset, hrates⟩ := refresh_pacing hm
  obtain ⟨hI, -, hphase⟩ := Gcra.setRate_phase hset
  have hactive : m.probe.active now = m.probe := by rw [← hrates.probe, ProbeState.active_active]
  have hrate : m₁.rateAt now = m.rateAt now :=
    rateAt_congr hrates.gradient hrates.latency (hrates.probe.trans hactive.symm) hrates.epoch
  refine ⟨hrate ▸ (Gcra.setRate_cases hset).1, hactive, fun hd hnone hne => ?_, fun t ht => (refresh_next hm ht).lt,
    refresh_settled hl hle hm, hI, (hphase hp).trans_le hp⟩
  obtain ⟨t, ht, -⟩ := refresh_scheduled hm hd hnone
  rw [hne] at ht
  cases ht

omit [Rng R ℝ] in
/-- The mark of a waiting queue head changes nothing here. -/
theorem Rested.waited {front : PendingReservation ℝ≥0} {rest : List (PendingReservation ℝ≥0)} (h : Rested m now)
    (hp : m.pending = front :: rest) : Rested (m.waited front rest) now := by
  obtain ⟨hdemand, hnext⟩ := waited_next hp
  refine ⟨h.interval, h.active, fun hd hnone => h.scheduled (hdemand ▸ hd) hnone, fun t ht => h.next t (hnext ▸ ht),
    h.settled.congr ?_ rfl, h.positive, h.phase⟩
  simp only [slots, EndpointController.waited, hp, List.map_cons]

/-- What time alone does up to `s`, when no probe transition falls in between. -/
structure Elapsed (c : EndpointController ℝ≥0 ℝ R) (s : ℝ≥0) (m : EndpointController ℝ≥0 ℝ R) : Prop where
  rested : Rested m s
  ledger : m.ledger = c.ledger
  probe : m.probe = c.probe
  probeRng : m.probeRng = c.probeRng
  interval : rateToInterval (c.rateAt s) = some m.pacer.interval
  slower : c.pacer.interval ≤ m.pacer.interval
  /-- A slot that is ahead stays, or moves further ahead with a longer interval. -/
  ahead : s < c.pacer.tat →
    m.pacer = c.pacer ∨ (c.pacer.interval < m.pacer.interval ∧ c.pacer.tat < m.pacer.tat)
  due : c.pacer.tat ≤ s → m.pacer.tat ≤ s

/-- **Time alone only slows the pacer down.** -/
theorem Rested.later (h : Rested c now) (hle : now ≤ s) (hu : c.Undisturbed s) :
    ∃ m, c.refresh s = some m ∧ Elapsed c s m := by
  obtain ⟨interval, hi, hslower⟩ := rate_later (hu.active.trans h.active.symm) hle h.interval
  obtain ⟨m, hm⟩ := hu.refresh_isSome h.scheduled hi
  obtain ⟨hprobe, hrng, hset⟩ := hu.refresh h.scheduled hm
  have hinterval := (Gcra.setRate_cases hset).1
  obtain rfl : interval = m.pacer.interval := Option.some.inj (hi.symm.trans hinterval)
  have hphase := c.pacer.phase_le_one_later hle h.phase
  exact ⟨m, hm, refresh_rested h.settled.lazy hle hphase hm, refresh_ledger hm, hprobe, hrng, hinterval, hslower,
    fun ht => Gcra.setRate_slower hset h.positive hphase ht hslower, fun ht => setRate_tat hset ht⟩

/-! ## A waiting queue head -/

/-- The queue head waits for the committed TAT, and is to check again at `t`. -/
structure Waits (r : DispatchReservation) (c : EndpointController ℝ≥0 ℝ R) (now t : ℝ≥0) : Prop where
  rested : Rested c now
  heads : c.Heads r
  room : c.inflight < c.config.maxInflight
  ahead : now < c.pacer.tat
  slot : ∃ front rest, c.pending = front :: rest ∧ front.scheduledAt = c.pacer.tat
  deadline : t = c.recheckAt c.pacer.tat

/-- A check that says to wait. -/
theorem waits_of_check (hl : c.Lazy clock) (hle : clock ≤ now) (hp : c.pacer.phase now ≤ 1)
    (hw : c.dispatchState r now = some (.waitUntil t, c')) : Waits r c' now t := by
  obtain ⟨hh, m, front, rest, hm, hpend, hid, hroom, hslot, ht, rfl⟩ := waitUntil_cases hw
  have hrested := refresh_rested hl hle hp hm
  have hcid : m.controllerId = c.controllerId := congrArg Ledger.controllerId (refresh_ledger hm)
  have hhead : front.scheduledAt = m.pacer.nextAt now := hrested.settled.head hpend
  have htat : front.scheduledAt = m.pacer.tat := by
    rw [hhead] at hslot ⊢
    exact max_eq_left ((lt_max_iff.mp hslot).resolve_right (lt_irrefl now)).le
  refine ⟨hrested.waited hpend, ⟨hh.1.trans hcid.symm, ?_⟩, hroom, htat ▸ hslot, ⟨_, _, rfl, htat⟩, ?_⟩
  · show some front.id = some r.id
    rw [hid]
  · rw [ht, htat]
    rfl

omit [Rng R ℝ] in
/-- The deadline is the slot, or a probe transition that comes first. -/
theorem Waits.cases (h : Waits r c now t) :
    (t = c.pacer.tat ∧ ∀ u, c.nextDispatchRefreshAt = some u → t ≤ u) ∨
      (t < c.pacer.tat ∧ c.nextDispatchRefreshAt = some t) := by
  have hd := h.deadline
  unfold recheckAt at hd
  cases hn : c.nextDispatchRefreshAt with
  | none =>
    rw [hn] at hd
    exact Or.inl ⟨hd, fun u hu => by cases hu⟩
  | some u =>
    rw [hn] at hd
    have hd : t = min c.pacer.tat u := hd
    rcases le_or_gt c.pacer.tat u with hle | hlt
    · rw [min_eq_left hle] at hd
      exact Or.inl ⟨hd, fun v hv => by rw [hd]; exact Option.some.inj hv ▸ hle⟩
    · rw [min_eq_right hlt.le] at hd
      exact Or.inr ⟨hd ▸ hlt, by rw [hd]⟩

omit [Rng R ℝ] in
/-- The deadline is not now. -/
theorem Waits.lt (h : Waits r c now t) : now < t := by
  rcases h.cases with ⟨ht, -⟩ | ⟨-, ht⟩
  · exact ht ▸ h.ahead
  · exact h.rested.next t ht

omit [Rng R ℝ] in
/-- No probe transition falls before the deadline. -/
theorem Waits.undisturbed (h : Waits r c now t) (hs : s < t) : c.Undisturbed s := by
  intro u hu
  rcases h.cases with ⟨-, hle⟩ | ⟨-, ht⟩
  · exact hs.trans_le (hle u hu)
  · exact Option.some.inj (ht.symm.trans hu) ▸ hs

omit [Rng R ℝ] in
/-- Without a probe transition the deadline is the slot. -/
theorem Waits.eq_tat (h : Waits r c now t) (hu : c.Undisturbed t) : t = c.pacer.tat := by
  rcases h.cases with ⟨ht, -⟩ | ⟨-, ht⟩
  · exact ht
  · exact absurd (hu t ht) (lt_irrefl t)

omit [Rng R ℝ] in
theorem Waits.le (h : Waits r c now t) : t ≤ c.pacer.tat := by
  rcases h.cases with ⟨ht, -⟩ | ⟨ht, -⟩
  · exact ht.le
  · exact ht.le

/-- **Before the deadline the head waits**, and nothing happens to the probes. -/
theorem Waits.before (h : Waits r c now t) (hle : now ≤ s) (hs : s < t) :
    ∃ u m, c.dispatchState r s = some (.waitUntil u, m) ∧ m.probe = c.probe ∧ m.probeRng = c.probeRng := by
  obtain ⟨m, hm, he⟩ := h.rested.later hle (h.undisturbed hs)
  have hahead : s < m.pacer.tat := by
    have hst := hs.trans_le h.le
    rcases he.ahead hst with hsame | ⟨-, hlt⟩
    · rw [hsame]
      exact hst
    · exact hst.trans hlt
  obtain ⟨front, rest, -, -, -, ⟨hpast, -⟩ | ⟨-, -, hcheck⟩⟩ := check_head h.heads h.rested.settled.lazy hle h.room hm
  · exact absurd hahead (not_lt.mpr hpast)
  · exact ⟨_, _, hcheck, he.probe, he.probeRng⟩

/-! ## Readings before the deadline -/

omit [Rng R ℝ] in
/-- Up to the end of the grace there is no decay. -/
theorem feedbackFactor_grace (h : ∀ epoch, c.feedbackEpoch = some epoch → s ≤ epoch.lastFeedbackAt + epoch.expectedRtt)
    (rate : ℝ) : c.feedbackFactor s rate = 1 := by
  cases he : c.feedbackEpoch with
  | none =>
    have hone : c.feedbackFactor s rate = (1.0 : ℝ) := by unfold feedbackFactor; rw [he]
    rw [hone]
    norm_num
  | some epoch =>
    have hz : s - epoch.lastFeedbackAt - epoch.expectedRtt = 0 := by
      rw [tsub_tsub]
      exact tsub_eq_zero_of_le (h epoch he)
    rcases feedbackFactor_exactTime s he rate with ⟨-, hf⟩ | ⟨hne, -⟩
    · exact hf
    · exact absurd hz hne

omit [Rng R ℝ] in
theorem rateAt_grace (h : ∀ epoch, c.feedbackEpoch = some epoch → s ≤ epoch.lastFeedbackAt + epoch.expectedRtt) :
    c.rateAt s = c.probedRateAt s := by
  rw [rateAt_probed, feedbackFactor_grace h, mul_one]

/-- What readings up to `s` leave of a waiting controller: its slot stays, or moves further ahead with a longer interval. -/
structure Drifted (c : EndpointController ℝ≥0 ℝ R) (s : ℝ≥0) (m : EndpointController ℝ≥0 ℝ R) : Prop where
  rested : Rested m s
  ledger : m.ledger = c.ledger
  probe : m.probe = c.probe
  drift : m.pacer = c.pacer ∨ (c.pacer.interval < m.pacer.interval ∧ c.pacer.tat < m.pacer.tat)

omit [Rng R ℝ] in
theorem Waits.drifted (h : Waits r c now t) : Drifted c now c := ⟨h.rested, rfl, rfl, Or.inl rfl⟩

omit [Rng R ℝ] in
theorem Drifted.next (h : Drifted c s m) : m.nextDispatchRefreshAt = c.nextDispatchRefreshAt := by
  unfold nextDispatchRefreshAt
  rw [h.probe, demand_of_ledger h.ledger]

omit [Rng R ℝ] in
theorem Drifted.rateAt (h : Drifted c s m) (u : ℝ≥0) : m.rateAt u = c.rateAt u :=
  rateAt_congr (congrArg Ledger.gradient h.ledger) (congrArg Ledger.latency h.ledger) (by rw [h.probe])
    (congrArg Ledger.feedbackEpoch h.ledger)

/-- One reading moves the slot when it finds a longer interval. -/
theorem Drifted.read {u : ℝ≥0} (h : Drifted c s m) (hsu : s ≤ u) (hu : c.Undisturbed u) (hut : u < c.pacer.tat) :
    ∃ m', m.refresh u = some m' ∧ Drifted c u m' ∧
      (m'.pacer = c.pacer ↔ m.pacer = c.pacer ∧ rateToInterval (c.rateAt u) = some c.pacer.interval) := by
  obtain ⟨m', hm, he⟩ := h.rested.later hsu fun v hv => hu v (h.next ▸ hv)
  have hahead : u < m.pacer.tat := by
    rcases h.drift with hsame | ⟨-, hlt⟩
    · rw [hsame]
      exact hut
    · exact hut.trans hlt
  have hinterval := he.interval
  rw [h.rateAt] at hinterval
  have hdrift : m'.pacer = c.pacer ∨ (c.pacer.interval < m'.pacer.interval ∧ c.pacer.tat < m'.pacer.tat) := by
    rcases he.ahead hahead with hsame | ⟨hI, ht⟩
    · rw [hsame]
      exact h.drift
    · rcases h.drift with hsame | ⟨hI', ht'⟩
      · rw [hsame] at hI ht
        exact Or.inr ⟨hI, ht⟩
      · exact Or.inr ⟨hI'.trans hI, ht'.trans ht⟩
  refine ⟨m', hm, ⟨he.rested, he.ledger.trans h.ledger, he.probe.trans h.probe, hdrift⟩, fun hsame => ⟨?_, ?_⟩,
    fun ⟨hsame, hi⟩ => ?_⟩
  · rcases h.drift with hm | ⟨hI, -⟩
    · exact hm
    · exact absurd (he.slower.trans_eq (congrArg Gcra.interval hsame)) (not_le.mpr hI)
  · rw [hinterval, hsame]
  · rcases hdrift with hm' | ⟨hI, -⟩
    · exact hm'
    · rw [hinterval] at hi
      exact absurd (Option.some.inj hi) hI.ne'

/-- **A sequence of readings** moves the slot when one of them finds a longer interval. -/
theorem Drifted.reads {calls : List (Call ℝ≥0)} (h : Drifted c s m) (hu : c.Undisturbed t) (ht : t ≤ c.pacer.tat)
    (hread : ∀ call ∈ calls, call.IsRead ∧ ∃ u, call.now? = some u ∧ u < t) (ho : Ordered s calls) (hst : s < t) :
    ∃ tr m' last, play m calls = some (tr, m') ∧ last < t ∧ Drifted c last m' ∧
      (m'.pacer = c.pacer ↔ m.pacer = c.pacer ∧
        ∀ call ∈ calls, ∀ u, call.now? = some u → rateToInterval (c.rateAt u) = some c.pacer.interval) := by
  induction calls generalizing m s with
  | nil => exact ⟨[], m, s, rfl, hst, h, by simp⟩
  | cons call calls ih =>
    obtain ⟨hcall, u, hnow, hut⟩ := hread call List.mem_cons_self
    obtain ⟨hsu, ho⟩ := ho
    rw [hnow, Option.getD_some] at hsu ho
    obtain ⟨m₁, hm₁, hd₁, hiff₁⟩ := h.read hsu (fun v hv => hut.trans (hu v hv)) (hut.trans_le ht)
    obtain ⟨reply, hexec⟩ := exec_read hcall hnow hm₁ hd₁.rested.active
    obtain ⟨tr, m', last, hplay, hlast, hd, hiff⟩ :=
      ih hd₁ (fun call hmem => hread call (List.mem_cons_of_mem _ hmem)) ho hut
    refine ⟨{ call, reply, before := m, after := m₁ } :: tr, m', last, ?_, hlast, hd, ?_⟩
    · simp only [play, hexec, Option.bind_eq_bind, Option.bind_some, hplay]
    · rw [hiff, hiff₁, List.forall_mem_cons]
      constructor
      · rintro ⟨⟨hp, hi⟩, hall⟩
        exact ⟨hp, fun v hv => by rw [hnow] at hv; exact Option.some.inj hv ▸ hi, hall⟩
      · rintro ⟨hp, hi, hall⟩
        exact ⟨⟨hp, hi u hnow⟩, hall⟩

/-- **The check at the slot**: the head is ready when the readings have left the slot where it was, and waits for one interval
at most otherwise. -/
theorem Drifted.check (hw : Waits r c now t) (hslot : t = c.pacer.tat) (hu : c.Undisturbed t) (h : Drifted c s m)
    (hst : s < t) :
    ((∃ m', m.dispatchState r t = some (.ready, m')) ↔ m.pacer = c.pacer) ∧
      ((∃ m', m.dispatchState r t = some (.ready, m')) ∨
        ∃ u m', m.dispatchState r t = some (.waitUntil u, m') ∧ t < u ∧ u ≤ t + m'.pacer.interval) := by
  obtain ⟨m', hm, he⟩ := h.rested.later hst.le fun v hv => hu v (h.next ▸ hv)
  have hheads := hw.heads.of_ledger h.ledger
  have hroom := (room_of_ledger h.ledger).mpr hw.room
  have hlazy := h.rested.settled.lazy
  obtain ⟨_, _, -, -, -, ⟨hpast, -, hcheck⟩ | ⟨hahead, -, hcheck⟩⟩ := check_head hheads hlazy hst.le hroom hm
  · refine ⟨⟨fun _ => ?_, fun _ => ⟨_, hcheck⟩⟩, Or.inl ⟨_, hcheck⟩⟩
    rcases h.drift with hsame | ⟨-, hlt⟩
    · exact hsame
    · -- a slot that has moved is still ahead
      have hmt : t < m.pacer.tat := hslot.trans_lt hlt
      rcases he.ahead hmt with hsame | ⟨-, hlt'⟩
      · rw [hsame] at hpast
        exact absurd hmt (not_lt.mpr hpast)
      · exact absurd (hmt.trans hlt') (not_lt.mpr hpast)
  · refine ⟨⟨?_, fun hsame => ?_⟩, ?_⟩
    · rintro ⟨m'', hready⟩
      rw [hcheck] at hready
      cases hready
    · have hpast : m'.pacer.tat ≤ t := he.due (by rw [hsame]; exact hslot.ge)
      exact absurd hahead (not_lt.mpr hpast)
    · have hagain := waits_of_check hlazy hst.le (m.pacer.phase_le_one_later hst.le h.rested.phase) hcheck
      refine Or.inr ⟨_, _, hcheck, hagain.lt, hagain.le.trans ?_⟩
      have hphase := hagain.rested.phase
      rw [Gcra.phase, div_le_one (NNReal.coe_pos.mpr hagain.rested.positive), Gcra.nextAt_sub] at hphase
      exact tsub_le_iff_left.mp (NNReal.coe_le_coe.mp hphase)

/-- **Decay slows a waiting head** by what the readings find. When no probe transition falls up to the slot `t` for which a
queue head waits, readings before `t` do not fail; the head is ready at `t` when none of them found the interval longer,
and only then; otherwise it waits until later, for one interval at most. Readings within the grace of the silence, or
with nothing in flight, find no decay. -/
theorem decay_slows_a_waiting_head {calls : List (Call ℝ≥0)} (h0 : FreshAt c₀ start)
    (h : Run TimedStep (c₀, start) tr (c, clock)) (hle : clock ≤ now)
    (hw : c.dispatchState r now = some (.waitUntil t, c')) (hprobe : ∀ u, c'.nextDispatchRefreshAt = some u → t < u)
    (hread : ∀ call ∈ calls, call.IsRead ∧ ∃ s, call.now? = some s ∧ now < s ∧ s < t) (ho : Ordered now calls) :
    ∃ tr' c'', play c' calls = some (tr', c'') ∧
      ((∃ m, c''.dispatchState r t = some (.ready, m)) ↔
        ∀ call ∈ calls, ∀ s, call.now? = some s → rateToInterval (c'.rateAt s) = some c'.pacer.interval) ∧
      ((∃ m, c''.dispatchState r t = some (.ready, m)) ∨
        ∃ u m, c''.dispatchState r t = some (.waitUntil u, m) ∧ t < u ∧ u ≤ t + m.pacer.interval) ∧
      ((∀ epoch, c'.feedbackEpoch = some epoch → ∀ call ∈ calls, ∀ s, call.now? = some s →
          s ≤ epoch.lastFeedbackAt + epoch.expectedRtt) → ∃ m, c''.dispatchState r t = some (.ready, m)) := by
  have hwaits := waits_of_check (run_lazy h0 h) hle ((run_bounded h0 h).2 now hle) hw
  have hslot := hwaits.eq_tat hprobe
  obtain ⟨tr', c'', last, hplay, hlast, hd, hiff⟩ := hwaits.drifted.reads hprobe hslot.le
    (fun call hmem => ⟨(hread call hmem).1, (hread call hmem).2.imp fun _ hs => ⟨hs.1, hs.2.2⟩⟩) ho hwaits.lt
  have hiff : c''.pacer = c'.pacer ↔
      ∀ call ∈ calls, ∀ s, call.now? = some s → rateToInterval (c'.rateAt s) = some c'.pacer.interval := by
    rw [hiff]
    exact ⟨And.right, fun hall => ⟨rfl, hall⟩⟩
  obtain ⟨hready, hor⟩ := hd.check hwaits hslot hprobe hlast
  refine ⟨tr', c'', hplay, hready.trans hiff, hor, fun hgrace => (hready.trans hiff).mpr fun call hmem s hs => ?_⟩
  -- without decay the rate is the one of the check
  obtain ⟨-, s', hs', hnow, hst⟩ := hread call hmem
  obtain rfl := Option.some.inj (hs.symm.trans hs')
  have hactive := (hwaits.undisturbed hst).active
  have hsame (u : ℝ≥0) (hu : u ≤ s) : c'.rateAt u = c'.probedRateAt u :=
    rateAt_grace fun epoch hepoch => hu.trans (hgrace epoch hepoch call hmem s hs)
  have hrate : c'.rateAt s = c'.rateAt now := by
    rw [hsame s le_rfl, hsame now hnow.le, probedRateAt_congr (hactive.trans hwaits.rested.active.symm)]
  rw [hrate]
  exact hwaits.rested.interval

end

/-! ## A negative probe -/

section

open scoped NNReal

variable {R : Type} [Rng R ℝ] {c : EndpointController ℝ≥0 ℝ R} {p : ProbeState ℝ≥0 ℝ} {rng : R} {now : ℝ≥0}

omit [Rng R ℝ] in
/-- The rate of the sample under a negative probe, before its decay. -/
theorem probedRateAt_negative {rtt expiry : ℝ≥0} {next : Option ℝ≥0} (hc : c.gradient.concurrency = 1)
    (hl : c.latency.expectedRtt = rtt)
    (hp : c.probe = { current := some { kind := .negative 0.8, expiry }, nextProbeAt := next }) (hlt : now < expiry) :
    c.probedRateAt now = 1 / (5 / 4 * rtt) := by
  have hactive : c.probe.active now = c.probe := by
    rw [hp]
    unfold ProbeState.active
    exact if_neg (by simpa using hlt)
  unfold probedRateAt ProbeState.effectiveRate
  dsimp only
  rw [hactive, hc, hl, hp]
  show (1 : ℝ) / rtt * (0.8 : ℝ) = _
  rw [one_div, one_div, mul_inv, mul_comm]
  norm_num

/-- The probe that a draw of 0.12 starts. -/
noncomputable def steadyProbe (now : ℝ≥0) : ProbeState ℝ≥0 ℝ where
  current := some { kind := .negative 0.8, expiry := now + 1 }
  nextProbeAt := some (now + (1 + 4 * (3 / 25 : ℝ).toNNReal))

theorem steadyProbe_active {s : ℝ≥0} (hlt : s < now + 1) : (steadyProbe now).active s = steadyProbe now := by
  unfold ProbeState.active
  exact if_neg (by simpa [steadyProbe] using hlt)

section

variable {c : EndpointController ℝ≥0 ℝ ℕ}

/-- From its third draw on, the generator starts a negative probe when a decision is due. -/
theorem decision_negative (hdemand : c.probingHasDemand = true) (hnone : (c.probe.active now).current = none)
    (hdue : c.probe.nextProbeAt.getD now ≤ now) (hrng : c.probeRng = 2) : c.probeDecision now = some (steadyProbe now, 4) := by
  unfold probeDecision
  rw [if_pos hdemand]
  refine maybeStart_negative hnone hdue (by norm_num) (by norm_num) ?_ (steadyRng_low (by norm_num)) (by norm_num) (by norm_num)
  rw [hrng]
  exact steadyRng_low le_rfl

end

/-- A second reservation that waits under a negative probe: its slot is at 5/8, the grace ends at 1/2, and the probe at 1. -/
theorem negativeSample : ∃ (c₀ c c' : EndpointController ℝ≥0 ℝ ℕ) (tr : List (Entry ℝ≥0 ℝ ℕ)), FreshAt c₀ 0 ∧
    Run TimedStep (c₀, 0) tr (c, 0) ∧ c.dispatchState ⟨7, 1⟩ 0 = some (.waitUntil (5 / 8), c') ∧
    c'.nextDispatchRefreshAt = some 1 ∧ c'.pacer.interval = 5 / 8 ∧ (∀ s < 1, c'.probedRateAt s = 8 / 5) ∧
    c'.feedbackEpoch = some { lastFeedbackAt := 0, expectedRtt := 1 / 2 } := by
  have hlo : Time.fromNanos 1 ≤ (1 / 2 : ℝ≥0) := by
    rw [nano_exactTime, div_le_div_iff₀ (by norm_num) (by norm_num)]
    norm_num
  have hhi : (1 / 2 : ℝ≥0) ≤ durationMax := le_trans (by norm_num) one_le_durationMax
  have hle : (5 / 8 : ℝ≥0) ≤ 1 := div_le_one_of_le₀ (by norm_num) (by norm_num)
  obtain ⟨c₀, c, tr, h0, hrun, hs, htat, hheads, hinflight, hepoch⟩ := exactSample_queued (2 : ℕ) hlo hhi
  have hdemand := demand_of_heads hheads hinflight
  have hdecision : c.probeDecision 0 = some (steadyProbe 0, 4) := by
    refine decision_negative hdemand ?_ ?_ hs.probeRng
    · rw [hs.probe]
      rfl
    · rw [hs.probe]
      exact le_rfl
  have hactive (s : ℝ≥0) (hlt : s < 1) : (steadyProbe 0).active s = steadyProbe 0 :=
    steadyProbe_active (hlt.trans_eq (zero_add 1).symm)
  have hprobed (s : ℝ≥0) (hlt : s < 1) :
      probedRateAt { c with probe := steadyProbe 0, probeRng := 4 } s = 1 / (5 / 4 * (1 / 2 : ℝ≥0)) :=
    probedRateAt_negative (c := { c with probe := steadyProbe 0, probeRng := 4 }) hs.concurrency hs.expectedRtt rfl
      (by rwa [zero_add])
  have hrate : rateToInterval (rateAt { c with probe := (steadyProbe 0).active 0, probeRng := 4 } 0) = some (5 / 8 : ℝ≥0) := by
    rw [hactive 0 one_pos, rateAt_grace fun epoch _ => zero_le, hprobed 0 one_pos]
    have hlong : (1 : ℝ) / (5 / 4 * ((1 / 2 : ℝ≥0) : ℝ)) = 1 / ((5 / 8 : ℝ≥0) : ℝ) := by
      push_cast
      norm_num
    rw [hlong]
    refine exactInterval ?_ (hle.trans one_le_durationMax)
    rw [nano_exactTime, div_le_div_iff₀ (by norm_num) (by norm_num)]
    norm_num
  obtain ⟨m, hm, hprobe, -, hinterval, hset⟩ := refresh_decided hdecision hrate
  have hphase : c.pacer.phase 0 = 1 := by
    rw [Gcra.phase_eq, htat, hs.interval, NNReal.coe_zero, sub_zero, div_self (by norm_num), max_eq_right zero_le_one]
  have hmtat : m.pacer.tat = 5 / 8 := by
    have h := (Gcra.setRate_phase hset).2.2 hphase.le
    rw [hphase, Gcra.phase_eq, hinterval, NNReal.coe_zero, sub_zero] at h
    have hval : ((m.pacer.tat : ℝ)) / ((5 / 8 : ℝ≥0) : ℝ) = 1 := by
      rcases max_choice 0 ((m.pacer.tat : ℝ) / ((5 / 8 : ℝ≥0) : ℝ)) with h' | h'
      · rw [h'] at h
        norm_num at h
      · rw [← h', h]
    rw [div_eq_one_iff_eq (by norm_num)] at hval
    exact NNReal.coe_injective hval
  have hroom : c.inflight < c.config.maxInflight := hs.room hinflight.le
  obtain ⟨front, rest, hpend, -, -, ⟨hpast, -⟩ | ⟨-, -, hcheck⟩⟩ :=
    check_head hheads (run_lazy h0 hrun) le_rfl hroom hm
  · rw [hmtat] at hpast
    norm_num at hpast
  · have hnext : (m.waited front rest).nextDispatchRefreshAt = some 1 := by
      have hcur : (m.waited front rest).probe.current = some { kind := .negative 0.8, expiry := 0 + 1 } := by
        show m.probe.current = _
        rw [hprobe, hactive 0 one_pos]
        rfl
      unfold nextDispatchRefreshAt
      rw [hcur, zero_add]
    have hdeadline : (m.waited front rest).recheckAt m.pacer.tat = 5 / 8 := by
      unfold recheckAt
      rw [hnext, hmtat]
      show min (5 / 8 : ℝ≥0) 1 = 5 / 8
      exact min_eq_left hle
    rw [hdeadline] at hcheck
    have hled := refresh_ledger hm
    refine ⟨c₀, c, m.waited front rest, tr, h0, hrun, hcheck, hnext, hinterval, fun s hs' => ?_, ?_⟩
    · have hsame : probedRateAt (m.waited front rest) s = probedRateAt { c with probe := steadyProbe 0, probeRng := 4 } s := by
        have hlat : m.latency = c.latency := congrArg Ledger.latency hled
        have hgrad : m.gradient = c.gradient := congrArg Ledger.gradient hled
        unfold probedRateAt
        show (m.probe.effectiveRate (m.gradient.concurrency / asSecsF64 m.latency.expectedRtt) s).1 = _
        rw [hlat, hgrad, hprobe, hactive 0 one_pos]
      rw [hsame, hprobed s hs']
      push_cast
      norm_num
    · show m.feedbackEpoch = _
      exact (congrArg Ledger.feedbackEpoch hled).trans hepoch

omit [Rng R ℝ] in
/-- A silence past the grace slows a rate down that is above the lowest one. -/
theorem rate_decays {interval : ℝ≥0} {epoch : FeedbackEpoch ℝ≥0} (he : c.feedbackEpoch = some epoch)
    (hlate : epoch.lastFeedbackAt + epoch.expectedRtt < now) (hrtt : 0 < epoch.expectedRtt)
    (hrate : 2 / ((durationMax : ℝ≥0) : ℝ) < c.probedRateAt now) (hi : rateToInterval (c.rateAt now) = some interval) :
    1 / c.probedRateAt now < interval := by
  have hbase : 0 < c.probedRateAt now := (div_pos two_pos durationMax_pos).trans hrate
  have hexcess : 0 < now - epoch.lastFeedbackAt - epoch.expectedRtt := by
    rw [tsub_tsub]
    exact tsub_pos_of_lt hlate
  have hfactor : c.feedbackFactor now (c.probedRateAt now) < 1 := by
    rcases feedbackFactor_exactTime now he (c.probedRateAt now) with ⟨hz, -⟩ | ⟨-, hf⟩
    · exact absurd hz hexcess.ne'
    · rw [hf]
      refine max_lt (Real.rpow_lt_one_of_one_lt_of_neg one_lt_two ?_) (min_lt_of_left_lt ((div_lt_one hbase).mpr hrate))
      exact neg_neg_of_pos (div_pos (NNReal.coe_pos.mpr hexcess) (NNReal.coe_pos.mpr hrtt))
  obtain ⟨hpos, hval, -⟩ := rateToInterval_exactTime hi
  rw [rateAt_probed] at hpos hval
  rw [hval]
  refine lt_max_of_lt_left (one_div_lt_one_div_of_lt hpos ?_)
  exact mul_lt_of_lt_one_right hbase hfactor

theorem five_eighths_lt_one : (5 / 8 : ℝ≥0) < 1 := (div_lt_one (by norm_num)).mpr (by norm_num)

theorem reading_lt_slot : (11 / 20 : ℝ≥0) < 5 / 8 := by
  rw [div_lt_div_iff₀ (by norm_num) (by norm_num)]
  norm_num

/-- A reading after the check of `negativeSample`, past its grace, and before its slot. -/
theorem reading_between : ∀ call ∈ [Call.load (11 / 20 : ℝ≥0)],
    call.IsRead ∧ ∃ s, call.now? = some s ∧ 0 < s ∧ s < 5 / 8 := by
  intro call hmem
  obtain rfl := List.mem_singleton.mp hmem
  exact ⟨trivial, _, rfl, by norm_num, reading_lt_slot⟩

theorem decay_slows_a_waiting_head_probed : ∃ c c' c'' : EndpointController ℝ≥0 ℝ ℕ, ∃ tr,
    c.dispatchState ⟨7, 1⟩ 0 = some (.waitUntil (5 / 8), c') ∧ play c' [.load (11 / 20)] = some (tr, c'') ∧
    ((∃ m, c''.dispatchState ⟨7, 1⟩ (5 / 8) = some (.ready, m)) ↔
      rateToInterval (c'.rateAt (11 / 20)) = some c'.pacer.interval) := by
  obtain ⟨c₀, c, c', tr, h0, hrun, hw, hnext, -⟩ := negativeSample
  obtain ⟨tr', c'', hplay, hready, -, -⟩ := decay_slows_a_waiting_head h0 hrun le_rfl hw
    (fun u hu => by rw [hnext] at hu; exact Option.some.inj hu ▸ five_eighths_lt_one) reading_between ⟨zero_le, trivial⟩
  refine ⟨c, c', c'', tr', hw, hplay, hready.trans ⟨fun hall => hall _ List.mem_cons_self _ rfl, fun hi call hmem s hs => ?_⟩⟩
  obtain rfl := List.mem_singleton.mp hmem
  obtain rfl : (11 / 20 : ℝ≥0) = s := Option.some.inj hs
  exact hi

/-- One reading past the grace moves the slot: the head is not ready at the instant it was told to check again. -/
theorem reading_moves_the_slot : ¬∀ (c₀ c c' : EndpointController ℝ≥0 ℝ ℕ) (tr : List (Entry ℝ≥0 ℝ ℕ))
    (r : DispatchReservation) (start clock now t : ℝ≥0) (calls : List (Call ℝ≥0)), FreshAt c₀ start →
    Run TimedStep (c₀, start) tr (c, clock) → clock ≤ now → c.dispatchState r now = some (.waitUntil t, c') →
    (∃ front rest, c'.pending = front :: rest ∧ front.scheduledAt = t) → c'.inflight < c'.config.maxInflight →
    (∀ u, c'.nextDispatchRefreshAt = some u → t < u) →
    (∀ call ∈ calls, call.IsRead ∧ ∃ s, call.now? = some s ∧ now < s ∧ s < t) → Ordered now calls →
    ∃ tr' c'' m, play c' calls = some (tr', c'') ∧ c''.dispatchState r t = some (.ready, m) := by
  intro h
  obtain ⟨c₀, c, c', tr, h0, hrun, hw, hnext, hinterval, hprobed, hepoch⟩ := negativeSample
  have hprobe : c'.Undisturbed (5 / 8) := fun u hu => by
    rw [hnext] at hu
    exact Option.some.inj hu ▸ five_eighths_lt_one
  have hordered : Ordered 0 [Call.load (11 / 20 : ℝ≥0)] := ⟨zero_le, trivial⟩
  have hwaits := waits_of_check (run_lazy h0 hrun) le_rfl ((run_bounded h0 hrun).2 0 le_rfl) hw
  have hslot := hwaits.eq_tat hprobe
  obtain ⟨front, rest, hp, hfront⟩ := hwaits.slot
  obtain ⟨tr', c'', m, hplay, hready⟩ := h c₀ c c' tr ⟨7, 1⟩ 0 0 0 (5 / 8) [.load (11 / 20)] h0 hrun le_rfl hw
    ⟨front, rest, hp, hfront.trans hslot.symm⟩ hwaits.room hprobe reading_between hordered
  obtain ⟨tr₁, c₁, last, hplay₁, hlast, hd, hiff⟩ := hwaits.drifted.reads hprobe hslot.le
    (fun call hmem => ⟨(reading_between call hmem).1, (reading_between call hmem).2.imp fun _ hs => ⟨hs.1, hs.2.2⟩⟩)
    hordered hwaits.lt
  obtain ⟨rfl, rfl⟩ := Prod.mk.inj (Option.some.inj (hplay.symm.trans hplay₁))
  -- the reading found a longer interval
  have hsame := (hd.check hwaits hslot hprobe hlast).1.mp ⟨m, hready⟩
  have hi : rateToInterval (c'.rateAt (11 / 20)) = some c'.pacer.interval :=
    (hiff.mp hsame).2 _ List.mem_cons_self _ rfl
  have hlater : (11 / 20 : ℝ≥0) < 1 := reading_lt_slot.trans five_eighths_lt_one
  have hlonger := rate_decays hepoch (by
    rw [zero_add, div_lt_div_iff₀ (by norm_num) (by norm_num)]
    norm_num) (by norm_num) (by
    rw [hprobed _ hlater, div_lt_iff₀ durationMax_pos]
    have hthree : (3 : ℝ) ≤ ((durationMax : ℝ≥0) : ℝ) := NNReal.coe_le_coe.mpr (le_durationMax (x := 3) (by norm_num))
    linarith) hi
  rw [hprobed _ hlater, hinterval] at hlonger
  norm_num at hlonger

end

end Loadpace
