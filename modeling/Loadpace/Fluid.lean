import Loadpace.ExactSample
import Loadpace.Lib.Meter
import Loadpace.Rates

/-!
# Pacing is a fluid meter

In exact time the phase of the pacer is a fluid meter that every dispatch fills and that drains at the rate in force
(`run_metered`): `gcra_refines_fluid_meter`. That a dispatch finds the queue head due (`Step.pacing`) keeps debt from building up.
-/

namespace Loadpace

open Systems EndpointController

/-! ## The interval in force -/

section

variable {T F R : Type} [LinearOrder T]

/-- From the instant of a call on, the interval is the one that the call leaves. -/
def Entry.overlay (f : T → T) (e : Entry T F R) : T → T :=
  match e.call.now? with
  | none => f
  | some now => fun s => if now ≤ s then e.after.pacer.interval else f s

/-- The pacing interval in force at each instant of a history. -/
def inForce (c₀ : EndpointController T F R) (tr : List (Entry T F R)) : T → T :=
  tr.foldl Entry.overlay fun _ => c₀.pacer.interval

theorem inForce_snoc (c₀ : EndpointController T F R) (tr : List (Entry T F R)) (e : Entry T F R) :
    inForce c₀ (tr ++ [e]) = e.overlay (inForce c₀ tr) := by
  rw [inForce, List.foldl_append]
  rfl

/-- Later calls leave the interval that was in force. -/
theorem inForce_later {c₀ : EndpointController T F R} {tr rest : List (Entry T F R)} {s : T}
    (hrest : ∀ e ∈ rest, ∀ t, e.call.now? = some t → s < t) : inForce c₀ (tr ++ rest) s = inForce c₀ tr s := by
  induction rest using List.reverseRecOn with
  | nil => rw [List.append_nil]
  | append_singleton rest e ih =>
    rw [← List.append_assoc, inForce_snoc, Entry.overlay]
    have hlast := hrest e (List.mem_append_right _ List.mem_cons_self)
    have hpast := ih fun x hx => hrest x (List.mem_append_left _ hx)
    cases hnow : e.call.now? with
    | none => exact hpast
    | some t => exact (if_neg (not_le.mpr (hlast t hnow))).trans hpast

variable [AddCommMonoid T] [Sub T] [Time T] [F64 F] [Secs T F] [Rng R F]
variable {c₀ c c' : EndpointController T F R} {tr rest : List (Entry T F R)} {start clock now : T}

theorem run_clock_le (h : Run TimedStep (c₀, start) tr (c, clock)) : start ≤ clock :=
  h.invariant (P := fun s => start ≤ s.2) le_rfl fun s e s' hs hle => by
    obtain ⟨-, ⟨t, -, hst, heq⟩ | ⟨-, -, heq⟩⟩ := TimedStep.cases hs
    · rw [heq]
      exact hle.trans hst
    · rw [heq]
      exact hle

/-- The interval in force from the last call on is the current one. -/
theorem run_inForce (h : Run TimedStep (c₀, start) tr (c, clock)) {s : T} (hs : clock ≤ s) :
    inForce c₀ tr s = c.pacer.interval := by
  generalize hx : (c, clock) = x at h
  induction h generalizing c clock with
  | nil =>
    obtain ⟨rfl, rfl⟩ := Prod.mk.inj hx
    rfl
  | @snoc tr m e x hr he ih =>
    subst hx
    rw [inForce_snoc]
    obtain ⟨hstep, ⟨t, hnow, -, heq⟩ | ⟨hcall, hsame, heq⟩⟩ := TimedStep.cases he
    · obtain rfl : clock = t := heq
      have hover : e.overlay (inForce c₀ tr) s = e.after.pacer.interval := by
        unfold Entry.overlay
        rw [hnow]
        exact if_pos hs
      rw [hover, hstep.2.1]
    · have hover : e.overlay (inForce c₀ tr) = inForce c₀ tr := by
        unfold Entry.overlay
        rw [hcall]
        rfl
      have hpacer : m.1.pacer = c.pacer := (congrArg EndpointController.pacer hsame).symm
      rw [hover, ← hpacer]
      have hle : m.2 ≤ s := heq ▸ hs
      exact ih hle rfl

/-- The calls of a run are not before its start. -/
theorem run_now_le (h : Run TimedStep (c, clock) rest (c', now)) {e : Entry T F R} (he : e ∈ rest) {t : T}
    (ht : e.call.now? = some t) : clock ≤ t := by
  obtain ⟨before, after, ⟨m, t₀⟩, m', rfl, hbefore, hstep, -⟩ := h.of_mem he
  obtain ⟨-, ⟨t', hnow, hle, -⟩ | ⟨hnone, -, -⟩⟩ := TimedStep.cases hstep
  · cases ht.symm.trans hnow
    exact (run_clock_le hbefore).trans hle
  · rw [hnone] at ht
    cases ht

/-- Later calls leave the past. -/
theorem inForce_append (h : Run TimedStep (c, clock) rest (c', now)) {s : T} (hs : s < clock) :
    inForce c₀ (tr ++ rest) s = inForce c₀ tr s :=
  inForce_later fun _ he _ ht => hs.trans_le (run_now_le h he ht)

end

/-! ## The pacer as a meter -/

section

open scoped NNReal
open MeasureTheory Set

variable {R : Type} [Rng R ℝ] {c₀ c c' : EndpointController ℝ≥0 ℝ R} {e : Entry ℝ≥0 ℝ R} {tr : List (Entry ℝ≥0 ℝ R)}
variable {start clock now : ℝ≥0}

omit [Rng R ℝ] in
/-- A call that dispatches nothing keeps the phase; a dispatch finds nothing left of it and fills it. -/
theorem Pacing.phase (h : Pacing c e c') (hnow : e.call.now? = some now) (hI : 0 < c.pacer.interval)
    (hp : c.pacer.phase now ≤ 1) : 0 < c'.pacer.interval ∧
      ((e.dispatched? = none ∧ c'.pacer.phase now = c.pacer.phase now) ∨
        (e.dispatched?.isSome ∧ c.pacer.phase now = 0 ∧ c'.pacer.phase now = 1)) := by
  cases h with
  | still hd hsame =>
    rw [hsame]
    exact ⟨hI, Or.inl ⟨hd, rfl⟩⟩
  | repaced hnow' hd _ hset =>
    obtain rfl := Option.some.inj (hnow.symm.trans hnow')
    obtain ⟨hI', -, hphase⟩ := Gcra.setRate_phase hset
    have hphase := hphase hp
    exact ⟨hI', Or.inl ⟨hd, hphase⟩⟩
  | committed hnow' hd _ hset htat heq =>
    obtain rfl := Option.some.inj (hnow.symm.trans hnow')
    obtain ⟨hI', -, hphase⟩ := Gcra.setRate_phase hset
    have hphase := hphase hp
    rw [heq]
    exact ⟨hI', Or.inr ⟨hd, hphase.symm.trans ((Gcra.phase_eq_zero hI').mpr htat), Gcra.commit_phase hI' htat⟩⟩

/-- At most one interval is left before the next slot. -/
theorem run_bounded (h0 : FreshAt c₀ start) (h : Run TimedStep (c₀, start) tr (c, clock)) :
    0 < c.pacer.interval ∧ ∀ now, clock ≤ now → c.pacer.phase now ≤ 1 := by
  suffices hs : 0 < c.pacer.interval ∧ c.pacer.phase clock ≤ 1 from
    ⟨hs.1, fun now hle => c.pacer.phase_le_one_later hle hs.2⟩
  generalize hx : (c, clock) = x at h
  induction h generalizing c clock with
  | nil =>
    obtain ⟨rfl, rfl⟩ := Prod.mk.inj hx
    obtain ⟨config, rng, controllerId, hn⟩ := h0
    obtain ⟨_, _, _, _, _, pacer, _, _, hp, rfl⟩ := newWithRng_cases hn
    unfold Gcra.new at hp
    simp only [Option.bind_eq_bind, Option.bind_eq_some_iff] at hp
    obtain ⟨interval, hi, hp⟩ := hp
    obtain rfl := Option.some.inj hp
    have hpos : 0 < interval := by
      have hval := (rateToInterval_exactTime hi).2.1
      rw [← NNReal.coe_pos, hval]
      exact lt_max_of_lt_right (by norm_num)
    refine ⟨hpos, ?_⟩
    rw [(Gcra.phase_eq_zero hpos).mpr le_rfl]
    exact zero_le_one
  | @snoc tr m e x hr he ih =>
    subst hx
    obtain ⟨m, t₀⟩ := m
    obtain ⟨hI, hp⟩ := ih rfl
    obtain ⟨hstep, ⟨t, hnow, hle, heq⟩ | ⟨-, hsame, heq⟩⟩ := TimedStep.cases he
    · obtain rfl : clock = t := heq
      have hpac : Pacing m e c := hstep.pacing
      have hp := m.pacer.phase_le_one_later hle hp
      obtain ⟨hI', ⟨-, hphase⟩ | ⟨-, -, hphase⟩⟩ := hpac.phase hnow hI hp
      · exact ⟨hI', hphase.trans_le hp⟩
      · exact ⟨hI', hphase.le⟩
    · obtain rfl : clock = t₀ := heq
      obtain rfl : c = { m with changes := ControllerChanges.none } := hsame
      exact ⟨hI, hp⟩

/-- How fast the pacer drains, at each instant of a history. -/
noncomputable def rateInForce (c₀ : EndpointController ℝ≥0 ℝ R) (tr : List (Entry ℝ≥0 ℝ R)) (s : ℝ) : ℝ :=
  ((inForce c₀ tr s.toNNReal : ℝ≥0) : ℝ)⁻¹

/-- The phase is what is left of a meter that was full at `filled`. -/
structure Metered (rate : ℝ → ℝ) (filled : ℝ≥0) (c : EndpointController ℝ≥0 ℝ R) (clock : ℝ≥0) : Prop where
  integrable : IntervalIntegrable rate volume filled clock
  phase : c.pacer.phase clock = Meter.left rate filled clock

omit [Rng R ℝ] in
/-- While the interval in force is the pacer's, the pacer stays metered. -/
theorem Metered.later {rate : ℝ → ℝ} {filled : ℝ≥0} (h : Metered rate filled c clock) (hle : clock ≤ now)
    (hrate : ∀ s ∈ Ioo (clock : ℝ) now, rate s = (c.pacer.interval : ℝ)⁻¹) : Metered rate filled c now := by
  obtain ⟨hint, hleft⟩ := Meter.left_extend (NNReal.coe_le_coe.mpr hle) (inv_nonneg.mpr c.pacer.interval.coe_nonneg)
    h.integrable hrate
  refine ⟨hint, ?_⟩
  rw [hleft, c.pacer.phase_later hle, h.phase]

theorem rateInForce_now (h : Run TimedStep (c₀, start) tr (c, clock)) {s : ℝ} (hs : (clock : ℝ) ≤ s) :
    rateInForce c₀ tr s = (c.pacer.interval : ℝ)⁻¹ := by
  rw [rateInForce, run_inForce h (NNReal.le_toNNReal_of_coe_le hs)]

omit [Rng R ℝ] in
/-- Only the rates in between and the phase count. -/
theorem Metered.congr {rate rate' : ℝ → ℝ} {filled : ℝ≥0} (h : Metered rate filled c clock) (hf : filled ≤ clock)
    (hrate : ∀ s ∈ Ioo (filled : ℝ) clock, rate s = rate' s) (hphase : c'.pacer.phase clock = c.pacer.phase clock) :
    Metered rate' filled c' clock := by
  have hle : (filled : ℝ) ≤ clock := NNReal.coe_le_coe.mpr hf
  refine ⟨h.integrable.congr_uIoo fun s hs => hrate s (by rwa [uIoo_of_le hle] at hs), ?_⟩
  rw [hphase, h.phase, Meter.left_congr hle hrate]

omit [Rng R ℝ] in
/-- A call changes the rate in force from its instant on. -/
theorem rateInForce_snoc (hnow : e.call.now? = some now) {s : ℝ} (h0 : 0 ≤ s) (hs : s < now) :
    rateInForce c₀ (tr ++ [e]) s = rateInForce c₀ tr s := by
  have hlt : ¬now ≤ s.toNNReal := by
    rw [not_le, Real.toNNReal_lt_iff_lt_coe h0]
    exact hs
  rw [rateInForce, rateInForce, inForce_snoc]
  unfold Entry.overlay
  rw [hnow]
  dsimp only
  rw [if_neg hlt]

/-- **From a dispatch to the next, the pacer is a meter that the dispatch filled.** -/
theorem run_metered {c₁ : EndpointController ℝ≥0 ℝ R} {before after : List (Entry ℝ≥0 ℝ R)} {d : Entry ℝ≥0 ℝ R}
    {t₁ : ℝ≥0} (h0 : FreshAt c₀ start) (hrun : Run TimedStep (c₀, start) (before ++ [d]) (c₁, t₁))
    (hd : d.dispatched?.isSome) (h : Run TimedStep (c₁, t₁) after (c, clock))
    (hno : ∀ e ∈ after, e.dispatched? = none) : Metered (rateInForce c₀ (before ++ [d] ++ after)) t₁ c clock := by
  generalize hx : (c, clock) = x at h
  induction h generalizing c clock with
  | nil =>
    obtain ⟨rfl, rfl⟩ := Prod.mk.inj hx
    obtain ⟨⟨m, t₀⟩, hbefore, hlast⟩ := hrun.snoc_inv
    obtain ⟨hstep, ⟨t, hnow, hle, heq⟩ | ⟨hcall, -, -⟩⟩ := TimedStep.cases hlast
    · obtain rfl : clock = t := heq
      obtain ⟨hI, hb⟩ := run_bounded h0 hbefore
      have hpac : Pacing m d c := hstep.pacing
      obtain ⟨-, ⟨hnone, -⟩ | ⟨-, -, hphase⟩⟩ := hpac.phase hnow hI (hb _ hle)
      · rw [hnone] at hd
        cases hd
      · exact ⟨.refl, hphase.trans (Meter.left_self _ _).symm⟩
    · unfold Entry.dispatched? dispatchedOf at hd
      rw [hcall] at hd
      cases hd
  | @snoc after m e x hr he ih =>
    subst hx
    obtain ⟨m, t₀⟩ := m
    have hm := ih (fun e' he' => hno e' (List.mem_append_left _ he')) rfl
    have hfull := hrun.append hr
    rw [← List.append_assoc]
    obtain ⟨hstep, ⟨t, hnow, hle, heq⟩ | ⟨hcall, hsame, heq⟩⟩ := TimedStep.cases he
    · obtain rfl : clock = t := heq
      have hlater := hm.later hle fun s hs => rateInForce_now hfull hs.1.le
      obtain ⟨hI, hb⟩ := run_bounded h0 hfull
      have hpac : Pacing m e c := hstep.pacing
      obtain ⟨-, ⟨-, hphase⟩ | ⟨hdis, -, -⟩⟩ := hpac.phase hnow hI (hb _ hle)
      · refine hlater.congr ((run_clock_le hr).trans hle) (fun s hs => ?_) hphase
        exact (rateInForce_snoc hnow (t₁.coe_nonneg.trans hs.1.le) hs.2).symm
      · rw [hno e (List.mem_append_right _ List.mem_cons_self)] at hdis
        cases hdis
    · obtain rfl : clock = t₀ := heq
      obtain rfl : c = { m with changes := ControllerChanges.none } := hsame
      have hover : inForce c₀ (before ++ [d] ++ after ++ [e]) = inForce c₀ (before ++ [d] ++ after) := by
        rw [inForce_snoc]
        unfold Entry.overlay
        rw [hcall]
        rfl
      refine hm.congr (run_clock_le hr) (fun s _ => ?_) rfl
      rw [rateInForce, rateInForce, hover]

/-- The clock is at the instant of the last call. -/
theorem clock_of_last {d : Entry ℝ≥0 ℝ R} (h : Run TimedStep (c₀, start) (tr ++ [d]) (c, clock))
    (hd : d.call.now? = some now) : clock = now := by
  obtain ⟨m, -, hlast⟩ := h.snoc_inv
  obtain ⟨-, ⟨t, hnow, -, heq⟩ | ⟨hcall, -, -⟩⟩ := TimedStep.cases hlast
  · exact heq.trans (Option.some.inj (hnow.symm.trans hd))
  · rw [hcall] at hd
    cases hd

/-- **Pacing refines a fluid meter.** In every history with a clock that does not move back, at every instant from the last
call on, the part of the interval left before the next slot is one minus the integral of the rate in force since the
last dispatch, down to zero. So a full unit lies between two consecutive dispatches, and the next slot is never more
than one interval away. -/
theorem gcra_refines_fluid_meter (h0 : FreshAt c₀ start) (h : Run TimedStep (c₀, start) tr (c, clock)) :
    (∀ before d after, ∀ t₁ : ℝ≥0, tr = before ++ [d] ++ after → d.dispatched?.isSome → (∀ e ∈ after, e.dispatched? = none) →
      d.call.now? = some t₁ → ∀ now : ℝ≥0, clock ≤ now →
      ((c.pacer.nextAt now : ℝ) - now) / c.pacer.interval =
        max 0 (1 - ∫ s in (t₁ : ℝ)..now, 1 / ((inForce c₀ tr s.toNNReal : ℝ≥0) : ℝ))) ∧
    (∀ before d between d' after, ∀ t₁ t₂ : ℝ≥0, tr = before ++ [d] ++ between ++ [d'] ++ after → d.dispatched?.isSome →
      (∀ e ∈ between, e.dispatched? = none) → d'.dispatched?.isSome → d.call.now? = some t₁ →
      d'.call.now? = some t₂ → 1 ≤ ∫ s in (t₁ : ℝ)..t₂, 1 / ((inForce c₀ tr s.toNNReal : ℝ≥0) : ℝ)) ∧
    ∀ now, clock ≤ now → c.pacer.nextAt now ≤ now + c.pacer.interval := by
  have hrate (s : ℝ) : 1 / ((inForce c₀ tr s.toNNReal : ℝ≥0) : ℝ) = rateInForce c₀ tr s := one_div _
  refine ⟨fun before d after t₁ htr hd hno ht now hle => ?_, fun before d between d' after t₁ t₂ htr hd hno hd' ht ht' => ?_,
    fun now hle => ?_⟩
  · simp only [hrate]
    rw [htr] at h
    obtain ⟨⟨c₁, t⟩, hdis, hafter⟩ := h.split
    obtain rfl : t₁ = t := (clock_of_last hdis ht).symm
    have hm := (run_metered h0 hdis hd hafter hno).later hle fun s hs => rateInForce_now h hs.1.le
    have hphase : ((c.pacer.nextAt now : ℝ) - now) / c.pacer.interval = c.pacer.phase now := by
      rw [Gcra.phase, NNReal.coe_sub (show now ≤ c.pacer.nextAt now from le_max_right _ _)]
    rw [hphase, hm.phase, htr]
    rfl
  · simp only [hrate]
    rw [htr] at h
    obtain ⟨⟨c₂, t⟩, hdis', hafter⟩ := h.split
    obtain rfl : t₂ = t := (clock_of_last hdis' ht').symm
    obtain ⟨⟨m, t₀⟩, hm, hlast⟩ := hdis'.snoc_inv
    obtain ⟨⟨c₁, t⟩, hdis, hbetween⟩ := hm.split
    obtain rfl : t₁ = t := (clock_of_last hdis ht).symm
    obtain ⟨hstep, ⟨t, hnow, hle, heq⟩ | ⟨hcall, -, -⟩⟩ := TimedStep.cases hlast
    · obtain rfl : t₂ = t := heq
      have hmet := (run_metered h0 hdis hd hbetween hno).later hle fun s hs => rateInForce_now hm hs.1.le
      obtain ⟨hI, hb⟩ := run_bounded h0 hm
      have hpac : Pacing m d' c₂ := hstep.pacing
      obtain ⟨-, ⟨hnone, -⟩ | ⟨-, hzero, -⟩⟩ := hpac.phase hnow hI (hb _ hle)
      · rw [hnone] at hd'
        cases hd'
      · -- the second dispatch found nothing left
        have hone := Meter.one_le_of_left_eq_zero (hmet.phase.symm.trans hzero)
        have hlt : (t₁ : ℝ) ≤ t₂ := NNReal.coe_le_coe.mpr ((run_clock_le hbetween).trans hle)
        rw [htr]
        refine hone.trans (intervalIntegral.integral_congr_Ioo_of_le hlt fun s hs => ?_).le
        have hs0 : 0 ≤ s := t₁.coe_nonneg.trans hs.1.le
        have hst : s.toNNReal < t₂ := (Real.toNNReal_lt_iff_lt_coe hs0).mpr hs.2
        rw [rateInForce, rateInForce, inForce_append hafter hst, ← rateInForce, ← rateInForce,
          rateInForce_snoc hnow hs0 hs.2]
    · rw [hcall] at ht'
      cases ht'
  · obtain ⟨hI, hb⟩ := run_bounded h0 h
    have hle1 := hb now hle
    rw [Gcra.phase, div_le_one (NNReal.coe_pos.mpr hI)] at hle1
    exact tsub_le_iff_left.mp (NNReal.coe_le_coe.mp hle1)

end

section

open scoped NNReal

/-- Two dispatches, with a change of the rate between them. -/
theorem gcra_refines_fluid_meter_two : ∃ (c₀ c : EndpointController ℝ≥0 ℝ Unit) (tr : List (Entry ℝ≥0 ℝ Unit)),
    FreshAt c₀ 0 ∧ Run TimedStep (c₀, 0) tr (c, 2) ∧
    (tr.filter fun e => e.dispatched?.isSome).map (fun e => e.call.now?) = [some 0, some 2] ∧
    (∃ e ∈ tr, e.before.pacer.interval = 1 ∧ e.after.pacer.interval = 10 / 7) ∧
    1 ≤ ∫ s in ((0 : ℝ≥0) : ℝ)..(2 : ℝ≥0), 1 / ((inForce c₀ tr s.toNNReal : ℝ≥0) : ℝ) ∧
    ∀ now : ℝ≥0, 2 ≤ now → c.pacer.nextAt now ≤ now + c.pacer.interval ∧
      ((c.pacer.nextAt now : ℝ) - now) / c.pacer.interval =
        max 0 (1 - ∫ s in ((2 : ℝ≥0) : ℝ)..now, 1 / ((inForce c₀ tr s.toNNReal : ℝ≥0) : ℝ)) := by
  obtain ⟨c₀, m, h0, hrun, -, -, hbefore, hafter, -⟩ := exactSample_abandoned ()
  let given : Entry ℝ≥0 ℝ Unit := ⟨.finish ⟨7, 0, false⟩ .abandoned 0, .finished true, c₀.begun 0, m⟩
  have hbetween : ∀ e ∈ [given, m.reserving 2], e.dispatched? = none := by
    intro e he
    simp only [List.mem_cons, List.not_mem_nil, or_false] at he
    rcases he with rfl | rfl <;> rfl
  obtain ⟨hmeter, hunit, hbound⟩ := gcra_refines_fluid_meter h0 hrun
  refine ⟨c₀, m.begun 2, _, h0, hrun, rfl, ⟨given, by simp [given], hbefore, hafter⟩, ?_, fun now hle => ⟨hbound now hle, ?_⟩⟩
  · exact hunit [c₀.reserving 0] (c₀.dispatching 0) [given, m.reserving 2] (m.dispatching 2) [] 0 2 rfl rfl hbetween rfl rfl rfl
  · exact hmeter [c₀.reserving 0, c₀.dispatching 0, given, m.reserving 2] (m.dispatching 2) [] 2 rfl rfl
      (fun e he => absurd he List.not_mem_nil) rfl now hle

end

end Loadpace
