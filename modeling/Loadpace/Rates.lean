import Loadpace.Schedule

/-!
# The rates that a controller sets

A call that comes to `update_rate` has by then the operating point, the estimate, the probe and the epoch from which it derives
the rate (`SetsRate`), and it panics exactly when that rate has no interval (`SetsRate.exec_isSome`). So a call leaves the
pacer and all that the rate depends on, sets the rate, or sets it and dispatches (`Step.rating`); a dispatch finds the queue
head due, so the committed TAT is due as well.
-/

namespace Loadpace

open Systems EndpointController

section

variable {T F R : Type} [AddCommMonoid T] [LinearOrder T] [Sub T] [Time T] [F64 F] [Secs T F] [Rng R F]

/-- The call comes to `update_rate` at `now`, with the controller as it is in `m`. -/
inductive SetsRate (c : EndpointController T F R) : Call T → EndpointController T F R → T → Prop
  | read {call : Call T} {now : T} {probe : ProbeState T F} {rng : R} : call.IsRead → call.now? = some now →
      c.probeDecision now = some (probe, rng) → SetsRate c call { c with probe := probe.active now, probeRng := rng } now
  | check {call : Call T} {r : DispatchReservation} {now : T} {probe : ProbeState T F} {rng : R} :
      call.check? = some (r, now) → c.Heads r → c.probeDecision now = some (probe, rng) →
      SetsRate c call { c with probe := probe.active now, probeRng := rng } now
  | release {call : Call T} {q : InFlightRequest T} {completion : Completion} {latency now : T} :
      call.release? = some (q, completion, latency, now) → q.controllerId = c.controllerId → 0 < c.inflight →
      SetsRate c call (c.released q latency now completion) now
  | admissionFailure {now : T} : SetsRate c (.onAdmissionFailure now)
      { c with failures := c.failures + 1, gradient := c.gradient.onFailureAt now } now

/-- `m` has the estimates, the probe and the epoch from which the rate at `now` is computed. -/
structure SameRates (m : EndpointController T F R) (gradient : Gradient2 T F) (latency : LatencyEstimator T F)
    (probe : ProbeState T F) (epoch : Option (FeedbackEpoch T)) (now : T) : Prop where
  gradient : m.gradient = gradient
  latency : m.latency = latency
  probe : m.probe.active now = probe
  epoch : m.feedbackEpoch = epoch

variable {c c' m : EndpointController T F R} {e : Entry T F R} {call : Call T} {now : T}

theorem SetsRate.now? (h : SetsRate c call m now) : call.now? = some now := by
  cases h with
  | read _ hnow _ => exact hnow
  | check hc _ _ => exact Call.now_of_check hc
  | release hr _ _ => exact Call.now_of_release hr
  | admissionFailure => rfl

/-! ## When a rate update returns -/

omit [Rng R F] in
theorem updateRate_isSome_iff :
    (c.updateRate now).isSome ↔ ∃ interval : T, rateToInterval (c.rateAt now) = some interval := by
  constructor
  · intro h
    obtain ⟨c', hu⟩ := Option.isSome_iff_exists.mp h
    obtain ⟨pacer, hset, -⟩ := updateRate_cases hu
    exact ⟨pacer.interval, (Gcra.setRate_cases hset).1⟩
  · rintro ⟨interval, hi⟩
    exact Option.isSome_iff_exists.mpr (updateRate_isSome hi)

theorem refresh_isSome_iff {probe : ProbeState T F} {rng : R} (hd : c.probeDecision now = some (probe, rng)) :
    (c.refresh now).isSome ↔
      (updateRate { c with probe := probe.active now, probeRng := rng } now).isSome := by
  unfold EndpointController.refresh
  simp only [Option.bind_eq_bind, hd, Option.bind_some, Option.isSome_bind, Option.isSome_some, Option.any_true]

/-- A reading returns when its refresh does. -/
theorem read_isSome_iff (hr : call.IsRead) (hnow : call.now? = some now) :
    (c.exec call).isSome ↔ (c.refresh now).isSome := by
  cases call with
  | refresh t =>
    cases hnow
    simp only [exec, Option.isSome_map]
  | load t =>
    cases hnow
    simp only [exec, load, predictedCompletion, Option.isSome_map, Option.bind_eq_bind, Option.isSome_bind,
      Option.isSome_some, Option.any_true, Option.any_bind, Function.comp_def, Option.any_some]
  | predictedCompletion t =>
    cases hnow
    simp only [exec, predictedCompletion, Option.isSome_map, Option.bind_eq_bind, Option.isSome_bind, Option.isSome_some,
      Option.any_true]
  | snapshot t =>
    cases hnow
    simp only [exec, snapshot, Option.isSome_map, Option.bind_eq_bind, Option.isSome_bind, Option.isSome_some,
      Option.any_true]
  | _ => exact hr.elim

/-- A check of the queue head returns when its refresh does. -/
theorem dispatchState_isSome_iff {r : DispatchReservation} (hh : c.Heads r) :
    (c.dispatchState r now).isSome ↔ (c.refresh now).isSome := by
  constructor
  · intro h
    obtain ⟨⟨s, c'⟩, hs⟩ := Option.isSome_iff_exists.mp h
    obtain ⟨m, _, _, hm, -⟩ := head_cases hh hs
    exact Option.isSome_iff_exists.mpr ⟨m, hm⟩
  · intro h
    obtain ⟨m, hm⟩ := Option.isSome_iff_exists.mp h
    obtain ⟨front, rest, hp, -⟩ := (hh.of_ledger (refresh_ledger hm)).front
    have found {s : DispatchState T} {c' : EndpointController T F R} (hch : Checked m now front rest s c') :
        (c.dispatchState r now).isSome := by
      rw [dispatchState_head hh hm hp hch]
      rfl
    rcases le_or_gt m.config.maxInflight m.inflight with hfull | hroom
    · exact found (.inflightLimit hfull)
    · rcases lt_or_ge now front.scheduledAt with hwait | hdue
      · exact found (.waitUntil hroom hwait)
      · exact found (.ready hroom hdue)

/-- So does a dispatch. -/
theorem onDispatched_isSome_iff {r : DispatchReservation} (hh : c.Heads r) :
    (c.onDispatched r now).isSome ↔ (c.refresh now).isSome := by
  rw [← dispatchState_isSome_iff hh]
  constructor
  · intro h
    obtain ⟨⟨res, c'⟩, hs⟩ := Option.isSome_iff_exists.mp h
    rcases onDispatched_cases hs with ⟨s, -, -, hd⟩ | ⟨-, m, _, _, hm, -⟩
    · exact Option.isSome_iff_exists.mpr ⟨_, hd⟩
    · exact (dispatchState_isSome_iff hh).mpr (Option.isSome_iff_exists.mpr ⟨m, hm⟩)
  · intro h
    obtain ⟨⟨s, c'⟩, hs⟩ := Option.isSome_iff_exists.mp h
    obtain ⟨m, front, rest, hm, hp, -, hch⟩ := head_cases hh hs
    cases hch with
    | inflightLimit _ => simp [onDispatched, hs]
    | waitUntil _ _ => simp [onDispatched, hs]
    | ready hroom hdue =>
      rw [onDispatched_ok hh hm hp hroom hdue]
      rfl

omit [Rng R F] in
/-- A completion of the controller's own request returns when its rate update does. -/
theorem onComplete_isSome_iff {q : InFlightRequest T} (outcome : Outcome) (latency : T)
    (hq : q.controllerId = c.controllerId) (hi : 0 < c.inflight) :
    (c.onComplete q outcome latency now).isSome ↔
      ((c.released q latency now (Outcome.completion outcome)).updateRate now).isSome := by
  constructor
  · intro h
    obtain ⟨⟨b, c'⟩, hs⟩ := Option.isSome_iff_exists.mp h
    rcases onComplete_cases hs with ⟨hn, -⟩ | ⟨-, -, -, hu⟩
    · exact absurd hq hn
    · exact Option.isSome_iff_exists.mpr ⟨_, hu⟩
  · intro h
    obtain ⟨m, hm⟩ := Option.isSome_iff_exists.mp h
    have hguard : guard (0 < c.inflight) = some () := if_pos hi
    have hok : c.onComplete q outcome latency now = some (true, m) := by
      unfold onComplete
      simp only [hq, ne_eq, not_true_eq_false, if_false, Option.bind_eq_bind, hguard, Option.bind_some]
      cases outcome with
      | success => exact Option.bind_eq_some_iff.mpr ⟨m, hm, rfl⟩
      | failure => exact Option.bind_eq_some_iff.mpr ⟨m, hm, rfl⟩
    rw [hok]
    rfl

omit [Rng R F] in
theorem onAbandoned_isSome_iff {q : InFlightRequest T} (latency : T) (hq : q.controllerId = c.controllerId)
    (hi : 0 < c.inflight) :
    (c.onAbandoned q now).isSome ↔ ((c.released q latency now .abandoned).updateRate now).isSome := by
  constructor
  · intro h
    obtain ⟨⟨b, c'⟩, hs⟩ := Option.isSome_iff_exists.mp h
    rcases onAbandoned_cases latency hs with ⟨hn, -⟩ | ⟨-, -, -, hu⟩
    · exact absurd hq hn
    · exact Option.isSome_iff_exists.mpr ⟨_, hu⟩
  · intro h
    obtain ⟨m, hm⟩ := Option.isSome_iff_exists.mp h
    have hguard : guard (0 < c.inflight) = some () := if_pos hi
    have hok : c.onAbandoned q now = some (true, m) := by
      unfold onAbandoned
      simp only [hq, ne_eq, not_true_eq_false, if_false, Option.bind_eq_bind, hguard, Option.bind_some]
      exact Option.bind_eq_some_iff.mpr ⟨m, hm, rfl⟩
    rw [hok]
    rfl

omit [Rng R F] in
theorem finish_isSome_iff {q : InFlightRequest T} (completion : Completion) (hq : q.controllerId = c.controllerId)
    (hi : 0 < c.inflight) : (c.finish q completion now).isSome ↔
      ((c.released q (now - q.dispatchedAt) now completion).updateRate now).isSome := by
  cases completion with
  | success =>
    have h : (c.onComplete q .success (now - q.dispatchedAt) now).isSome ↔
        ((c.released q (now - q.dispatchedAt) now .success).updateRate now).isSome := onComplete_isSome_iff .success _ hq hi
    exact h
  | failure =>
    have h : (c.onComplete q .failure (now - q.dispatchedAt) now).isSome ↔
        ((c.released q (now - q.dispatchedAt) now .failure).updateRate now).isSome := onComplete_isSome_iff .failure _ hq hi
    exact h
  | abandoned =>
    exact onAbandoned_isSome_iff (now - q.dispatchedAt) hq hi

/-- **A call that sets a rate panics exactly when the rate has no interval.** -/
theorem SetsRate.exec_isSome (h : SetsRate c call m now) :
    (c.exec call).isSome ↔ ∃ interval : T, rateToInterval (m.rateAt now) = some interval := by
  rw [← updateRate_isSome_iff]
  cases h with
  | read hr hnow hd => exact (read_isSome_iff hr hnow).trans (refresh_isSome_iff hd)
  | check hc hh hd =>
    refine Iff.trans ?_ (refresh_isSome_iff hd)
    cases call with
    | dispatchState r t =>
      cases hc
      rw [exec, Option.isSome_map]
      exact dispatchState_isSome_iff hh
    | onDispatched r t =>
      cases hc
      rw [exec, Option.isSome_map]
      exact onDispatched_isSome_iff hh
    | _ => cases hc
  | release hr hq hi =>
    cases call with
    | finish q done t =>
      cases hr
      rw [exec, Option.isSome_map]
      exact finish_isSome_iff _ hq hi
    | onComplete q outcome latency t =>
      cases hr
      rw [exec, Option.isSome_map]
      exact onComplete_isSome_iff _ _ hq hi
    | onAbandoned q t =>
      cases hr
      rw [exec, Option.isSome_map]
      exact onAbandoned_isSome_iff _ hq hi
    | _ => cases hr
  | admissionFailure =>
    rw [exec, Option.isSome_map]
    rfl

/-! ## What a call does to the pacer -/

/-- A call leaves the pacer, sets its rate, or sets its rate and commits a dispatch. -/
inductive Pacing (c : EndpointController T F R) (e : Entry T F R) (c' : EndpointController T F R) : Prop
  | still : e.dispatched? = none → c'.pacer = c.pacer → Pacing c e c'
  | repaced {now : T} {m : EndpointController T F R} : e.call.now? = some now → e.dispatched? = none →
      SameRates m c'.gradient c'.latency c'.probe c'.feedbackEpoch now →
      c.pacer.setRate (m.rateAt now) now = some c'.pacer → Pacing c e c'
  | committed {now : T} {m : EndpointController T F R} {pacer : Gcra T} : e.call.now? = some now →
      e.dispatched?.isSome → SameRates m c'.gradient c'.latency c'.probe c.feedbackEpoch now →
      c.pacer.setRate (m.rateAt now) now = some pacer → pacer.tat ≤ now → c'.pacer = pacer.commit now → Pacing c e c'

omit [Rng R F] in
/-- What `updateRate` does to the pacer. -/
theorem updateRate_pacing {m : EndpointController T F R} (hu : m.updateRate now = some c') :
    m.pacer.setRate (m.rateAt now) now = some c'.pacer ∧
      SameRates m c'.gradient c'.latency c'.probe c'.feedbackEpoch now := by
  obtain ⟨pacer, hp, ⟨-, rfl⟩ | ⟨-, -, rfl⟩⟩ := updateRate_cases hu
  · exact ⟨hp, rfl, rfl, rfl, rfl⟩
  · exact ⟨hp, rfl, rfl, rfl, rfl⟩

/-- What a refresh does to it. -/
theorem refresh_decision (h : c.refresh now = some c') : ∃ probe rng m, c.probeDecision now = some (probe, rng) ∧
    m = { c with probe := probe.active now, probeRng := rng } ∧
    c.pacer.setRate (m.rateAt now) now = some c'.pacer ∧
    SameRates m c'.gradient c'.latency c'.probe c'.feedbackEpoch now := by
  obtain ⟨probe, rng, m, hd, hm, rfl⟩ := refresh_cases h
  obtain ⟨hs, hr⟩ := updateRate_pacing hm
  exact ⟨probe, rng, _, hd, rfl, hs, hr⟩

theorem refresh_pacing (h : c.refresh now = some c') :
    ∃ m : EndpointController T F R, c.pacer.setRate (m.rateAt now) now = some c'.pacer ∧
      SameRates m c'.gradient c'.latency c'.probe c'.feedbackEpoch now := by
  obtain ⟨_, _, m, -, -, hs, hr⟩ := refresh_decision h
  exact ⟨m, hs, hr⟩

/-- A call keeps all that the rate is computed from, or sets the rate from it. -/
inductive Rating (c : EndpointController T F R) (e : Entry T F R) (c' : EndpointController T F R) : Prop
  | kept : e.dispatched? = none → c'.pacer = c.pacer → c'.gradient = c.gradient → c'.latency = c.latency →
      c'.probe = c.probe → c'.feedbackEpoch = c.feedbackEpoch → Rating c e c'
  | repaced {now : T} {m : EndpointController T F R} : SetsRate c e.call m now → e.dispatched? = none →
      SameRates m c'.gradient c'.latency c'.probe c'.feedbackEpoch now →
      c.pacer.setRate (m.rateAt now) now = some c'.pacer → Rating c e c'
  | committed {now : T} {m : EndpointController T F R} {pacer : Gcra T} : SetsRate c e.call m now →
      e.dispatched?.isSome → SameRates m c'.gradient c'.latency c'.probe c.feedbackEpoch now →
      c.pacer.setRate (m.rateAt now) now = some pacer → pacer.tat ≤ now → c'.pacer = pacer.commit now → Rating c e c'

/-- **One call on the rate.** -/
theorem Step.rating (h : Step c e c') : Rating c e c' := by
  obtain ⟨call, reply, before, after⟩ := e
  obtain ⟨hb, -, hx⟩ := h
  dsimp only at hb hx
  subst hb
  -- the calls that refresh
  have read {t : T} (hr : call.IsRead) (hnow : call.now? = some t) (hm : before.refresh t = some c') :
      Rating before { call, reply, before, after } c' := by
    obtain ⟨probe, rng, m, hdec, rfl, hs, hrates⟩ := refresh_decision hm
    exact .repaced (.read hr hnow hdec) (Call.of_read reply hr).1 hrates hs
  -- the calls that check the queue head
  have check {r : DispatchReservation} {t : T} {s : DispatchState T} (hc : call.check? = some (r, t))
      (hd : dispatchedOf call reply = none) (hs : before.dispatchState r t = some (s, c')) :
      Rating before { call, reply, before, after } c' := by
    rcases dispatchState_cases hs with ⟨-, -, rfl⟩ | ⟨-, -, -, rfl⟩ | ⟨hh, m, front, rest, hm, -, -, hch⟩
    · exact .kept hd rfl rfl rfl rfl rfl
    · exact .kept hd rfl rfl rfl rfl rfl
    · obtain ⟨probe, rng, m', hdec, rfl, hset, hrates⟩ := refresh_decision hm
      cases hch with
      | inflightLimit _ => exact .repaced (.check hc hh hdec) hd hrates hset
      | ready _ _ => exact .repaced (.check hc hh hdec) hd hrates hset
      | waitUntil _ _ => exact .repaced (.check hc hh hdec) hd hrates hset
  -- the calls that release a request
  have release {q : InFlightRequest T} {completion : Completion} {latency t : T} {b : Bool}
      (hr : call.release? = some (q, completion, latency, t)) (hd : dispatchedOf call reply = none)
      (hrel : (q.controllerId ≠ before.controllerId ∧ b = false ∧ c' = before) ∨
        (q.controllerId = before.controllerId ∧ 0 < before.inflight ∧ b = true ∧
          (before.released q latency t completion).updateRate t = some c')) :
      Rating before { call, reply, before, after } c' := by
    rcases hrel with ⟨-, -, rfl⟩ | ⟨hq, hi, -, hu⟩
    · exact .kept hd rfl rfl rfl rfl rfl
    · obtain ⟨hset, hrates⟩ := updateRate_pacing hu
      rw [(released_schedule before q latency t completion).2] at hset
      exact .repaced (.release hr hq hi) hd hrates hset
  cases call with
  | reserve t =>
    have heq : (before.reserve t).2 = c' := congrArg Prod.snd (Option.some.inj hx)
    subst heq
    rcases before.reserve_cases t with hsame | ⟨-, -, happ⟩
    · rw [hsame]
      exact .kept rfl rfl rfl rfl rfl rfl
    · rw [happ]
      exact .kept rfl rfl rfl rfl rfl rfl
  | cancel r t =>
    have heq : (before.cancel r t).2 = c' := congrArg Prod.snd (Option.some.inj hx)
    subst heq
    by_cases hh : before.Holds r
    · rw [cancel_held before t hh]
      exact .kept rfl rfl rfl rfl rfl rfl
    · rw [cancel_unknown before t hh]
      exact .kept rfl rfl rfl rfl rfl rfl
  | dispatchState r t =>
    obtain ⟨⟨s, m⟩, hs, he⟩ := Option.map_eq_some_iff.mp hx
    cases he
    exact check rfl rfl hs
  | onDispatched r t =>
    obtain ⟨⟨res, m⟩, hs, he⟩ := Option.map_eq_some_iff.mp hx
    cases he
    rcases onDispatched_cases hs with ⟨s, -, rfl, hd⟩ | ⟨hh, m', front, rest, hm, hp, -, -, hdue, rfl, heq⟩
    · exact check rfl rfl hd
    · obtain ⟨probe, rng, m₁, hdec, hm₁, hset, hrates⟩ := refresh_decision hm
      have hsets : SetsRate before (.onDispatched r t) m₁ t := by
        rw [hm₁]
        exact .check rfl hh hdec
      have hepoch : m'.feedbackEpoch = before.feedbackEpoch := congrArg Ledger.feedbackEpoch (refresh_ledger hm)
      have heq : m = (m'.dispatchedFrom rest t).rebuildVirtualQueue t := heq
      have htat : m'.pacer.tat ≤ t := (le_max_left _ _).trans ((refresh_head hm hp).trans hdue)
      refine .committed hsets rfl ?_ hset htat ?_
      · rw [heq, ← hepoch]
        exact hrates
      · rw [heq]
        rfl
  | finish q completion t =>
    obtain ⟨⟨b, m⟩, hs, he⟩ := Option.map_eq_some_iff.mp hx
    cases he
    exact release rfl rfl (finish_cases hs)
  | onComplete q outcome latency t =>
    obtain ⟨⟨b, m⟩, hs, he⟩ := Option.map_eq_some_iff.mp hx
    cases he
    exact release rfl rfl (onComplete_cases hs)
  | onAbandoned q t =>
    obtain ⟨⟨b, m⟩, hs, he⟩ := Option.map_eq_some_iff.mp hx
    cases he
    exact release rfl rfl (onAbandoned_cases _ hs)
  | onAdmissionFailure t =>
    obtain ⟨m, hm, he⟩ := Option.map_eq_some_iff.mp hx
    cases he
    obtain ⟨hset, hrates⟩ := updateRate_pacing hm
    exact .repaced .admissionFailure rfl hrates hset
  | refresh t =>
    obtain ⟨m, hm, he⟩ := Option.map_eq_some_iff.mp hx
    cases he
    exact read trivial rfl hm
  | load t =>
    obtain ⟨⟨x, m⟩, hm, he⟩ := Option.map_eq_some_iff.mp hx
    cases he
    exact read trivial rfl (load_cases hm).1
  | predictedCompletion t =>
    obtain ⟨⟨x, m⟩, hm, he⟩ := Option.map_eq_some_iff.mp hx
    cases he
    exact read trivial rfl (predictedCompletion_cases hm).1
  | snapshot t =>
    obtain ⟨⟨x, m⟩, hm, he⟩ := Option.map_eq_some_iff.mp hx
    cases he
    obtain ⟨m', hr, heq, -⟩ := snapshot_cases hm
    obtain ⟨probe, rng, m₁, hdec, hm₁, hset, hrates⟩ := refresh_decision hr
    have hprobe : m₁.probe.active t = m.probe := by
      rw [heq, ← hrates.probe, ProbeState.active_active]
    rw [heq] at hprobe ⊢
    have hsets : SetsRate before (.snapshot t) m₁ t := by
      rw [hm₁]
      exact .read trivial rfl hdec
    exact .repaced hsets rfl ⟨hrates.gradient, hrates.latency, hprobe, hrates.epoch⟩ hset
  | takeChanges =>
    have heq : before.takeChanges.2 = c' := congrArg Prod.snd (Option.some.inj hx)
    subst heq
    exact .kept rfl rfl rfl rfl rfl rfl

/-- **One call on the pacer.** -/
theorem Step.pacing (h : Step c e c') : Pacing c e c' := by
  cases h.rating with
  | kept hd hpacer _ _ _ _ => exact .still hd hpacer
  | repaced hsets hd hrates hset => exact .repaced hsets.now? hd hrates hset
  | committed hsets hd hrates hset htat heq => exact .committed hsets.now? hd hrates hset htat heq

end

end Loadpace
