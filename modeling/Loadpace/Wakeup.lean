import Loadpace.Schedule
import Loadpace.Reservations

/-!
# Wakeup flags

A caller that waits for admission or for dispatch is woken through the change flags, so a call that improves its chances
must set a flag. A call that leaves the dispatch flag down leaves every queued reservation where it was
(`Step.unmoved`): same place, same slot, same inflight count, and a next refresh that is no earlier. The last point
rests on the probes (`ProbeState.Apart`): a probe has expired by the time of the next decision, so that its lazy expiry
in `updateRate` moves the next refresh back. `wakeup_flags_complete` is the result for every call.
-/

namespace Loadpace

open Systems EndpointController

/-! ## Probes and decisions -/

section

variable {T F : Type} [LinearOrder T]

/-- A running probe has expired by the next decision. -/
def ProbeState.Apart (s : ProbeState T F) : Prop :=
  ∀ probe, s.current = some probe → ∃ next, s.nextProbeAt = some next ∧ probe.expiry ≤ next

theorem ProbeState.Apart.active {s : ProbeState T F} (h : s.Apart) (now : T) : (s.active now).Apart := by
  rcases s.active_cases now with ⟨_, -, -, heq⟩ | heq
  · rw [heq]
    intro probe hp
    cases hp
  · rw [heq]
    exact h

end

section

variable {T F R : Type} [AddCommMonoid T] [LinearOrder T] [Sub T] [Time T] [F64 F] [Secs T F] [Rng R F]

theorem fromSecs_le_durationMax {n : ℕ} (h : n ≤ 10) : (fromSecs n : T) ≤ durationMax := by
  by_contra hlt
  have hmono := Time.asNanos_mono (not_le.mp hlt).le
  rw [Time.asNanos_durationMax, fromSecs, Time.asNanos_fromNanos] at hmono
  omega

/-- The next decision is at least the shortest interval away, and at most the longest. -/
theorem ProbeSchedule.randomInterval_bounds {p : ProbeSchedule T F} {rng rng' : R} {interval : T}
    (hp : p.minInterval ≤ p.maxInterval) (h : p.randomInterval rng = some (interval, rng')) :
    p.minInterval ≤ interval ∧ interval ≤ p.maxInterval := by
  unfold ProbeSchedule.randomInterval at h
  dsimp only at h
  split at h
  · cases h
    exact ⟨le_rfl, hp⟩
  · simp only [Option.bind_eq_bind, Option.bind_eq_some_iff] at h
    obtain ⟨jitter, -, h⟩ := h
    cases h
    refine ⟨le_self_add, ?_⟩
    calc p.minInterval + min jitter (p.maxInterval - p.minInterval)
        ≤ p.minInterval + (p.maxInterval - p.minInterval) := add_le_add_right (min_le_right _ _) _
      _ = p.maxInterval := add_tsub_cancel_of_le hp

/-- A decision keeps probes and decisions apart. -/
theorem ProbeState.Apart.maybeStart {s s' : ProbeState T F} {rng rng' : R} {now : T} (hs : s.Apart)
    (h : (ProbeSchedule.default : ProbeSchedule T F).maybeStart s rng now = some (s', rng')) : s'.Apart := by
  have hdefault : (ProbeSchedule.default : ProbeSchedule T F).minInterval ≤
      (ProbeSchedule.default : ProbeSchedule T F).maxInterval := Time.fromNanos_mono (by omega)
  rcases ProbeSchedule.maybeStart_cases h with ⟨rfl, -, -⟩ | ⟨-, -, interval, rng₁, hi, hnext, hcurrent⟩
  · exact hs.active now
  · obtain ⟨hlo, hhi⟩ := ProbeSchedule.randomInterval_bounds hdefault hi
    intro probe hp
    rcases hcurrent with hnone | ⟨kind, -, hsome⟩
    · rw [hnone] at hp
      cases hp
    · rw [hsome] at hp
      obtain rfl := Option.some.inj hp
      -- the probe lasts as long as the shortest interval
      exact ⟨_, hnext, saturatingAdd_mono hlo (hhi.trans (fromSecs_le_durationMax (by omega)))⟩

omit [AddCommMonoid T] [Sub T] [Time T] [F64 F] [Secs T F] [Rng R F] in
/-- A probe that `active` leaves has not expired. -/
theorem active_current {s : ProbeState T F} {now : T} {probe : Probe T F} (h : (s.active now).current = some probe) :
    now < probe.expiry := by
  unfold ProbeState.active at h
  split at h
  · cases h
  · rename_i hlive
    rw [h] at hlive
    exact not_le.mp fun hle => hlive (decide_eq_true hle)

/-- `t` is later than `now`, or at least one second is added to `now`. -/
def Ahead (now t : T) : Prop :=
  now < t ∨ ∃ interval, fromSecs 1 ≤ interval ∧ interval ≤ durationMax ∧ t = saturatingAdd now interval

theorem Ahead.le {now t : T} (h : Ahead now t) : now ≤ t := by
  rcases h with hlt | ⟨interval, -, -, rfl⟩
  · exact hlt.le
  · exact le_saturatingAdd _ _

/-- A decision that leaves no probe schedules the next one ahead. -/
theorem maybeStart_next {s s' : ProbeState T F} {rng rng' : R} {now : T}
    (h : (ProbeSchedule.default : ProbeSchedule T F).maybeStart s rng now = some (s', rng'))
    (hnone : (s'.active now).current = none) : ∃ t, s'.nextProbeAt = some t ∧ Ahead now t := by
  rcases ProbeSchedule.maybeStart_cases h with ⟨rfl, -, hkept⟩ | ⟨-, -, interval, rng₁, hi, hnext, -⟩
  · rw [ProbeState.active_active] at hnone
    rcases hkept with hlive | hdue
    · exact absurd hnone hlive
    · obtain ⟨due, hn, hlt⟩ := ProbeState.due_of_lt hdue
      rw [ProbeState.active_nextProbeAt]
      exact ⟨due, hn, Or.inl hlt⟩
  · obtain ⟨hlo, hhi⟩ := ProbeSchedule.randomInterval_bounds (Time.fromNanos_mono (by omega)) hi
    exact ⟨_, hnext, Or.inr ⟨interval, hlo, hhi.trans (fromSecs_le_durationMax (by omega)), rfl⟩⟩

end

/-! ## One call -/

section

variable {T F R : Type} [LinearOrder T]

def PendingReservation.place (p : PendingReservation T) : ℕ × T := (p.id, p.scheduledAt)

/-- The next refresh is no earlier. -/
def NoEarlier (next next' : Option T) : Prop := ∀ t', next' = some t' → ∃ t, next = some t ∧ t ≤ t'

theorem NoEarlier.refl (next : Option T) : NoEarlier next next := fun t h => ⟨t, h, le_rfl⟩

/-- Every queued reservation is where it was. -/
structure Unmoved (c c' : EndpointController T F R) : Prop where
  places : c.pending.map PendingReservation.place <+: c'.pending.map PendingReservation.place
  inflight : c'.inflight = c.inflight
  config : c'.config = c.config
  next : c.pending ≠ [] → NoEarlier c.nextDispatchRefreshAt c'.nextDispatchRefreshAt

theorem Unmoved.refl (c : EndpointController T F R) : Unmoved c c :=
  ⟨List.prefix_rfl, rfl, rfl, fun _ => .refl _⟩

theorem recheckAt_le_slot (c : EndpointController T F R) (s : T) : c.recheckAt s ≤ s := by
  unfold recheckAt
  cases c.nextDispatchRefreshAt with
  | none => exact le_rfl
  | some t => exact min_le_left _ _

/-- The recheck of a slot is no earlier when the next refresh is not. -/
theorem recheckAt_le {c c' : EndpointController T F R}
    (h : NoEarlier c.nextDispatchRefreshAt c'.nextDispatchRefreshAt) (s : T) : c.recheckAt s ≤ c'.recheckAt s := by
  have hle := recheckAt_le_slot c s
  cases hn : c'.nextDispatchRefreshAt with
  | none =>
    have hs : c'.recheckAt s = s := by rw [recheckAt, hn]; rfl
    rw [hs]
    exact hle
  | some t' =>
    obtain ⟨t, ht, htt⟩ := h t' hn
    have hs : c.recheckAt s = min s t := by rw [recheckAt, ht]; rfl
    have hs' : c'.recheckAt s = min s t' := by rw [recheckAt, hn]; rfl
    rw [hs, hs']
    exact min_le_min_left s htt

omit [LinearOrder T] in
/-- What the next refresh depends on. -/
theorem next_congr {c c' : EndpointController T F R} (hp : c'.probe = c.probe)
    (hs : c'.latency.samples = c.latency.samples) (hi : c'.inflight = c.inflight)
    (he : c'.pending.isEmpty = c.pending.isEmpty) : c'.nextDispatchRefreshAt = c.nextDispatchRefreshAt := by
  have hd : c'.probingHasDemand = c.probingHasDemand := by
    unfold probingHasDemand
    rw [hs, hi, he]
  unfold nextDispatchRefreshAt
  rw [hp, hd]

omit [LinearOrder T] in
/-- The mark of a waiting queue head moves no refresh. -/
theorem waited_next {m : EndpointController T F R} {front : PendingReservation T} {rest : List (PendingReservation T)}
    (hp : m.pending = front :: rest) : (m.waited front rest).probingHasDemand = m.probingHasDemand ∧
      (m.waited front rest).nextDispatchRefreshAt = m.nextDispatchRefreshAt := by
  have hempty : (m.waited front rest).pending.isEmpty = m.pending.isEmpty := by
    rw [hp]
    rfl
  refine ⟨?_, next_congr rfl rfl rfl hempty⟩
  unfold probingHasDemand
  rw [hempty]
  rfl

/-- Expiring the probe moves the next refresh to the next decision, or away. -/
theorem next_expired {c : EndpointController T F R} (ha : c.probe.Apart) (now : T) :
    NoEarlier c.nextDispatchRefreshAt
      (EndpointController.nextDispatchRefreshAt { c with probe := c.probe.active now }) := by
  rcases c.probe.active_cases now with ⟨probe, hp, -, heq⟩ | heq
  · obtain ⟨next, hnext, hle⟩ := ha probe hp
    rw [heq]
    intro t' ht'
    have hdemand : t' = next := by
      unfold nextDispatchRefreshAt at ht'
      dsimp only at ht'
      split at ht'
      · rw [hnext] at ht'
        exact (Option.some.inj ht').symm
      · cases ht'
    refine ⟨probe.expiry, ?_, hdemand ▸ hle⟩
    unfold nextDispatchRefreshAt
    rw [hp]
  · rw [heq]
    exact .refl _

end

section

variable {T F R : Type} [AddCommMonoid T] [LinearOrder T] [Sub T] [Time T] [F64 F] [Secs T F] [Rng R F]
variable {c₀ c c' : EndpointController T F R} {e : Entry T F R} {tr : List (Entry T F R)} {now : T}

omit [Rng R F] in
/-- `updateRate` sets the dispatch flag or leaves the queue as it is. -/
theorem updateRate_wakes (h : c.updateRate now = some c') : c'.changes.dispatch = true ∨
    ∃ pacer, c' = { c with probe := c.probe.active now, pacer } := by
  obtain ⟨pacer, -, ⟨-, rfl⟩ | ⟨-, -, rfl⟩⟩ := updateRate_cases h
  · exact Or.inl rfl
  · exact Or.inr ⟨pacer, rfl⟩

omit [Rng R F] in
/-- `updateRate` keeps the flags that are set, and expires the probe. -/
theorem updateRate_changes (h : c.updateRate now = some c') : c'.changes.admission = c.changes.admission ∧
    (c.changes.dispatch = true → c'.changes.dispatch = true) ∧ c'.probe = c.probe.active now := by
  obtain ⟨pacer, -, ⟨-, rfl⟩ | ⟨-, -, rfl⟩⟩ := updateRate_cases h
  · exact ⟨rfl, fun _ => rfl, rfl⟩
  · exact ⟨rfl, id, rfl⟩

/-- `refresh` sets the dispatch flag or leaves every reservation where it was. -/
theorem refresh_wakes (h : c.refresh now = some c') : c'.changes.dispatch = true ∨
    (c'.pending = c.pending ∧ c'.nextDispatchRefreshAt = c.nextDispatchRefreshAt) := by
  obtain ⟨probe, rng, m, -, hm, rfl⟩ := refresh_cases h
  rcases updateRate_wakes hm with hd | ⟨pacer, rfl⟩
  · exact Or.inl (by rw [hd]; rfl)
  · by_cases hne : c.nextDispatchRefreshAt = EndpointController.nextDispatchRefreshAt
        { c with probe := (probe.active now).active now, probeRng := rng, pacer }
    · exact Or.inr ⟨rfl, hne.symm⟩
    · refine Or.inl ?_
      simp only [Bool.or_eq_true, decide_eq_true_eq]
      exact Or.inr hne

theorem refresh_changes (ha : c.probe.Apart) (h : c.refresh now = some c') :
    c'.changes.admission = c.changes.admission ∧ (c.changes.dispatch = true → c'.changes.dispatch = true) ∧
      c'.probe.Apart ∧ c'.probe.active now = c'.probe := by
  obtain ⟨probe, rng, m, hp, hm, rfl⟩ := refresh_cases h
  obtain ⟨hadm, hdis, hprobe⟩ := updateRate_changes hm
  have hap : probe.Apart := by
    unfold probeDecision at hp
    split at hp
    · exact ha.maybeStart hp
    · cases hp
      exact ha
  refine ⟨hadm, fun hd => by simp only [hdis hd, Bool.true_or], ?_, ?_⟩
  · rw [show m.probe = _ from hprobe]
    exact (hap.active now).active now
  · rw [show m.probe = _ from hprobe]
    exact ProbeState.active_active _ _

omit [AddCommMonoid T] [Sub T] [Time T] [LinearOrder T] [F64 F] [Secs T F] [Rng R F] in
/-- The demand is a matter of the ledger. -/
theorem demand_of_ledger (h : c'.ledger = c.ledger) : c'.probingHasDemand = c.probingHasDemand := by
  have hlat : c'.latency = c.latency := congrArg Ledger.latency h
  have hinf : c'.inflight = c.inflight := congrArg Ledger.inflight h
  have hlen : c'.pending.length = c.pending.length := by
    have hent := congrArg List.length (congrArg Ledger.entries h)
    simpa [ledger] using hent
  have hemp : c'.pending.isEmpty = c.pending.isEmpty := by
    rw [Bool.eq_iff_iff, List.isEmpty_iff_length_eq_zero, List.isEmpty_iff_length_eq_zero, hlen]
  unfold probingHasDemand
  rw [hlat, hinf, hemp]

/-- After a refresh with demand and without a probe, the next decision is ahead. -/
theorem refresh_scheduled (h : c.refresh now = some c') (hd : c'.probingHasDemand = true)
    (hnone : c'.probe.current = none) : ∃ t, c'.probe.nextProbeAt = some t ∧ Ahead now t := by
  obtain ⟨probe, rng, m, hp, hm, rfl⟩ := refresh_cases h
  obtain ⟨-, -, hprobe⟩ := updateRate_changes hm
  have hprobe : m.probe = probe.active now := hprobe.trans (ProbeState.active_active probe now)
  have hdemand : c.probingHasDemand = true := (demand_of_ledger (updateRate_ledger hm)).symm.trans hd
  have hnone : m.probe.current = none := hnone
  show ∃ t, m.probe.nextProbeAt = some t ∧ Ahead now t
  rw [hprobe] at hnone ⊢
  unfold probeDecision at hp
  rw [if_pos hdemand] at hp
  rw [ProbeState.active_nextProbeAt]
  exact maybeStart_next hp hnone

/-- The next refresh is ahead of the last one. -/
theorem refresh_next {t : T} (h : c.refresh now = some c') (ht : c'.nextDispatchRefreshAt = some t) : Ahead now t := by
  unfold nextDispatchRefreshAt at ht
  cases hcur : c'.probe.current with
  | some running =>
    rw [hcur] at ht
    obtain rfl : running.expiry = t := Option.some.inj ht
    obtain ⟨probe, rng, m, -, hm, rfl⟩ := refresh_cases h
    have hprobe : m.probe = probe.active now := (updateRate_changes hm).2.2.trans (ProbeState.active_active probe now)
    have hcur : m.probe.current = some running := hcur
    rw [hprobe] at hcur
    exact Or.inl (active_current hcur)
  | none =>
    rw [hcur] at ht
    dsimp only at ht
    split at ht
    · rename_i hd
      obtain ⟨t', ht', ha⟩ := refresh_scheduled h hd hcur
      exact (Option.some.inj (ht'.symm.trans ht)) ▸ ha
    · cases ht

/-- What one call does to the flags. -/
structure Wakes (c c' : EndpointController T F R) : Prop where
  /-- A call that leaves the dispatch flag down moves nothing. -/
  unmoved : c'.changes.dispatch = true ∨ Unmoved c c'
  dispatch : c.changes.dispatch = true → c'.changes.dispatch = true
  admission : c.changes.admission = true → c'.changes.admission = true
  room : c.maySchedule = false → c'.maySchedule = true → c'.changes.admission = true
  apart : c'.probe.Apart

omit [AddCommMonoid T] [Sub T] [Time T] [F64 F] [Secs T F] [Rng R F] in
theorem Wakes.refl (ha : c.probe.Apart) : Wakes c c :=
  ⟨Or.inr (.refl c), id, id, fun h h' => absurd (h.symm.trans h') Bool.false_ne_true, ha⟩

omit [AddCommMonoid T] [Sub T] [Time T] [F64 F] [Secs T F] [Rng R F] in
/-- A call that sets both flags. -/
theorem Wakes.of_flags (hc : c'.changes = { admission := true, dispatch := true }) (ha : c'.probe.Apart) :
    Wakes c c' := by
  refine ⟨Or.inl (by rw [hc]), fun _ => by rw [hc], fun _ => by rw [hc], fun _ _ => by rw [hc], ha⟩

omit [AddCommMonoid T] [Sub T] [Time T] [LinearOrder T] [F64 F] [Secs T F] [Rng R F] in
theorem maySchedule_of_ledger (h : c'.ledger.entries = c.ledger.entries) (hcfg : c'.config = c.config) :
    c'.maySchedule = c.maySchedule := by
  have hlen : c'.pending.length = c.pending.length := by simpa [ledger] using congrArg List.length h
  unfold maySchedule
  rw [hlen, hcfg]

omit [Rng R F] in
theorem Wakes.of_updateRate {m : EndpointController T F R} (ha : c.probe.Apart) (hu : m.updateRate now = some c')
    (hprobe : m.probe = c.probe) (hentries : m.ledger.entries = c.ledger.entries) (hcfg : m.config = c.config)
    (hadm : m.changes.admission = c.changes.admission)
    (hdis : c.changes.dispatch = true → m.changes.dispatch = true)
    (hun : m.changes.dispatch = true ∨ (m.pending = c.pending ∧ m.inflight = c.inflight ∧
      m.latency.samples = c.latency.samples)) : Wakes c c' := by
  obtain ⟨hadm', hdis', hp⟩ := updateRate_changes hu
  have hled := updateRate_ledger hu
  have hcfg' : c'.config = c.config := (congrArg Ledger.config hled).trans hcfg
  have hsched : c'.maySchedule = c.maySchedule :=
    maySchedule_of_ledger ((congrArg Ledger.entries hled).trans hentries) hcfg'
  refine ⟨?_, fun h => hdis' (hdis h), fun h => hadm'.trans (hadm.trans h), fun h h' => ?_, ?_⟩
  · rcases hun with hd | ⟨hpend, hi, hsamples⟩
    · exact Or.inl (hdis' hd)
    · rcases updateRate_wakes hu with hd | ⟨pacer, rfl⟩
      · exact Or.inl hd
      · refine Or.inr ⟨?_, hi, hcfg, fun _ => ?_⟩
        · have hplaces := congrArg (List.map PendingReservation.place) hpend
          exact hplaces ▸ List.prefix_rfl
        · have hnext := next_expired ha now
          have heq : EndpointController.nextDispatchRefreshAt { m with probe := m.probe.active now, pacer } =
              EndpointController.nextDispatchRefreshAt { c with probe := c.probe.active now } :=
            next_congr (congrArg (fun s => ProbeState.active s now) hprobe) hsamples hi (congrArg List.isEmpty hpend)
          rw [heq]
          exact hnext
  · rw [hsched, h] at h'
    cases h'
  · rw [hp, hprobe]
    exact ha.active now

theorem Wakes.of_refresh (ha : c.probe.Apart) (h : c.refresh now = some c') : Wakes c c' := by
  obtain ⟨hadm, hdis, hap, -⟩ := refresh_changes ha h
  have hled := refresh_ledger h
  have hcfg : c'.config = c.config := congrArg Ledger.config hled
  have hsched : c'.maySchedule = c.maySchedule := maySchedule_of_ledger (congrArg Ledger.entries hled) hcfg
  refine ⟨?_, hdis, fun h => hadm.trans h, fun h h' => ?_, hap⟩
  · rcases refresh_wakes h with hd | ⟨hpend, hnext⟩
    · exact Or.inl hd
    · refine Or.inr ⟨?_, congrArg Ledger.inflight hled, hcfg, fun _ => ?_⟩
      · have hplaces := congrArg (List.map PendingReservation.place) hpend
        exact hplaces ▸ List.prefix_rfl
      · rw [hnext]
        exact .refl _
  · rw [hsched, h] at h'
    cases h'

omit [AddCommMonoid T] [Sub T] [Time T] [F64 F] [Secs T F] [Rng R F] in
/-- The mark of a waiting queue head moves nothing. -/
theorem Wakes.waited {m : EndpointController T F R} {front : PendingReservation T} {rest : List (PendingReservation T)}
    (h : Wakes c m) (hp : m.pending = front :: rest) : Wakes c (m.waited front rest) := by
  have hplaces : (m.waited front rest).pending.map PendingReservation.place =
      m.pending.map PendingReservation.place := by
    rw [hp]
    rfl
  have hnext : (m.waited front rest).nextDispatchRefreshAt = m.nextDispatchRefreshAt :=
    next_congr rfl rfl rfl (by rw [hp]; rfl)
  have hsched : (m.waited front rest).maySchedule = m.maySchedule := by
    unfold maySchedule
    rw [hp]
    rfl
  refine ⟨?_, h.dispatch, h.admission, fun h0 h1 => h.room h0 (hsched ▸ h1), h.apart⟩
  rcases h.unmoved with hd | hu
  · exact Or.inl hd
  · refine Or.inr ⟨?_, hu.inflight, hu.config, fun hne => ?_⟩
    · rw [hplaces]
      exact hu.places
    · rw [hnext]
      exact hu.next hne

theorem Wakes.of_check {r : DispatchReservation} {s : DispatchState T} (ha : c.probe.Apart)
    (h : c.dispatchState r now = some (s, c')) : Wakes c c' := by
  rcases dispatchState_cases h with ⟨-, -, rfl⟩ | ⟨-, -, -, rfl⟩ | ⟨-, m, front, rest, hm, hp, -, hch⟩
  · exact .refl ha
  · exact .refl ha
  · have hw := Wakes.of_refresh ha hm
    cases hch with
    | inflightLimit _ => exact hw
    | ready _ _ => exact hw
    | waitUntil _ _ => exact hw.waited hp

omit [Rng R F] in
theorem Wakes.of_release {q : InFlightRequest T} {completion : Completion} {latency : T} {b : Bool} (ha : c.probe.Apart)
    (h : (q.controllerId ≠ c.controllerId ∧ b = false ∧ c' = c) ∨
      (q.controllerId = c.controllerId ∧ 0 < c.inflight ∧ b = true ∧
        (c.released q latency now completion).updateRate now = some c')) : Wakes c c' := by
  rcases h with ⟨-, -, rfl⟩ | ⟨-, -, -, hu⟩
  · exact .refl ha
  · have hd : (c.released q latency now completion).changes.dispatch = true := by cases completion <;> rfl
    refine Wakes.of_updateRate ha hu ?_ ?_ ?_ ?_ (fun _ => hd) (Or.inl hd) <;> cases completion <;> rfl

omit [F64 F] [Secs T F] [Rng R F] in
/-- A new reservation moves none of the others. -/
theorem Wakes.of_reserve (ha : c.probe.Apart) (now : T) : Wakes c (c.reserve now).2 := by
  rcases c.reserve_cases now with hsame | ⟨hroom, -, happ⟩
  · rw [hsame]
    exact .refl ha
  · rw [happ]
    refine ⟨Or.inr ⟨?_, rfl, rfl, fun hne => ?_⟩, id, id, fun h _ => ?_, ha⟩
    · rw [List.map_append]
      exact List.prefix_append _ _
    · have hempty (p : PendingReservation T) : (c.pending ++ [p]).isEmpty = c.pending.isEmpty := by
        cases hp : c.pending with
        | nil => exact absurd hp hne
        | cons _ _ => rfl
      intro t ht
      refine ⟨t, ?_, le_rfl⟩
      rw [← ht]
      exact Eq.symm (next_congr rfl rfl rfl (hempty _))
    · have ht : c.maySchedule = true := decide_eq_true hroom
      rw [h] at ht
      cases ht

/-- **One call** moves no reservation unless it sets the dispatch flag, makes no room unless it sets the admission flag, and
takes no flag down. -/
theorem Step.wakes (h : Step c e c') (ha : c.probe.Apart) (hn : e.call ≠ .takeChanges) : Wakes c c' := by
  obtain ⟨call, reply, before, after⟩ := e
  obtain ⟨hb, -, hx⟩ := h
  dsimp only at hb hx hn
  subst hb
  cases call with
  | reserve t =>
    have heq : (before.reserve t).2 = c' := congrArg Prod.snd (Option.some.inj hx)
    exact heq ▸ .of_reserve ha t
  | cancel r t =>
    have heq : (before.cancel r t).2 = c' := congrArg Prod.snd (Option.some.inj hx)
    by_cases hh : before.Holds r
    · rw [cancel_held before t hh] at heq
      exact heq ▸ .of_flags rfl ha
    · rw [cancel_unknown before t hh] at heq
      exact heq ▸ .refl ha
  | dispatchState r t =>
    obtain ⟨⟨s, m⟩, hs, he⟩ := Option.map_eq_some_iff.mp hx
    cases he
    exact .of_check ha hs
  | onDispatched r t =>
    obtain ⟨⟨res, m⟩, hs, he⟩ := Option.map_eq_some_iff.mp hx
    cases he
    rcases onDispatched_cases hs with ⟨s, -, -, hd⟩ | ⟨-, m', front, rest, hm, -, -, -, -, -, heq⟩
    · exact .of_check ha hd
    · rw [show m = _ from heq]
      exact .of_flags rfl (refresh_changes ha hm).2.2.1
  | finish q completion t =>
    obtain ⟨⟨b, m⟩, hs, he⟩ := Option.map_eq_some_iff.mp hx
    cases he
    exact .of_release ha (finish_cases hs)
  | onComplete q outcome latency t =>
    obtain ⟨⟨b, m⟩, hs, he⟩ := Option.map_eq_some_iff.mp hx
    cases he
    exact .of_release ha (onComplete_cases hs)
  | onAbandoned q t =>
    obtain ⟨⟨b, m⟩, hs, he⟩ := Option.map_eq_some_iff.mp hx
    cases he
    exact .of_release ha (onAbandoned_cases 0 hs)
  | onAdmissionFailure t =>
    obtain ⟨m, hm, he⟩ := Option.map_eq_some_iff.mp hx
    cases he
    exact .of_updateRate ha hm rfl rfl rfl rfl id (Or.inr ⟨rfl, rfl, rfl⟩)
  | refresh t =>
    obtain ⟨m, hm, he⟩ := Option.map_eq_some_iff.mp hx
    cases he
    exact .of_refresh ha hm
  | load t =>
    obtain ⟨⟨x, m⟩, hm, he⟩ := Option.map_eq_some_iff.mp hx
    cases he
    exact .of_refresh ha (load_cases hm).1
  | predictedCompletion t =>
    obtain ⟨⟨x, m⟩, hm, he⟩ := Option.map_eq_some_iff.mp hx
    cases he
    exact .of_refresh ha (predictedCompletion_cases hm).1
  | snapshot t =>
    obtain ⟨⟨x, m⟩, hm, he⟩ := Option.map_eq_some_iff.mp hx
    cases he
    obtain ⟨m', hr, heq, -⟩ := snapshot_cases hm
    -- the refresh has expired the probe already
    have hact : m'.probe.active t = m'.probe := (refresh_changes ha hr).2.2.2
    have heq' : m = m' := by rw [heq, hact]
    exact heq' ▸ .of_refresh ha hr
  | takeChanges => exact absurd rfl hn

theorem run_apart (h0 : Fresh c₀) (h : Run Step c₀ tr c) : c.probe.Apart := by
  refine h.invariant (P := fun c => c.probe.Apart) ?_ fun c e c' hs ha => ?_
  · obtain ⟨config, now, rng, controllerId, hn⟩ := h0
    obtain ⟨_, _, _, _, _, _, _, _, _, rfl⟩ := newWithRng_cases hn
    intro probe hp
    cases hp
  · by_cases hcall : e.call = .takeChanges
    · have hx := hs.2.2
      rw [hcall] at hx
      have heq : c.takeChanges.2 = c' := congrArg Prod.snd (Option.some.inj hx)
      exact heq ▸ ha
    · exact (hs.wakes ha hcall).apart

/-! ## The flags are complete -/

/-- The calls that improve the chances of the reservation that is `p` before and `p'` after: it became the queue head, or
it is the queue head and inflight dropped below its bound, or its recheck moved earlier. -/
inductive Improves (c c' : EndpointController T F R) (p p' : PendingReservation T) : Prop
  | head : (ids c.pending).head? ≠ some p.id → (ids c'.pending).head? = some p'.id → Improves c c' p p'
  | inflight : (ids c'.pending).head? = some p'.id → c.config.maxInflight ≤ c.inflight →
      c'.inflight < c'.config.maxInflight → Improves c c' p p'
  | recheck : c'.recheckAt p'.scheduledAt < c.recheckAt p.scheduledAt → Improves c c' p p'

omit [AddCommMonoid T] [Sub T] [Time T] [F64 F] [Secs T F] [Rng R F] in
/-- A call that moves nothing improves no chances. -/
theorem Unmoved.not_improves {p p' : PendingReservation T} (h : Unmoved c c') (hn : (ids c'.pending).Nodup)
    (hp : p ∈ c.pending) (hp' : p' ∈ c'.pending) (hid : p'.id = p.id) : ¬Improves c c' p p' := by
  have hne : c.pending ≠ [] := List.ne_nil_of_mem hp
  -- the two entries of one identity are in the same place
  have hplace : p'.place = p.place := by
    have hin : p.place ∈ c'.pending.map PendingReservation.place :=
      h.places.subset (List.mem_map_of_mem hp)
    obtain ⟨p'', hp'', heq⟩ := List.mem_map.mp hin
    have hid' : p''.id = p'.id := (congrArg Prod.fst heq).trans hid.symm
    rw [← heq, List.inj_on_of_nodup_map hn hp'' hp' hid']
  have hhead : (ids c'.pending).head? = (ids c.pending).head? := by
    have hids (c : EndpointController T F R) : ids c.pending = (c.pending.map PendingReservation.place).map Prod.fst := by
      rw [List.map_map]
      rfl
    obtain ⟨rest, hrest⟩ := h.places
    rw [hids c', ← hrest, hids c]
    cases hc : c.pending with
    | nil => exact absurd hc hne
    | cons a as => rfl
  have hrecheck := recheckAt_le (h.next hne) p.scheduledAt
  rintro (⟨hbefore, hafter⟩ | ⟨-, hfull, hroom⟩ | hlt)
  · rw [hhead, hid] at hafter
    exact hbefore hafter
  · rw [h.inflight, h.config] at hroom
    omega
  · rw [show p'.scheduledAt = p.scheduledAt from congrArg Prod.snd hplace] at hlt
    exact absurd hlt (not_lt.mpr hrecheck)

/-- **The wakeup flags are complete.** In every reachable state, a call other than `takeChanges` that makes room in the queue
sets the admission flag, one that improves the chances of a queued reservation sets the dispatch flag, and no flag goes
down. -/
theorem wakeup_flags_complete (h0 : Fresh c₀) (h : Run Step c₀ tr c) (he : Step c e c') (hn : e.call ≠ .takeChanges) :
    (c.maySchedule = false → c'.maySchedule = true → c'.changes.admission = true) ∧
    (∀ p ∈ c.pending, ∀ p' ∈ c'.pending, p'.id = p.id → Improves c c' p p' → c'.changes.dispatch = true) ∧
    (c.changes.admission = true → c'.changes.admission = true) ∧
    (c.changes.dispatch = true → c'.changes.dispatch = true) := by
  have hw := he.wakes (run_apart h0 h) hn
  refine ⟨hw.room, fun p hp p' hp' hid himp => ?_, hw.admission, hw.dispatch⟩
  rcases hw.unmoved with hd | hu
  · exact hd
  · have hnodup : (ids c'.pending).Nodup := by
      rw [← ledger_ids]
      exact Tickets.waiting_nodup (run_tickets h0 (h.snoc he))
    exact absurd himp (hu.not_improves hnodup hp hp' hid)

end

/-- Two reservations queue up. -/
def wakeupCalls : List (Call ℕ) := [.reserve 0, .reserve 0, .takeChanges]

/-- The second reservation becomes the queue head. -/
theorem wakeup_flags_complete_two : ∃ tr c e c', play sample wakeupCalls = some (tr, c) ∧ Step c e c' ∧
    ids c.pending = [0, 1] ∧ ids c'.pending = [1] ∧ c.changes.dispatch = false ∧ c'.changes.dispatch = true := by
  have hp : (play sample wakeupCalls).bind (fun r => (r.2.exec (.cancel ⟨7, 0⟩ 1)).map fun x =>
      (ids r.2.pending, ids x.2.pending, r.2.changes.dispatch)) = some ([0, 1], [1], false) := by decide +kernel
  obtain ⟨⟨tr, c⟩, hr, hexec⟩ := Option.bind_eq_some_iff.mp hp
  obtain ⟨⟨reply, c'⟩, hx, hres⟩ := Option.map_eq_some_iff.mp hexec
  obtain ⟨hids, hids', hflag⟩ : ids c.pending = [0, 1] ∧ ids c'.pending = [1] ∧ c.changes.dispatch = false := by
    simpa only [Prod.mk.injEq] using hres
  have hstep : Step c { call := _, reply, before := c, after := c' } c' := ⟨rfl, rfl, hx⟩
  obtain ⟨p, hmem, hpid⟩ := List.mem_map.mp (show 1 ∈ ids c.pending by rw [hids]; decide)
  obtain ⟨p', hmem', hpid'⟩ := List.mem_map.mp (show 1 ∈ ids c'.pending by rw [hids']; decide)
  have hhead : Improves c c' p p' := .head (by rw [hids, hpid]; decide) (by rw [hids', hpid']; rfl)
  have hall := wakeup_flags_complete sample_fresh (play_run hr) hstep (by rintro ⟨⟩)
  exact ⟨tr, c, _, c', hr, hstep, hids, hids', hflag, hall.2.1 p hmem p' hmem' (hpid'.trans hpid.symm) hhead⟩

end Loadpace
