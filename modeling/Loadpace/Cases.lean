import Loadpace.Controller
import Mathlib.Data.Option.Basic

/-!
# All that an operation does

One inversion lemma for each operation of the controller (`updateRate_cases`, `refresh_cases`, `reserve_cases`, …): every
outcome, its guard, and the resulting state. Later proofs use these and do not unfold the operations.
-/

namespace Loadpace.EndpointController

variable {T F R : Type}

def ids (ps : List (PendingReservation T)) : List ℕ := ps.map PendingReservation.id

/-- The reservation is this controller's and is queued. -/
def Holds (c : EndpointController T F R) (r : DispatchReservation) : Prop :=
  r.controllerId = c.controllerId ∧ r.id ∈ ids c.pending

/-- The reservation is this controller's and is the queue head. -/
def Heads (c : EndpointController T F R) (r : DispatchReservation) : Prop :=
  r.controllerId = c.controllerId ∧ (ids c.pending).head? = some r.id

theorem Heads.holds {c : EndpointController T F R} {r : DispatchReservation} (h : c.Heads r) : c.Holds r :=
  ⟨h.1, List.mem_of_mem_head? h.2⟩

theorem Heads.front {c : EndpointController T F R} {r : DispatchReservation} (h : c.Heads r) :
    ∃ front rest, c.pending = front :: rest ∧ front.id = r.id := by
  have hhead := h.2
  cases hp : c.pending with
  | nil =>
    rw [hp] at hhead
    cases hhead
  | cons front rest =>
    rw [hp] at hhead
    exact ⟨front, rest, rfl, Option.some.inj hhead⟩

theorem any_id_iff {ps : List (PendingReservation T)} {n : ℕ} :
    ps.any (fun entry => entry.id = n) = true ↔ n ∈ ids ps := by
  simp [ids, List.any_eq_true]

section

variable [AddCommMonoid T] [LinearOrder T] [Sub T] [Time T]

/-- Rebuilding moves the slots only. -/
theorem reschedule_map {α : Type} (f : PendingReservation T → α) (hf : ∀ p t, f { p with scheduledAt := t } = f p)
    (interval next : T) (ps : List (PendingReservation T)) : (reschedule interval next ps).map f = ps.map f := by
  induction ps generalizing next with
  | nil => rfl
  | cons p ps ih => simp only [reschedule, List.map_cons, ih, hf]

@[simp] theorem ids_reschedule (interval next : T) (ps : List (PendingReservation T)) :
    ids (reschedule interval next ps) = ids ps := reschedule_map _ (fun _ _ => rfl) _ _ _

/-! ## Reservations -/

section Reserve

variable (c : EndpointController T F R) (now : T)

theorem reserve_full (h : c.config.queueCapacity ≤ c.pending.length) : c.reserve now = (.error .queueFull, c) := by
  simp [reserve, maySchedule, h]

theorem reserve_exhausted (h : c.pending.length < c.config.queueCapacity) (hid : c.nextId = u64Max) :
    c.reserve now = (.error .idExhausted, c) := by
  simp [reserve, maySchedule, h, hid]

theorem reserve_ok (h : c.pending.length < c.config.queueCapacity) (hid : c.nextId ≠ u64Max) :
    c.reserve now = (.ok { controllerId := c.controllerId, id := c.nextId }, { c with
      nextId := c.nextId + 1
      pending := c.pending ++ [{ id := c.nextId, scheduledAt := c.nextVirtualSlot now, wasPaced := false }] }) := by
  simp [reserve, maySchedule, h, hid]

/-- `reserve` changes nothing, or appends a reservation for the next virtual slot. -/
theorem reserve_cases : (c.reserve now).2 = c ∨
    (c.pending.length < c.config.queueCapacity ∧ c.nextId ≠ u64Max ∧ (c.reserve now).2 = { c with
      nextId := c.nextId + 1
      pending := c.pending ++ [{ id := c.nextId, scheduledAt := c.nextVirtualSlot now, wasPaced := false }] }) := by
  rcases Nat.lt_or_ge c.pending.length c.config.queueCapacity with hroom | hfull
  · by_cases hid : c.nextId = u64Max
    · rw [reserve_exhausted c now hroom hid]
      exact Or.inl rfl
    · rw [reserve_ok c now hroom hid]
      exact Or.inr ⟨hroom, hid, rfl⟩
  · rw [reserve_full c now hfull]
    exact Or.inl rfl

/-- The reply of `reserve`. -/
theorem reserve_fails_iff : ((∃ e, (c.reserve now).1 = .error e) ↔
      c.config.queueCapacity ≤ c.pending.length ∨ c.nextId = u64Max) ∧
    ∀ e, (c.reserve now).1 = .error e → (c.reserve now).2 = c := by
  rcases Nat.lt_or_ge c.pending.length c.config.queueCapacity with hroom | hfull
  · by_cases hid : c.nextId = u64Max
    · rw [reserve_exhausted c now hroom hid]
      exact ⟨⟨fun _ => Or.inr hid, fun _ => ⟨_, rfl⟩⟩, fun _ _ => rfl⟩
    · rw [reserve_ok c now hroom hid]
      refine ⟨⟨fun ⟨_, he⟩ => (by cases he), fun hor => ?_⟩, fun _ he => by cases he⟩
      rcases hor with hf | hx
      · exact absurd hroom (Nat.not_lt.mpr hf)
      · exact absurd hx hid
  · rw [reserve_full c now hfull]
    exact ⟨⟨fun _ => Or.inl hfull, fun _ => ⟨_, rfl⟩⟩, fun _ _ => rfl⟩

theorem cancel_unknown {r : DispatchReservation} (h : ¬c.Holds r) : c.cancel r now = (false, c) := by
  unfold cancel
  by_cases hc : r.controllerId = c.controllerId
  · have hn : r.id ∉ ids c.pending := fun hm => h ⟨hc, hm⟩
    have ha : (c.pending.any fun entry => entry.id = r.id) = false := by
      rw [← Bool.not_eq_true, any_id_iff]; exact hn
    simp only [hc, ne_eq, not_true_eq_false, if_false, ha, Bool.not_false, if_true]
  · simp only [ne_eq, hc, not_false_eq_true, if_true]

theorem cancel_held {r : DispatchReservation} (h : c.Holds r) :
    c.cancel r now = (true, rebuildVirtualQueue { c with
      pending := c.pending.eraseP (fun entry => entry.id = r.id)
      changes := { admission := true, dispatch := true } } now) := by
  unfold cancel
  simp only [h.1, ne_eq, not_true_eq_false, if_false, any_id_iff.mpr h.2, Bool.not_true, Bool.false_eq_true]

end Reserve

/-! ## Time-driven policy -/

variable [F64 F] [Secs T F]

/-- A controller as `new` and `new_with_seed` make it. -/
def Fresh (c : EndpointController T F R) : Prop :=
  ∃ config now rng controllerId, newWithRng config now rng controllerId = some c

/-- A controller as they make it at `start`. -/
def FreshAt (c : EndpointController T F R) (start : T) : Prop :=
  ∃ config rng controllerId, newWithRng config start rng controllerId = some c

theorem FreshAt.fresh {c : EndpointController T F R} {start : T} (h : c.FreshAt start) : c.Fresh := by
  obtain ⟨config, rng, controllerId, h⟩ := h
  exact ⟨config, start, rng, controllerId, h⟩

theorem newWithRng_cases {config : EndpointConfig T} {now : T} {rng : R} {controllerId : ℕ}
    {c : EndpointController T F R} (h : newWithRng config now rng controllerId = some c) :
    0 < config.queueCapacity ∧ 0 < config.maxInflight ∧ config.initialConcurrency ≤ config.maxInflight ∧
    ∃ latency gradient pacer, LatencyEstimator.new config.latencyConfig = some latency ∧
      Gradient2.new config.gradientConfig = some gradient ∧
      Gcra.new (gradient.concurrency / asSecsF64 latency.expectedRtt) now = some pacer ∧
      c = {
        controllerId, config, latency, gradient, pacer, probe := ProbeState.new, pending := [], nextId := 0
        inflight := 0, completed := 0, failures := 0, feedbackEpoch := none, probeRng := rng
        changes := ControllerChanges.none } := by
  unfold newWithRng at h
  simp only [Option.bind_eq_bind, Option.bind_eq_some_iff, Option.guard_eq_some'] at h
  obtain ⟨_, hq, _, hm, _, hi, _, _, latency, hl, gradient, hg, pacer, hp, h⟩ := h
  exact ⟨hq, hm, hi, latency, gradient, pacer, hl, hg, hp, (Option.some.inj h).symm⟩

/-- Reading the rates only expires the probe. -/
theorem ratesAt_snd (c : EndpointController T F R) (now : T) :
    (c.ratesAt now).2 = { c with probe := c.probe.active now } := by
  simp only [ratesAt, ProbeState.effectiveRate_snd]

/-- The rate that `updateRate` paces at. -/
def rateAt (c : EndpointController T F R) (now : T) : F := (c.ratesAt now).1.effectiveRate

/-- The rate without a probe. -/
theorem rateAt_unprobed {c : EndpointController T F R} {now : T} (h : (c.probe.active now).current = none) :
    c.rateAt now = c.gradient.concurrency / asSecsF64 c.latency.expectedRtt *
      c.feedbackFactor now (c.gradient.concurrency / asSecsF64 c.latency.expectedRtt) := by
  have heff (base : F) : c.probe.effectiveRate base now = (base, c.probe.active now) := by
    unfold ProbeState.effectiveRate
    dsimp only
    rw [h]
  unfold rateAt ratesAt
  dsimp only
  rw [heff]
  rfl

/-- The slot of the queue head has passed. -/
def HeadExpired (ps : List (PendingReservation T)) (next : T) : Prop :=
  ps.head?.any (fun entry => entry.scheduledAt < next)

/-- `updateRate` expires the probe, sets the rate, and rebuilds the queue, with the dispatch flag, when the interval
changed or the head's slot has passed. -/
theorem updateRate_cases {c c' : EndpointController T F R} {now : T} (h : c.updateRate now = some c') :
    ∃ pacer, c.pacer.setRate (c.rateAt now) now = some pacer ∧
      ((pacer.interval ≠ c.pacer.interval ∨ HeadExpired c.pending (pacer.nextAt now)) ∧
          c' = { c with
            probe := c.probe.active now, pacer
            pending := reschedule pacer.interval (pacer.nextAt now) c.pending
            changes := { c.changes with dispatch := true } } ∨
        pacer.interval = c.pacer.interval ∧ ¬HeadExpired c.pending (pacer.nextAt now) ∧
          c' = { c with probe := c.probe.active now, pacer }) := by
  unfold updateRate at h
  simp only [ratesAt_snd, Option.bind_eq_bind, Option.bind_eq_some_iff] at h
  obtain ⟨pacer, hp, h⟩ := h
  refine ⟨pacer, hp, ?_⟩
  split at h
  · rename_i hc
    exact Or.inl ⟨hc, (Option.some.inj h).symm⟩
  · rename_i hc
    push Not at hc
    exact Or.inr ⟨hc.1, hc.2, (Option.some.inj h).symm⟩

/-- `updateRate` succeeds when the rate has an interval. -/
theorem updateRate_isSome {c : EndpointController T F R} {now interval : T}
    (h : rateToInterval (c.rateAt now) = some interval) : ∃ c', c.updateRate now = some c' := by
  obtain ⟨pacer, hset⟩ := Gcra.setRate_isSome c.pacer now h
  unfold updateRate
  simp only [ratesAt_snd]
  show ∃ c', (c.pacer.setRate (c.rateAt now) now >>= fun pacer => _) = some c'
  rw [hset, Option.bind_eq_bind, Option.bind_some]
  split
  · exact ⟨_, rfl⟩
  · exact ⟨_, rfl⟩

/-- An update of the rate that finds nothing to change. -/
theorem updateRate_idle {c : EndpointController T F R} {now : T} (hactive : c.probe.active now = c.probe)
    (hrate : rateToInterval (c.rateAt now) = some c.pacer.interval)
    (hhead : ¬HeadExpired c.pending (c.pacer.nextAt now)) : c.updateRate now = some c := by
  have hset : c.pacer.setRate (c.rateAt now) now = some c.pacer := by
    unfold Gcra.setRate
    simp only [Option.bind_eq_bind, hrate, Option.bind_some, if_true]
  have hx : (c.pending.head?.any fun entry => entry.scheduledAt < c.pacer.nextAt now) = false := by
    rw [← Bool.not_eq_true]
    exact hhead
  unfold updateRate
  simp only [ratesAt_snd, hactive]
  show (c.pacer.setRate (c.rateAt now) now >>= fun pacer => _) = some c
  rw [hset]
  simp only [Option.bind_eq_bind, Option.bind_some, hx, ne_eq, not_true_eq_false, Bool.false_eq_true, or_self, if_false]

/-- The queue keeps its entries, up to their slots. -/
theorem updateRate_map {α : Type} {f : PendingReservation T → α} (hf : ∀ p t, f { p with scheduledAt := t } = f p)
    {c c' : EndpointController T F R} {now : T} (h : c.updateRate now = some c') :
    c'.pending.map f = c.pending.map f := by
  obtain ⟨pacer, _, ⟨_, rfl⟩ | ⟨_, _, rfl⟩⟩ := updateRate_cases h
  · exact reschedule_map f hf _ _ _
  · rfl

/-! ## Completions -/

section Complete

variable {c c' : EndpointController T F R} {q : InFlightRequest T} {latency now : T} {b : Bool}

/-- The state of a successful completion before the rate is updated. -/
def succeeded (c : EndpointController T F R) (q : InFlightRequest T) (latency now : T) : EndpointController T F R :=
  let estimator := c.latency.observeAt latency now
  { c with
    completed := c.completed + 1
    latency := estimator
    gradient := (c.gradient.onRttWithBaselineAt estimator.shortRtt estimator.baselineRtt c.inflight q.wasPaced now).2
    inflight := c.inflight - 1
    changes := { c.changes with dispatch := true }
    feedbackEpoch :=
      if 0 < c.inflight - 1 then some { lastFeedbackAt := now, expectedRtt := estimator.expectedRtt } else none }

/-- The state of a failed completion before the rate is updated. -/
def failed (c : EndpointController T F R) (now : T) : EndpointController T F R :=
  { c with
    completed := c.completed + 1
    failures := c.failures + 1
    gradient := c.gradient.onFailureAt now
    inflight := c.inflight - 1
    changes := { c.changes with dispatch := true }
    feedbackEpoch :=
      if 0 < c.inflight - 1 then some { lastFeedbackAt := now, expectedRtt := c.latency.expectedRtt } else none }

/-- The state of an abandonment before the rate is updated. -/
def abandoned (c : EndpointController T F R) (now : T) : EndpointController T F R :=
  { c with
    failures := c.failures + 1
    gradient := c.gradient.onFailureAt now
    inflight := c.inflight - 1
    changes := { c.changes with dispatch := true }
    feedbackEpoch := if c.inflight - 1 = 0 then none else c.feedbackEpoch }

/-- The state that `finish` and its two parts update the rate of. -/
def released (c : EndpointController T F R) (q : InFlightRequest T) (latency now : T) :
    Completion → EndpointController T F R
  | .success => c.succeeded q latency now
  | .failure => c.failed now
  | .abandoned => c.abandoned now

def Outcome.completion : Outcome → Completion
  | .success => .success
  | .failure => .failure

theorem onComplete_cases {outcome : Outcome} (h : c.onComplete q outcome latency now = some (b, c')) :
    (q.controllerId ≠ c.controllerId ∧ b = false ∧ c' = c) ∨
    (q.controllerId = c.controllerId ∧ 0 < c.inflight ∧ b = true ∧
      (c.released q latency now (Outcome.completion outcome)).updateRate now = some c') := by
  unfold onComplete at h
  split at h
  · rename_i hc; cases h; exact Or.inl ⟨hc, rfl, rfl⟩
  · rename_i hc
    simp only [Option.bind_eq_bind, Option.bind_eq_some_iff, Option.guard_eq_some'] at h
    obtain ⟨_, hi, m, hm, h⟩ := h
    cases h
    refine Or.inr ⟨not_not.mp hc, hi, rfl, ?_⟩
    cases outcome <;> exact hm

variable (latency) in
theorem onAbandoned_cases (h : c.onAbandoned q now = some (b, c')) :
    (q.controllerId ≠ c.controllerId ∧ b = false ∧ c' = c) ∨
    (q.controllerId = c.controllerId ∧ 0 < c.inflight ∧ b = true ∧
      (c.released q latency now .abandoned).updateRate now = some c') := by
  unfold onAbandoned at h
  split at h
  · rename_i hc; cases h; exact Or.inl ⟨hc, rfl, rfl⟩
  · rename_i hc
    simp only [Option.bind_eq_bind, Option.bind_eq_some_iff, Option.guard_eq_some'] at h
    obtain ⟨_, hi, m, hm, h⟩ := h
    cases h
    exact Or.inr ⟨not_not.mp hc, hi, rfl, hm⟩

theorem finish_cases {completion : Completion} (h : c.finish q completion now = some (b, c')) :
    (q.controllerId ≠ c.controllerId ∧ b = false ∧ c' = c) ∨
    (q.controllerId = c.controllerId ∧ 0 < c.inflight ∧ b = true ∧
      (c.released q (now - q.dispatchedAt) now completion).updateRate now = some c') := by
  unfold finish at h
  cases completion with
  | success => have hc := onComplete_cases h; exact hc
  | failure => have hc := onComplete_cases h; exact hc
  | abandoned => exact onAbandoned_cases _ h

end Complete

variable [Rng R F]

/-- `refresh` makes a probe decision when there is demand, expires the probe and updates the rate; it also sets the
dispatch flag when the next refresh instant changed. -/
theorem refresh_cases {c c' : EndpointController T F R} {now : T} (h : c.refresh now = some c') :
    ∃ probe rng m, c.probeDecision now = some (probe, rng) ∧
      { c with probe := probe.active now, probeRng := rng }.updateRate now = some m ∧
      c' = { m with changes := { m.changes with
        dispatch := m.changes.dispatch || decide (c.nextDispatchRefreshAt ≠ m.nextDispatchRefreshAt) } } := by
  unfold refresh at h
  simp only [Option.bind_eq_bind, Option.bind_eq_some_iff] at h
  obtain ⟨⟨probe, rng⟩, hp, m, hm, h⟩ := h
  exact ⟨probe, rng, m, hp, hm, (Option.some.inj h).symm⟩

/-- No refreshed queue head is due before the next slot of the pacer. -/
theorem refresh_head {c c' : EndpointController T F R} {now : T} {front : PendingReservation T}
    {rest : List (PendingReservation T)} (h : c.refresh now = some c') (hp : c'.pending = front :: rest) :
    c'.pacer.nextAt now ≤ front.scheduledAt := by
  obtain ⟨probe, rng, m, -, hm, rfl⟩ := refresh_cases h
  obtain ⟨pacer, -, ⟨-, rfl⟩ | ⟨-, hhead, rfl⟩⟩ := updateRate_cases hm
  · -- a rebuilt queue starts at the next slot
    cases hc : c.pending with
    | nil =>
      have hp : reschedule pacer.interval (pacer.nextAt now) c.pending = front :: rest := hp
      rw [hc] at hp
      cases hp
    | cons front' rest' =>
      have hp : reschedule pacer.interval (pacer.nextAt now) c.pending = front :: rest := hp
      rw [hc] at hp
      exact (List.cons.inj hp).1 ▸ le_rfl
  · have hp : c.pending = front :: rest := hp
    have hhead : ¬HeadExpired c.pending (pacer.nextAt now) := hhead
    rw [hp] at hhead
    by_contra hlt
    exact hhead (decide_eq_true (not_le.mp hlt))

/-- A refresh that finds nothing to change. -/
theorem refresh_idle {c : EndpointController T F R} {now : T} (hprobe : c.probe.current = none)
    (hdemand : c.probingHasDemand = false) (hrate : rateToInterval (c.rateAt now) = some c.pacer.interval)
    (hhead : ¬HeadExpired c.pending (c.pacer.nextAt now)) : c.refresh now = some c := by
  have hactive : c.probe.active now = c.probe := by
    unfold ProbeState.active
    rw [hprobe]
    rfl
  have hupdate : c.updateRate now = some c := updateRate_idle hactive hrate hhead
  unfold refresh probeDecision
  rw [hdemand]
  simp only [Bool.false_eq_true, if_false, Option.bind_eq_bind, Option.bind_some, hactive, hupdate, ne_eq, not_true_eq_false,
    decide_false, Bool.or_false]

theorem refresh_map {α : Type} {f : PendingReservation T → α} (hf : ∀ p t, f { p with scheduledAt := t } = f p)
    {c c' : EndpointController T F R} {now : T} (h : c.refresh now = some c') :
    c'.pending.map f = c.pending.map f := by
  obtain ⟨probe, rng, m, _, hm, rfl⟩ := refresh_cases h
  have hq := updateRate_map hf hm
  exact hq

/-! ## Dispatch -/

section Dispatch

variable {c c' : EndpointController T F R} {r : DispatchReservation} {now : T}

/-- The instant at which a waiting queue head is checked again. -/
def recheckAt (c : EndpointController T F R) (scheduledAt : T) : T :=
  (c.nextDispatchRefreshAt.map (fun refreshAt => min scheduledAt refreshAt)).getD scheduledAt

/-- The queue head was seen to wait. -/
def waited (m : EndpointController T F R) (front : PendingReservation T) (rest : List (PendingReservation T)) :
    EndpointController T F R := { m with pending := { front with wasPaced := true } :: rest }

/-- What a check of the queue head finds after its refresh. -/
inductive Checked (m : EndpointController T F R) (now : T) (front : PendingReservation T)
    (rest : List (PendingReservation T)) : DispatchState T → EndpointController T F R → Prop
  | inflightLimit : m.config.maxInflight ≤ m.inflight → Checked m now front rest .inflightLimit m
  | waitUntil : m.inflight < m.config.maxInflight → now < front.scheduledAt →
      Checked m now front rest (.waitUntil ((m.waited front rest).recheckAt front.scheduledAt)) (m.waited front rest)
  | ready : m.inflight < m.config.maxInflight → front.scheduledAt ≤ now → Checked m now front rest .ready m

theorem dispatchState_unknown (h : ¬c.Holds r) : c.dispatchState r now = some (.cancelled, c) := by
  unfold dispatchState
  split
  · rfl
  · rename_i hc
    have hn : r.id ∉ ids c.pending := fun hm => h ⟨not_not.mp hc, hm⟩
    cases hp : c.pending with
    | nil => rfl
    | cons front rest =>
      have hf : front.id ≠ r.id := fun he => hn (by rw [hp]; simp [ids, he])
      have ha : ((front :: rest).any fun entry => entry.id = r.id) = false := by
        rw [← Bool.not_eq_true, any_id_iff, ← hp]; exact hn
      simp only [ne_eq, hf, not_false_eq_true, if_true, ha, Bool.false_eq_true, if_false]

theorem dispatchState_cases {s : DispatchState T} (h : c.dispatchState r now = some (s, c')) :
    (¬c.Holds r ∧ s = .cancelled ∧ c' = c) ∨
    (c.Holds r ∧ ¬c.Heads r ∧ s = .waitForPrevious ∧ c' = c) ∨
    (c.Heads r ∧ ∃ m front rest, c.refresh now = some m ∧ m.pending = front :: rest ∧ front.id = r.id ∧
      Checked m now front rest s c') := by
  by_cases hh : c.Holds r
  · unfold dispatchState at h
    simp only [hh.1, ne_eq, not_true_eq_false, if_false] at h
    cases hp : c.pending with
    | nil => have := hh.2; rw [hp] at this; cases this
    | cons front rest =>
      have hany : (c.pending.any fun entry => entry.id = r.id) = true := any_id_iff.mpr hh.2
      rw [hp] at hany
      simp only [hp, hany, if_true] at h
      split at h
      · rename_i hf
        cases h
        refine Or.inr (Or.inl ⟨hh, fun hd => hf ?_, rfl, rfl⟩)
        have := hd.2
        rw [hp] at this
        simpa [ids] using this
      · rename_i hf
        have hf : front.id = r.id := not_not.mp hf
        simp only [Option.bind_eq_bind, Option.bind_eq_some_iff] at h
        obtain ⟨m, hm, h⟩ := h
        have hids : ids m.pending = ids c.pending := refresh_map (fun _ _ => rfl) hm
        refine Or.inr (Or.inr ⟨⟨hh.1, by rw [hp]; simp [ids, hf]⟩, m, ?_⟩)
        cases hmp : m.pending with
        | nil => rw [hmp, hp] at hids; cases hids
        | cons front' rest' =>
          rw [hmp, hp] at hids
          obtain ⟨hid, _⟩ := List.cons.inj hids
          refine ⟨front', rest', hm, rfl, hid.trans hf, ?_⟩
          simp only [hmp] at h
          split at h
          · rename_i hmax; cases h; exact .inflightLimit hmax
          · rename_i hmax
            split at h
            · rename_i hs; cases h; exact .waitUntil (not_le.mp hmax) hs
            · rename_i hs; cases h; exact .ready (not_le.mp hmax) (not_lt.mp hs)
  · rw [dispatchState_unknown hh] at h
    cases h
    exact Or.inl ⟨hh, rfl, rfl⟩

/-- The queue head is checked after a refresh. -/
theorem head_cases {s : DispatchState T} (hh : c.Heads r) (h : c.dispatchState r now = some (s, c')) :
    ∃ m front rest, c.refresh now = some m ∧ m.pending = front :: rest ∧ front.id = r.id ∧
      Checked m now front rest s c' := by
  rcases dispatchState_cases h with ⟨hn, -, -⟩ | ⟨-, hn, -, -⟩ | ⟨-, hch⟩
  · exact absurd hh.holds hn
  · exact absurd hh hn
  · exact hch

/-- A check that finds the head ready is a refresh. -/
theorem ready_cases (h : c.dispatchState r now = some (.ready, c')) :
    c.Heads r ∧ c.refresh now = some c' ∧ ∃ front rest, c'.pending = front :: rest ∧ front.id = r.id ∧
      c'.inflight < c'.config.maxInflight ∧ front.scheduledAt ≤ now := by
  rcases dispatchState_cases h with ⟨-, hs, -⟩ | ⟨-, -, hs, -⟩ | ⟨hh, m, front, rest, hm, hp, hid, hch⟩
  · cases hs
  · cases hs
  · cases hch with
    | ready hroom hdue => exact ⟨hh, hm, front, rest, hp, hid, hroom, hdue⟩

/-- A check that tells the head to wait marks it after a refresh. -/
theorem waitUntil_cases {t : T} (h : c.dispatchState r now = some (.waitUntil t, c')) :
    c.Heads r ∧ ∃ m front rest, c.refresh now = some m ∧ m.pending = front :: rest ∧ front.id = r.id ∧
      m.inflight < m.config.maxInflight ∧ now < front.scheduledAt ∧
      t = (m.waited front rest).recheckAt front.scheduledAt ∧ c' = m.waited front rest := by
  rcases dispatchState_cases h with ⟨-, hs, -⟩ | ⟨-, -, hs, -⟩ | ⟨hh, m, front, rest, hm, hp, hid, hch⟩
  · cases hs
  · cases hs
  · generalize hst : DispatchState.waitUntil t = s at hch
    cases hch with
    | inflightLimit _ => cases hst
    | ready _ _ => cases hst
    | waitUntil hroom hslot =>
      injection hst with hst
      exact ⟨hh, m, front, rest, hm, hp, hid, hroom, hslot, hst, rfl⟩

/-- The state after a dispatch, before its queue is rebuilt; `m` is the refreshed controller. -/
def dispatchedFrom (m : EndpointController T F R) (rest : List (PendingReservation T)) (now : T) :
    EndpointController T F R :=
  { m with
    pending := rest
    feedbackEpoch :=
      if m.inflight = 0 then some { lastFeedbackAt := now, expectedRtt := m.latency.expectedRtt } else m.feedbackEpoch
    inflight := m.inflight + 1
    changes := { admission := true, dispatch := true }
    pacer := m.pacer.commit now }

theorem onDispatched_cases {res : Except (DispatchState T) (InFlightRequest T)}
    (h : c.onDispatched r now = some (res, c')) :
    (∃ s, s ≠ .ready ∧ res = .error s ∧ c.dispatchState r now = some (s, c')) ∨
    (c.Heads r ∧ ∃ m front rest, c.refresh now = some m ∧ m.pending = front :: rest ∧ front.id = r.id ∧
      m.inflight < m.config.maxInflight ∧ front.scheduledAt ≤ now ∧
      res = .ok { controllerId := m.controllerId, dispatchedAt := now, wasPaced := front.wasPaced } ∧
      c' = (m.dispatchedFrom rest now).rebuildVirtualQueue now) := by
  unfold onDispatched at h
  simp only [Option.bind_eq_bind, Option.bind_eq_some_iff] at h
  obtain ⟨⟨s, m⟩, hs, h⟩ := h
  simp only at h
  split at h
  · rename_i hr
    cases h
    exact Or.inl ⟨s, hr, rfl, hs⟩
  · rename_i hr
    obtain rfl : s = .ready := not_not.mp hr
    obtain ⟨hh, hm, front, rest, hp, hid, hmax, hslot⟩ := ready_cases hs
    rw [hp] at h
    cases h
    exact Or.inr ⟨hh, m, front, rest, hm, hp, hid, hmax, hslot, rfl, rfl⟩

/-- A check of the queue head gives what its refresh finds. -/
theorem dispatchState_head {m : EndpointController T F R} {front : PendingReservation T}
    {rest : List (PendingReservation T)} {s : DispatchState T} (hh : c.Heads r) (hm : c.refresh now = some m)
    (hp : m.pending = front :: rest) (hch : Checked m now front rest s c') : c.dispatchState r now = some (s, c') := by
  obtain ⟨front', rest', hpend, hid⟩ := hh.front
  unfold dispatchState
  simp only [hh.1, ne_eq, not_true_eq_false, if_false, hpend]
  simp only [hid, not_true_eq_false, if_false, Option.bind_eq_bind, hm, Option.bind_some, hp]
  cases hch with
  | inflightLimit hfull => rw [if_pos hfull]
  | waitUntil hroom hslot =>
    rw [if_neg (not_le.mpr hroom), if_pos hslot]
    rfl
  | ready hroom hdue => rw [if_neg (not_le.mpr hroom), if_neg (not_lt.mpr hdue)]

/-- A queue head that is due is dispatched. -/
theorem onDispatched_ok {m : EndpointController T F R} {front : PendingReservation T}
    {rest : List (PendingReservation T)} (hh : c.Heads r) (hm : c.refresh now = some m) (hp : m.pending = front :: rest)
    (hmax : m.inflight < m.config.maxInflight) (hdue : front.scheduledAt ≤ now) :
    c.onDispatched r now = some (.ok { controllerId := m.controllerId, dispatchedAt := now, wasPaced := front.wasPaced },
      (m.dispatchedFrom rest now).rebuildVirtualQueue now) := by
  have hstate : c.dispatchState r now = some (.ready, m) := dispatchState_head hh hm hp (.ready hmax hdue)
  unfold onDispatched
  simp only [Option.bind_eq_bind, hstate, Option.bind_some, ne_eq, not_true_eq_false, if_false, hp]
  rfl

end Dispatch

/-! ## Readings -/

section Readings

variable {c c' : EndpointController T F R} {now : T}

theorem predictedCompletion_cases {t : T} (h : c.predictedCompletion now = some (t, c')) :
    c.refresh now = some c' ∧ t = saturatingAdd (c'.nextVirtualSlot now) c'.latency.expectedRtt := by
  unfold predictedCompletion at h
  simp only [Option.bind_eq_bind, Option.bind_eq_some_iff] at h
  obtain ⟨m, hm, h⟩ := h
  cases h
  exact ⟨hm, rfl⟩

theorem load_cases {x : F} (h : c.load now = some (x, c')) :
    c.refresh now = some c' ∧
      x = asSecsF64 (saturatingAdd (c'.nextVirtualSlot now) c'.latency.expectedRtt - now) := by
  unfold load at h
  simp only [Option.bind_eq_bind, Option.bind_eq_some_iff] at h
  obtain ⟨⟨t, m⟩, hm, h⟩ := h
  obtain ⟨hr, ht⟩ := predictedCompletion_cases hm
  cases h
  exact ⟨hr, by rw [ht]⟩

/-- `snapshot` refreshes, then reads the rates once more. -/
theorem snapshot_cases {view : ControllerSnapshot T F} (h : c.snapshot now = some (view, c')) :
    ∃ m, c.refresh now = some m ∧ c' = { m with probe := m.probe.active now } ∧
      view.virtualTailTat = m.pending.getLast?.map (fun entry => saturatingAdd entry.scheduledAt m.pacer.interval) ∧
      view.queued = m.pending.length := by
  unfold snapshot at h
  simp only [Option.bind_eq_bind, Option.bind_eq_some_iff, ratesAt_snd] at h
  obtain ⟨m, hm, h⟩ := h
  cases h
  exact ⟨m, hm, rfl, rfl, rfl⟩

end Readings

end

end Loadpace.EndpointController
