import Loadpace.Lib.Stations
import Loadpace.Repeat
import Loadpace.Simulator

/-!
# The endpoints of a simulation

The queue of an endpoint mirrors that of its controller (`EndpointRuntime.Ok`), so the head that is driven is the head
of the controller: a round of the inner loop dispatches it, or finds that it has to wait and leaves (`driveOne_cases`).
For the books an endpoint is a station (`EndpointRuntime.station`).
-/

namespace Loadpace.Simulator

open Systems EndpointController Stations

section

variable {T F R : Type}

/-- The controllers hold the same reservations and count the same requests. -/
structure Alike (c c' : EndpointController T F R) : Prop where
  controllerId : c'.controllerId = c.controllerId
  config : c'.config = c.config
  queue : ids c'.pending = ids c.pending
  nextId : c'.nextId = c.nextId
  inflight : c'.inflight = c.inflight

theorem Alike.refl (c : EndpointController T F R) : Alike c c := ⟨rfl, rfl, rfl, rfl, rfl⟩

theorem Alike.trans {c c' c'' : EndpointController T F R} (h : Alike c c') (h' : Alike c' c'') : Alike c c'' :=
  ⟨h'.controllerId.trans h.controllerId, h'.config.trans h.config, h'.queue.trans h.queue, h'.nextId.trans h.nextId,
    h'.inflight.trans h.inflight⟩

theorem Alike.length {c c' : EndpointController T F R} (h : Alike c c') : c'.pending.length = c.pending.length := by
  simpa [ids] using congrArg List.length h.queue

theorem Alike.of_ledger {c c' : EndpointController T F R} (h : c'.ledger = c.ledger) : Alike c c' :=
  ⟨congrArg Ledger.controllerId h, congrArg Ledger.config h, by rw [← ledger_ids, ← ledger_ids, h],
    congrArg Ledger.nextId h, congrArg Ledger.inflight h⟩

/-- The queue head went to a worker. -/
structure Serves (r : DispatchReservation) (c c' : EndpointController T F R) : Prop where
  controllerId : c'.controllerId = c.controllerId
  config : c'.config = c.config
  queue : ids c.pending = r.id :: ids c'.pending
  nextId : c'.nextId = c.nextId
  inflight : c'.inflight = c.inflight + 1

theorem Serves.length {r : DispatchReservation} {c c' : EndpointController T F R} (h : Serves r c c') :
    c.pending.length = c'.pending.length + 1 := by
  simpa [ids] using congrArg List.length h.queue

theorem Serves.after {r : DispatchReservation} {c c' c'' : EndpointController T F R} (h : Serves r c' c'')
    (ha : Alike c c') : Serves r c c'' :=
  ⟨h.controllerId.trans ha.controllerId, h.config.trans ha.config, ha.queue ▸ h.queue, h.nextId.trans ha.nextId,
    h.inflight.trans (congrArg (· + 1) ha.inflight)⟩

/-- The station that an endpoint is. -/
def EndpointRuntime.station (e : EndpointRuntime T F R) : Station where
  capacity := e.controller.config.queueCapacity
  issued := e.controller.nextId
  waiting := e.controller.pending.length
  started := e.dispatched
  busy := e.controller.inflight
  finished := e.completed

theorem Alike.station {e : EndpointRuntime T F R} {c : EndpointController T F R} (h : Alike e.controller c) :
    ({ e with controller := c } : EndpointRuntime T F R).station = e.station := by
  unfold EndpointRuntime.station
  rw [h.config, h.nextId, h.inflight, h.length]

/-- A recheck is ahead when the slot and the next refresh are. -/
theorem lt_recheckAt [LinearOrder T] {c : EndpointController T F R} {now t : T} (hslot : now < t)
    (hnext : c.Undisturbed now) : now < c.recheckAt t := by
  unfold recheckAt
  cases hn : c.nextDispatchRefreshAt with
  | none => exact hslot
  | some u => exact lt_min hslot (hnext u hn)

end

section

variable {T F R : Type} [AddCommMonoid T] [LinearOrder T] [Sub T] [Time T]

/-- An endpoint whose queue mirrors that of its controller. -/
structure EndpointRuntime.Ok (e : EndpointRuntime T F R) : Prop where
  mirror : e.pending = (ids e.controller.pending).map (token e.controller.controllerId)
  workers : e.availableAt ≠ []
  service : 0 < e.serviceTime
  service_le : e.serviceTime ≤ durationMax
  capacity : 0 < e.controller.config.queueCapacity

variable {e e' : EndpointRuntime T F R} {c : EndpointController T F R} {r : DispatchReservation}
variable {rest : List DispatchReservation} {now : T}

theorem Alike.ok (h : Alike e.controller c) (hok : e.Ok) : ({ e with controller := c } : EndpointRuntime T F R).Ok := by
  refine ⟨?_, hok.workers, hok.service, hok.service_le, ?_⟩
  · show e.pending = (ids c.pending).map (token c.controllerId)
    rw [h.queue, h.controllerId]
    exact hok.mirror
  · show 0 < c.config.queueCapacity
    rw [h.config]
    exact hok.capacity

theorem EndpointRuntime.Ok.heads (hok : e.Ok) (hp : e.pending = r :: rest) : e.controller.Heads r := by
  have hm := hok.mirror
  rw [hp] at hm
  cases hids : ids e.controller.pending with
  | nil =>
    rw [hids] at hm
    cases hm
  | cons n ns =>
    rw [hids] at hm
    obtain ⟨rfl, -⟩ := List.cons.inj hm
    exact ⟨rfl, by rw [hids]; rfl⟩

/-- The two queues are as long as each other. -/
theorem EndpointRuntime.Ok.length (hok : e.Ok) : e.pending.length = e.controller.pending.length := by
  rw [hok.mirror, List.length_map, ids, List.length_map]

theorem Serves.ok {worker : ℕ} {t : T} (h : Serves r e.controller c) (hok : e.Ok) : (e.dispatch c worker t).Ok := by
  refine ⟨?_, ?_, hok.service, hok.service_le, ?_⟩
  · show e.pending.tail = (ids c.pending).map (token c.controllerId)
    rw [hok.mirror, h.queue, h.controllerId]
    rfl
  · show e.availableAt.set worker t ≠ []
    rw [← List.length_pos_iff, List.length_set, List.length_pos_iff]
    exact hok.workers
  · show 0 < c.config.queueCapacity
    rw [h.config]
    exact hok.capacity

omit [AddCommMonoid T] [LinearOrder T] [Sub T] [Time T] in
theorem Serves.station {worker : ℕ} {t : T} (h : Serves r e.controller c) : (e.dispatch c worker t).station = e.station.start := by
  have hlen := h.length
  unfold EndpointRuntime.station EndpointRuntime.dispatch Station.start
  simp only [h.config, h.nextId, h.inflight, hlen, Nat.add_sub_cancel]

/-! ## The controllers -/

variable [F64 F] [Secs T F] [Rng R F] {c' : EndpointController T F R}

theorem refresh_alike (h : c.refresh now = some c') : Alike c c' := .of_ledger (refresh_ledger h)

theorem check_alike {s : DispatchState T} (h : c.dispatchState r now = some (s, c')) : Alike c c' := by
  rcases dispatchState_cases h with ⟨-, -, rfl⟩ | ⟨-, -, -, rfl⟩ | ⟨-, m, front, rest, hm, hp, -, hch⟩
  · exact .refl _
  · exact .refl _
  · have hmark : Alike m (m.waited front rest) := ⟨rfl, rfl, by rw [hp]; rfl, rfl, rfl⟩
    cases hch with
    | inflightLimit _ => exact refresh_alike hm
    | ready _ _ => exact refresh_alike hm
    | waitUntil _ _ => exact (refresh_alike hm).trans hmark

theorem load_alike {x : F} (h : c.load now = some (x, c')) : Alike c c' := refresh_alike (load_cases h).1

theorem dispatch_serves {q : InFlightRequest T} (h : c.onDispatched r now = some (.ok q, c')) :
    Serves r c c' ∧ q.controllerId = c.controllerId := by
  rcases onDispatched_cases h with ⟨s, -, hres, -⟩ | ⟨-, m, front, rest, hm, hp, hid, -, -, hres, rfl⟩
  · cases hres
  · have ha := refresh_alike hm
    injection hres with hq
    refine ⟨⟨ha.controllerId, ha.config, ?_, ha.nextId, congrArg (· + 1) ha.inflight⟩, ?_⟩
    · show ids c.pending = r.id :: ids (reschedule _ _ rest)
      rw [ids_reschedule, ← ha.queue, hp, ← hid]
      rfl
    · rw [hq]
      exact ha.controllerId

/-! ## One round -/

/-- A head that waits: inflight has no room, or there is a later instant to check again. -/
def Held (now : T) (s : DispatchState T) : Prop := s = .inflightLimit ∨ ∃ t, s = .waitUntil t ∧ now < t

/-- A check of the queue head finds it ready or held. -/
theorem check_held {s : DispatchState T} (hin : Inside now) (hh : c.Heads r)
    (h : c.dispatchState r now = some (s, c')) : s = .ready ∨ Held now s := by
  have hnext := (check_again hin hh h).2.1.next
  obtain ⟨m, front, rest, hm, hp, hid, hch⟩ := head_cases hh h
  cases hch with
  | inflightLimit _ => exact Or.inr (Or.inl rfl)
  | ready _ _ => exact Or.inl rfl
  | waitUntil _ hslot => exact Or.inr (Or.inr ⟨_, rfl, lt_recheckAt hslot hnext⟩)

/-- A dispatch that finds the head not ready changes no books. -/
theorem dispatch_fails {s : DispatchState T} (h : c.onDispatched r now = some (.error s, c')) :
    s ≠ .ready ∧ c.dispatchState r now = some (s, c') := by
  rcases onDispatched_cases h with ⟨s', hs, hres, hcheck⟩ | ⟨-, _, _, _, -, -, -, -, -, hres, -⟩
  · injection hres with hres
    subst hres
    exact ⟨hs, hcheck⟩
  · cases hres

/-- What a round of the inner loop does to an endpoint in order. -/
inductive Round (index : ℕ) (now : T) (r : DispatchReservation) (e : EndpointRuntime T F R)
    (completions : List (Completion T)) : Bool → EndpointRuntime T F R → List (Completion T) → Prop
  | stopped {c : EndpointController T F R} : Alike e.controller c →
      Round index now r e completions false { e with controller := c } completions
  | dispatched {c : EndpointController T F R} {q : InFlightRequest T} {available : T} {worker : ℕ} :
      Serves r e.controller c → q.controllerId = e.controller.controllerId →
      Round index now r e completions true
        (e.dispatch c worker (saturatingAdd (max available now) e.serviceTime))
        (completions ++
          [{ completionAt := saturatingAdd (max available now) e.serviceTime, endpoint := index, request := q }])

section

variable {index : ℕ} {completions completions' : List (Completion T)} {more : Bool}

omit [F64 F] [Secs T F] [Rng R F] in
/-- An endpoint in order has a worker. -/
theorem EndpointRuntime.Ok.firstWorker (hok : e.Ok) : ∃ x, firstWorker e.availableAt = some x := by
  refine Option.ne_none_iff_exists'.mp fun hnone => hok.workers ?_
  exact List.zipIdx_eq_nil_iff.mp (List.argmin_eq_none.mp hnone)

/-- A check of the queue head is a round, and stops it unless the head is ready. -/
theorem driveOne_check (hok : e.Ok) (hp : e.pending = r :: rest)
    (h : driveOne index now r e completions = some (more, e', completions')) :
    ∃ s c, e.controller.dispatchState r now = some (s, c) ∧
      ((s ≠ .ready ∧ more = false ∧ e' = { e with controller := c } ∧ completions' = completions) ∨
        (s = .ready ∧ ∃ available worker result c', firstWorker e.availableAt = some (available, worker) ∧
          c.onDispatched r now = some (result, c') ∧
          ((∃ s', result = .error s' ∧ more = false ∧ e' = { e with controller := c' } ∧ completions' = completions) ∨
            ∃ q, result = .ok q ∧ more = true ∧
              e' = e.dispatch c' worker (saturatingAdd (max available now) e.serviceTime) ∧
              completions' = completions ++
                [{ completionAt := saturatingAdd (max available now) e.serviceTime, endpoint := index, request := q }]))) := by
  have hh := hok.heads hp
  unfold driveOne at h
  simp only [Option.bind_eq_bind, Option.bind_eq_some_iff] at h
  obtain ⟨⟨s, c⟩, hs, h⟩ := h
  refine ⟨s, c, hs, ?_⟩
  cases s with
  | ready =>
    obtain ⟨⟨available, worker⟩, hworker⟩ := hok.firstWorker
    simp only [hworker, Option.bind_eq_some_iff] at h
    obtain ⟨⟨result, c'⟩, hd, h⟩ := h
    refine Or.inr ⟨rfl, available, worker, result, c', hworker, hd, ?_⟩
    cases result with
    | error s' =>
      cases h
      exact Or.inl ⟨s', rfl, rfl, rfl, rfl⟩
    | ok q =>
      cases h
      exact Or.inr ⟨q, rfl, rfl, rfl, rfl⟩
  | waitUntil t =>
    cases h
    exact Or.inl ⟨by rintro ⟨⟩, rfl, rfl, rfl⟩
  | inflightLimit =>
    cases h
    exact Or.inl ⟨by rintro ⟨⟩, rfl, rfl, rfl⟩
  | waitForPrevious =>
    cases h
    exact Or.inl ⟨by rintro ⟨⟩, rfl, rfl, rfl⟩
  | cancelled =>
    -- the head of the mirror is queued
    obtain ⟨m, front, others, -, -, -, hch⟩ := head_cases hh hs
    cases hch

theorem driveOne_cases (hok : e.Ok) (hp : e.pending = r :: rest)
    (h : driveOne index now r e completions = some (more, e', completions')) :
    Round index now r e completions more e' completions' := by
  obtain ⟨s, c, hs, ⟨-, rfl, rfl, rfl⟩ | ⟨rfl, available, worker, result, c', -, hd, hresult⟩⟩ := driveOne_check hok hp h
  · exact .stopped (check_alike hs)
  · have ha := check_alike hs
    rcases hresult with ⟨s', rfl, rfl, rfl, rfl⟩ | ⟨q, rfl, rfl, rfl, rfl⟩
    · exact .stopped (ha.trans (check_alike (dispatch_fails hd).2))
    · obtain ⟨hserves, hq⟩ := dispatch_serves hd
      exact .dispatched (hserves.after ha) (hq.trans ha.controllerId)

/-- A round that goes on starts one job. -/
theorem driveOne_starts (hok : e.Ok) (hp : e.pending = r :: rest)
    (h : driveOne index now r e completions = some (true, e', completions')) :
    ∃ available job, completions' = completions ++ [job] ∧
      job.completionAt = saturatingAdd (max available now) e.serviceTime := by
  have hround := driveOne_cases hok hp h
  generalize hb : true = b at hround
  cases hround with
  | stopped _ => cases hb
  | dispatched _ _ => exact ⟨_, _, rfl, rfl⟩

/-- Inside the clock's range a round stops at a head that is held. -/
theorem driveOne_stops (hin : Inside now) (hok : e.Ok) (hp : e.pending = r :: rest)
    (h : driveOne index now r e completions = some (false, e', completions')) :
    ∃ s c, e.controller.dispatchState r now = some (s, c) ∧ Held now s ∧ e' = { e with controller := c } ∧
      completions' = completions := by
  have hh := hok.heads hp
  obtain ⟨s, c, hs, ⟨hne, -, he, hc⟩ | ⟨rfl, available, worker, result, c', -, hd, hresult⟩⟩ := driveOne_check hok hp h
  · exact ⟨s, c, hs, (check_held hin hh hs).resolve_left hne, he, hc⟩
  · rcases hresult with ⟨s', rfl, -, -, -⟩ | ⟨-, -, hmore, -⟩
    · -- the check of the dispatch repeats its answer
      obtain ⟨hne, hcheck⟩ := dispatch_fails hd
      rw [(check_again hin hh hs).2.2] at hcheck
      obtain ⟨rfl, -⟩ := Prod.mk.inj (Option.some.inj hcheck)
      exact absurd rfl hne
    · cases hmore

end

end

end Loadpace.Simulator
