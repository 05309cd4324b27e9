import Loadpace.Wakeup

/-!
# Calls under the lock

An adapter keeps its controller behind a lock. While a task holds it, the task makes calls at one instant (`Locked`), and
then drains the flags; `perform` is one call. One lemma for each kind of call says what it does to the identities in the queue and to the inflight
count (`Step.inert`, `Step.issued`, `Step.checked`, `Step.dispatched`, `Step.cancelled`, `Step.finished`), and
`Locked.wakes` says what the calls do to the flags.
-/

namespace Loadpace

open Systems EndpointController

/-! ## One call -/

section

variable {T F R : Type} {c c' : EndpointController T F R} {e : Entry T F R} {r : DispatchReservation}
variable {q : InFlightRequest T} {now : T}

/-- The call reads a metric, reports an admission failure, or reserves nothing. -/
inductive Entry.Inert (e : Entry T F R) : Prop
  | read : e.call.IsRead → Inert e
  | admissionFailure {now : T} : e.call = .onAdmissionFailure now → Inert e
  | refused {now : T} {error : ScheduleError} : e.call = .reserve now → e.reply = .reserved (.error error) → Inert e

theorem inert_single (h : e.Inert) : ∀ x ∈ [e], x.Inert := by
  intro x hx
  rw [List.mem_singleton.mp hx]
  exact h

theorem Entry.issued_of (hc : e.call = .reserve now) (hr : e.reply = .reserved (.ok r)) : e.issued? = some r := by
  unfold Entry.issued?
  rw [hc, hr]

theorem Entry.dispatched_of (hc : e.call = .onDispatched r now) (hr : e.reply = .dispatched (.ok q)) :
    e.dispatched? = some (r, q) := by
  unfold Entry.dispatched?
  rw [hc, hr]
  rfl

/-- The queue and the inflight count are the same. -/
structure SameLine (c c' : EndpointController T F R) : Prop where
  ids : ids c'.pending = ids c.pending
  inflight : c'.inflight = c.inflight

theorem SameLine.maySchedule (h : SameLine c c') (hc : c'.config = c.config) : c'.maySchedule = c.maySchedule := by
  have hlen : c'.pending.length = c.pending.length := by
    have hids := congrArg List.length h.ids
    rwa [EndpointController.ids, EndpointController.ids, List.length_map, List.length_map] at hids
  unfold EndpointController.maySchedule
  rw [hlen, hc]

end

section

variable {T F R : Type} [AddCommMonoid T] [LinearOrder T] [Sub T] [Time T] [F64 F] [Secs T F] [Rng R F]
variable {c c' : EndpointController T F R} {e : Entry T F R} {r : DispatchReservation} {q : InFlightRequest T} {now : T}

/-- What a call does to the identities in the queue. -/
theorem Step.queue (h : Step c e c') : match e.ticket? with
    | none => ids c'.pending = ids c.pending
    | some (.issue n) => ids c'.pending = ids c.pending ++ [n]
    | some (.withdraw n) => ids c'.pending = (ids c.pending).erase n
    | some (.serve n) => ids c.pending = n :: ids c'.pending := by
  have hline := h.ledger.line
  have hids : ∀ m : EndpointController T F R, m.ledger.line.waiting = ids m.pending := fun m => ledger_ids m
  unfold Entry.ticket?
  cases ht : ticketOf e.call e.reply with
  | none =>
    rw [ht] at hline
    have hline : c'.ledger.line = c.ledger.line := hline
    rw [← hids, ← hids, hline]
  | some t =>
    rw [ht] at hline
    have hline : Tickets.Step c.ledger.line t c'.ledger.line := hline
    rw [← hids, ← hids]
    generalize c.ledger.line = l at hline
    generalize c'.ledger.line = l' at hline
    cases hline with
    | issue n ws => rfl
    | withdraw n k ws _ => rfl
    | serve n k ws => rfl

theorem SameLine.of_ledger (h : Step c e c') (ht : e.ticket? = none) (hd : e.dispatched? = none)
    (hr : e.call.release? = none) : SameLine c c' := by
  have hids := h.queue
  rw [ht] at hids
  refine ⟨hids, ?_⟩
  rcases h.ledger.kinds with ⟨_, _, _, _, _, -, hd', -⟩ | ⟨_, _, _, _, hr', -⟩ | ⟨_, -, -, hl⟩ | ⟨-, -, -, hl⟩
  · have hd : dispatchedOf e.call e.reply = none := hd
    rw [hd] at hd'
    cases hd'
  · rw [hr] at hr'
    cases hr'
  · exact congrArg Ledger.inflight hl
  · exact hl.inflight

theorem Step.inert (h : Step c e c') (hi : e.Inert) : SameLine c c' := by
  cases hi with
  | read hr =>
    obtain ⟨hd, hrel, -⟩ := Call.of_read e.reply hr
    exact .of_ledger h (ticketOf_read hr) hd hrel
  | admissionFailure hc =>
    refine .of_ledger h ?_ ?_ ?_
    · rw [Entry.ticket?, hc]; rfl
    · rw [Entry.dispatched?, hc]; rfl
    · rw [hc]; rfl
  | refused hc hr =>
    refine .of_ledger h ?_ ?_ ?_
    · rw [Entry.ticket?, hc, hr]; rfl
    · rw [Entry.dispatched?, hc]; rfl
    · rw [hc]; rfl

theorem Step.checked {x : DispatchReservation × T} {s : DispatchState T} (h : Step c e c') (hc : e.call.check? = some x)
    (hs : e.reply.state? = some s) : SameLine c c' :=
  .of_ledger h (ticketOf_state hs) (dispatchedOf_state _ hs) (Call.of_check hc).1

theorem Step.issued (h : Step c e c') (hi : e.issued? = some r) : r.controllerId = c.controllerId ∧
    ids c'.pending = ids c.pending ++ [r.id] ∧ c'.inflight = c.inflight := by
  have hown := h.own (Or.inl hi)
  have hqueue := h.queue
  have hwork := h.ledger.kinds
  unfold Entry.issued? at hi
  split at hi
  · rename_i now r' hc hp
    obtain rfl : r' = r := Option.some.inj hi
    rw [Entry.ticket?, hc, hp] at hqueue
    rw [hc, hp] at hwork
    refine ⟨hown, hqueue, ?_⟩
    rcases hwork with ⟨_, _, _, _, _, hn, -⟩ | ⟨_, _, _, _, hn, -⟩ | ⟨_, hn, -⟩ | ⟨-, -, -, hl⟩
    · cases hn
    · cases hn
    · cases hn
    · exact hl.inflight
  · cases hi

theorem Step.dispatched (h : Step c e c') (hd : e.dispatched? = some (r, q)) : r.controllerId = c.controllerId ∧
    q.controllerId = c.controllerId ∧ ids c.pending = r.id :: ids c'.pending ∧ c'.inflight = c.inflight + 1 := by
  have hqueue := h.queue
  rcases h.ledger.kinds with ⟨r', q', waited, rest, t, hc, hd', hq, hr, -, -, hl⟩ | ⟨_, _, _, _, -, -, -, hd', -⟩ |
    ⟨_, -, hd', -⟩ | ⟨hd', -⟩
  · obtain ⟨rfl, rfl⟩ := Prod.mk.inj (Option.some.inj ((show e.dispatched? = _ from hd').symm.trans hd))
    refine ⟨hr, congrArg InFlightRequest.controllerId hq, ?_, congrArg Ledger.inflight hl⟩
    have ht : e.ticket? = some (.serve r'.id) := by
      rw [hc] at hd'
      unfold dispatchedOf at hd'
      split at hd'
      · rename_i hc' hp
        cases hc'
        rw [Entry.ticket?, hc, hp]
        rfl
      · cases hd'
    rw [ht] at hqueue
    exact hqueue
  all_goals
    have hd' : e.dispatched? = none := hd'
    rw [hd'] at hd
    cases hd

/-- A request is dispatched at the instant of the call. -/
theorem Step.dispatched_at (h : Step c e c') (hc : e.call = .onDispatched r now) (hr : e.reply = .dispatched (.ok q)) :
    q.dispatchedAt = now := by
  have hd : dispatchedOf e.call e.reply = some (r, q) := Entry.dispatched_of hc hr
  rcases h.ledger.kinds with ⟨r', q', waited, rest, t, hc', hd', hq, -⟩ | ⟨_, _, _, _, -, -, -, hd', -⟩ | ⟨_, -, hd', -⟩ |
    ⟨hd', -⟩
  · obtain ⟨-, rfl⟩ := Prod.mk.inj (Option.some.inj (hd'.symm.trans hd))
    cases hc'.symm.trans hc
    rw [hq]
  all_goals
    rw [hd'] at hd
    cases hd

theorem Step.cancelled (h : Step c e c') (hc : e.call = .cancel r now) (hh : c.Holds r) : e.cancelled? = some r ∧
    ids c'.pending = (ids c.pending).erase r.id ∧ c'.inflight = c.inflight ∧ c'.completed = c.completed ∧
    c'.failures = c.failures := by
  have hqueue := h.queue
  obtain ⟨-, -, hx⟩ := h
  rw [hc] at hx
  have heq : (Reply.cancelled (c.cancel r now).1, (c.cancel r now).2) = (e.reply, c') := Option.some.inj hx
  rw [cancel_held c now hh] at heq
  obtain ⟨hreply, rfl⟩ := Prod.mk.inj heq
  rw [Entry.ticket?, hc, ← hreply] at hqueue
  refine ⟨?_, hqueue, rfl, rfl, rfl⟩
  rw [Entry.cancelled?, hc, ← hreply]

theorem Step.finished {completion : Completion} (h : Step c e c') (hc : e.call = .finish q completion now)
    (hq : q.controllerId = c.controllerId) : e.reply = .finished true ∧ ids c'.pending = ids c.pending ∧
    c'.inflight = c.inflight - 1 := by
  have hqueue := h.queue
  have hwork := h.ledger.kinds
  obtain ⟨-, -, hx⟩ := h
  rw [hc] at hx
  obtain ⟨⟨b, m⟩, hs, he⟩ := Option.map_eq_some_iff.mp hx
  obtain ⟨hreply, rfl⟩ := Prod.mk.inj he
  have hb : b = true := by
    rcases finish_cases hs with ⟨hne, -⟩ | ⟨-, -, hb, -⟩
    · exact absurd hq hne
    · exact hb
  have hreply : e.reply = .finished true := by rw [← hreply, hb]
  rw [Entry.ticket?, hreply, ticketOf_finished] at hqueue
  refine ⟨hreply, hqueue, ?_⟩
  rw [hc] at hwork
  rcases hwork with ⟨_, _, _, _, _, hn, -⟩ | ⟨_, completion, _, _, -, -, -, -, hl⟩ | ⟨_, hn, -⟩ | ⟨-, hn, -⟩
  · cases hn
  · refine (congrArg Ledger.inflight hl).trans ?_
    cases completion <;> rfl
  · cases hn
  · rw [ownReleaseOf] at hn
    exact absurd (hn.symm.trans (if_pos hq)) (by rintro ⟨⟩)

/-- A call under the lock. -/
def perform (c : EndpointController T F R) (call : Call T) : Option (Entry T F R) :=
  (c.exec call).map fun x => { call, reply := x.1, before := c, after := x.2 }

theorem perform_step {call : Call T} (h : perform c call = some e) : Step c e e.after ∧ e.call = call := by
  obtain ⟨⟨reply, m⟩, hx, rfl⟩ := Option.map_eq_some_iff.mp h
  exact ⟨⟨rfl, rfl, hx⟩, rfl⟩

/-! ## The flags -/

omit [AddCommMonoid T] [Sub T] [Time T] [F64 F] [Secs T F] [Rng R F] in
theorem NoEarlier.trans {a b d : Option T} (h : NoEarlier a b) (h' : NoEarlier b d) : NoEarlier a d := by
  intro t ht
  obtain ⟨u, hu, hle⟩ := h' t ht
  obtain ⟨v, hv, hle'⟩ := h u hu
  exact ⟨v, hv, hle'.trans hle⟩

omit [AddCommMonoid T] [Sub T] [Time T] [F64 F] [Secs T F] [Rng R F] in
theorem Unmoved.trans {m : EndpointController T F R} (h : Unmoved c m) (h' : Unmoved m c') : Unmoved c c' := by
  refine ⟨h.places.trans h'.places, h'.inflight.trans h.inflight, h'.config.trans h.config, fun hne => ?_⟩
  have hne' : m.pending ≠ [] := by
    intro hm
    have hle := h.places.length_le
    rw [List.length_map, List.length_map, hm] at hle
    exact hne (List.eq_nil_of_length_eq_zero (Nat.le_zero.mp hle))
  exact (h.next hne).trans (h'.next hne')

omit [AddCommMonoid T] [Sub T] [Time T] [F64 F] [Secs T F] [Rng R F] in
theorem Wakes.trans {m : EndpointController T F R} (h : Wakes c m) (h' : Wakes m c') : Wakes c c' := by
  refine ⟨?_, fun hd => h'.dispatch (h.dispatch hd), fun ha => h'.admission (h.admission ha), fun hfull hroom => ?_,
    h'.apart⟩
  · rcases h.unmoved with hd | hu
    · exact Or.inl (h'.dispatch hd)
    · exact h'.unmoved.imp_right hu.trans
  · cases hm : m.maySchedule with
    | true => exact h'.admission (h.room hfull hm)
    | false => exact h'.room hm hroom

/-- The calls of one tenure of the lock, all at one instant. -/
structure Locked (c : EndpointController T F R) (now : T) (es : List (Entry T F R)) (m : EndpointController T F R) :
    Prop where
  run : Run Step c es m
  instant : ∀ e ∈ es, e.call.now? = some now

variable {es : List (Entry T F R)} {m : EndpointController T F R}

theorem Locked.single (h : Step c e c') (hnow : e.call.now? = some now) : Locked c now [e] c' :=
  ⟨.single h, fun _ he => List.mem_singleton.mp he ▸ hnow⟩

theorem Locked.snoc (h : Locked c now es m) (he : Step m e c') (hnow : e.call.now? = some now) :
    Locked c now (es ++ [e]) c' := by
  refine ⟨h.run.snoc he, fun e' he' => ?_⟩
  rcases List.mem_append.mp he' with he' | he'
  · exact h.instant e' he'
  · exact List.mem_singleton.mp he' ▸ hnow

theorem Locked.wakes (h : Locked c now es m) (ha : c.probe.Apart) : Wakes c m := by
  obtain ⟨hrun, hnow⟩ := h
  induction hrun with
  | nil => exact .refl ha
  | @snoc es m e c' _ he ih =>
    have hw := ih fun e he => hnow e (List.mem_append_left _ he)
    refine hw.trans (he.wakes hw.apart fun hc => ?_)
    have hsome := hnow e (List.mem_append_right _ List.mem_cons_self)
    rw [hc] at hsome
    cases hsome

theorem Locked.inert (h : Locked c now es m) (hi : ∀ e ∈ es, e.Inert) : SameLine c m := by
  obtain ⟨hrun, -⟩ := h
  induction hrun with
  | nil => exact ⟨rfl, rfl⟩
  | @snoc es m e c' _ he ih =>
    obtain ⟨hids, hinflight⟩ := ih fun e he => hi e (List.mem_append_left _ he)
    obtain ⟨hids', hinflight'⟩ := he.inert (hi e (List.mem_append_right _ List.mem_cons_self))
    exact ⟨hids'.trans hids, hinflight'.trans hinflight⟩

theorem Locked.maySchedule (h : Locked c now es m) (hs : SameLine c m) : m.maySchedule = c.maySchedule :=
  hs.maySchedule (run_fixed h.run).2

/-! ## Checks -/

/-- A check that dispatches nothing is a `dispatchState`. -/
theorem Step.check_state {s : DispatchState T} (h : Step c e c') (hc : e.call.check? = some (r, now))
    (hs : e.reply.state? = some s) : c.dispatchState r now = some (s, c') := by
  obtain ⟨-, -, hx⟩ := h
  cases hcall : e.call with
  | dispatchState r' t =>
    rw [hcall] at hx hc
    cases hc
    obtain ⟨⟨s', m⟩, hd, he⟩ := Option.map_eq_some_iff.mp hx
    obtain ⟨hreply, rfl⟩ := Prod.mk.inj he
    rw [← hreply] at hs
    cases hs
    exact hd
  | onDispatched r' t =>
    rw [hcall] at hx hc
    cases hc
    obtain ⟨⟨res, m⟩, hd, he⟩ := Option.map_eq_some_iff.mp hx
    obtain ⟨hreply, rfl⟩ := Prod.mk.inj he
    rw [← hreply] at hs
    rcases onDispatched_cases hd with ⟨s', -, rfl, hstate⟩ | ⟨-, _, _, _, -, -, -, -, -, rfl, -⟩
    · cases hs
      exact hstate
    · cases hs
  | _ =>
    rw [hcall] at hc
    cases hc

/-- A waiting queue head is never told to wait for the past. -/
theorem Step.deadline {t : T} (h : Step c e c') (hc : e.call.check? = some (r, now))
    (hs : e.reply.state? = some (.waitUntil t)) : now ≤ t := by
  obtain ⟨-, m, front, rest, hm, hp, -, -, hslot, rfl, -⟩ := waitUntil_cases (h.check_state hc hs)
  unfold recheckAt
  rw [(waited_next hp).2]
  cases hn : m.nextDispatchRefreshAt with
  | none => exact hslot.le
  | some u => exact le_min hslot.le (refresh_next hm hn).le

/-- A reservation leaves the flags. -/
theorem Step.reserve_changes (h : Step c e c') (hc : e.call = .reserve now) : c'.changes = c.changes := by
  obtain ⟨-, -, hx⟩ := h
  rw [hc] at hx
  have heq : (c.reserve now).2 = c' := congrArg Prod.snd (Option.some.inj hx)
  rw [← heq]
  rcases c.reserve_cases now with hsame | ⟨-, -, happ⟩
  · rw [hsame]
  · rw [happ]

/-- An admission failure makes no room. -/
theorem Step.admissionFailure_changes (h : Step c e c') (hc : e.call = .onAdmissionFailure now) :
    c'.changes.admission = c.changes.admission := by
  obtain ⟨-, -, hx⟩ := h
  rw [hc] at hx
  obtain ⟨m, hm, he⟩ := Option.map_eq_some_iff.mp hx
  obtain ⟨-, rfl⟩ := Prod.mk.inj he
  exact (updateRate_changes hm).1

end

end Loadpace
