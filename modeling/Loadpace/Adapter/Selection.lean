import Loadpace.Adapter.Balancer
import Loadpace.Reservations

/-!
# Selections (`loadpace-rama/src/dns.rs`)

No selection of the DNS balancer leaks or misplaces a reservation, whatever its calls, its lookups and its refreshes do.

* `Reached`: the steps that concern one endpoint are a run of the adapter.
* `Keeps`: a step leaves all requests but one as they are, and what has left a queue does not come back.
* `Inv`: each call has cancelled all of its reservations but the one that it holds, and a live request has a call that holds
  it.
* `dns_selection_never_leaks` reads the results off.
-/

namespace Loadpace.Rama

open EndpointController Systems

section

variable {T F R : Type} [AddCommMonoid T] [LinearOrder T] [Sub T] [Time T] [F64 F] [Secs T F] [Rng R F]

/-! ## One endpoint -/

/-- The calls of a step of the clients are steps of the controller. -/
theorem clients_run {s s' : Clients T F R} {ev : Event T F R} (h : Clients.Step s ev s') :
    ∃ es, Run Loadpace.Step s.controller es s'.controller := by
  have hdrain (m : EndpointController T F R) : Loadpace.Step m
      { call := .takeChanges, reply := .changes m.changes, before := m, after := m.takeChanges.2 }
      { m with changes := ControllerChanges.none } := ⟨rfl, rfl, rfl⟩
  cases h with
  | stay => exact ⟨[], .nil⟩
  | tick _ => exact ⟨[], .nil⟩
  | broadcast _ => exact ⟨[], .nil⟩
  | move _ _ => exact ⟨[], .nil⟩
  | read hl _ _ _ _ => exact ⟨_, hl.run.snoc (hdrain _)⟩
  | accept hl _ he _ _ _ => exact ⟨_, (hl.run.snoc he).snoc (hdrain _)⟩
  | check _ he _ _ => exact ⟨_, (Run.single he).snoc (hdrain _)⟩
  | retry _ he _ _ _ => exact ⟨_, (Run.single he).snoc (hdrain _)⟩
  | dispatch _ he _ _ _ => exact ⟨_, (Run.single he).snoc (hdrain _)⟩
  | release _ he _ _ => exact ⟨_, (Run.single he).snoc (hdrain _)⟩

/-- The endpoint is what a run of the adapter leads to. -/
def Reached (s : Endpoint T F R) : Prop :=
  ∃ c₀ start tr, Fresh c₀ ∧ Run (system T F R).Step ((system T F R).start c₀ start) tr s

variable {s s' : Endpoint T F R} {l : Label T} {ev : Event T F R}

theorem Reached.inv (h : Reached s) : s.view.Inv := by
  obtain ⟨c₀, start, tr, h0, hrun⟩ := h
  exact (system_sound.run h0 hrun).1

theorem Reached.exec (h : Reached s) (he : s.exec l = some (ev, s')) : Reached s' := by
  obtain ⟨c₀, start, tr, h0, hrun⟩ := h
  have hstep : (system T F R).Step s (l, ev) s' := he
  exact ⟨c₀, start, _, h0, hrun.snoc hstep⟩

theorem Reached.at {now : T} (h : Reached s) (hle : s.clock ≤ now) : Reached (s.at now) :=
  h.exec (l := .tick now) (if_pos hle)

/-- What has left the queue does not come back. -/
theorem Reached.past {r : DispatchReservation} (h : Reached s) (he : s.exec l = some (ev, s'))
    (hr : s.controller.Past r) : s'.controller.Past r := by
  obtain ⟨es, hrun⟩ := clients_run ((Endpoint.exec_move he).clients h.inv)
  exact Past.run hr hrun

/-- The request that a label is about. -/
def Label.request? : Label T → Option ℕ
  | .run i | .respond i _ | .drop i => some i
  | _ => none

/-- The state of the guard of a request. -/
def Endpoint.requestAt (s : Endpoint T F R) (i : ℕ) : Option (RequestState T) := s.requests[i]?.map (·.state)

omit [AddCommMonoid T] [LinearOrder T] [Sub T] [Time T] in
theorem ServeAction.label?_request {action : ServeAction} {i : ℕ} (h : action.label? i = some l) : l.request? = some i := by
  cases action <;> cases h <;> rfl

/-- A label that makes no request, and keeps the clock. -/
def Label.Operates (l : Label T) : Prop := l = .snapshot ∨ l = .notifyDispatch ∨ ∃ i, l.request? = some i

/-- A step is about one request at most. -/
theorem operates_keeps (hl : l.Operates) (he : s.exec l = some (ev, s')) :
    s'.clock = s.clock ∧ s'.requests.length = s.requests.length ∧
      ∀ i, l.request? ≠ some i → s'.requestAt i = s.requestAt i := by
  have hset {i : ℕ} {request : Request T} {j : ℕ} (hne : some i ≠ some j) :
      ((s.requests.set i request)[j]?).map (·.state) = s.requests[j]?.map (·.state) := by
    rw [List.getElem?_set_ne fun h => hne (congrArg some h)]
  cases Endpoint.exec_move he with
  | tick _ => rcases hl with hl | hl | ⟨i, hl⟩ <;> cases hl
  | read _ _ _ _ => exact ⟨rfl, rfl, fun _ _ => rfl⟩
  | serve _ _ _ => rcases hl with hl | hl | ⟨i, hl⟩ <;> cases hl
  | reject _ _ _ => rcases hl with hl | hl | ⟨i, hl⟩ <;> cases hl
  | reserve _ _ _ _ _ _ hl' => rcases hl' with rfl | rfl <;> rcases hl with hl | hl | ⟨i, hl⟩ <;> cases hl
  | refuse _ _ _ _ _ _ hl' => rcases hl' with rfl | rfl <;> rcases hl with hl | hl | ⟨i, hl⟩ <;> cases hl
  | enable _ => exact ⟨rfl, List.length_set, fun _ hne => hset hne⟩
  | wake _ _ => exact ⟨rfl, List.length_set, fun _ hne => hset hne⟩
  | check _ _ _ _ => exact ⟨rfl, List.length_set, fun _ hne => hset hne⟩
  | dispatch _ _ _ _ => exact ⟨rfl, List.length_set, fun _ hne => hset hne⟩
  | retry _ _ _ _ => exact ⟨rfl, List.length_set, fun _ hne => hset hne⟩
  | finish _ hl' _ _ => rcases hl' with ⟨ok, rfl⟩ | rfl <;> exact ⟨rfl, List.length_set, fun _ hne => hset hne⟩
  | finished _ _ => exact ⟨rfl, rfl, fun _ _ => rfl⟩
  | notifyDispatch _ =>
    refine ⟨rfl, List.length_map .., fun i _ => ?_⟩
    rw [Endpoint.requestAt, Endpoint.requestAt, List.getElem?_map, Option.map_map]
    rfl

/-- `reserve_p2c` keeps the clock. -/
theorem serves_clock (h : Serves s s') : s'.clock = s.clock := by
  obtain ⟨l, ev, hl, he⟩ := h
  cases Endpoint.exec_move he with
  | read _ _ _ _ => rfl
  | reserve _ _ _ _ _ _ _ => rfl
  | refuse _ _ _ _ _ _ _ => rfl
  | finished _ _ => rfl
  | finish _ _ _ _ => rfl
  | _ => rcases hl with hl | ⟨asked, hl⟩ <;> cases hl

/-- A guard that holds a reservation has it in the queue. -/
theorem Reached.holds {i : ℕ} {r : DispatchReservation} (h : Reached s) (hi : s.requestAt i = some (.reserved r)) :
    s.controller.Holds r := by
  obtain ⟨⟨state, place⟩, hrequest, rfl⟩ := Option.map_eq_some_iff.mp hi
  exact h.inv.holds (List.mem_map_of_mem (List.mem_of_getElem? hrequest)) rfl

/-- The queue is that of the guards. -/
theorem Reached.held {r : DispatchReservation} (h : Reached s) (hr : s.controller.Holds r) :
    ∃ i, s.requestAt i = some (.reserved r) := by
  obtain ⟨hown, hmem⟩ := hr
  obtain ⟨x, hx, hticket⟩ := List.mem_filterMap.mp (h.inv.line.symm.subset hmem)
  obtain ⟨⟨state, place⟩, hrequest, rfl⟩ := List.mem_map.mp hx
  obtain ⟨i, hi⟩ := List.mem_iff_getElem?.mp hrequest
  have howner := h.inv.own _ hx
  refine ⟨i, ?_⟩
  rw [Endpoint.requestAt, hi]
  cases state with
  | reserved r' =>
    have hid : r'.id = r.id := Option.some.inj hticket
    have howner : r'.controllerId = s.controller.controllerId := howner
    obtain ⟨owner, id⟩ := r
    obtain ⟨owner', id'⟩ := r'
    cases hid
    cases howner.trans hown.symm
    rfl
  | dispatched _ => cases hticket
  | finished => cases hticket

/-- The cancellation of a reservation that its guard still holds. -/
theorem Reached.cancelled {i : ℕ} {r : DispatchReservation} (h : Reached s) (hi : s.requestAt i = some (.reserved r))
    (he : s.exec (.drop i) = some (ev, s')) :
    (∃ e ∈ ev.entries, e.cancelled? = some r) ∧ s'.controller.Past r ∧ s'.requestAt i = some .finished := by
  have hholds := h.holds hi
  obtain ⟨⟨state, place⟩, hrequest, rfl⟩ := Option.map_eq_some_iff.mp hi
  obtain ⟨c₀, tr, h0, hrun⟩ := h.inv.reached
  obtain ⟨hlt, -⟩ := List.getElem?_eq_some_iff.mp hrequest
  have hsame {j : ℕ} (hl : (∃ ok, (Label.drop i : Label T) = .respond j ok) ∨ (Label.drop i : Label T) = .drop j) :
      i = j := by
    rcases hl with ⟨ok, hl⟩ | hl
    · cases hl
    · cases hl
      rfl
  cases Endpoint.exec_move he with
  | read _ _ _ hl => rcases hl with hl | hl | hl <;> cases hl
  | reserve _ _ _ _ _ _ hl => rcases hl with hl | hl <;> cases hl
  | refuse _ _ _ _ _ _ hl => rcases hl with hl | hl <;> cases hl
  | @finish j l request completion e hj hl hstep hrel =>
    obtain rfl := hsame hl
    cases hrequest.symm.trans hj
    have hcall : e.call = .cancel r s.clock := (Option.some.inj hrel).symm
    obtain ⟨hcancelled, hids, -⟩ := hstep.cancelled hcall hholds
    refine ⟨⟨e, List.mem_singleton.mpr rfl, hcancelled⟩, ⟨?_, ?_, ?_⟩, ?_⟩
    · exact hholds.1.trans (run_fixed (Run.single hstep)).1.symm
    · have hwaiting : r.id ∈ s.controller.ledger.line.waiting := by
        rw [show s.controller.ledger.line.waiting = ids s.controller.pending from ledger_ids _]
        exact hholds.2
      exact (Tickets.lt_next_of_waiting (run_tickets h0 hrun) hwaiting).trans_le
        (Tickets.run_next_le (run_line (Run.single hstep)))
    · show r.id ∉ ids e.after.pending
      rw [hids]
      exact h.inv.ids_nodup.not_mem_erase
    · show ((s.requests.set i _)[i]?).map _ = _
      rw [List.getElem?_set_self hlt]
      rfl
  | @finished j l place' hj hl =>
    obtain rfl := hsame hl
    cases hrequest.symm.trans hj

/-! ## The endpoints of a balancer -/

end

namespace Balancer

variable {T F R : Type}

/-- The state of the guard of a request of an endpoint. -/
def requestAt (s : Balancer T F R) (y : ℕ × ℕ) : Option (RequestState T) := s.states[y.1]?.bind (·.requestAt y.2)

/-- The reservation has left the queue of the endpoint that made it. -/
def Past (s : Balancer T F R) (y : ℕ × DispatchReservation) : Prop :=
  ∃ state, s.states[y.1]? = some state ∧ state.controller.Past y.2

theorem states_clock {s : Balancer T F R} {x : ℕ} {state : Endpoint T F R} (h : s.states[x]? = some state) :
    state.clock = s.cache.clock := by
  rw [states, List.getElem?_map] at h
  obtain ⟨_, -, rfl⟩ := Option.map_eq_some_iff.mp h
  rfl

theorem states_length (s : Balancer T F R) : s.states.length = s.cache.states.length := List.length_map ..

/-- The states are at the instant of the cache. -/
theorem states_setStates {s : Balancer T F R} {states : List (Endpoint T F R)}
    (h : ∀ state ∈ states, state.clock = s.cache.clock) : (s.setStates states).states = states := by
  show states.map (fun state => state.at s.cache.clock) = states
  refine (List.map_congr_left fun state hmem => ?_).trans (List.map_id states)
  rw [← h state hmem]
  rfl

variable [AddCommMonoid T] [LinearOrder T] [Sub T] [Time T] [F64 F] [Secs T F] [Rng R F]

/-- What a step that is about one request at most keeps. -/
structure Keeps (s s' : Balancer T F R) (mine : Option (ℕ × ℕ)) : Prop where
  reached : ∀ (x : ℕ) state, s'.states[x]? = some state → Reached state
  requests : ∀ y, mine ≠ some y → s'.requestAt y = s.requestAt y
  stays : ∀ y, s.requestAt y ≠ none → s'.requestAt y ≠ none
  past : ∀ y, s.Past y → s'.Past y
  sound : Dns.Sound s'.cache
  entries : s.cache.entries.length ≤ s'.cache.entries.length
  states : s.cache.states.length ≤ s'.cache.states.length

variable {s s' : Balancer T F R} {mine : Option (ℕ × ℕ)} {states : List (Endpoint T F R)} {report : Report T F R}

/-- A step of the endpoints. -/
theorem keeps_setStates (states : List (Endpoint T F R)) (mine : Option (ℕ × ℕ)) (hsound : Dns.Sound s.cache) (hlen : states.length = s.states.length)
    (h : ∀ (x : ℕ) before, s.states[x]? = some before → ∃ after, states[x]? = some after ∧ after.clock = before.clock ∧
      Reached after ∧ (∀ r, before.controller.Past r → after.controller.Past r) ∧
      before.requests.length ≤ after.requests.length ∧ ∀ i, mine ≠ some (x, i) → after.requestAt i = before.requestAt i) :
    (s.setStates states).states = states ∧ Keeps s (s.setStates states) mine := by
  have hbefore {x : ℕ} {after : Endpoint T F R} (hx : states[x]? = some after) : ∃ before, s.states[x]? = some before := by
    obtain ⟨hlt, -⟩ := List.getElem?_eq_some_iff.mp hx
    exact ⟨_, List.getElem?_eq_getElem (hlen ▸ hlt)⟩
  have hstates : (s.setStates states).states = states := by
    apply states_setStates
    intro after hmem
    obtain ⟨x, hx⟩ := List.mem_iff_getElem?.mp hmem
    obtain ⟨before, hb⟩ := hbefore hx
    obtain ⟨after', ha, hclock, -⟩ := h x before hb
    cases hx.symm.trans ha
    exact hclock.trans (states_clock hb)
  have hcount : states.length = s.cache.states.length := hlen.trans s.states_length
  refine ⟨hstates, ?_, ?_, ?_, ?_, ?_, le_rfl, hcount.ge⟩
  · intro x after hx
    rw [hstates] at hx
    obtain ⟨before, hb⟩ := hbefore hx
    obtain ⟨after', ha, -, hreached, -⟩ := h x before hb
    cases hx.symm.trans ha
    exact hreached
  · rintro ⟨x, i⟩ hne
    unfold requestAt
    rw [hstates]
    show states[x]?.bind _ = s.states[x]?.bind _
    cases hb : s.states[x]? with
    | none =>
      rw [List.getElem?_eq_none (hlen ▸ List.getElem?_eq_none_iff.mp hb)]
    | some before =>
      obtain ⟨after, ha, -, -, -, -, hrequests⟩ := h x before hb
      rw [ha]
      exact hrequests i hne
  · rintro ⟨x, i⟩ hsome
    obtain ⟨before, hb, hi⟩ : ∃ before, s.states[x]? = some before ∧ before.requestAt i ≠ none := by
      unfold requestAt at hsome
      cases hb : s.states[x]? with
      | none =>
        rw [show s.states[(x, i).1]? = none from hb] at hsome
        exact absurd rfl hsome
      | some before =>
        rw [show s.states[(x, i).1]? = some before from hb] at hsome
        exact ⟨before, rfl, hsome⟩
    obtain ⟨after, ha, -, -, -, hle, -⟩ := h x before hb
    have hlt : i < before.requests.length := by
      by_contra hge
      exact hi (by rw [Endpoint.requestAt, List.getElem?_eq_none (not_lt.mp hge)]; rfl)
    unfold requestAt
    rw [hstates, show states[(x, i).1]? = some after from ha, Option.bind_some, Endpoint.requestAt,
      List.getElem?_eq_getElem (hlt.trans_le hle)]
    exact Option.some_ne_none _
  · rintro ⟨x, r⟩ ⟨before, hb, hr⟩
    obtain ⟨after, ha, -, -, hpast, -, -⟩ := h x before hb
    refine ⟨after, ?_, hpast r hr⟩
    rw [hstates]
    exact ha
  · obtain ⟨h₁, h₂, h₃⟩ := hsound
    rw [← hcount] at h₁ h₃
    exact ⟨h₁, h₂, h₃⟩

/-- **An endpoint takes a step.** -/
theorem operate_keeps {x : ℕ} {label : Label T} (hsound : Dns.Sound s.cache)
    (hreached : ∀ (x : ℕ) state, s.states[x]? = some state → Reached state) (hl : label.Operates)
    (h : s.operate x label = some (report, s')) : ∃ before ev after, s.states[x]? = some before ∧
      before.exec label = some (ev, after) ∧ report = ⟨none, ev.entries.map fun e => (x, e)⟩ ∧
      s'.serves = s.serves ∧ s'.states = s.states.set x after ∧
      s'.cache = { s.cache with states := s.states.set x after } ∧ Keeps s s' (label.request?.map fun i => (x, i)) := by
  simp only [operate, Option.bind_eq_bind, Option.bind_eq_some_iff] at h
  obtain ⟨before, hb, ⟨ev, after⟩, he, h⟩ := h
  cases h
  obtain ⟨hclock, hlength, hrequests⟩ := operates_keeps hl he
  obtain ⟨hlt, -⟩ := List.getElem?_eq_some_iff.mp hb
  obtain ⟨hstates, hkeeps⟩ := keeps_setStates (s.states.set x after)
    (label.request?.map fun i => (x, i)) hsound List.length_set (by
      intro y other hy
      by_cases hxy : x = y
      · subst hxy
        cases hb.symm.trans hy
        refine ⟨after, List.getElem?_set_self hlt, hclock, (hreached x _ hb).exec he,
          fun r hr => (hreached x _ hb).past he hr, hlength.ge, fun i hne => hrequests i fun hi => hne ?_⟩
        rw [hi]
        rfl
      · exact ⟨other, (List.getElem?_set_ne hxy).trans hy, rfl, hreached y _ hy, fun _ hr => hr, le_rfl, fun _ _ => rfl⟩)
  exact ⟨before, ev, after, hb, he, rfl, rfl, hstates, rfl, hkeeps⟩

/-- `reserve_p2c` among the endpoints that have been made. -/
theorem reserve_cases {endpoints : List Dns.Endpoint} {i j : ℕ}
    {result : Except ScheduleError (Dns.Endpoint × DispatchReservation)}
    (hdistinct : (endpoints.map (·.state)).Nodup) (h : s.reserve endpoints i j = some (result, states)) :
    ∃ f : ℕ → Endpoint T F R, states = (List.range s.states.length).map f ∧
      (∀ a r, result = .ok (a, r) → a ∈ endpoints) ∧ ∀ (x : ℕ) before, s.states[x]? = some before →
        (f x).requests = before.requests ∧ (accepted result f x = before ∨ Serves before (accepted result f x)) := by
  simp only [reserve, Option.bind_eq_bind, Option.bind_eq_some_iff] at h
  obtain ⟨fallback, hfallback, ⟨result', f⟩, hr, h⟩ := h
  cases h
  have hclock : ∀ x, (s.states.getD x fallback).clock = s.cache.clock := by
    intro x
    rw [List.getD_eq_getElem?_getD]
    cases hx : s.states[x]? with
    | none => exact states_clock (x := 0) (by rw [← List.head?_eq_getElem?]; exact hfallback)
    | some state => exact states_clock hx
  obtain ⟨hmem, hrequests, hserves⟩ := reserveP2c_serves hclock hdistinct hr
  refine ⟨f, rfl, hmem, fun x before hb => ?_⟩
  have hx : s.states.getD x fallback = before := by rw [List.getD_eq_getElem?_getD, hb, Option.getD_some]
  have hrequests := hrequests x
  have hserves := hserves x
  rw [hx] at hrequests hserves
  exact ⟨hrequests, hserves⟩

/-- What `accepted` is at an endpoint that has been made. -/
theorem accepted_step {before after : Endpoint T F R} (hreached : Reached before)
    (h : after = before ∨ Serves before after) : after.clock = before.clock ∧ Reached after ∧
      ∀ r, before.controller.Past r → after.controller.Past r := by
  rcases h with rfl | h
  · exact ⟨rfl, hreached, fun _ hr => hr⟩
  · obtain ⟨l, ev, -, he⟩ := id h
    exact ⟨serves_clock h, hreached.exec he, fun r hr => hreached.past he hr⟩

/-- **A reservation is made**: one endpoint has a new request. -/
theorem reserve_keeps {endpoints : List Dns.Endpoint} {i j : ℕ} {a : Dns.Endpoint} {r : DispatchReservation}
    {state : Endpoint T F R} (hsound : Dns.Sound s.cache)
    (hreached : ∀ (x : ℕ) state, s.states[x]? = some state → Reached state)
    (hdistinct : (endpoints.map (·.state)).Nodup) (h : s.reserve endpoints i j = some (.ok (a, r), states))
    (hstate : states[a.state]? = some state) :
    a ∈ endpoints ∧ s.requestAt (a.state, state.requests.length) = none ∧
      (s.setStates (states.set a.state (state.accept r))).requestAt (a.state, state.requests.length) =
        some (.reserved r) ∧
      Keeps s (s.setStates (states.set a.state (state.accept r))) (some (a.state, state.requests.length)) := by
  obtain ⟨f, rfl, hmem, hf⟩ := reserve_cases hdistinct h
  have hlen : ((List.range s.states.length).map f).length = s.states.length := by rw [List.length_map, List.length_range]
  have hget {x : ℕ} (hlt : x < s.states.length) : ((List.range s.states.length).map f)[x]? = some (f x) := by
    rw [List.getElem?_map, List.getElem?_range hlt]
    rfl
  have hlt : a.state < s.states.length := by
    obtain ⟨hlt, -⟩ := List.getElem?_eq_some_iff.mp hstate
    exact hlen ▸ hlt
  obtain rfl : f a.state = state := Option.some.inj ((hget hlt).symm.trans hstate)
  have hbefore : s.states[a.state]? = some s.states[a.state] := List.getElem?_eq_getElem hlt
  obtain ⟨hrequests, -⟩ := hf _ _ hbefore
  obtain ⟨hstates, hkeeps⟩ := keeps_setStates (((List.range s.states.length).map f).set a.state ((f a.state).accept r))
    (some (a.state, (f a.state).requests.length)) hsound
    (List.length_set.trans hlen) (by
      intro x before hb
      obtain ⟨hrequests, hserves⟩ := hf x before hb
      obtain ⟨hclock, hreached', hpast⟩ := accepted_step (hreached x before hb) hserves
      obtain ⟨hx, -⟩ := List.getElem?_eq_some_iff.mp hb
      by_cases hxa : a.state = x
      · subst hxa
        have haccepted : accepted (.ok (a, r)) f a.state = (f a.state).accept r := if_pos rfl
        rw [haccepted] at hclock hreached' hpast
        have hlength : before.requests.length ≤ ((f a.state).accept r).requests.length := by
          show _ ≤ ((f a.state).requests ++ _).length
          rw [hrequests, List.length_append]
          exact Nat.le_add_right _ _
        refine ⟨_, List.getElem?_set_self (hx.trans_eq hlen.symm), hclock, hreached', hpast, hlength, fun i hne => ?_⟩
        have hi : i ≠ (f a.state).requests.length := fun hi => hne (by rw [hi])
        show ((f a.state).requests ++ _)[i]?.map _ = _
        rw [hrequests] at hi ⊢
        rcases Nat.lt_or_ge i before.requests.length with hlt | hge
        · rw [List.getElem?_append_left hlt]
          rfl
        · rw [List.getElem?_eq_none (by rw [List.length_append, List.length_singleton]; omega), Endpoint.requestAt,
            List.getElem?_eq_none hge]
      · have haccepted : accepted (.ok (a, r)) f x = f x := if_neg hxa
        rw [haccepted] at hclock hreached' hpast
        refine ⟨f x, (List.getElem?_set_ne hxa).trans (hget hx), hclock, hreached', hpast,
          hrequests ▸ le_rfl, fun i _ => ?_⟩
        rw [Endpoint.requestAt, hrequests]
        rfl)
  refine ⟨hmem a r rfl, ?_, ?_, hkeeps⟩
  · show s.states[a.state]?.bind _ = none
    rw [hbefore, Option.bind_some, Endpoint.requestAt, hrequests, List.getElem?_eq_none le_rfl]
    rfl
  · unfold requestAt
    rw [hstates, List.getElem?_set_self (hlt.trans_eq hlen.symm), Option.bind_some]
    show ((f a.state).requests ++ [_])[(f a.state).requests.length]?.map _ = _
    rw [List.getElem?_concat_length]
    rfl

/-- A reservation is refused. -/
theorem reject_keeps {endpoints : List Dns.Endpoint} {i j : ℕ} {error : ScheduleError} (hsound : Dns.Sound s.cache)
    (hreached : ∀ (x : ℕ) state, s.states[x]? = some state → Reached state)
    (hdistinct : (endpoints.map (·.state)).Nodup) (h : s.reserve endpoints i j = some (.error error, states)) :
    Keeps s (s.setStates states) none := by
  obtain ⟨f, rfl, -, hf⟩ := reserve_cases hdistinct h
  refine (keeps_setStates _ _ hsound (by rw [List.length_map, List.length_range]) fun x before hb => ?_).2
  obtain ⟨hrequests, hserves⟩ := hf x before hb
  obtain ⟨hlt, -⟩ := List.getElem?_eq_some_iff.mp hb
  obtain ⟨hclock, hreached', hpast⟩ := accepted_step (hreached x before hb) hserves
  refine ⟨f x, ?_, hclock, hreached', hpast, hrequests ▸ le_rfl, fun i _ => ?_⟩
  · rw [List.getElem?_map, List.getElem?_range hlt]
    rfl
  · rw [Endpoint.requestAt, hrequests]
    rfl

omit [AddCommMonoid T] [Time T] [F64 F] [Secs T F] [Rng R F] in
/-- A step of the cache makes one endpoint state at most. -/
theorem cache_states {S : Type} {d : Dns.DnsCache T S (Endpoint T F R)} {c c' : Dns.State T (Endpoint T F R)}
    {label : Dns.Label T S (Endpoint T F R)} (h : Dns.Move d c label c') (hl : BalancerLabel.operates label = false) :
    c'.states = c.states ∨
      ∃ seed made, d.newState c.clock seed = some made ∧ c'.states = c.states ++ [made] ∧ c'.clock = c.clock := by
  cases h with
  | make _ _ hnew => exact Or.inr ⟨_, _, hnew, rfl, rfl⟩
  | operate _ _ _ _ => cases hl
  | _ => exact Or.inl rfl

omit [AddCommMonoid T] [Time T] [F64 F] [Secs T F] [Rng R F] in
theorem cache_entries {S : Type} {d : Dns.DnsCache T S (Endpoint T F R)} {c c' : Dns.State T (Endpoint T F R)}
    {label : Dns.Label T S (Endpoint T F R)} (h : Dns.Move d c label c') : c.entries.length ≤ c'.entries.length := by
  cases h <;> simp [Dns.State.turn, Dns.State.wake]

section

variable {config : EndpointConfig T} {refreshAfter evictAfterStale : T} {mode : Dns.DnsResolveIpMode}

/-- **A step of the cache** makes no request and touches none. -/
theorem cache_keeps {cache : Dns.State T (Endpoint T F R)} {label : Dns.Label T (R × ℕ) (Endpoint T F R)}
    {serves : List Serve} (hsound : Dns.Sound s.cache)
    (hreached : ∀ (x : ℕ) state, s.states[x]? = some state → Reached state) (hl : BalancerLabel.operates label = false)
    (h : Dns.Move (dnsCache config refreshAfter evictAfterStale mode) s.cache label cache) :
    Keeps s { cache, serves } none := by
  -- each endpoint is as it was, at the new instant, or it is new
  have hold {x : ℕ} {before : Endpoint T F R} (hb : s.states[x]? = some before) :
      cache.states[x]?.map (fun state => state.at cache.clock) = some (before.at cache.clock) := by
    obtain ⟨raw, hraw, rfl⟩ := Option.map_eq_some_iff.mp ((List.getElem?_map ..).symm.trans hb)
    rcases cache_states h hl with hsame | ⟨_, _, -, hmade, -⟩
    · rw [hsame, hraw]
      rfl
    · rw [hmade, List.getElem?_append_left (List.getElem?_eq_some_iff.mp hraw).1, hraw]
      rfl
  have hnew {x : ℕ} {after : Endpoint T F R} (ha : cache.states[x]?.map (fun state => state.at cache.clock) = some after) :
      (∃ before, s.states[x]? = some before ∧ after = before.at cache.clock) ∨
        s.states[x]? = none ∧ Reached after ∧ after.requests = [] := by
    cases hb : s.states[x]? with
    | some before => exact Or.inl ⟨before, rfl, Option.some.inj (ha.symm.trans (hold hb))⟩
    | none =>
      refine Or.inr ⟨rfl, ?_⟩
      have hx : s.cache.states.length ≤ x := s.states_length ▸ List.getElem?_eq_none_iff.mp hb
      obtain ⟨raw, hraw, rfl⟩ := Option.map_eq_some_iff.mp ha
      rcases cache_states h hl with hsame | ⟨seed, made, hmake, hmade, hclock⟩
      · rw [hsame, List.getElem?_eq_none hx] at hraw
        cases hraw
      · obtain rfl : x = s.cache.states.length := by
          obtain ⟨hlt, -⟩ := List.getElem?_eq_some_iff.mp hraw
          rw [hmade, List.length_append, List.length_singleton] at hlt
          omega
        rw [hmade, List.getElem?_concat_length] at hraw
        cases hraw
        obtain ⟨controller, hc, rfl⟩ := Option.map_eq_some_iff.mp hmake
        have hstart : Reached ((system T F R).start controller s.cache.clock) :=
          ⟨controller, s.cache.clock, [], ⟨config, s.cache.clock, seed.1, seed.2, hc⟩, .nil⟩
        exact ⟨hstart.at hclock.ge, rfl⟩
  have hstates (x : ℕ) : (⟨cache, serves⟩ : Balancer T F R).states[x]? =
      cache.states[x]?.map fun state => state.at cache.clock := List.getElem?_map ..
  have hrequests (y : ℕ × ℕ) : (⟨cache, serves⟩ : Balancer T F R).requestAt y = s.requestAt y := by
    unfold requestAt
    rw [hstates]
    cases ha : cache.states[y.1]?.map fun state => state.at cache.clock with
    | none =>
      cases hb : s.states[y.1]? with
      | none => rfl
      | some before =>
        rw [hold hb] at ha
        cases ha
    | some after =>
      rcases hnew ha with ⟨before, hb, rfl⟩ | ⟨hb, -, hnone⟩
      · rw [hb]
        rfl
      · rw [hb, Option.bind_some, Endpoint.requestAt, hnone]
        rfl
  refine ⟨fun x after hx => ?_, fun y _ => hrequests y, fun y hy => (hrequests y).symm ▸ hy, ?_, h.sound hsound,
    cache_entries h, h.states_length⟩
  · rw [hstates] at hx
    rcases hnew hx with ⟨before, hb, rfl⟩ | ⟨-, hr, -⟩
    · exact (hreached x before hb).at ((states_clock hb).trans_le h.clock_le)
    · exact hr
  · rintro ⟨x, r⟩ ⟨before, hb, hr⟩
    exact ⟨before.at cache.clock, (hstates x).trans (hold hb), hr⟩

end

/-! ## The calls -/

section

variable {S : Type}

/-- The reservations that a call has made. -/
def reservationsOf (k : ℕ) (tr : List (BalancerLabel T F R S × Report T F R)) : List (ℕ × DispatchReservation) :=
  tr.flatMap fun x => if x.1.serve? = some k then x.2.reserved.toList else []

/-- The other calls on controllers that a call has made. -/
def callsOf (k : ℕ) (tr : List (BalancerLabel T F R S × Report T F R)) : List (ℕ × Entry T F R) :=
  tr.flatMap fun x => if x.1.serve? = some k then x.2.calls else []

end

/-- **The reservations are gone**: each was cancelled on the endpoint that made it, and has left the queue. -/
def Gone (s : Balancer T F R) (calls : List (ℕ × Entry T F R)) (reservations : List (ℕ × DispatchReservation)) : Prop :=
  ∀ y ∈ reservations, s.Past y ∧ ∃ e, (y.1, e) ∈ calls ∧ e.cancelled? = some y.2

/-- What is true of a call that has made these reservations and these other calls. -/
structure ServeOk (s : Balancer T F R) (reserved : List (ℕ × DispatchReservation)) (calls : List (ℕ × Entry T F R))
    (p : Serve) : Prop where
  entry : ∀ e, p.entry? = some e → e < s.cache.entries.length
  distinct : ∀ e endpoints, p = .loaded e endpoints → (endpoints.map (·.state)).Nodup
  request : ∀ y, p.holds? = some y → s.requestAt y ≠ none
  live : ∀ x, p = .selected x ∨ p = .superseded x →
    s.requestAt (x.endpoint.state, x.request) = some (.reserved x.reservation)
  history : ∃ old, reserved = old ++ p.reservation?.toList ∧ s.Gone calls old

/-- **The invariant of the calls.** -/
structure Inv {S : Type} (tr : List (BalancerLabel T F R S × Report T F R)) (s : Balancer T F R) : Prop where
  sound : Dns.Sound s.cache
  reached : ∀ (x : ℕ) state, s.states[x]? = some state → Reached state
  serves : ∀ (k : ℕ) p, s.serves[k]? = some p → s.ServeOk (reservationsOf k tr) (callsOf k tr) p
  unborn : ∀ k, s.serves.length ≤ k → reservationsOf k tr = []
  owned : ∀ y state, s.requestAt y = some state → state ≠ .finished →
    ∃ (k : ℕ) (p : Serve), s.serves[k]? = some p ∧ p.holds? = some y
  apart : ∀ (k k' : ℕ) p p' y, s.serves[k]? = some p → s.serves[k']? = some p' → p.holds? = some y →
    p'.holds? = some y → k = k'

/-- A call moves as well. -/
theorem Keeps.goto (h : Keeps s s' mine) (k : ℕ) (p : Serve) : Keeps s (s'.goto k p) mine :=
  ⟨h.reached, h.requests, h.stays, h.past, h.sound, h.entries, h.states⟩

variable {p p' : Serve} {reserved : List (ℕ × DispatchReservation)}
variable {calls calls' : List (ℕ × Entry T F R)}

theorem Gone.keeps (h : s.Gone calls reserved) (hk : Keeps s s' mine) (hcalls : ∀ x ∈ calls, x ∈ calls') :
    s'.Gone calls' reserved := by
  intro y hy
  obtain ⟨hpast, e, he, hc⟩ := h y hy
  exact ⟨hk.past y hpast, e, hcalls _ he, hc⟩

omit [AddCommMonoid T] [LinearOrder T] [Sub T] [Time T] [F64 F] [Secs T F] [Rng R F] in
/-- A call that holds no reservation has let go of every one it made. -/
theorem ServeOk.gone (h : s.ServeOk reserved calls p) (hnone : p.selected? = none) : s.Gone calls reserved := by
  obtain ⟨old, hreserved, hgone⟩ := h.history
  rw [Serve.reservation?, hnone] at hreserved
  rw [hreserved, Option.map_none, Option.toList_none, List.append_nil]
  exact hgone

omit [AddCommMonoid T] [LinearOrder T] [Sub T] [Time T] [F64 F] [Secs T F] [Rng R F] in
/-- For such a call there is nothing more to show. -/
theorem ServeOk.free (hnone : p.selected? = none) (hentry : ∀ e, p.entry? = some e → e < s.cache.entries.length)
    (hdistinct : ∀ e endpoints, p = .loaded e endpoints → (endpoints.map (·.state)).Nodup) (hgone : s.Gone calls reserved) :
    s.ServeOk reserved calls p := by
  have hholds : p.holds? = none := Option.map_eq_none_iff.mpr hnone
  refine ⟨hentry, hdistinct, fun y hy => ?_, fun x hx => ?_, reserved, ?_, hgone⟩
  · rw [hholds] at hy
    cases hy
  · rcases hx with rfl | rfl
    · cases hnone
    · cases hnone
  · rw [Serve.reservation?, hnone]
    exact (List.append_nil _).symm

/-- A step about the request of another call. -/
theorem ServeOk.keeps (h : s.ServeOk reserved calls p) (hk : Keeps s s' mine) (hmine : ∀ y, p.holds? = some y → mine ≠ some y) :
    s'.ServeOk reserved calls p := by
  obtain ⟨old, hreserved, hgone⟩ := h.history
  refine ⟨fun e he => (h.entry e he).trans_le hk.entries, h.distinct, fun y hy => hk.stays y (h.request y hy),
    fun x hx => ?_, old, hreserved, hgone.keeps hk fun _ hx => hx⟩
  have hy : p.holds? = some (x.endpoint.state, x.request) := by
    rcases hx with rfl | rfl
    · rfl
    · rfl
  rw [hk.requests _ (hmine _ hy)]
  exact h.live x hx

section

variable {S : Type} {tr : List (BalancerLabel T F R S × Report T F R)} {l : BalancerLabel T F R S} {k : ℕ}

omit [AddCommMonoid T] [LinearOrder T] [Sub T] [Time T] [F64 F] [Secs T F] [Rng R F] in
theorem reservationsOf_snoc (j : ℕ) : reservationsOf j (tr ++ [(l, report)]) =
    reservationsOf j tr ++ (if l.serve? = some j then report.reserved.toList else []) := by
  rw [reservationsOf, List.flatMap_append, List.flatMap_singleton]
  rfl

omit [AddCommMonoid T] [LinearOrder T] [Sub T] [Time T] [F64 F] [Secs T F] [Rng R F] in
theorem callsOf_snoc (j : ℕ) : callsOf j (tr ++ [(l, report)]) =
    callsOf j tr ++ (if l.serve? = some j then report.calls else []) := by
  rw [callsOf, List.flatMap_append, List.flatMap_singleton]
  rfl

/-- A call moves, and what it moves is its own request, or a new one. -/
theorem Inv.move (p' : Serve) (hi : s.Inv tr) (hp : s.serves[k]? = some p) (hl : l.serve? = some k) (hk : Keeps s s' mine)
    (hserves : s'.serves = s.serves.set k p') (hmine : ∀ y, mine = some y → p.holds? = some y ∨ s.requestAt y = none)
    (hholds : ∀ y, p'.holds? = some y → p.holds? = some y ∨ s.requestAt y = none)
    (hleft : ∀ y, p.holds? = some y ∨ mine = some y → p'.holds? ≠ some y → ∀ state, s'.requestAt y = some state →
      state = .finished)
    (hok : s'.ServeOk (reservationsOf k tr ++ report.reserved.toList) (callsOf k tr ++ report.calls) p') :
    s'.Inv (tr ++ [(l, report)]) := by
  obtain ⟨hlt, -⟩ := List.getElem?_eq_some_iff.mp hp
  -- the request of another call is neither that of this one nor new
  have hother {j : ℕ} {q : Serve} {y : ℕ × ℕ} (hj : k ≠ j) (hq : s.serves[j]? = some q) (hy : q.holds? = some y)
      (hx : p.holds? = some y ∨ s.requestAt y = none) : False := by
    rcases hx with hx | hx
    · exact hj (hi.apart k j p q y hp hq hx hy)
    · exact (hi.serves j q hq).request y hy hx
  have hget (j : ℕ) : s'.serves[j]? = if k = j then some p' else s.serves[j]? := by
    rw [hserves, List.getElem?_set]
    by_cases hj : k = j
    · subst hj
      rw [if_pos rfl, if_pos rfl, if_pos hlt]
    · rw [if_neg hj, if_neg hj]
  refine ⟨hk.sound, hk.reached, fun j q hq => ?_, fun j hj => ?_, fun y state hy hne => ?_, fun i j q q' y hq hq' hy hy' => ?_⟩
  · rw [hget] at hq
    rw [reservationsOf_snoc, callsOf_snoc, hl]
    by_cases hj : k = j
    · subst hj
      rw [if_pos rfl] at hq
      cases hq
      rw [if_pos rfl, if_pos rfl]
      exact hok
    · rw [if_neg hj] at hq
      have hne : ¬some k = some j := fun h => hj (Option.some.inj h)
      rw [if_neg hne, if_neg hne, List.append_nil, List.append_nil]
      exact (hi.serves j q hq).keeps hk fun y hy hm => hother hj hq hy (hmine y hm)
  · rw [hserves, List.length_set] at hj
    have hne : ¬some k = some j := fun h => by
      cases h
      omega
    rw [reservationsOf_snoc, hl, if_neg hne, List.append_nil]
    exact hi.unborn j hj
  · by_cases hp' : p'.holds? = some y
    · exact ⟨k, p', by rw [hget, if_pos rfl], hp'⟩
    · by_cases hx : p.holds? = some y ∨ mine = some y
      · exact absurd (hleft y hx hp' state hy) hne
      · obtain ⟨hx, hm⟩ := not_or.mp hx
        rw [hk.requests y hm] at hy
        obtain ⟨j, q, hq, hqy⟩ := hi.owned y state hy hne
        have hj : k ≠ j := by
          rintro rfl
          cases hp.symm.trans hq
          exact hx hqy
        exact ⟨j, q, by rw [hget, if_neg hj, hq], hqy⟩
  · rw [hget] at hq hq'
    by_cases hki : k = i
    · by_cases hkj : k = j
      · exact hki.symm.trans hkj
      · rw [if_pos hki] at hq
        rw [if_neg hkj] at hq'
        cases hq
        exact (hother hkj hq' hy' (hholds y hy)).elim
    · rw [if_neg hki] at hq
      by_cases hkj : k = j
      · rw [if_pos hkj] at hq'
        cases hq'
        exact (hother hki hq hy (hholds y hy')).elim
      · rw [if_neg hkj] at hq'
        exact hi.apart i j q q' y hq hq' hy hy'

/-- A step about no call. -/
theorem Inv.idle (hi : s.Inv tr) (hl : l.serve? = none) (hk : Keeps s s' none) {new : List Serve}
    (hserves : s'.serves = s.serves ++ new) (hnew : ∀ p ∈ new, ∃ task, p = .lookup task) :
    s'.Inv (tr ++ [(l, report)]) := by
  have hrecord (j : ℕ) : reservationsOf j (tr ++ [(l, report)]) = reservationsOf j tr ∧
      callsOf j (tr ++ [(l, report)]) = callsOf j tr := by
    rw [reservationsOf_snoc, callsOf_snoc, hl]
    exact ⟨List.append_nil _, List.append_nil _⟩
  -- a call that holds something is an old one
  have hget {j : ℕ} {q : Serve} (hq : s'.serves[j]? = some q) : s.serves[j]? = some q ∨
      s.serves.length ≤ j ∧ ∃ task, q = .lookup task := by
    rw [hserves] at hq
    rcases Nat.lt_or_ge j s.serves.length with hlt | hge
    · rw [List.getElem?_append_left hlt] at hq
      exact Or.inl hq
    · rw [List.getElem?_append_right hge] at hq
      exact Or.inr ⟨hge, hnew q (List.mem_of_getElem? hq)⟩
  have hold {j : ℕ} {q : Serve} {y : ℕ × ℕ} (hq : s'.serves[j]? = some q) (hy : q.holds? = some y) :
      s.serves[j]? = some q := by
    rcases hget hq with hq | ⟨-, task, rfl⟩
    · exact hq
    · cases hy
  refine ⟨hk.sound, hk.reached, fun j q hq => ?_, fun j hj => ?_, fun y state hy hne => ?_,
    fun i j q q' y hq hq' hy hy' => hi.apart i j q q' y (hold hq hy) (hold hq' hy') hy hy'⟩
  · rw [(hrecord j).1, (hrecord j).2]
    rcases hget hq with hq | ⟨hge, task, rfl⟩
    · exact (hi.serves j q hq).keeps hk fun _ _ => Option.some_ne_none _ |>.symm
    · rw [hi.unborn j hge]
      exact .free rfl nofun nofun nofun
  · rw [(hrecord j).1]
    rw [hserves, List.length_append] at hj
    exact hi.unborn j (by omega)
  · rw [hk.requests y (Option.some_ne_none _).symm] at hy
    obtain ⟨j, q, hq, hqy⟩ := hi.owned y state hy hne
    refine ⟨j, q, ?_, hqy⟩
    rw [hserves, List.getElem?_append_left (List.getElem?_eq_some_iff.mp hq).1, hq]

/-- The steps that only move a call. -/
theorem Goes.inv {action : ServeAction} (hi : s.Inv tr) (hp : s.serves[k]? = some p) (h : Goes s action p p')
    (hl : l.serve? = some k) : (s.goto k p').Inv (tr ++ [(l, .silent)]) := by
  have hold := hi.serves k p hp
  have hkeeps : Keeps s (s.goto k p') none :=
    ⟨hi.reached, fun _ _ => rfl, fun _ hy => hy, fun _ hy => hy, hi.sound, le_rfl, le_rfl⟩
  have hsilent (reservations : List (ℕ × DispatchReservation)) :
      reservations ++ (Report.silent : Report T F R).reserved.toList = reservations := List.append_nil _
  have hcalls : callsOf k tr ++ (Report.silent : Report T F R).calls = callsOf k tr := List.append_nil _
  apply hi.move _ hp hl hkeeps rfl nofun
  · cases h with
    | keep _ => exact fun y hy => Or.inl hy
    | supersede _ => exact fun y hy => Or.inl hy
    | _ => nofun
  · cases h with
    | keep _ => exact fun y hy hne => absurd (hy.resolve_right nofun) hne
    | supersede _ => exact fun y hy hne => absurd (hy.resolve_right nofun) hne
    | _ => exact fun y hy => nomatch hy.resolve_right nofun
  · rw [hsilent, hcalls]
    cases h with
    | @found task e seen htask =>
      refine .free rfl (fun e' he' => ?_) nofun (hold.gone rfl)
      cases he'
      exact (hi.sound.tasks _ (List.mem_of_getElem? htask)).entry e rfl
    | fail _ => exact .free rfl nofun nofun (hold.gone rfl)
    | @load e entry he =>
      refine .free rfl (fun e' he' => hold.entry e' he') (fun e' endpoints heq => ?_) (hold.gone rfl)
      cases heq
      exact (hi.sound.entry he).2.distinct
    | @keep x _ => exact ⟨hold.entry, nofun, hold.request, fun _ hx => hx.elim nofun nofun, hold.history⟩
    | @supersede x _ =>
      refine ⟨hold.entry, nofun, hold.request, fun x' hx => ?_, hold.history⟩
      rcases hx with hx | hx
      · cases hx
      · cases hx
        exact hold.live x (Or.inl rfl)
    | drop => exact .free rfl nofun nofun (hold.gone rfl)

section

variable {config : EndpointConfig T} {refreshAfter evictAfterStale : T} {mode : Dns.DnsResolveIpMode}

/-- **One step keeps the invariant.** -/
theorem Inv.step {l : BalancerLabel T F R (R × ℕ)} {tr : List (BalancerLabel T F R (R × ℕ) × Report T F R)}
    (hi : s.Inv tr) (h : Move (dnsCache config refreshAfter evictAfterStale mode) s l report s') :
    s'.Inv (tr ++ [(l, report)]) := by
  cases h with
  | cache hl hm => exact hi.idle rfl (cache_keeps hi.sound hi.reached hl hm) (List.append_nil _).symm nofun
  | serve hm =>
    refine hi.idle rfl (cache_keeps hi.sound hi.reached rfl hm) rfl fun p hp => ?_
    exact ⟨_, List.mem_singleton.mp hp⟩
  | goto hp hg => exact Goes.inv hi hp hg rfl
  | @reserve k i j e endpoints a r states state hp hr hstate =>
    have hold := hi.serves k _ hp
    obtain ⟨old, hreserved, hgone⟩ := hold.history
    obtain ⟨-, hnone, hsome, hreserve⟩ := reserve_keeps hi.sound hi.reached (hold.distinct e endpoints rfl) hr hstate
    have hkeeps := hreserve.goto k (.selected ⟨e, a, r, state.requests.length⟩)
    refine hi.move (.selected ⟨e, a, r, state.requests.length⟩) hp rfl hkeeps rfl
      (fun y hy => Or.inr ?_) (fun y hy => Or.inr ?_) (fun y hy hne => ?_) ⟨?_, nofun, ?_, ?_, ?_⟩
    · cases hy
      exact hnone
    · cases hy
      exact hnone
    · rcases hy with hy | hy
      · cases hy
      · exact absurd hy hne
    · intro e' he'
      exact (hold.entry e' he').trans_le hkeeps.entries
    · intro y hy
      cases hy
      exact fun hn => Option.some_ne_none _ (hsome.symm.trans hn)
    · intro x hx
      rcases hx with hx | hx
      · cases hx
        exact hsome
      · cases hx
    · exact ⟨old, by rw [hreserved]; exact List.append_assoc .., hgone.keeps hkeeps fun x hx => List.mem_append_left _ hx⟩
  | @reject k i j e endpoints error states hp hr =>
    have hold := hi.serves k _ hp
    have hkeeps := (reject_keeps hi.sound hi.reached (hold.distinct e endpoints rfl) hr).goto k .rejected
    refine hi.move .rejected hp rfl hkeeps rfl
      nofun nofun (fun y hy => nomatch hy.resolve_right nofun) (.free rfl nofun nofun ?_)
    have hsilent : reservationsOf k tr ++ (Report.silent : Report T F R).reserved.toList = reservationsOf k tr :=
      List.append_nil _
    rw [hsilent]
    exact (hold.gone rfl).keeps hkeeps fun x hx => List.mem_append_left _ hx
  | @cancel k x report s₁ hp ho =>
    have hold := hi.serves k _ hp
    obtain ⟨old, hreserved, hgone⟩ := hold.history
    obtain ⟨before, ev, after, hb, he, rfl, hserves, hstates, -, hoperate⟩ :=
      operate_keeps hi.sound hi.reached (Or.inr (Or.inr ⟨_, rfl⟩)) ho
    have hkeeps := hoperate.goto k (.selecting x.entry)
    obtain ⟨hlt, -⟩ := List.getElem?_eq_some_iff.mp hb
    have hlive : before.requestAt x.request = some (.reserved x.reservation) := by
      have hlive := hold.live x (Or.inr rfl)
      unfold requestAt at hlive
      rw [hb] at hlive
      exact hlive
    obtain ⟨⟨c, hc, hcancelled⟩, hpast, hfinished⟩ := (hi.reached _ _ hb).cancelled hlive he
    have hafter : (s₁.goto k (.selecting x.entry)).states[x.endpoint.state]? = some after := by
      show s₁.states[_]? = _
      rw [hstates]
      exact List.getElem?_set_self hlt
    refine hi.move (.selecting x.entry) hp rfl hkeeps (by rw [Balancer.goto, hserves]) (fun y hy => Or.inl hy) nofun
      (fun y hy _ state hstate => ?_) (.free rfl (fun e' he' => ?_) nofun ?_)
    · have hy : some (x.endpoint.state, x.request) = some y := hy.elim id id
      cases hy
      unfold requestAt at hstate
      rw [hafter] at hstate
      exact Option.some.inj (hstate.symm.trans hfinished)
    · exact (hold.entry e' he').trans_le hkeeps.entries
    · intro y hy
      have hy : y ∈ reservationsOf k tr ++ [] := hy
      rw [List.append_nil, hreserved] at hy
      rcases List.mem_append.mp hy with hy | hy
      · exact hgone.keeps hkeeps (fun x hx => List.mem_append_left _ hx) y hy
      · rw [List.mem_singleton.mp hy]
        exact ⟨⟨after, hafter, hpast⟩, c, List.mem_append_right _ (List.mem_map_of_mem hc), hcancelled⟩
  | @guard k action x label report s' hp hlabel ho =>
    have hold := hi.serves k _ hp
    obtain ⟨old, hreserved, hgone⟩ := hold.history
    have hrequest : label.request? = some x.request := ServeAction.label?_request hlabel
    obtain ⟨before, ev, after, -, -, rfl, hserves, -, -, hkeeps⟩ :=
      operate_keeps hi.sound hi.reached (Or.inr (Or.inr ⟨_, hrequest⟩)) ho
    rw [hrequest] at hkeeps
    obtain ⟨hlt, hget⟩ := List.getElem?_eq_some_iff.mp hp
    refine hi.move (.guarded x) hp rfl hkeeps ?_ (fun y hy => Or.inl hy) (fun y hy => Or.inl hy)
      (fun y hy hne => absurd (hy.elim id id) hne) ⟨fun e' he' => (hold.entry e' he').trans_le hkeeps.entries, nofun,
        fun y hy => hkeeps.stays y (hold.request y hy), fun _ hx => hx.elim nofun nofun, old, ?_, ?_⟩
    · rw [hserves, ← hget, List.set_getElem_self]
    · exact (List.append_nil _).trans hreserved
    · exact hgone.keeps hkeeps fun x hx => List.mem_append_left _ hx
  | snapshot ho =>
    obtain ⟨_, _, _, -, -, -, hserves, -, -, hkeeps⟩ := operate_keeps hi.sound hi.reached (Or.inl rfl) ho
    exact hi.idle rfl hkeeps (hserves.trans (List.append_nil _).symm) nofun
  | notifyDispatch ho =>
    obtain ⟨_, _, _, -, -, -, hserves, -, -, hkeeps⟩ := operate_keeps hi.sound hi.reached (Or.inr (Or.inl rfl)) ho
    exact hi.idle rfl hkeeps (hserves.trans (List.append_nil _).symm) nofun

/-! ## Runs -/

/-- A balancer without calls and endpoints. -/
def empty (clock : T) : Balancer T F R := { cache := Dns.State.empty clock, serves := [] }

def Step (d : Dns.DnsCache T (R × ℕ) (Endpoint T F R)) (s : Balancer T F R)
    (x : BalancerLabel T F R (R × ℕ) × Report T F R) (s' : Balancer T F R) : Prop :=
  s.exec d x.1 = some (x.2, s')

/-- The reservation is in the queue of the endpoint. -/
def Holds (s : Balancer T F R) (y : ℕ × DispatchReservation) : Prop :=
  ∃ state, s.states[y.1]? = some state ∧ state.controller.Holds y.2

variable {tr : List (BalancerLabel T F R (R × ℕ) × Report T F R)} {l : BalancerLabel T F R (R × ℕ)} {clock : T}

theorem empty_inv {S : Type} : Inv (S := S) [] (empty clock : Balancer T F R) where
  sound := ⟨nofun, nofun, nofun⟩
  reached _ _ h := by cases h
  serves _ _ h := by cases h
  unborn _ _ := rfl
  owned _ _ h := by cases h
  apart _ _ _ _ _ h := by cases h

theorem run_inv (h : Run (Step (dnsCache config refreshAfter evictAfterStale mode)) (empty clock) tr s) : s.Inv tr := by
  induction h with
  | nil => exact empty_inv
  | snoc _ he ih => exact ih.step (exec_move he)

/-- A request that holds a reservation has it in the queue. -/
theorem Inv.holds (hi : s.Inv tr) {x i : ℕ} {r : DispatchReservation} (h : s.requestAt (x, i) = some (.reserved r)) :
    s.Holds (x, r) := by
  obtain ⟨state, hstate, hrequest⟩ := Option.bind_eq_some_iff.mp h
  exact ⟨state, hstate, (hi.reached x state hstate).holds hrequest⟩

/-- A call that has a guard had it before, or is just out of the loop. -/
theorem Move.guarded {d : Dns.DnsCache T (R × ℕ) (Endpoint T F R)} (h : Move d s l report s') {k : ℕ} {x : Selected}
    (hp : s'.serves[k]? = some (.guarded x)) : s.serves[k]? = some (.guarded x) ∨
      (l, report) = (.task k .recheck, .silent) ∧ s.serves[k]? = some (.selected x) ∧
        s.Publishes x.entry x.endpoint.state ∧ s' = s.goto k (.guarded x) := by
  have hset {j : ℕ} {q : Serve} (hq : (s.serves.set j q)[k]? = some (.guarded x)) (hne : q ≠ .guarded x) :
      s.serves[k]? = some (.guarded x) := by
    rw [List.getElem?_set] at hq
    split at hq
    · split at hq
      · exact absurd (Option.some.inj hq) hne
      · cases hq
    · exact hq
  have hoperate {y : ℕ} {label : Label T} {report : Report T F R} {s₁ : Balancer T F R}
      (ho : s.operate y label = some (report, s₁)) : s₁.serves = s.serves := by
    simp only [operate, Option.bind_eq_bind, Option.bind_eq_some_iff] at ho
    obtain ⟨_, -, _, -, ho⟩ := ho
    cases ho
    rfl
  cases h with
  | cache _ _ => exact Or.inl hp
  | serve _ =>
    left
    rcases Nat.lt_or_ge k s.serves.length with hlt | hge
    · exact (List.getElem?_append_left hlt).symm.trans hp
    · have hp := (List.getElem?_append_right hge).symm.trans hp
      cases List.mem_singleton.mp (List.mem_of_getElem? hp)
  | @goto j action p p' hj hg =>
    cases hg with
    | @keep x' hpub =>
      by_cases hjk : j = k
      · subst hjk
        obtain ⟨hlt, -⟩ := List.getElem?_eq_some_iff.mp hj
        have hx : some (Serve.guarded x') = some (.guarded x) := (List.getElem?_set_self hlt).symm.trans hp
        cases hx
        exact Or.inr ⟨rfl, hj, hpub, rfl⟩
      · exact Or.inl ((List.getElem?_set_ne hjk).symm.trans hp)
    | _ => exact Or.inl (hset hp nofun)
  | reserve _ _ _ => exact Or.inl (hset hp nofun)
  | reject _ _ => exact Or.inl (hset hp nofun)
  | cancel _ ho =>
    rw [Balancer.goto, hoperate ho] at hp
    exact Or.inl (hset hp nofun)
  | guard _ _ ho => exact Or.inl (hoperate ho ▸ hp)
  | snapshot ho => exact Or.inl (hoperate ho ▸ hp)
  | notifyDispatch ho => exact Or.inl (hoperate ho ▸ hp)

/-- How a call came out of the loop: its endpoint was published while it held its reservation, and still did at the end. -/
structure Leaves (d : Dns.DnsCache T (R × ℕ) (Endpoint T F R)) (clock : T) (k : ℕ) (x : Selected)
    (tr : List (BalancerLabel T F R (R × ℕ) × Report T F R)) (m m' : Balancer T F R) : Prop where
  before : Run (Step d) (empty clock) tr m
  step : Step d m (.task k .recheck, .silent) m'
  selected : m.serves[k]? = some (.selected x)
  reserved : ∃ old, reservationsOf k tr = old ++ [(x.endpoint.state, x.reservation)]
  publishes : m.Publishes x.entry x.endpoint.state
  guarded : m'.serves[k]? = some (.guarded x)
  holds : m'.Holds (x.endpoint.state, x.reservation)

/-- **Every call with a guard has come out of the loop so.** -/
theorem run_leaves (h : Run (Step (dnsCache config refreshAfter evictAfterStale mode)) (empty clock) tr s) {k : ℕ}
    {x : Selected} (hp : s.serves[k]? = some (.guarded x)) : ∃ tr₁ tr₂ m m',
      tr = tr₁ ++ (.task k .recheck, .silent) :: tr₂ ∧
      Leaves (dnsCache config refreshAfter evictAfterStale mode) clock k x tr₁ m m' ∧
      Run (Step (dnsCache config refreshAfter evictAfterStale mode)) m' tr₂ s := by
  induction h with
  | nil => cases hp
  | @snoc tr s e s' hrun he ih =>
    obtain ⟨l, report⟩ := e
    rcases (exec_move he).guarded hp with hp | ⟨heq, hselected, hpublishes, rfl⟩
    · obtain ⟨tr₁, tr₂, m, m', rfl, hleaves, hrest⟩ := ih hp
      refine ⟨tr₁, tr₂ ++ [(l, report)], m, m', ?_, ?_, hrest.snoc he⟩
      · rw [List.append_assoc, List.cons_append]
      · exact ⟨hleaves.before, hleaves.step, hleaves.selected, hleaves.reserved, hleaves.publishes, hleaves.guarded,
          hleaves.holds⟩
    · cases heq
      have hi := run_inv hrun
      have hok := hi.serves k _ hselected
      obtain ⟨old, hreserved, -⟩ := hok.history
      obtain ⟨hlt, -⟩ := List.getElem?_eq_some_iff.mp hselected
      exact ⟨tr, [], s, s.goto k (.guarded x), rfl, ⟨hrun, he, hselected, ⟨old, hreserved⟩, hpublishes,
        List.getElem?_set_self hlt, hi.holds (hok.live x (Or.inl rfl))⟩, .nil⟩

/-- **No selection leaks or misplaces a reservation.** A call with a guard has cancelled all of its reservations but the last,
which was held and on a published endpoint as the call came out of the loop; every other call has cancelled all of its
reservations, whether it goes around the loop or has failed; each queued reservation is held by one call; and what a guard
does is done to its own endpoint. -/
theorem dns_selection_never_leaks
    (h : Run (Step (dnsCache config refreshAfter evictAfterStale mode)) (empty clock) tr s) :
    (∀ (k : ℕ) x, s.serves[k]? = some (.guarded x) →
      (∃ old, reservationsOf k tr = old ++ [(x.endpoint.state, x.reservation)] ∧ s.Gone (callsOf k tr) old) ∧
      ∃ tr₁ tr₂ m m', tr = tr₁ ++ (.task k .recheck, .silent) :: tr₂ ∧
        Leaves (dnsCache config refreshAfter evictAfterStale mode) clock k x tr₁ m m' ∧
        Run (Step (dnsCache config refreshAfter evictAfterStale mode)) m' tr₂ s) ∧
    (∀ (k : ℕ) (p : Serve), s.serves[k]? = some p → p.holds? = none → s.Gone (callsOf k tr) (reservationsOf k tr)) ∧
    (∀ y, s.Holds y → ∃ (k : ℕ) (p : Serve) (i : ℕ), s.serves[k]? = some p ∧ p.holds? = some (y.1, i) ∧
      s.requestAt (y.1, i) = some (.reserved y.2) ∧
      ∀ (k' : ℕ) (p' : Serve), s.serves[k']? = some p' → p'.holds? = some (y.1, i) → k' = k) ∧
    ∀ (k : ℕ) x action report s', s.serves[k]? = some (.guarded x) →
      Step (dnsCache config refreshAfter evictAfterStale mode) s (.task k action, report) s' →
      (∀ c ∈ report.calls, c.1 = x.endpoint.state) ∧ ∀ y, y ≠ x.endpoint.state → s'.states[y]? = s.states[y]? := by
  have hi := run_inv h
  refine ⟨fun k x hp => ⟨?_, run_leaves h hp⟩, fun k p hp hnone => ?_, ?_, ?_⟩
  · exact (hi.serves k _ hp).history
  · exact (hi.serves k p hp).gone (Option.map_eq_none_iff.mp hnone)
  · rintro ⟨x, r⟩ ⟨state, hstate, hholds⟩
    obtain ⟨i, hrequest⟩ := (hi.reached x state hstate).held hholds
    have hrequest : s.requestAt (x, i) = some (.reserved r) := by
      unfold requestAt
      rw [hstate]
      exact hrequest
    obtain ⟨k, p, hp, hy⟩ := hi.owned _ _ hrequest nofun
    exact ⟨k, p, i, hp, hy, hrequest, fun k' p' hp' hy' => hi.apart k' k p' p _ hp' hp hy' hy⟩
  · intro k x action report s' hp he
    cases exec_move he with
    | guard hp' hlabel ho =>
      cases hp.symm.trans hp'
      have hrequest := ServeAction.label?_request hlabel
      obtain ⟨before, ev, after, -, -, rfl, -, hstates, -, -⟩ :=
        operate_keeps hi.sound hi.reached (Or.inr (Or.inr ⟨_, hrequest⟩)) ho
      refine ⟨fun c hc => ?_, fun y hy => ?_⟩
      · obtain ⟨e, -, rfl⟩ := List.mem_map.mp hc
        rfl
      · rw [hstates, List.getElem?_set_ne hy.symm]
    | goto hp' hg =>
      cases hp.symm.trans hp'
      cases hg
    | reserve hp' _ _ => cases hp.symm.trans hp'
    | reject hp' _ => cases hp.symm.trans hp'
    | cancel hp' _ => cases hp.symm.trans hp'

end

end

/-! ## A superseded selection -/

/-- Runs the labels in order. -/
def play (d : Dns.DnsCache T (R × ℕ) (Endpoint T F R)) (s : Balancer T F R) :
    List (BalancerLabel T F R (R × ℕ)) → Option (List (BalancerLabel T F R (R × ℕ) × Report T F R) × Balancer T F R)
  | [] => some ([], s)
  | l :: rest => do
    let (report, m) ← s.exec d l
    let (tr, s') ← play d m rest
    some ((l, report) :: tr, s')

theorem play_run {d : Dns.DnsCache T (R × ℕ) (Endpoint T F R)} {labels : List (BalancerLabel T F R (R × ℕ))}
    {tr : List (BalancerLabel T F R (R × ℕ) × Report T F R)} (h : play d s labels = some (tr, s')) :
    Run (Step d) s tr s' := by
  induction labels generalizing s tr with
  | nil =>
    cases h
    exact .nil
  | cons l rest ih =>
    simp only [play, Option.bind_eq_bind, Option.bind_eq_some_iff] at h
    obtain ⟨⟨report, m⟩, he, ⟨tr', s''⟩, hr, h⟩ := h
    cases h
    exact .cons he (ih hr)

/-- The default ages, in nanoseconds. -/
def sampleDns : Dns.DnsCache ℕ (ℕ × ℕ) (Endpoint ℕ ℚ ℕ) := dnsCache sampleConfig 30000000000 300000000000 .dual

/-- A task of the cache in `resolve`, with answers of version 4, up to the publication. -/
def resolving (i : ℕ) (v4 : List (Option (Fin (2 ^ 32)))) : List (BalancerLabel ℕ ℚ ℕ (ℕ × ℕ)) :=
  .cache (.task i (.answer ⟨v4, [none]⟩)) :: v4.mapIdx (fun n _ => .cache (.task i (.endpoint (n, n)))) ++
    [.cache (.task i .stamp), .cache (.task i .store)]

/-- A call reserves on the first of two endpoints, which a refresh then drops; it cancels, and comes out of the loop with the
second. -/
def superseding : List (BalancerLabel ℕ ℚ ℕ (ℕ × ℕ)) :=
  [.serve, .cache (.task 0 .get), .cache (.task 0 .tryGetWith)] ++ resolving 0 [some 1, some 2] ++
  [.task 0 .found, .task 0 .load, .task 0 (.reserve 0 0), .cache (.tick 40000000000), .cache .lookup, .cache (.task 1 .get),
    .cache (.task 1 .load), .cache (.task 1 .measure), .cache (.task 1 .spawnRefresh), .cache (.task 2 .loadPrevious)] ++
  resolving 2 [some 2] ++
  [.task 0 .recheck, .task 0 .cancel, .task 0 .load, .task 0 (.reserve 0 0), .task 0 .recheck]

theorem dns_selection_never_leaks_superseded : ∃ tr s, Run (Step sampleDns) (empty 0) tr s ∧
    s.serves = [.guarded ⟨0, ⟨.v4 2, 1⟩, ⟨1, 0⟩, 0⟩] ∧ reservationsOf 0 tr = [(0, ⟨0, 0⟩), (1, ⟨1, 0⟩)] ∧
    s.Gone (callsOf 0 tr) [(0, ⟨0, 0⟩)] := by
  have hp : (play sampleDns (empty 0) superseding).any (fun x =>
      decide (x.2.serves = [.guarded ⟨0, ⟨.v4 2, 1⟩, ⟨1, 0⟩, 0⟩] ∧ reservationsOf 0 x.1 = [(0, ⟨0, 0⟩), (1, ⟨1, 0⟩)])) =
      true := by decide +kernel
  obtain ⟨⟨tr, s⟩, hplay, hres⟩ := (Option.any_eq_true _ _).mp hp
  obtain ⟨hserves, hreserved⟩ := of_decide_eq_true hres
  have hrun := play_run hplay
  obtain ⟨⟨old, hold, hgone⟩, -⟩ := (dns_selection_never_leaks hrun).1 0 _ (by rw [hserves]; rfl)
  obtain rfl : old = [(0, ⟨0, 0⟩)] := List.append_inj_left' (hold.symm.trans hreserved) rfl
  exact ⟨tr, s, hrun, hserves, hreserved, hgone⟩

end Balancer

end Loadpace.Rama
