import Loadpace.Adapter.Pairs
import Loadpace.Dns.Invariants
import Mathlib.Data.Option.Basic

/-!
# The DNS balancer (`loadpace-rama/src/dns.rs`)

Any number of calls of `AdaptiveDnsLoadBalancer::serve` at one hostname and port, over the cache with its lookups and
refreshes. A call looks its entry up, and then selects: it loads the current snapshot, reserves on one of two endpoints, and
checks that the endpoint is still in the snapshot, or else cancels and starts over. `reserveP2c_exec`: to each endpoint,
`reserve_p2c` is a step of the adapter. `exec_move` says once what a step can do. `reserve_p2c` gets a `now()` that is read
before it locks: the model takes the instant of its turn at the locks, as for the steps of `RequestGuard`.
-/

namespace Loadpace.Rama

open EndpointController Systems

/-! ## The state -/

/-- A reservation of a call: the entry it is for, the endpoint, the token, and the request of the endpoint that holds it. -/
structure Selected where
  entry : ℕ
  endpoint : Dns.Endpoint
  reservation : DispatchReservation
  request : ℕ
  deriving DecidableEq

/-- Where a call of `serve` is. -/
inductive Serve
  /-- In `lookup`, which is a task of the cache. -/
  | lookup (task : ℕ)
  /-- At the top of the loop. -/
  | selecting (entry : ℕ)
  /-- The current snapshot is loaded. -/
  | loaded (entry : ℕ) (endpoints : List Dns.Endpoint)
  /-- `reserve_p2c` has returned. -/
  | selected (x : Selected)
  /-- The endpoint has disappeared: about to cancel. -/
  | superseded (x : Selected)
  /-- Out of the loop, with a `RequestGuard`. -/
  | guarded (x : Selected)
  /-- `DnsServiceError::Rejected`. -/
  | rejected
  /-- `DnsServiceError::Discovery`. -/
  | discovery
  /-- The future was dropped in `lookup`. -/
  | dropped
  deriving DecidableEq

/-- The balancer at one hostname and port. -/
structure Balancer (T F R : Type) where
  cache : Dns.State T (Endpoint T F R)
  serves : List Serve

/-- One step of a call. -/
inductive ServeAction
  | found
  | load
  /-- `reserve_p2c`, with what the random generator draws. -/
  | reserve (firstIndex secondIndex : ℕ)
  | recheck
  | cancel
  | run
  /-- The future of the wrapped service completes. -/
  | respond (ok : Bool)
  /-- The future is dropped, or the wrapped service panics in it. -/
  | drop

inductive BalancerLabel (T F R S : Type)
  /-- A step of the cache. -/
  | cache (label : Dns.Label T S (Endpoint T F R))
  | serve
  | task (k : ℕ) (action : ServeAction)
  | snapshot (state : ℕ)
  | notifyDispatch (state : ℕ)

namespace BalancerLabel

variable {T F R S : Type}

/-- The call that a step is of. -/
def serve? : BalancerLabel T F R S → Option ℕ
  | .task k _ => some k
  | _ => none

/-- The step of the cache is an operation on an endpoint state; the calls make those. -/
def operates : Dns.Label T S (Endpoint T F R) → Bool
  | .task _ (.withController _ _) => true
  | _ => false

end BalancerLabel

/-- What a step did: the reservation it made, and the other calls on controllers. -/
structure Report (T F R : Type) where
  reserved : Option (ℕ × DispatchReservation)
  calls : List (ℕ × Entry T F R)

def Report.silent {T F R : Type} : Report T F R := { reserved := none, calls := [] }

namespace Serve

/-- The reservation of a call. -/
def selected? : Serve → Option Selected
  | .selected x | .superseded x | .guarded x => some x
  | _ => none

/-- The reservation that a call holds, and the endpoint state that it is on. -/
def reservation? (p : Serve) : Option (ℕ × DispatchReservation) :=
  p.selected?.map fun x => (x.endpoint.state, x.reservation)

/-- The request that holds it. -/
def holds? (p : Serve) : Option (ℕ × ℕ) := p.selected?.map fun x => (x.endpoint.state, x.request)

def entry? : Serve → Option ℕ
  | .selecting e | .loaded e _ => some e
  | p => p.selected?.map Selected.entry

end Serve

/-- What a call with a guard does to the request of its guard. -/
def ServeAction.label? {T : Type} (request : ℕ) : ServeAction → Option (Label T)
  | .run => some (.run request)
  | .respond ok => some (.respond request ok)
  | .drop => some (.drop request)
  | _ => none

/-! ## The steps -/

section

variable {T F R S : Type}

/-- An endpoint at an instant. -/
def Endpoint.at (s : Endpoint T F R) (now : T) : Endpoint T F R := { s with clock := now }

/-- The cache of a balancer: each endpoint state has a fresh controller. -/
def dnsCache [AddCommMonoid T] [LinearOrder T] [Sub T] [Time T] [F64 F] [Secs T F] [Rng R F] (config : EndpointConfig T)
    (refreshAfter evictAfterStale : T) (mode : Dns.DnsResolveIpMode) : Dns.DnsCache T (R × ℕ) (Endpoint T F R) where
  newState now seed :=
    (EndpointController.newWithRng config now seed.1 seed.2).map fun controller => (system T F R).start controller now
  refreshAfter
  evictAfterStale
  mode

/-- A reservation on the endpoint. -/
def Endpoint.accept (s : Endpoint T F R) (reservation : DispatchReservation) : Endpoint T F R :=
  { s with requests := s.requests ++ [⟨.reserved reservation, .waiting .away⟩] }

namespace Balancer

/-- The endpoint states, at the instant of the cache. -/
def states (s : Balancer T F R) : List (Endpoint T F R) := s.cache.states.map fun state => state.at s.cache.clock

def setStates (s : Balancer T F R) (states : List (Endpoint T F R)) : Balancer T F R :=
  { s with cache := { s.cache with states } }

/-- A call moves. -/
def goto (s : Balancer T F R) (k : ℕ) (p : Serve) : Balancer T F R := { s with serves := s.serves.set k p }

variable [AddCommMonoid T] [LinearOrder T] [Sub T] [Time T] [F64 F] [Secs T F] [Rng R F]

/-- A step of an endpoint. -/
def operate (s : Balancer T F R) (state : ℕ) (label : Label T) : Option (Report T F R × Balancer T F R) := do
  let before ← s.states[state]?
  let (event, after) ← before.exec label
  some ({ reserved := none, calls := event.entries.map fun e => (state, e) }, s.setStates (s.states.set state after))

/-- `reserve_p2c` on the endpoint states that have been made, at the instant of its turn at the locks. -/
def reserve (s : Balancer T F R) (endpoints : List Dns.Endpoint) (firstIndex secondIndex : ℕ) :
    Option (Except ScheduleError (Dns.Endpoint × DispatchReservation) × List (Endpoint T F R)) := do
  let fallback ← s.states.head?
  let (result, states) ←
    reserveP2c (fun x => s.states.getD x fallback) endpoints firstIndex secondIndex s.cache.clock
  some (result, (List.range s.states.length).map states)

/-- `AdaptiveDnsLoadBalancer::serve` from the lookup on, from one access to what the calls share to the next. -/
def act (s : Balancer T F R) (k : ℕ) : ServeAction → Serve → Option (Report T F R × Balancer T F R)
  | .found, .lookup task =>
    match s.cache.tasks[task]? with
    | some (.served e _) => some (.silent, s.goto k (.selecting e))
    | some .failed => some (.silent, s.goto k .discovery)
    | _ => none
  | .load, .selecting e => do
    let entry ← s.cache.entries[e]?
    some (.silent, s.goto k (.loaded e entry.current.endpoints))
  | .reserve firstIndex secondIndex, .loaded e endpoints => do
    let (result, states) ← s.reserve endpoints firstIndex secondIndex
    match result with
    | .ok (endpoint, reservation) =>
      let state ← states[endpoint.state]?
      some ({ reserved := some (endpoint.state, reservation), calls := [] },
        (s.setStates (states.set endpoint.state (state.accept reservation))).goto k
          (.selected { entry := e, endpoint, reservation, request := state.requests.length }))
    | .error _ => some (.silent, (s.setStates states).goto k .rejected)
  | .recheck, .selected x => do
    let entry ← s.cache.entries[x.entry]?
    -- `Arc::ptr_eq`: an endpoint is the one with its state
    if entry.current.endpoints.any fun candidate => candidate.state = x.endpoint.state then
      some (.silent, s.goto k (.guarded x))
    else
      some (.silent, s.goto k (.superseded x))
  | .cancel, .superseded x => do
    let (report, s) ← s.operate x.endpoint.state (.drop x.request)
    some (report, s.goto k (.selecting x.entry))
  | action, .guarded x => do
    let label ← action.label? x.request
    s.operate x.endpoint.state label
  | .drop, .lookup _ => some (.silent, s.goto k .dropped)
  | _, _ => none

def exec (d : Dns.DnsCache T S (Endpoint T F R)) (s : Balancer T F R) :
    BalancerLabel T F R S → Option (Report T F R × Balancer T F R)
  | .cache label => do
    guard (BalancerLabel.operates label = false)
    let cache ← s.cache.exec d label
    some (.silent, { s with cache })
  | .serve => do
    let cache ← s.cache.exec d .lookup
    some (.silent, { cache, serves := s.serves ++ [.lookup s.cache.tasks.length] })
  | .task k action => s.serves[k]?.bind (s.act k action)
  | .snapshot state => s.operate state (.snapshot)
  | .notifyDispatch state => s.operate state .notifyDispatch

end Balancer

/-! ## Reservations -/

section

variable [AddCommMonoid T] [LinearOrder T] [Sub T] [Time T] [F64 F] [Secs T F] [Rng R F]

/-- The labels of `reserve_p2c`. -/
def Label.Reserves (l : Label T) : Prop := l = .reserveOnly ∨ ∃ asked, l = .reservePair asked

namespace Endpoint

variable {s : Endpoint T F R} {first : Call T} {reply : Reply T F} {m m' : EndpointController T F R}

theorem reserveP2c_accept {reservation : DispatchReservation} (hm : s.controller.exec first = some (reply, m))
    (hr : m.reserve s.clock = (.ok reservation, m')) :
    ∃ ev, s.reserveP2c first = some (ev, (deliver store notifyChanges s m').accept reservation) := by
  have hexec : m.exec (.reserve s.clock) = some (.reserved (.ok reservation), m') := by
    rw [EndpointController.exec, hr]
    rfl
  simp only [reserveP2c, withController, perform, hm, hexec, Option.map_some, Option.bind_eq_bind, Option.bind_some]
  exact ⟨_, rfl⟩

theorem reserveP2c_reject {error : ScheduleError} (hm : s.controller.exec first = some (reply, m))
    (hr : m.reserve s.clock = (.error error, m')) :
    ∃ ev, s.reserveP2c first = some (ev, deliver store notifyChanges s m') := by
  have hexec : m.exec (.reserve s.clock) = some (.reserved (.error error), m') := by
    rw [EndpointController.exec, hr]
    rfl
  simp only [reserveP2c, withController, perform, hm, hexec, Option.map_some, Option.bind_eq_bind, Option.bind_some]
  exact ⟨_, rfl⟩

theorem read_load (hm : s.controller.exec (.load s.clock) = some (reply, m)) :
    ∃ ev, s.read (.load s.clock) = some (ev, deliver store notifyChanges s m) := by
  simp only [read, withController, perform, hm, Option.map_some, Option.bind_eq_bind, Option.bind_some]
  exact ⟨_, rfl⟩

end Endpoint

/-- An endpoint after a pair, with the request that holds the reservation if the endpoint is the chosen one. -/
def acceptedAs (choice : PairChoice) (result : Except ScheduleError (PairChoice × DispatchReservation))
    (s : Endpoint T F R) : Endpoint T F R :=
  match result with
  | .ok (chosen, reservation) => if chosen = choice then s.accept reservation else s
  | .error _ => s

/-- A label of `reserve_p2c` takes the one endpoint to the other. -/
def Serves (s s' : Endpoint T F R) : Prop := ∃ l ev, Label.Reserves l ∧ s.exec l = some (ev, s')

section

variable {a b : Endpoint T F R} {now : T} {result : Except ScheduleError (PairChoice × DispatchReservation)}
variable {m n m' n' : EndpointController T F R}

theorem reservePreferred_serves {x y : PairChoice} {reply reply' : Reply T F} (hne : x ≠ y) (ha : a.clock = now)
    (hb : b.clock = now) (hm : a.controller.exec (.load now) = some (reply, m))
    (hn : b.controller.exec (.load now) = some (reply', n))
    (h : reservePreferred x y m n now = (result, m', n')) :
    Serves a (acceptedAs x result (deliver Endpoint.store Endpoint.notifyChanges a m')) ∧
      Serves b (acceptedAs y result (deliver Endpoint.store Endpoint.notifyChanges b n')) := by
  subst ha
  rw [← hb] at hn
  unfold reservePreferred at h
  split at h
  · rename_i reservation p hr
    cases h
    obtain ⟨ev, he⟩ := Endpoint.reserveP2c_accept hm hr
    obtain ⟨ev', he'⟩ := Endpoint.read_load hn
    simp only [acceptedAs, if_true, if_neg hne]
    exact ⟨⟨.reservePair true, ev, Or.inr ⟨_, rfl⟩, he⟩, ⟨.reservePair false, ev', Or.inr ⟨_, rfl⟩, he'⟩⟩
  · rename_i p hr
    obtain ⟨ev, he⟩ := Endpoint.reserveP2c_reject hm hr
    split at h
    · rename_i reservation q hr'
      cases h
      rw [← hb] at hr'
      obtain ⟨ev', he'⟩ := Endpoint.reserveP2c_accept hn hr'
      simp only [acceptedAs, if_true, if_neg hne.symm]
      exact ⟨⟨.reservePair true, ev, Or.inr ⟨_, rfl⟩, he⟩, ⟨.reservePair true, ev', Or.inr ⟨_, rfl⟩, he'⟩⟩
    · rename_i q hr'
      cases h
      rw [← hb] at hr'
      obtain ⟨ev', he'⟩ := Endpoint.reserveP2c_reject hn hr'
      exact ⟨⟨.reservePair true, ev, Or.inr ⟨_, rfl⟩, he⟩, ⟨.reservePair true, ev', Or.inr ⟨_, rfl⟩, he'⟩⟩

theorem reservePair_serves (ha : a.clock = now) (hb : b.clock = now)
    (h : reservePair a.controller b.controller now = some (result, m', n')) :
    Serves a (acceptedAs .first result (deliver Endpoint.store Endpoint.notifyChanges a m')) ∧
      Serves b (acceptedAs .second result (deliver Endpoint.store Endpoint.notifyChanges b n')) := by
  unfold reservePair at h
  simp only [Option.bind_eq_bind, Option.bind_eq_some_iff] at h
  obtain ⟨⟨firstLoad, m⟩, hm, ⟨secondLoad, n⟩, hn, h⟩ := h
  have hm : a.controller.exec (.load now) = some (.load firstLoad, m) := by
    rw [EndpointController.exec, hm]
    rfl
  have hn : b.controller.exec (.load now) = some (.load secondLoad, n) := by
    rw [EndpointController.exec, hn]
    rfl
  dsimp only at h
  split at h
  · exact reservePreferred_serves (by decide) ha hb hm hn (Option.some.inj h)
  · obtain ⟨rfl, rfl, rfl⟩ := Option.some.inj h
    exact (reservePreferred_serves (by decide) hb ha hn hm rfl).symm

end

/-- An endpoint after `reserve_p2c`, with the request that holds the reservation. -/
def accepted (result : Except ScheduleError (Dns.Endpoint × DispatchReservation)) (states : ℕ → Endpoint T F R) (x : ℕ) :
    Endpoint T F R :=
  match result with
  | .ok (endpoint, reservation) => if endpoint.state = x then (states x).accept reservation else states x
  | .error _ => states x

/-- The endpoints that a pair is drawn from are distinct. -/
theorem sampled_ne {endpoints : List Dns.Endpoint} {i j : ℕ} {a b : Dns.Endpoint}
    (hdistinct : (endpoints.map (·.state)).Nodup) (ha : endpoints[i]? = some a)
    (hb : endpoints[if i ≤ j then j + 1 else j]? = some b) : a.state ≠ b.state := by
  intro hstate
  have ha' : (endpoints.map (·.state))[i]? = some a.state := by rw [List.getElem?_map, ha]; rfl
  have hb' : (endpoints.map (·.state))[if i ≤ j then j + 1 else j]? = some a.state := by
    rw [List.getElem?_map, hb, hstate]
    rfl
  have hlt : i < (endpoints.map (·.state)).length := (List.getElem?_eq_some_iff.mp ha').1
  have hij := (List.getElem?_inj hlt hdistinct).mp (ha'.trans hb'.symm)
  split at hij <;> omega

/-- The draws of a pair. -/
theorem reserveP2c_sampled {states : ℕ → Endpoint T F R} {endpoints : List Dns.Endpoint} {i j : ℕ} {now : T}
    {x : Except ScheduleError (Dns.Endpoint × DispatchReservation) × (ℕ → Endpoint T F R)}
    (hlen : endpoints.length ≠ 1) (h : reserveP2c states endpoints i j now = some x) :
    ∃ a b, j < endpoints.length - 1 ∧ endpoints[i]? = some a ∧ endpoints[if i ≤ j then j + 1 else j]? = some b := by
  unfold reserveP2c at h
  split at h
  · exact absurd rfl hlen
  · simp only [Option.bind_eq_bind, Option.bind_eq_some_iff, Option.guard_eq_some'] at h
    obtain ⟨-, hj, a, ha, b, hb, -⟩ := h
    exact ⟨a, b, hj, ha, hb⟩

omit [AddCommMonoid T] [LinearOrder T] [Sub T] [Time T] [F64 F] [Secs T F] [Rng R F] in
theorem deliver_requests (s : Endpoint T F R) (controller : EndpointController T F R) :
    (deliver Endpoint.store Endpoint.notifyChanges s controller).requests = s.requests := rfl

omit [AddCommMonoid T] [LinearOrder T] [Sub T] [Time T] [F64 F] [Secs T F] [Rng R F] in
theorem update_requests {s : Endpoint T F R} (states : ℕ → Endpoint T F R) (y : ℕ)
    (h : s.requests = (states y).requests) (x : ℕ) : (Function.update states y s x).requests = (states x).requests := by
  by_cases hx : x = y
  · rw [hx, Function.update_self, h]
  · rw [Function.update_of_ne hx]

/-- **What `reserve_p2c` does**: it is a step of the adapter to the endpoints that it samples, and reserves on one of them. -/
theorem reserveP2c_serves {states states' : ℕ → Endpoint T F R} {endpoints : List Dns.Endpoint} {i j : ℕ} {now : T}
    {result : Except ScheduleError (Dns.Endpoint × DispatchReservation)} (hclock : ∀ x, (states x).clock = now)
    (hdistinct : (endpoints.map (·.state)).Nodup) (h : reserveP2c states endpoints i j now = some (result, states')) :
    (∀ a reservation, result = .ok (a, reservation) → a ∈ endpoints) ∧
      (∀ x, (states' x).requests = (states x).requests) ∧
      ∀ x, accepted result states' x = states x ∨ Serves (states x) (accepted result states' x) := by
  by_cases hlen : endpoints.length = 1
  · obtain ⟨a, rfl⟩ := List.length_eq_one_iff.mp hlen
    simp only [reserveP2c, Option.bind_eq_bind, Option.bind_eq_some_iff] at h
    obtain ⟨m, hm, h⟩ := h
    obtain ⟨hresult, rfl⟩ := Prod.mk.inj (Option.some.inj h)
    have hexec : (states a.state).controller.exec (.refresh (states a.state).clock) = some (.done, m) := by
      rw [hclock, EndpointController.exec, hm]
      rfl
    cases hr : m.reserve now with
    | mk res m' =>
      rw [hr] at hresult
      subst hresult
      have hr' : m.reserve (states a.state).clock = (res, m') := by rw [hclock, hr]
      refine ⟨?_, update_requests states a.state (deliver_requests _ _), fun x => ?_⟩
      · intro b reservation hb
        cases res with
        | error error => cases hb
        | ok r =>
          cases hb
          exact List.mem_singleton.mpr rfl
      · by_cases hx : x = a.state
        · subst hx
          right
          cases res with
          | error error =>
            obtain ⟨ev, he⟩ := Endpoint.reserveP2c_reject hexec hr'
            refine ⟨.reserveOnly, ev, Or.inl rfl, ?_⟩
            simp only [accepted, Except.map, Function.update_self]
            exact he
          | ok r =>
            obtain ⟨ev, he⟩ := Endpoint.reserveP2c_accept hexec hr'
            refine ⟨.reserveOnly, ev, Or.inl rfl, ?_⟩
            simp only [accepted, Except.map, if_true, Function.update_self]
            exact he
        · left
          cases res with
          | error error => exact Function.update_of_ne hx ..
          | ok r =>
            simp only [accepted, Except.map, if_neg (Ne.symm hx)]
            exact Function.update_of_ne hx ..
  · obtain ⟨a, b, hj, ha, hb⟩ := reserveP2c_sampled hlen h
    have hne := sampled_ne hdistinct ha hb
    rw [reserveP2c_eq states now hj ha hb hne] at h
    obtain ⟨⟨res, m, n⟩, hpair, h⟩ := Option.map_eq_some_iff.mp h
    obtain ⟨rfl, rfl⟩ := Prod.mk.inj h
    obtain ⟨hserves, hserves'⟩ := reservePair_serves (hclock a.state) (hclock b.state) hpair
    refine ⟨?_, fun x => ?_, fun x => ?_⟩
    · intro c reservation hc
      cases res with
      | error error => cases hc
      | ok r =>
        obtain ⟨choice, token⟩ := r
        cases hc
        cases choice with
        | first => exact List.mem_of_getElem? ha
        | second => exact List.mem_of_getElem? hb
    · have hfirst := update_requests states a.state (deliver_requests (states a.state) m)
      exact (update_requests _ b.state ((deliver_requests _ _).trans (hfirst b.state).symm) x).trans (hfirst x)
    · by_cases hxb : x = b.state
      · subst hxb
        right
        convert hserves' using 1
        rcases res with error | ⟨choice, token⟩
        · simp only [accepted, acceptedAs, Except.map, Function.update_self]
        · cases choice <;> simp [accepted, acceptedAs, Except.map, PairChoice.of, hne]
      · by_cases hxa : x = a.state
        · subst hxa
          right
          convert hserves using 1
          rcases res with error | ⟨choice, token⟩
          · simp only [accepted, acceptedAs, Except.map, Function.update_of_ne hne, Function.update_self]
          · cases choice <;> simp [accepted, acceptedAs, Except.map, PairChoice.of, hne, hne.symm]
        · left
          rcases res with error | ⟨choice, token⟩
          · simp only [accepted, Except.map, Function.update_of_ne hxb, Function.update_of_ne hxa]
          · cases choice <;> simp [accepted, Except.map, PairChoice.of, hxa, hxb, Ne.symm hxa, Ne.symm hxb]

end

/-! ## Moves -/

namespace Balancer

variable [AddCommMonoid T] [LinearOrder T] [Sub T] [Time T] [F64 F] [Secs T F] [Rng R F]

/-- The endpoint state is in the snapshot that the entry publishes. -/
def Publishes (s : Balancer T F R) (e state : ℕ) : Prop :=
  ∃ entry, s.cache.entries[e]? = some entry ∧ ∃ a ∈ entry.current.endpoints, a.state = state

/-- The steps that only move the call. -/
inductive Goes (s : Balancer T F R) : ServeAction → Serve → Serve → Prop
  | found {task e : ℕ} {seen : List (Dns.ResolvedSnapshot T)} : s.cache.tasks[task]? = some (.served e seen) →
      Goes s .found (.lookup task) (.selecting e)
  | fail {task : ℕ} : s.cache.tasks[task]? = some .failed → Goes s .found (.lookup task) .discovery
  | load {e : ℕ} {entry : Dns.HostEntry T} : s.cache.entries[e]? = some entry →
      Goes s .load (.selecting e) (.loaded e entry.current.endpoints)
  | keep {x : Selected} : s.Publishes x.entry x.endpoint.state → Goes s .recheck (.selected x) (.guarded x)
  | supersede {x : Selected} : ¬s.Publishes x.entry x.endpoint.state → Goes s .recheck (.selected x) (.superseded x)
  | drop {task : ℕ} : Goes s .drop (.lookup task) .dropped

/-- **What a step can do.** -/
inductive Move (d : Dns.DnsCache T S (Endpoint T F R)) (s : Balancer T F R) :
    BalancerLabel T F R S → Report T F R → Balancer T F R → Prop
  | cache {label : Dns.Label T S (Endpoint T F R)} {cache : Dns.State T (Endpoint T F R)} :
      BalancerLabel.operates label = false → Dns.Move d s.cache label cache →
      Move d s (.cache label) .silent { s with cache }
  | serve {cache : Dns.State T (Endpoint T F R)} : Dns.Move d s.cache .lookup cache →
      Move d s .serve .silent { cache, serves := s.serves ++ [.lookup s.cache.tasks.length] }
  | goto {k : ℕ} {action : ServeAction} {p p' : Serve} : s.serves[k]? = some p → Goes s action p p' →
      Move d s (.task k action) .silent (s.goto k p')
  | reserve {k i j e : ℕ} {endpoints : List Dns.Endpoint} {a : Dns.Endpoint} {r : DispatchReservation}
      {states : List (Endpoint T F R)} {state : Endpoint T F R} : s.serves[k]? = some (.loaded e endpoints) →
      s.reserve endpoints i j = some (.ok (a, r), states) → states[a.state]? = some state →
      Move d s (.task k (.reserve i j)) { reserved := some (a.state, r), calls := [] }
        ((s.setStates (states.set a.state (state.accept r))).goto k (.selected ⟨e, a, r, state.requests.length⟩))
  | reject {k i j e : ℕ} {endpoints : List Dns.Endpoint} {error : ScheduleError} {states : List (Endpoint T F R)} :
      s.serves[k]? = some (.loaded e endpoints) → s.reserve endpoints i j = some (.error error, states) →
      Move d s (.task k (.reserve i j)) .silent ((s.setStates states).goto k .rejected)
  | cancel {k : ℕ} {x : Selected} {report : Report T F R} {s' : Balancer T F R} : s.serves[k]? = some (.superseded x) →
      s.operate x.endpoint.state (.drop x.request) = some (report, s') →
      Move d s (.task k .cancel) report (s'.goto k (.selecting x.entry))
  | guard {k : ℕ} {action : ServeAction} {x : Selected} {label : Label T} {report : Report T F R} {s' : Balancer T F R} :
      s.serves[k]? = some (.guarded x) → action.label? x.request = some label →
      s.operate x.endpoint.state label = some (report, s') → Move d s (.task k action) report s'
  | snapshot {x : ℕ} {report : Report T F R} {s' : Balancer T F R} : s.operate x .snapshot = some (report, s') →
      Move d s (.snapshot x) report s'
  | notifyDispatch {x : ℕ} {report : Report T F R} {s' : Balancer T F R} :
      s.operate x .notifyDispatch = some (report, s') → Move d s (.notifyDispatch x) report s'

variable {d : Dns.DnsCache T S (Endpoint T F R)} {s s' : Balancer T F R} {report : Report T F R} {k : ℕ} {p : Serve}

theorem act_move {action : ServeAction} (hp : s.serves[k]? = some p) (h : s.act k action p = some (report, s')) :
    Move d s (.task k action) report s' := by
  unfold act at h
  split at h
  · split at h
    · rename_i htask
      cases h
      exact .goto hp (.found htask)
    · rename_i htask
      cases h
      exact .goto hp (.fail htask)
    · cases h
  · simp only [Option.bind_eq_bind, Option.bind_eq_some_iff] at h
    obtain ⟨entry, he, h⟩ := h
    cases h
    exact .goto hp (.load he)
  · simp only [Option.bind_eq_bind, Option.bind_eq_some_iff] at h
    obtain ⟨⟨result, states⟩, hr, h⟩ := h
    dsimp only at h
    split at h
    · simp only [Option.bind_eq_some_iff] at h
      obtain ⟨state, hstate, h⟩ := h
      cases h
      exact .reserve hp hr hstate
    · cases h
      exact .reject hp hr
  · simp only [Option.bind_eq_bind, Option.bind_eq_some_iff] at h
    obtain ⟨entry, he, h⟩ := h
    split at h
    · rename_i hany
      cases h
      obtain ⟨a, ha, hstate⟩ := List.any_eq_true.mp hany
      exact .goto hp (.keep ⟨entry, he, a, ha, of_decide_eq_true hstate⟩)
    · rename_i hany
      cases h
      refine .goto hp (.supersede ?_)
      rintro ⟨entry', he', a, ha, hstate⟩
      cases he.symm.trans he'
      exact hany (List.any_eq_true.mpr ⟨a, ha, decide_eq_true hstate⟩)
  · simp only [Option.bind_eq_bind, Option.bind_eq_some_iff] at h
    obtain ⟨⟨report', s₁⟩, ho, h⟩ := h
    cases h
    exact .cancel hp ho
  · simp only [Option.bind_eq_bind, Option.bind_eq_some_iff] at h
    obtain ⟨label, hlabel, ho⟩ := h
    exact .guard hp hlabel ho
  · cases h
    exact .goto hp .drop
  · cases h

theorem exec_move {l : BalancerLabel T F R S} (h : s.exec d l = some (report, s')) : Move d s l report s' := by
  cases l with
  | cache label =>
    simp only [exec, Option.bind_eq_bind, Option.bind_eq_some_iff, Option.guard_eq_some'] at h
    obtain ⟨-, hlabel, cache, he, h⟩ := h
    cases h
    exact .cache hlabel (Dns.exec_move he)
  | serve =>
    simp only [exec, Option.bind_eq_bind, Option.bind_eq_some_iff] at h
    obtain ⟨cache, he, h⟩ := h
    cases h
    exact .serve (Dns.exec_move he)
  | task k action =>
    obtain ⟨p, hp, ha⟩ := Option.bind_eq_some_iff.mp h
    exact act_move hp ha
  | snapshot x => exact .snapshot h
  | notifyDispatch x => exact .notifyDispatch h

end Balancer

end

end Loadpace.Rama
