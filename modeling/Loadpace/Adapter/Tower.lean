import Loadpace.Adapter.System

/-!
# The Tower adapter (`loadpace-tower`)

One owner polls an `AdaptiveEndpoint` for readiness and calls it; each call returns a future that waits for its dispatch,
takes the lock of the wrapped service, waits for that service, and dispatches. An error of the wrapped service's readiness
closes the endpoint. `exec_move` says once what a step can do: the futures `Jump` from place to place, and a `Move` is a jump
or a turn at the controller's lock.

The instant of a step is that of the clock when it has the controller's lock. `PendingRequest` reads `now()` for `finish` before
it locks: the model assumes that no turn at a later instant comes in between. A panic under the lock ends the run.
-/

namespace Loadpace.Tower

open Systems EndpointController Notify

/-- `std::task::Poll`. -/
inductive Poll (α : Type)
  | ready (value : α)
  | pending

inductive RequestState (T : Type)
  | queued (reservation : DispatchReservation)
  | inFlight (request : InFlightRequest T)
  | finished

/-- The two callers of `wait_until_dispatchable`. -/
inductive Caller
  | execute
  | start
  deriving DecidableEq

/-- How the future of a request ends. -/
inductive Outcome (E : Type)
  | response (ok : Bool)
  | failed (error : E)
  | dropped

/-- Where the future of a request is. -/
inductive Place (T E : Type)
  /-- In the loop of `wait_until_dispatchable`. -/
  | waiting (caller : Caller) (wait : Wait (Option T))
  /-- `start` waits for the service lock. -/
  | locking
  /-- `start` has the service lock, and is to look at `failed`. -/
  | locked
  /-- `start` polls the wrapped service. -/
  | polling
  /-- `start` is to call `on_dispatched`. -/
  | dispatching
  /-- `start` is to call the wrapped service. -/
  | calling
  /-- In the future of the wrapped service. -/
  | responding
  /-- `start` has failed, and is to give up the service lock. -/
  | leaving (error : E)
  /-- `execute` is to release the request and to return the error. -/
  | failing (completion : Completion) (error : E)
  /-- The locals of a dropped future are gone, and its request is to go. -/
  | dropping
  | returned (outcome : Outcome E)

/-- `dispatch.notify_waiters`, as the place sees it. -/
def Place.notify {T E : Type} : Place T E → Place T E
  | .waiting caller wait => .waiting caller wait.notify
  | place => place

/-- The future of a request, with the state of its `PendingRequest`. -/
structure Request (T E : Type) where
  state : RequestState T
  place : Place T E

/-- What the controller's lock guards; a waker is known by a number. -/
structure ControllerState (T F R E : Type) where
  controller : EndpointController T F R
  admissionWaker : Option ℕ
  failed : Option E

namespace ControllerState

variable {T F R E : Type}

def pollAdmission (state : ControllerState T F R E) (waker : ℕ) : Poll Unit × ControllerState T F R E :=
  if state.controller.maySchedule then
    (.ready (), { state with admissionWaker := none })
  else if state.admissionWaker.all (· ≠ waker) then
    (.pending, { state with admissionWaker := some waker })
  else
    (.pending, state)

def takeAdmissionWaker (state : ControllerState T F R E) : Option ℕ × ControllerState T F R E :=
  (state.admissionWaker, { state with admissionWaker := none })

end ControllerState

structure Endpoint (T F R E : Type) where
  shared : ControllerState T F R E
  clock : T
  /-- The admission wakers that were taken and are still to be woken. -/
  wakes : List ℕ
  /-- The calls of `dispatch.notify_waiters` that are still to be made. -/
  dispatch : ℕ
  /-- The request that holds the lock of the wrapped service. -/
  service : Option ℕ
  requests : List (Request T E)
  /-- The futures that `call` has made of a closed endpoint: what each returns at once. -/
  refusals : List (Outcome E)
  /-- The task that waits for admission by its waker, and whether it was woken. -/
  poller : Option (ℕ × Bool)

inductive Label (T E : Type)
  | tick (now : T)
  | snapshot
  | loadMetric
  | pollReady (waker : ℕ)
  | call
  | run (i : ℕ)
  /-- `start` polls the wrapped service, with this result. -/
  | pollInner (i : ℕ) (result : Poll (Except E Unit))
  /-- The future of the wrapped service completes. -/
  | respond (i : ℕ) (ok : Bool)
  /-- A future that is dropped, or that panics, drops its locals, and with them the service lock. -/
  | unwind (i : ℕ)
  /-- A future that is dropped, or that panics, drops its `PendingRequest`. -/
  | drop (i : ℕ)
  | wake (waker : ℕ)
  | notifyDispatch

namespace Endpoint

variable {T F R E : Type} [AddCommMonoid T] [LinearOrder T] [Sub T] [Time T] [F64 F] [Secs T F] [Rng R F]

/-- The end of `Shared::with_controller`. -/
def release (s : Endpoint T F R E) (e : Entry T F R) : Endpoint T F R E :=
  let (changes, controller) := e.after.takeChanges
  let shared := { s.shared with controller }
  let (waker, shared) := if changes.admission then shared.takeAdmissionWaker else (none, shared)
  { s with shared, wakes := s.wakes ++ waker.toList, dispatch := s.dispatch + changes.dispatch.toNat }

/-- `Shared::with_controller` with one call. -/
def withController (s : Endpoint T F R E) (call : Call T) : Option (Entry T F R × Endpoint T F R E) := do
  let e ← perform s.shared.controller call
  some (e, s.release e)

/-- A metric read. -/
def read (s : Endpoint T F R E) (call : Call T) : Option (Event T F R × Endpoint T F R E) := do
  let (e, s) ← s.withController call
  some ({ who := none, entries := [e], dropped := ControllerChanges.none }, s)

/-- `AdaptiveEndpoint::poll_ready`. -/
def pollReady (s : Endpoint T F R E) (waker : ℕ) : Poll (Except E Unit) × Endpoint T F R E :=
  match s.shared.failed with
  | some error => (.ready (.error error), { s with poller := none })
  | none =>
    match s.shared.pollAdmission waker with
    | (.ready (), shared) => (.ready (.ok ()), { s with shared, poller := none })
    | (.pending, shared) => (.pending, { s with shared, poller := some (waker, false) })

/-- `AdaptiveEndpoint::call`, which leaves the flags. A closed endpoint makes no request, but a future that is ready with the
error; without a slot the caller panics, after the lock is free. -/
def call (s : Endpoint T F R E) : Option (Event T F R × Endpoint T F R E) :=
  match s.shared.failed with
  | some error => some (Event.silent, { s with refusals := s.refusals ++ [.failed error] })
  | none => do
    let e ← perform s.shared.controller (.reserve s.clock)
    let s' := { s with shared.controller := e.after }
    match e.reply with
    | .reserved (.ok reservation) =>
      some ({ who := some s.requests.length, entries := [e], dropped := ControllerChanges.none },
        { s' with requests := s.requests ++ [⟨.queued reservation, .waiting .execute .away⟩] })
    | .reserved (.error _) => some ({ who := none, entries := [e], dropped := ControllerChanges.none }, s')
    | _ => none

/-- A step that only moves the future of a request, or the service lock. -/
def goto (s : Endpoint T F R E) (i : ℕ) (request : Request T E) (service : Option ℕ) :
    Event T F R × Endpoint T F R E :=
  (Event.silent, { s with service, requests := s.requests.set i request })

/-- Where a request goes after its check, and the timer of its timeout; a panic unwinds the future. -/
def afterCheck (caller : Caller) (notified : Bool) (now : T) : DispatchState T → Place T E
  | .ready =>
    match caller with
    | .execute => .locking
    | .start => .dispatching
  | .waitUntil deadline => .waiting caller (.asleep notified (some (now + (deadline - now))))
  | .waitForPrevious | .inflightLimit => .waiting caller (.asleep notified none)
  | .cancelled => .dropping

/-- `wait_until_dispatchable` under the lock, whose changes are dropped, and the step after it. -/
def check (s : Endpoint T F R E) (i : ℕ) (reservation : DispatchReservation) (caller : Caller) (notified : Bool) :
    Option (Event T F R × Endpoint T F R E) :=
  match s.shared.failed with
  | some error =>
    match caller with
    | .execute => some (s.goto i ⟨.queued reservation, .failing .abandoned error⟩ s.service)
    | .start => some (s.goto i ⟨.queued reservation, .leaving error⟩ s.service)
  | none => do
    let e ← perform s.shared.controller (.dispatchState reservation s.clock)
    let (changes, controller) := e.after.takeChanges
    match e.reply with
    | .state state =>
      some ({ who := some i, entries := [e], dropped := changes },
        { s with
          shared.controller := controller
          requests := s.requests.set i ⟨.queued reservation, afterCheck caller notified s.clock state⟩ })
    | _ => none

/-- The loop of `start`. -/
def beginDispatch (s : Endpoint T F R E) (i : ℕ) (reservation : DispatchReservation) :
    Option (Event T F R × Endpoint T F R E) := do
  let (e, s) ← s.withController (.onDispatched reservation s.clock)
  match e.reply with
  | .dispatched (.ok active) =>
    some ({ who := some i, entries := [e], dropped := ControllerChanges.none },
      { s with requests := s.requests.set i ⟨.inFlight active, .calling⟩ })
  | .dispatched (.error _) =>
    some ({ who := some i, entries := [e], dropped := ControllerChanges.none },
      { s with requests := s.requests.set i ⟨.queued reservation, .waiting .start .away⟩ })
  | _ => none

/-- `PendingRequest::finish`, with the end of the future. `now()`, which is read before the lock, is the instant of the turn. -/
def finish (s : Endpoint T F R E) (i : ℕ) (completion : Completion) (outcome : Outcome E) :
    Option (Event T F R × Endpoint T F R E) := do
  match s.requests[i]? with
  | some ⟨.inFlight active, _⟩ =>
    let (e, s) ← s.withController (.finish active completion s.clock)
    some ({ who := some i, entries := [e], dropped := ControllerChanges.none },
      { s with requests := s.requests.set i ⟨.finished, .returned outcome⟩ })
  | some ⟨.queued reservation, _⟩ =>
    let (e, s) ← s.withController (.cancel reservation s.clock)
    some ({ who := some i, entries := [e], dropped := ControllerChanges.none },
      { s with requests := s.requests.set i ⟨.finished, .returned outcome⟩ })
  | some ⟨.finished, _⟩ => some (Event.silent, s)
  | none => none

/-- `PendingRequest::execute` from one lock acquisition or suspension to the next. -/
def run (s : Endpoint T F R E) (i : ℕ) : Option (Event T F R × Endpoint T F R E) :=
  match s.requests[i]? with
  | some ⟨.queued reservation, .waiting caller .away⟩ =>
    some (s.goto i ⟨.queued reservation, .waiting caller (.enabled false)⟩ s.service)
  | some ⟨.queued reservation, .waiting caller (.enabled notified)⟩ => s.check i reservation caller notified
  | some ⟨.queued reservation, .waiting caller (.asleep notified timer)⟩ =>
    if notified ∨ timer.any (· ≤ s.clock) then
      some (s.goto i ⟨.queued reservation, .waiting caller .away⟩ s.service)
    else
      none
  | some ⟨state, .locking⟩ =>
    match s.service with
    | none => some (s.goto i ⟨state, .locked⟩ (some i))
    | some _ => none
  | some ⟨state, .locked⟩ =>
    match s.shared.failed with
    | some error => some (s.goto i ⟨state, .leaving error⟩ s.service)
    | none => some (s.goto i ⟨state, .polling⟩ s.service)
  | some ⟨.queued reservation, .dispatching⟩ => s.beginDispatch i reservation
  | some ⟨state, .calling⟩ => some (s.goto i ⟨state, .responding⟩ none)
  | some ⟨state, .leaving error⟩ => some (s.goto i ⟨state, .failing .failure error⟩ none)
  | some ⟨_, .failing completion error⟩ => s.finish i completion (.failed error)
  | _ => none

/-- One poll of the wrapped service. Its error closes the endpoint under the service lock: the changes are dropped, the
admission waker is taken, and the waiters are notified in any case. -/
def pollInner (s : Endpoint T F R E) (i : ℕ) (result : Poll (Except E Unit)) :
    Option (Event T F R × Endpoint T F R E) :=
  match s.requests[i]? with
  | some ⟨state, .polling⟩ =>
    match result with
    | .pending => some (Event.silent, s)
    | .ready (.ok ()) => some (s.goto i ⟨state, .dispatching⟩ s.service)
    | .ready (.error error) => do
      let e ← perform s.shared.controller (.onAdmissionFailure s.clock)
      let (changes, controller) := e.after.takeChanges
      let (waker, shared) := { s.shared with controller, failed := some error }.takeAdmissionWaker
      some ({ who := none, entries := [e], dropped := changes },
        { s with
          shared
          wakes := s.wakes ++ waker.toList
          dispatch := s.dispatch + 1
          requests := s.requests.set i ⟨state, .leaving error⟩ })
  | _ => none

/-- The locals of a future go before its `PendingRequest`. -/
def unwind (s : Endpoint T F R E) (i : ℕ) : Option (Event T F R × Endpoint T F R E) :=
  match s.requests[i]? with
  | some ⟨_, .returned _⟩ | none => none
  | some ⟨state, _⟩ =>
    some (s.goto i ⟨state, .dropping⟩ (if s.service = some i then none else s.service))

def exec (s : Endpoint T F R E) : Label T E → Option (Event T F R × Endpoint T F R E)
  | .tick now => if s.clock ≤ now then some (Event.silent, { s with clock := now }) else none
  | .snapshot => s.read (.snapshot s.clock)
  | .loadMetric => s.read (.load s.clock)
  | .pollReady waker => some (Event.silent, (s.pollReady waker).2)
  | .call => s.call
  | .run i => s.run i
  | .pollInner i result => s.pollInner i result
  | .respond i ok =>
    match s.requests[i]? with
    | some ⟨_, .responding⟩ => s.finish i (if ok then .success else .failure) (.response ok)
    | _ => none
  | .unwind i => s.unwind i
  | .drop i => if s.service = some i then none else s.finish i .abandoned .dropped
  | .wake waker =>
    if waker ∈ s.wakes then
      some (Event.silent,
        { s with
          wakes := s.wakes.erase waker
          poller := s.poller.map fun p => if p.1 = waker then (waker, true) else p })
    else
      none
  | .notifyDispatch =>
    match s.dispatch with
    | 0 => none
    | dispatch + 1 =>
      some (Event.silent,
        { s with dispatch, requests := s.requests.map fun request => { request with place := request.place.notify } })

/-- The task that waits for admission, if there is one: whether it was woken, or its waker is to be. -/
def admissionWaits (s : Endpoint T F R E) : List Bool :=
  match s.poller with
  | some (waker, woken) => [woken || decide (waker ∈ s.wakes)]
  | none => []

end Endpoint

/-- What the guard holds. -/
def RequestState.hold {T : Type} : RequestState T → Hold T
  | .queued reservation => .queued reservation
  | .inFlight active => .inflight active
  | .finished => .finished

def Place.wait {T E : Type} : Place T E → Wait (Option T)
  | .waiting _ wait => wait
  | _ => .away

def Place.isReturned {T E : Type} : Place T E → Bool
  | .returned _ => true
  | _ => false

def Request.client {T E : Type} (request : Request T E) : Client T := ⟨request.state.hold, request.place.wait⟩

section

variable (T F R E : Type) [AddCommMonoid T] [LinearOrder T] [Sub T] [Time T] [F64 F] [Secs T F] [Rng R F]

def system : System T F R where
  State := Endpoint T F R E
  Label := Label T E
  start controller clock :=
    { shared := { controller, admissionWaker := none, failed := none }
      clock, wakes := [], dispatch := 0, service := none, requests := [], refusals := [], poller := none }
  exec := Endpoint.exec
  view s :=
    { controller := s.shared.controller, clock := s.clock, owed := s.dispatch
      clients := s.requests.map Request.client }
  admissionWaits := Endpoint.admissionWaits
  gone s := s.requests.map fun request => request.place.isReturned
  drop := .drop

end

/-! ## Moves -/

section

variable {T F R E : Type} [AddCommMonoid T] [LinearOrder T] [Sub T] [Time T] [F64 F] [Secs T F] [Rng R F]

namespace Endpoint

/-- A future moves on by itself, between two places outside the controller's lock. -/
inductive Jump (s : Endpoint T F R E) (i : ℕ) : RequestState T → Place T E → Place T E → Option ℕ → Prop
  | enable {reservation : DispatchReservation} {caller : Caller} :
      Jump s i (.queued reservation) (.waiting caller .away) (.waiting caller (.enabled false)) s.service
  | wake {reservation : DispatchReservation} {caller : Caller} {notified : Bool} {timer : Option T} :
      notified = true ∨ timer.any (· ≤ s.clock) = true →
      Jump s i (.queued reservation) (.waiting caller (.asleep notified timer)) (.waiting caller .away) s.service
  | failExecute {reservation : DispatchReservation} {notified : Bool} {error : E} : s.shared.failed = some error →
      Jump s i (.queued reservation) (.waiting .execute (.enabled notified)) (.failing .abandoned error) s.service
  | failStart {reservation : DispatchReservation} {notified : Bool} {error : E} : s.shared.failed = some error →
      Jump s i (.queued reservation) (.waiting .start (.enabled notified)) (.leaving error) s.service
  | lock {state : RequestState T} : s.service = none → Jump s i state .locking .locked (some i)
  | failLocked {state : RequestState T} {error : E} : s.shared.failed = some error →
      Jump s i state .locked (.leaving error) s.service
  | poll {state : RequestState T} : s.shared.failed = none → Jump s i state .locked .polling s.service
  | call {state : RequestState T} : Jump s i state .calling .responding none
  | leave {state : RequestState T} {error : E} : Jump s i state (.leaving error) (.failing .failure error) none

/-- Which releases a step can make, and where they leave the future. -/
inductive Ends (s : Endpoint T F R E) (i : ℕ) : Label T E → Place T E → Completion → Outcome E → Prop
  | fail {completion : Completion} {error : E} : Ends s i (.run i) (.failing completion error) completion (.failed error)
  | respond {ok : Bool} : Ends s i (.respond i ok) .responding (if ok then .success else .failure) (.response ok)
  | drop {place : Place T E} : s.service ≠ some i → Ends s i (.drop i) place .abandoned .dropped

/-- **What a step does.** -/
inductive Move (s : Endpoint T F R E) : Label T E → Event T F R → Endpoint T F R E → Prop
  | tick {now : T} : s.clock ≤ now → Move s (.tick now) .silent { s with clock := now }
  | read {l : Label T E} {e : Entry T F R} : Step s.shared.controller e e.after → e.call.IsRead →
      e.call.now? = some s.clock → l = .snapshot ∨ l = .loadMetric → Move s l ⟨none, [e], .none⟩ (s.release e)
  | pollReady {waker : ℕ} : Move s (.pollReady waker) .silent (s.pollReady waker).2
  | closed {error : E} : s.shared.failed = some error →
      Move s .call .silent { s with refusals := s.refusals ++ [.failed error] }
  | accept {e : Entry T F R} {reservation : DispatchReservation} : s.shared.failed = none →
      Step s.shared.controller e e.after → e.call = .reserve s.clock → e.reply = .reserved (.ok reservation) →
      Move s .call ⟨some s.requests.length, [e], .none⟩ { s with
        shared.controller := e.after
        requests := s.requests ++ [⟨.queued reservation, .waiting .execute .away⟩] }
  | refuse {e : Entry T F R} {error : ScheduleError} : s.shared.failed = none →
      Step s.shared.controller e e.after → e.call = .reserve s.clock → e.reply = .reserved (.error error) →
      Move s .call ⟨none, [e], .none⟩ { s with shared.controller := e.after }
  | jump {i : ℕ} {state : RequestState T} {place place' : Place T E} {service : Option ℕ} :
      s.requests[i]? = some ⟨state, place⟩ → Jump s i state place place' service →
      Move s (.run i) .silent (s.goto i ⟨state, place'⟩ service).2
  | check {i : ℕ} {reservation : DispatchReservation} {caller : Caller} {notified : Bool} {e : Entry T F R}
      {state : DispatchState T} :
      s.requests[i]? = some ⟨.queued reservation, .waiting caller (.enabled notified)⟩ → s.shared.failed = none →
      Step s.shared.controller e e.after → e.call = .dispatchState reservation s.clock → e.reply = .state state →
      Move s (.run i) ⟨some i, [e], e.after.changes⟩ { s with
        shared.controller := { e.after with changes := .none }
        requests := s.requests.set i ⟨.queued reservation, afterCheck caller notified s.clock state⟩ }
  | dispatch {i : ℕ} {reservation : DispatchReservation} {e : Entry T F R} {active : InFlightRequest T} :
      s.requests[i]? = some ⟨.queued reservation, .dispatching⟩ → Step s.shared.controller e e.after →
      e.call = .onDispatched reservation s.clock → e.reply = .dispatched (.ok active) →
      Move s (.run i) ⟨some i, [e], .none⟩
        { s.release e with requests := s.requests.set i ⟨.inFlight active, .calling⟩ }
  | retry {i : ℕ} {reservation : DispatchReservation} {e : Entry T F R} {state : DispatchState T} :
      s.requests[i]? = some ⟨.queued reservation, .dispatching⟩ → Step s.shared.controller e e.after →
      e.call = .onDispatched reservation s.clock → e.reply = .dispatched (.error state) →
      Move s (.run i) ⟨some i, [e], .none⟩
        { s.release e with requests := s.requests.set i ⟨.queued reservation, .waiting .start .away⟩ }
  | finish {i : ℕ} {l : Label T E} {state : RequestState T} {place : Place T E} {completion : Completion}
      {outcome : Outcome E} {e : Entry T F R} : s.requests[i]? = some ⟨state, place⟩ → Ends s i l place completion outcome →
      Step s.shared.controller e e.after → state.hold.release? completion s.clock = some e.call →
      Move s l ⟨some i, [e], .none⟩ { s.release e with requests := s.requests.set i ⟨.finished, .returned outcome⟩ }
  | finished {i : ℕ} {l : Label T E} {place : Place T E} {completion : Completion} {outcome : Outcome E} :
      s.requests[i]? = some ⟨.finished, place⟩ → Ends s i l place completion outcome → Move s l .silent s
  | pending {i : ℕ} {state : RequestState T} : s.requests[i]? = some ⟨state, .polling⟩ →
      Move s (.pollInner i .pending) .silent s
  | ready {i : ℕ} {state : RequestState T} : s.requests[i]? = some ⟨state, .polling⟩ →
      Move s (.pollInner i (.ready (.ok ()))) .silent (s.goto i ⟨state, .dispatching⟩ s.service).2
  | close {i : ℕ} {state : RequestState T} {error : E} {e : Entry T F R} :
      s.requests[i]? = some ⟨state, .polling⟩ → Step s.shared.controller e e.after →
      e.call = .onAdmissionFailure s.clock →
      Move s (.pollInner i (.ready (.error error))) ⟨none, [e], e.after.changes⟩ { s with
        shared := { controller := { e.after with changes := .none }, admissionWaker := none, failed := some error }
        wakes := s.wakes ++ s.shared.admissionWaker.toList
        dispatch := s.dispatch + 1
        requests := s.requests.set i ⟨state, .leaving error⟩ }
  | unwind {i : ℕ} {state : RequestState T} {place : Place T E} : s.requests[i]? = some ⟨state, place⟩ →
      place.isReturned = false →
      Move s (.unwind i) .silent (s.goto i ⟨state, .dropping⟩ (if s.service = some i then none else s.service)).2
  | wake {waker : ℕ} : waker ∈ s.wakes → Move s (.wake waker) .silent { s with
      wakes := s.wakes.erase waker
      poller := s.poller.map fun p => if p.1 = waker then (waker, true) else p }
  | notifyDispatch {dispatch : ℕ} : s.dispatch = dispatch + 1 → Move s .notifyDispatch .silent { s with
      dispatch
      requests := s.requests.map fun request => { request with place := request.place.notify } }

variable {s s' : Endpoint T F R E} {ev : Event T F R} {e : Entry T F R} {i : ℕ} {l : Label T E}

theorem withController_cases {call : Call T} (h : s.withController call = some (e, s')) :
    Step s.shared.controller e e.after ∧ e.call = call ∧ s' = s.release e := by
  simp only [withController, Option.bind_eq_bind, Option.bind_eq_some_iff] at h
  obtain ⟨e', he, h⟩ := h
  cases h
  obtain ⟨hstep, hcall⟩ := perform_step he
  exact ⟨hstep, hcall, rfl⟩

theorem read_move {call : Call T} (hr : call.IsRead) (hnow : call.now? = some s.clock)
    (hl : l = .snapshot ∨ l = .loadMetric) (h : s.read call = some (ev, s')) : Move s l ev s' := by
  simp only [read, Option.bind_eq_bind, Option.bind_eq_some_iff] at h
  obtain ⟨⟨e, s₁⟩, hw, h⟩ := h
  obtain ⟨hstep, rfl, rfl⟩ := withController_cases hw
  cases h
  exact .read hstep hr hnow hl

theorem call_move (h : s.call = some (ev, s')) : Move s .call ev s' := by
  unfold call at h
  split at h
  · rename_i error hfailed
    cases h
    exact .closed hfailed
  · rename_i hfailed
    simp only [Option.bind_eq_bind, Option.bind_eq_some_iff] at h
    obtain ⟨e, he, h⟩ := h
    obtain ⟨hstep, hcall⟩ := perform_step he
    split at h
    · rename_i reservation hreply
      cases h
      exact .accept hfailed hstep hcall hreply
    · rename_i error hreply
      cases h
      exact .refuse hfailed hstep hcall hreply
    · cases h

theorem check_move {reservation : DispatchReservation} {caller : Caller} {notified : Bool}
    (hi : s.requests[i]? = some ⟨.queued reservation, .waiting caller (.enabled notified)⟩)
    (h : s.check i reservation caller notified = some (ev, s')) : Move s (.run i) ev s' := by
  unfold check at h
  split at h
  · rename_i error hfailed
    split at h
    · cases h
      exact .jump hi (.failExecute hfailed)
    · cases h
      exact .jump hi (.failStart hfailed)
  · rename_i hfailed
    simp only [Option.bind_eq_bind, Option.bind_eq_some_iff] at h
    obtain ⟨e, he, h⟩ := h
    obtain ⟨hstep, hcall⟩ := perform_step he
    split at h
    · rename_i state hreply
      cases h
      exact .check hi hfailed hstep hcall hreply
    · cases h

theorem beginDispatch_move {reservation : DispatchReservation}
    (hi : s.requests[i]? = some ⟨.queued reservation, .dispatching⟩)
    (h : s.beginDispatch i reservation = some (ev, s')) : Move s (.run i) ev s' := by
  simp only [beginDispatch, Option.bind_eq_bind, Option.bind_eq_some_iff] at h
  obtain ⟨⟨e, s₁⟩, hw, h⟩ := h
  obtain ⟨hstep, hcall, rfl⟩ := withController_cases hw
  dsimp only at h
  split at h
  · rename_i active hreply
    cases h
    exact .dispatch hi hstep hcall hreply
  · rename_i state hreply
    cases h
    exact .retry hi hstep hcall hreply
  · cases h

theorem finish_move {request : Request T E} {completion : Completion} {outcome : Outcome E}
    (hi : s.requests[i]? = some request) (hends : Ends s i l request.place completion outcome)
    (h : s.finish i completion outcome = some (ev, s')) : Move s l ev s' := by
  obtain ⟨state, place⟩ := request
  simp only [finish, hi] at h
  cases state with
  | inFlight active =>
    simp only [Option.bind_eq_bind, Option.bind_eq_some_iff] at h
    obtain ⟨⟨e, s₁⟩, hw, h⟩ := h
    obtain ⟨hstep, hcall, rfl⟩ := withController_cases hw
    cases h
    exact .finish hi hends hstep (congrArg some hcall.symm)
  | queued reservation =>
    simp only [Option.bind_eq_bind, Option.bind_eq_some_iff] at h
    obtain ⟨⟨e, s₁⟩, hw, h⟩ := h
    obtain ⟨hstep, hcall, rfl⟩ := withController_cases hw
    cases h
    exact .finish hi hends hstep (congrArg some hcall.symm)
  | finished =>
    cases h
    exact .finished hi hends

theorem run_move (h : s.run i = some (ev, s')) : Move s (.run i) ev s' := by
  unfold run at h
  split at h
  · rename_i reservation caller hi
    cases h
    exact .jump hi .enable
  · rename_i reservation caller notified hi
    exact check_move hi h
  · rename_i reservation caller notified timer hi
    split at h
    · rename_i hwake
      cases h
      exact .jump hi (.wake hwake)
    · cases h
  · rename_i state hi
    split at h
    · rename_i hfree
      cases h
      exact .jump hi (.lock hfree)
    · cases h
  · rename_i state hi
    split at h
    · rename_i error hfailed
      cases h
      exact .jump hi (.failLocked hfailed)
    · rename_i hfailed
      cases h
      exact .jump hi (.poll hfailed)
  · rename_i reservation hi
    exact beginDispatch_move hi h
  · rename_i state hi
    cases h
    exact .jump hi .call
  · rename_i state error hi
    cases h
    exact .jump hi .leave
  · rename_i state completion error hi
    exact finish_move hi .fail h
  · cases h

theorem pollInner_move {result : Poll (Except E Unit)} (h : s.pollInner i result = some (ev, s')) :
    Move s (.pollInner i result) ev s' := by
  unfold pollInner at h
  split at h
  · rename_i state hi
    split at h
    · cases h
      exact .pending hi
    · cases h
      exact .ready hi
    · rename_i error
      simp only [Option.bind_eq_bind, Option.bind_eq_some_iff] at h
      obtain ⟨e, he, h⟩ := h
      obtain ⟨hstep, hcall⟩ := perform_step he
      cases h
      exact .close hi hstep hcall
  · cases h

theorem unwind_move (h : s.unwind i = some (ev, s')) : Move s (.unwind i) ev s' := by
  unfold unwind at h
  split at h
  · cases h
  · cases h
  · rename_i state place hlive hi
    cases h
    refine .unwind hi ?_
    cases place with
    | returned outcome => exact absurd rfl (hlive outcome)
    | _ => rfl

/-- A release of a request that is there. -/
theorem finish_place {completion : Completion} {outcome : Outcome E} (h : s.finish i completion outcome = some (ev, s')) :
    ∃ request, s.requests[i]? = some request := by
  cases hi : s.requests[i]? with
  | none =>
    simp only [finish, hi] at h
    cases h
  | some request => exact ⟨request, rfl⟩

theorem exec_move (h : s.exec l = some (ev, s')) : Move s l ev s' := by
  cases l with
  | tick now =>
    simp only [exec] at h
    split at h
    · rename_i hle
      cases h
      exact .tick hle
    · cases h
  | snapshot => exact read_move (show (Call.snapshot s.clock).IsRead from trivial) rfl (Or.inl rfl) h
  | loadMetric => exact read_move (show (Call.load s.clock).IsRead from trivial) rfl (Or.inr rfl) h
  | pollReady waker =>
    cases h
    exact .pollReady
  | call => exact call_move h
  | run i => exact run_move h
  | pollInner i result => exact pollInner_move h
  | respond i ok =>
    simp only [exec] at h
    split at h
    · rename_i state hi
      exact finish_move hi .respond h
    · cases h
  | unwind i => exact unwind_move h
  | drop i =>
    simp only [exec] at h
    split at h
    · cases h
    · rename_i hfree
      obtain ⟨request, hi⟩ := finish_place h
      exact finish_move hi (.drop hfree) h
  | wake waker =>
    simp only [exec] at h
    split at h
    · rename_i hmem
      cases h
      exact .wake hmem
    · cases h
  | notifyDispatch =>
    simp only [exec] at h
    split at h
    · cases h
    · rename_i dispatch hd
      cases h
      exact .notifyDispatch hd

omit [AddCommMonoid T] [Sub T] [Time T] [F64 F] [Secs T F] [Rng R F] in
/-- A jump goes to no dispatch wait that is asleep. -/
theorem Jump.wait {state : RequestState T} {place place' : Place T E} {service : Option ℕ}
    (h : Jump s i state place place' service) : place'.wait = .away ∨ place'.wait = .enabled false := by
  cases h with
  | enable => exact Or.inr rfl
  | _ => exact Or.inl rfl

omit [AddCommMonoid T] [Sub T] [Time T] [F64 F] [Secs T F] [Rng R F] in
/-- A jump does not return. -/
theorem Jump.live {state : RequestState T} {place place' : Place T E} {service : Option ℕ}
    (h : Jump s i state place place' service) : place.isReturned = false ∧ place'.isReturned = false := by
  cases h <;> exact ⟨rfl, rfl⟩

end Endpoint

end

end Loadpace.Tower
