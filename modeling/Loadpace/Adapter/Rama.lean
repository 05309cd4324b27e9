import Loadpace.Adapter.System

/-!
# The Rama adapter (`loadpace-rama`)

`serve` reserves synchronously and returns a future that waits for its dispatch, calls the wrapped service, and finishes;
its `RequestGuard` releases what it still holds when the future is dropped. The DNS service reserves on one of the endpoints
of an answer set and dispatches in the same way. `exec_move` says once what a step can do. `system_sound`: the adapter is a
sound system.

The instant of a step is that of the clock when it has the lock. `wait_for_dispatch` reads `now()` for `dispatch_state` before
it locks, and so does `RequestGuard` for `finish`: the model assumes that no turn at a later instant comes in between. A panic
under the lock ends the run.
-/

namespace Loadpace.Rama

open Systems EndpointController Notify

inductive RequestState (T : Type)
  | reserved (reservation : DispatchReservation)
  | dispatched (request : InFlightRequest T)
  | finished

/-- Where the future of a request is. -/
inductive Place (T : Type)
  /-- In the loop of `wait_for_dispatch`. -/
  | waiting (wait : Wait (Option T))
  /-- `wait_for_dispatch` has returned to `begin_dispatch`. -/
  | ready
  /-- In the future of the wrapped service. -/
  | serving
  | returned

/-- `dispatch.notify_waiters`, as the place sees it. -/
def Place.notify {T : Type} : Place T → Place T
  | .waiting wait => .waiting wait.notify
  | place => place

/-- The future of a request, with the state of its `RequestGuard`. -/
structure Request (T : Type) where
  state : RequestState T
  place : Place T

/-- An `EndpointState` with its requests. -/
structure Endpoint (T F R : Type) where
  controller : EndpointController T F R
  clock : T
  /-- The calls of `dispatch.notify_waiters` that are still to be made. -/
  dispatch : ℕ
  requests : List (Request T)

inductive Label (T : Type)
  | tick (now : T)
  | snapshot
  | loadMetric
  | serve
  /-- `reserve_p2c` on the only endpoint of an answer set. -/
  | reserveOnly
  /-- One of the two endpoints of `reserve_p2c`, and whether it is asked for a slot. -/
  | reservePair (asked : Bool)
  | run (i : ℕ)
  /-- The future of the wrapped service completes. -/
  | respond (i : ℕ) (ok : Bool)
  /-- The future of a request is dropped, never polled or at any wait, or the wrapped service panics in it; or its reservation
  is cancelled after a change of the answer set. -/
  | drop (i : ℕ)
  | notifyDispatch

namespace Endpoint

variable {T F R : Type} [AddCommMonoid T] [LinearOrder T] [Sub T] [Time T] [F64 F] [Secs T F] [Rng R F]

/-- `EndpointState::notify_changes`, once the lock is free; nothing waits for admission. -/
def notifyChanges (s : Endpoint T F R) (changes : ControllerChanges) : Endpoint T F R :=
  { s with dispatch := s.dispatch + changes.dispatch.toNat }

/-- The end of `EndpointState::with_controller`. -/
def release (s : Endpoint T F R) (e : Entry T F R) : Endpoint T F R :=
  let (changes, controller) := e.after.takeChanges
  { s with controller }.notifyChanges changes

/-- `EndpointState::with_controller` with one call. -/
def withController (s : Endpoint T F R) (call : Call T) : Option (Entry T F R × Endpoint T F R) := do
  let e ← perform s.controller call
  some (e, s.release e)

/-- A metric read. -/
def read (s : Endpoint T F R) (call : Call T) : Option (Event T F R × Endpoint T F R) := do
  let (e, s) ← s.withController call
  some ({ who := none, entries := [e], dropped := ControllerChanges.none }, s)

/-- `AdaptiveEndpoint::serve`, which leaves the flags. -/
def serve (s : Endpoint T F R) : Option (Event T F R × Endpoint T F R) := do
  let e ← perform s.controller (.reserve s.clock)
  match e.reply with
  | .reserved (.ok reservation) =>
    some ({ who := some s.requests.length, entries := [e], dropped := ControllerChanges.none },
      { s with controller := e.after, requests := s.requests ++ [⟨.reserved reservation, .waiting .away⟩] })
  | .reserved (.error _) =>
    some ({ who := none, entries := [e], dropped := ControllerChanges.none }, { s with controller := e.after })
  | _ => none

/-- `reserve_p2c` at one endpoint: a `refresh` when it is the only one, and a `load` when it is one of two. -/
def reserveP2c (s : Endpoint T F R) (first : Call T) : Option (Event T F R × Endpoint T F R) := do
  let e ← perform s.controller first
  let (e', s') ← { s with controller := e.after }.withController (.reserve s.clock)
  match e'.reply with
  | .reserved (.ok reservation) =>
    some ({ who := some s.requests.length, entries := [e, e'], dropped := ControllerChanges.none },
      { s' with requests := s'.requests ++ [⟨.reserved reservation, .waiting .away⟩] })
  | .reserved (.error _) => some ({ who := none, entries := [e, e'], dropped := ControllerChanges.none }, s')
  | _ => none

/-- Where a request goes after its check, and the timer of its timeout. The `unreachable!` of a cancelled reservation would
drop the future. -/
def afterCheck (notified : Bool) (now : T) : DispatchState T → Place T
  | .ready => .ready
  | .waitUntil deadline => .waiting (.asleep notified (some (now + (deadline - now))))
  | .waitForPrevious | .inflightLimit => .waiting (.asleep notified none)
  | .cancelled => .waiting .away

/-- `dispatch_state`, whose changes are dropped, and the step of `wait_for_dispatch` after it. `now()`, which is read before the
lock, is the instant of the turn. -/
def check (s : Endpoint T F R) (i : ℕ) (reservation : DispatchReservation) (notified : Bool) :
    Option (Event T F R × Endpoint T F R) := do
  let e ← perform s.controller (.dispatchState reservation s.clock)
  let (changes, controller) := e.after.takeChanges
  match e.reply with
  | .state state =>
    some ({ who := some i, entries := [e], dropped := changes },
      { s with controller, requests := s.requests.set i ⟨.reserved reservation, afterCheck notified s.clock state⟩ })
  | _ => none

/-- The step of `begin_dispatch` after `wait_for_dispatch`. -/
def beginDispatch (s : Endpoint T F R) (i : ℕ) (reservation : DispatchReservation) :
    Option (Event T F R × Endpoint T F R) := do
  let (e, s) ← s.withController (.onDispatched reservation s.clock)
  match e.reply with
  | .dispatched (.ok active) =>
    some ({ who := some i, entries := [e], dropped := ControllerChanges.none },
      { s with requests := s.requests.set i ⟨.dispatched active, .serving⟩ })
  | .dispatched (.error _) =>
    some ({ who := some i, entries := [e], dropped := ControllerChanges.none },
      { s with requests := s.requests.set i ⟨.reserved reservation, .waiting .away⟩ })
  | _ => none

/-- `dispatch_request` from one lock acquisition or suspension to the next, up to the call of the wrapped service. -/
def run (s : Endpoint T F R) (i : ℕ) : Option (Event T F R × Endpoint T F R) :=
  let goto (reservation : DispatchReservation) (wait : Wait (Option T)) : Event T F R × Endpoint T F R :=
    (Event.silent, { s with requests := s.requests.set i ⟨.reserved reservation, .waiting wait⟩ })
  match s.requests[i]? with
  | some ⟨.reserved reservation, .waiting .away⟩ => some (goto reservation (.enabled false))
  | some ⟨.reserved reservation, .waiting (.enabled notified)⟩ => s.check i reservation notified
  | some ⟨.reserved reservation, .waiting (.asleep notified timer)⟩ =>
    if notified ∨ timer.any (· ≤ s.clock) then some (goto reservation .away) else none
  | some ⟨.reserved reservation, .ready⟩ => s.beginDispatch i reservation
  | _ => none

/-- `RequestGuard::finish`, with the end of the future. `now()`, which is read before the lock, is the instant of the turn. -/
def finish (s : Endpoint T F R) (i : ℕ) (completion : Completion) : Option (Event T F R × Endpoint T F R) := do
  match s.requests[i]? with
  | some ⟨.dispatched active, _⟩ =>
    let (e, s) ← s.withController (.finish active completion s.clock)
    some ({ who := some i, entries := [e], dropped := ControllerChanges.none },
      { s with requests := s.requests.set i ⟨.finished, .returned⟩ })
  | some ⟨.reserved reservation, _⟩ =>
    let (e, s) ← s.withController (.cancel reservation s.clock)
    some ({ who := some i, entries := [e], dropped := ControllerChanges.none },
      { s with requests := s.requests.set i ⟨.finished, .returned⟩ })
  | some ⟨.finished, _⟩ => some (Event.silent, s)
  | none => none

def exec (s : Endpoint T F R) : Label T → Option (Event T F R × Endpoint T F R)
  | .tick now => if s.clock ≤ now then some (Event.silent, { s with clock := now }) else none
  | .snapshot => s.read (.snapshot s.clock)
  | .loadMetric => s.read (.load s.clock)
  | .serve => s.serve
  | .reserveOnly => s.reserveP2c (.refresh s.clock)
  | .reservePair asked => if asked then s.reserveP2c (.load s.clock) else s.read (.load s.clock)
  | .run i => s.run i
  | .respond i ok =>
    match s.requests[i]? with
    | some ⟨_, .serving⟩ => s.finish i (if ok then .success else .failure)
    | _ => none
  | .drop i => s.finish i .abandoned
  | .notifyDispatch =>
    match s.dispatch with
    | 0 => none
    | dispatch + 1 =>
      some (Event.silent,
        { s with dispatch, requests := s.requests.map fun request => { request with place := request.place.notify } })

end Endpoint

/-- What the guard holds. -/
def RequestState.hold {T : Type} : RequestState T → Hold T
  | .reserved reservation => .queued reservation
  | .dispatched active => .inflight active
  | .finished => .finished

def Place.wait {T : Type} : Place T → Wait (Option T)
  | .waiting wait => wait
  | _ => .away

def Place.isReturned {T : Type} : Place T → Bool
  | .returned => true
  | _ => false

def Request.client {T : Type} (request : Request T) : Client T := ⟨request.state.hold, request.place.wait⟩

section

variable (T F R : Type) [AddCommMonoid T] [LinearOrder T] [Sub T] [Time T] [F64 F] [Secs T F] [Rng R F]

def system : System T F R where
  State := Endpoint T F R
  Label := Label T
  start controller clock := { controller, clock, dispatch := 0, requests := [] }
  exec := Endpoint.exec
  view s := { controller := s.controller, clock := s.clock, owed := s.dispatch, clients := s.requests.map Request.client }
  admissionWaits _ := []
  gone s := s.requests.map fun request => request.place.isReturned
  drop := .drop

end

/-! ## Moves -/

section

variable {T F R : Type} [AddCommMonoid T] [LinearOrder T] [Sub T] [Time T] [F64 F] [Secs T F] [Rng R F]

namespace Endpoint

/-- **What a step does.** -/
inductive Move (s : Endpoint T F R) : Label T → Event T F R → Endpoint T F R → Prop
  | tick {now : T} : s.clock ≤ now → Move s (.tick now) .silent { s with clock := now }
  | read {l : Label T} {e : Entry T F R} : Step s.controller e e.after → e.call.IsRead → e.call.now? = some s.clock →
      l = .snapshot ∨ l = .loadMetric ∨ l = .reservePair false → Move s l ⟨none, [e], .none⟩ (s.release e)
  | serve {e : Entry T F R} {reservation : DispatchReservation} : Step s.controller e e.after →
      e.call = .reserve s.clock → e.reply = .reserved (.ok reservation) →
      Move s .serve ⟨some s.requests.length, [e], .none⟩
        { s with controller := e.after, requests := s.requests ++ [⟨.reserved reservation, .waiting .away⟩] }
  | reject {e : Entry T F R} {error : ScheduleError} : Step s.controller e e.after → e.call = .reserve s.clock →
      e.reply = .reserved (.error error) → Move s .serve ⟨none, [e], .none⟩ { s with controller := e.after }
  | reserve {l : Label T} {first e : Entry T F R} {reservation : DispatchReservation} :
      Step s.controller first first.after → first.call.IsRead → first.call.now? = some s.clock →
      Step first.after e e.after → e.call = .reserve s.clock → e.reply = .reserved (.ok reservation) →
      l = .reserveOnly ∨ l = .reservePair true → Move s l ⟨some s.requests.length, [first, e], .none⟩
        { s.release e with requests := s.requests ++ [⟨.reserved reservation, .waiting .away⟩] }
  | refuse {l : Label T} {first e : Entry T F R} {error : ScheduleError} :
      Step s.controller first first.after → first.call.IsRead → first.call.now? = some s.clock →
      Step first.after e e.after → e.call = .reserve s.clock → e.reply = .reserved (.error error) →
      l = .reserveOnly ∨ l = .reservePair true → Move s l ⟨none, [first, e], .none⟩ (s.release e)
  | enable {i : ℕ} {reservation : DispatchReservation} : s.requests[i]? = some ⟨.reserved reservation, .waiting .away⟩ →
      Move s (.run i) .silent
        { s with requests := s.requests.set i ⟨.reserved reservation, .waiting (.enabled false)⟩ }
  | wake {i : ℕ} {reservation : DispatchReservation} {notified : Bool} {timer : Option T} :
      s.requests[i]? = some ⟨.reserved reservation, .waiting (.asleep notified timer)⟩ →
      notified = true ∨ timer.any (· ≤ s.clock) = true →
      Move s (.run i) .silent { s with requests := s.requests.set i ⟨.reserved reservation, .waiting .away⟩ }
  | check {i : ℕ} {reservation : DispatchReservation} {notified : Bool} {e : Entry T F R} {state : DispatchState T} :
      s.requests[i]? = some ⟨.reserved reservation, .waiting (.enabled notified)⟩ → Step s.controller e e.after →
      e.call = .dispatchState reservation s.clock → e.reply = .state state →
      Move s (.run i) ⟨some i, [e], e.after.changes⟩ { s with
        controller := { e.after with changes := .none }
        requests := s.requests.set i ⟨.reserved reservation, afterCheck notified s.clock state⟩ }
  | dispatch {i : ℕ} {reservation : DispatchReservation} {e : Entry T F R} {active : InFlightRequest T} :
      s.requests[i]? = some ⟨.reserved reservation, .ready⟩ → Step s.controller e e.after →
      e.call = .onDispatched reservation s.clock → e.reply = .dispatched (.ok active) →
      Move s (.run i) ⟨some i, [e], .none⟩
        { s.release e with requests := s.requests.set i ⟨.dispatched active, .serving⟩ }
  | retry {i : ℕ} {reservation : DispatchReservation} {e : Entry T F R} {state : DispatchState T} :
      s.requests[i]? = some ⟨.reserved reservation, .ready⟩ → Step s.controller e e.after →
      e.call = .onDispatched reservation s.clock → e.reply = .dispatched (.error state) →
      Move s (.run i) ⟨some i, [e], .none⟩
        { s.release e with requests := s.requests.set i ⟨.reserved reservation, .waiting .away⟩ }
  | finish {i : ℕ} {l : Label T} {request : Request T} {completion : Completion} {e : Entry T F R} :
      s.requests[i]? = some request → (∃ ok, l = .respond i ok) ∨ l = .drop i → Step s.controller e e.after →
      request.state.hold.release? completion s.clock = some e.call →
      Move s l ⟨some i, [e], .none⟩ { s.release e with requests := s.requests.set i ⟨.finished, .returned⟩ }
  | finished {i : ℕ} {l : Label T} {place : Place T} : s.requests[i]? = some ⟨.finished, place⟩ →
      (∃ ok, l = .respond i ok) ∨ l = .drop i → Move s l .silent s
  | notifyDispatch {dispatch : ℕ} : s.dispatch = dispatch + 1 → Move s .notifyDispatch .silent { s with
      dispatch
      requests := s.requests.map fun request => { request with place := request.place.notify } }

variable {s s' : Endpoint T F R} {ev : Event T F R} {e : Entry T F R} {i : ℕ} {l : Label T}

theorem withController_cases {call : Call T} (h : s.withController call = some (e, s')) :
    Step s.controller e e.after ∧ e.call = call ∧ s' = s.release e := by
  simp only [withController, Option.bind_eq_bind, Option.bind_eq_some_iff] at h
  obtain ⟨e', he, h⟩ := h
  cases h
  obtain ⟨hstep, hcall⟩ := perform_step he
  exact ⟨hstep, hcall, rfl⟩

theorem read_move {call : Call T} (hr : call.IsRead) (hnow : call.now? = some s.clock)
    (hl : l = .snapshot ∨ l = .loadMetric ∨ l = .reservePair false) (h : s.read call = some (ev, s')) :
    Move s l ev s' := by
  simp only [read, Option.bind_eq_bind, Option.bind_eq_some_iff] at h
  obtain ⟨⟨e, s₁⟩, hw, h⟩ := h
  obtain ⟨hstep, rfl, rfl⟩ := withController_cases hw
  cases h
  exact .read hstep hr hnow hl

theorem serve_move (h : s.serve = some (ev, s')) : Move s .serve ev s' := by
  simp only [serve, Option.bind_eq_bind, Option.bind_eq_some_iff] at h
  obtain ⟨e, he, h⟩ := h
  obtain ⟨hstep, hcall⟩ := perform_step he
  split at h
  · rename_i reservation hreply
    cases h
    exact .serve hstep hcall hreply
  · rename_i error hreply
    cases h
    exact .reject hstep hcall hreply
  · cases h

theorem reserveP2c_move {first : Call T} (hr : first.IsRead) (hnow : first.now? = some s.clock)
    (hl : l = .reserveOnly ∨ l = .reservePair true) (h : s.reserveP2c first = some (ev, s')) : Move s l ev s' := by
  simp only [reserveP2c, Option.bind_eq_bind, Option.bind_eq_some_iff] at h
  obtain ⟨e, he, ⟨e', s₁⟩, hw, h⟩ := h
  obtain ⟨hstep, rfl⟩ := perform_step he
  obtain ⟨hstep', hcall', rfl⟩ := withController_cases hw
  dsimp only at h
  split at h
  · rename_i reservation hreply
    cases h
    exact .reserve hstep hr hnow hstep' hcall' hreply hl
  · rename_i error hreply
    cases h
    exact .refuse hstep hr hnow hstep' hcall' hreply hl
  · cases h

theorem run_move (h : s.run i = some (ev, s')) : Move s (.run i) ev s' := by
  simp only [run] at h
  split at h
  · rename_i reservation hi
    cases h
    exact .enable hi
  · rename_i reservation notified hi
    simp only [check, Option.bind_eq_bind, Option.bind_eq_some_iff] at h
    obtain ⟨e, he, h⟩ := h
    obtain ⟨hstep, hcall⟩ := perform_step he
    split at h
    · rename_i state hreply
      cases h
      exact .check hi hstep hcall hreply
    · cases h
  · rename_i reservation notified timer hi
    split at h
    · rename_i hwake
      cases h
      exact .wake hi hwake
    · cases h
  · rename_i reservation hi
    simp only [beginDispatch, Option.bind_eq_bind, Option.bind_eq_some_iff] at h
    obtain ⟨⟨e, s₁⟩, hw, h⟩ := h
    obtain ⟨hstep, hcall, rfl⟩ := withController_cases hw
    dsimp only at h
    split at h
    · rename_i active hreply
      cases h
      exact .dispatch hi hstep hcall hreply
    · rename_i state hreply
      cases h
      exact .retry hi hstep hcall hreply
    · cases h
  · cases h

theorem finish_move {completion : Completion} (hl : (∃ ok, l = .respond i ok) ∨ l = .drop i)
    (h : s.finish i completion = some (ev, s')) : Move s l ev s' := by
  simp only [finish] at h
  split at h
  · rename_i active place hi
    simp only [Option.bind_eq_bind, Option.bind_eq_some_iff] at h
    obtain ⟨⟨e, s₁⟩, hw, h⟩ := h
    obtain ⟨hstep, hcall, rfl⟩ := withController_cases hw
    cases h
    exact .finish hi hl hstep (congrArg some hcall.symm)
  · rename_i reservation place hi
    simp only [Option.bind_eq_bind, Option.bind_eq_some_iff] at h
    obtain ⟨⟨e, s₁⟩, hw, h⟩ := h
    obtain ⟨hstep, hcall, rfl⟩ := withController_cases hw
    cases h
    have hrel : (RequestState.reserved reservation).hold.release? completion s.clock = some e.call :=
      congrArg some hcall.symm
    exact .finish hi hl hstep hrel
  · rename_i place hi
    cases h
    exact .finished hi hl
  · cases h

theorem exec_move (h : s.exec l = some (ev, s')) : Move s l ev s' := by
  cases l with
  | tick now =>
    simp only [exec] at h
    split at h
    · rename_i hle
      cases h
      exact .tick hle
    · cases h
  | snapshot => exact read_move (show (Call.snapshot s.clock).IsRead from trivial) rfl (Or.inl rfl) h
  | loadMetric => exact read_move (show (Call.load s.clock).IsRead from trivial) rfl (Or.inr (Or.inl rfl)) h
  | serve => exact serve_move h
  | reserveOnly => exact reserveP2c_move (show (Call.refresh s.clock).IsRead from trivial) rfl (Or.inl rfl) h
  | reservePair asked =>
    simp only [exec] at h
    cases asked with
    | true => exact reserveP2c_move (show (Call.load s.clock).IsRead from trivial) rfl (Or.inr rfl) h
    | false => exact read_move (show (Call.load s.clock).IsRead from trivial) rfl (Or.inr (Or.inr rfl)) h
  | run i => exact run_move h
  | respond i ok =>
    simp only [exec] at h
    split at h
    · exact finish_move (Or.inl ⟨ok, rfl⟩) h
    · cases h
  | drop i => exact finish_move (Or.inr rfl) h
  | notifyDispatch =>
    simp only [exec] at h
    split at h
    · cases h
    · rename_i dispatch hd
      cases h
      exact .notifyDispatch hd

/-! ## The clients -/

/-- What the clients see of the endpoint. -/
def view (s : Endpoint T F R) : Clients T F R := (system T F R).view s

/-- The timer of a timeout runs to the deadline. -/
theorem wait_afterCheck {notified : Bool} {now : T} {state : DispatchState T}
    (h : ∀ deadline, state = .waitUntil deadline → now ≤ deadline) :
    (afterCheck notified now state).wait = waitAfter notified state := by
  cases state with
  | ready => rfl
  | waitUntil deadline =>
    simp only [afterCheck, Place.wait, waitAfter]
    rw [add_tsub_cancel_of_le (h deadline rfl)]
  | waitForPrevious => rfl
  | inflightLimit => rfl
  | cancelled => rfl

/-- The clients of a request more. -/
theorem view_join (s : Endpoint T F R) (reservation : DispatchReservation) :
    (s.requests ++ [(⟨.reserved reservation, .waiting .away⟩ : Request T)]).map Request.client =
      s.view.clients ++ [⟨.queued reservation, .away⟩] := List.map_append ..

omit [AddCommMonoid T] [LinearOrder T] [Sub T] [Time T] [F64 F] [Secs T F] [Rng R F] in
theorem Request.client_notify (request : Request T) :
    Request.client { request with place := request.place.notify } = request.client.notify := by
  obtain ⟨state, place⟩ := request
  cases place <;> rfl

/-- **Every move is a step of the clients.** -/
theorem Move.clients (h : Move s l ev s') (hi : s.view.Inv) : Clients.Step s.view ev s'.view := by
  have hlen : s.view.clients.length = s.requests.length := List.length_map ..
  cases h with
  | tick hle => exact .tick hle
  | @read l e hstep hr hnow _ =>
    exact Clients.Step.read (.single hstep hnow) (inert_single (.read hr)) (Clients.owes_flag _) rfl
      fun hf => by cases hf
  | @serve e reservation hstep hcall hreply =>
    obtain ⟨hsame, ho⟩ := hi.reserve hstep hcall
    have hissued : e.issued? = some reservation := Entry.issued_of hcall hreply
    have hsee := Clients.Step.accept (s := s.view) ⟨.nil, by simp⟩ (by simp) hstep (by rw [hcall]; rfl) hissued ho
    rw [Clients.unlock, hsame, hlen, ← view_join] at hsee
    exact hsee
  | @reject e error hstep hcall hreply =>
    obtain ⟨hsame, ho⟩ := hi.reserve hstep hcall
    have hinert : ∀ x ∈ [e], x.Inert := inert_single (.refused hcall hreply)
    have hsee : Clients.Step s.view ⟨none, [e], .none⟩ _ :=
      .read (.single hstep (by rw [hcall]; rfl)) hinert ho rfl fun hf => by cases hf
    rw [Clients.unlock, hsame] at hsee
    exact hsee
  | @reserve l first e reservation hfirst hr hnow hstep hcall hreply _ =>
    have hissued : e.issued? = some reservation := Entry.issued_of hcall hreply
    have hinert : ∀ x ∈ [first], x.Inert := inert_single (.read hr)
    have hsee := Clients.Step.accept (s := s.view) (.single hfirst hnow) hinert hstep (by rw [hcall]; rfl) hissued
      (Clients.owes_flag _)
    rw [hlen, ← view_join] at hsee
    exact hsee
  | @refuse l first e error hfirst hr hnow hstep hcall hreply _ =>
    exact Clients.Step.refused (s := s.view) (.single hfirst hnow) hr hstep hcall hreply
  | @enable i reservation hplace =>
    exact Clients.Step.placed (fun _ => .silent) s.view hplace fun xs ys hx =>
      .move (x := Request.client ⟨.reserved reservation, .waiting .away⟩) hx (Or.inr rfl)
  | @wake i reservation notified timer hplace _ =>
    exact Clients.Step.placed (fun _ => .silent) s.view hplace fun xs ys hx =>
      .move (x := Request.client ⟨.reserved reservation, .waiting (.asleep notified timer)⟩) hx (Or.inl rfl)
  | @check i reservation notified e state hplace hstep hcall hreply =>
    have hc : e.call.check? = some (reservation, s.clock) := by rw [hcall]; rfl
    have hs : e.reply.state? = some state := by rw [hreply]; rfl
    have hwait : (afterCheck notified s.clock state).wait = waitAfter notified state := by
      refine wait_afterCheck fun deadline hstate => hstep.deadline hc ?_
      rw [hs, hstate]
    refine Clients.Step.placed (fun i => ⟨some i, [e], e.after.changes⟩) (s.view.unlock e.after 0 []) hplace
      fun xs ys hx => ?_
    simp only [Request.client, RequestState.hold, hwait]
    exact .check hx hstep hc hs
  | @dispatch i reservation e active hplace hstep hcall hreply =>
    have hd : e.dispatched? = some (reservation, active) := Entry.dispatched_of hcall hreply
    exact Clients.Step.placed (fun i => ⟨some i, [e], .none⟩) (s.release e).view hplace fun xs ys hx =>
      .dispatch hx hstep (by rw [hcall]; rfl) hd (Clients.owes_flag _)
  | @retry i reservation e state hplace hstep hcall hreply =>
    exact Clients.Step.placed (fun i => ⟨some i, [e], .none⟩) (s.release e).view hplace fun xs ys hx =>
      .retry hx hstep (by rw [hcall]; rfl) (show e.reply.state? = some state by rw [hreply]; rfl) (Clients.owes_flag _)
  | @finish i l request completion e hplace _ hstep hrel =>
    exact Clients.Step.placed (fun i => ⟨some i, [e], .none⟩) (s.release e).view hplace fun xs ys hx =>
      .release hx hstep hrel (Clients.owes_flag _)
  | finished _ _ => exact .stay
  | notifyDispatch hd =>
    have hsee : Clients.Step s.view Event.silent _ := .broadcast (show s.view.owed = _ + 1 from hd)
    rw [show s.view.clients = s.requests.map Request.client from rfl, ← map_notify Request.client_notify] at hsee
    exact hsee

/-! ## Guards -/

/-- The guards of the futures that have returned, and no others, have finished. -/
def Settled (s : Endpoint T F R) : Prop :=
  Agree (fun request => request.place.isReturned) Request.client s.requests

/-- **A move finishes a guard exactly when its future returns.** -/
theorem Move.settled (h : Move s l ev s') (hset : s.Settled) : s'.Settled := by
  cases h with
  | tick _ => exact hset
  | read _ _ _ _ => exact hset
  | serve _ _ _ => exact Agree.join hset rfl
  | reject _ _ _ => exact hset
  | reserve _ _ _ _ _ _ _ => exact Agree.join hset rfl
  | refuse _ _ _ _ _ _ _ => exact hset
  | enable _ => exact Agree.set hset rfl
  | wake _ _ => exact Agree.set hset rfl
  | @check _ _ _ _ state _ _ _ _ =>
    refine Agree.set hset ?_
    cases state <;> rfl
  | dispatch _ _ _ _ => exact Agree.set hset rfl
  | retry _ _ _ _ => exact Agree.set hset rfl
  | finish _ _ _ _ => exact Agree.set hset rfl
  | finished _ _ => exact hset
  | notifyDispatch _ =>
    refine Agree.map hset fun request => ?_
    obtain ⟨state, place⟩ := request
    cases place <;> exact ⟨rfl, rfl⟩

/-- A guard that has finished holds nothing. -/
theorem client_finished {place : Place T} (h : s.requests[i]? = some ⟨.finished, place⟩) :
    ∃ x, s.view.clients[i]? = some x ∧ x.purpose = .finished := by
  refine ⟨Request.client ⟨.finished, place⟩, ?_, rfl⟩
  show (s.requests.map Request.client)[i]? = _
  rw [List.getElem?_map, h]
  rfl

/-- A guard that is dropped holds nothing. -/
theorem Move.dropped (h : Move s (.drop i) ev s') : ∃ x, s'.view.clients[i]? = some x ∧ x.purpose = .finished := by
  cases h with
  | read _ _ _ hl => rcases hl with hl | hl | hl <;> cases hl
  | reserve _ _ _ _ _ _ hl => rcases hl with hl | hl <;> cases hl
  | refuse _ _ _ _ _ _ hl => rcases hl with hl | hl <;> cases hl
  | finish hi hl _ _ =>
    rcases hl with ⟨ok, hl⟩ | hl
    · cases hl
    · cases hl
      obtain ⟨hlt, -⟩ := List.getElem?_eq_some_iff.mp hi
      exact client_finished (List.getElem?_set_self hlt)
  | finished hi hl =>
    rcases hl with ⟨ok, hl⟩ | hl
    · cases hl
    · cases hl
      exact client_finished hi

end Endpoint

/-- **The Rama adapter is sound.** -/
theorem system_sound : (system T F R).Sound where
  start _ _ := rfl
  step _ _ _ _ hi h := (Endpoint.exec_move h).clients hi
  inner := ⟨Endpoint.Settled, fun _ _ _ hr => (by cases hr), fun _ hset => ⟨fun _ hw => (by cases hw), Agree.settled hset⟩,
    fun _ _ _ _ _ hset h => (Endpoint.exec_move h).settled hset⟩
  drop s i _ _ h := (Endpoint.exec_move (show s.exec (.drop i) = _ from h)).dropped

end

end Loadpace.Rama
