import Loadpace.Adapter.System

/-!
# The Tokio adapter (`loadpace-tokio`)

An `Endpoint` shares its controller with its reservations and active requests. `Endpoint.dispatch` runs the loop of
`Reservation::dispatch` from one lock acquisition to the next; a guard that still owns its token releases it when it is
dropped. `exec_move` says once what a step can do. `system_sound`: the adapter is a sound system. Each `now()` is read under the
lock; a panic under the lock ends the run.
-/

namespace Loadpace.Tokio

open Systems EndpointController Notify

/-- An accepted request: its `Reservation`, with the place of its `dispatch` future, or its `ActiveRequest`. -/
inductive Request (T : Type)
  | reservation (token : Option DispatchReservation) (dispatch : Wait (Option T))
  | active (token : Option (InFlightRequest T))

/-- `dispatch.notify_waiters`, as the request sees it. -/
def Request.notify {T : Type} : Request T → Request T
  | .reservation token dispatch => .reservation token dispatch.notify
  | .active token => .active token

structure Endpoint (T F R : Type) where
  controller : EndpointController T F R
  clock : T
  /-- The calls of `admission.notify_waiters` that are still to be made. -/
  admission : ℕ
  /-- The calls of `dispatch.notify_waiters` that are still to be made. -/
  dispatch : ℕ
  requests : List (Request T)
  /-- The futures of `Endpoint::ready`. -/
  readies : List (Waiter Unit Unit)

inductive Label (T : Type)
  | tick (now : T)
  | load
  | snapshot
  | tryReserve
  /-- One of the two endpoints of `try_reserve_pair`, and whether it is asked for a slot. -/
  | tryReservePair (asked : Bool)
  | runDispatch (i : ℕ)
  | finish (i : ℕ) (completion : Completion)
  /-- A guard is dropped, with its future or by itself, or because the operation or the classifier of `run` panics. -/
  | drop (i : ℕ)
  | ready
  | runReady (j : ℕ)
  | dropReady (j : ℕ)
  | notifyAdmission
  | notifyDispatch

namespace Endpoint

variable {T F R : Type} [AddCommMonoid T] [LinearOrder T] [Sub T] [Time T] [F64 F] [Secs T F] [Rng R F]

/-- `Shared::notify`, once the lock is free. -/
def notify (s : Endpoint T F R) (changes : ControllerChanges) : Endpoint T F R :=
  { s with admission := s.admission + changes.admission.toNat, dispatch := s.dispatch + changes.dispatch.toNat }

/-- The end of `Shared::with_controller`. -/
def release (s : Endpoint T F R) (e : Entry T F R) : Endpoint T F R :=
  let (changes, controller) := e.after.takeChanges
  { s with controller }.notify changes

/-- `Shared::with_controller` with one call. -/
def withController (s : Endpoint T F R) (call : Call T) : Option (Entry T F R × Endpoint T F R) := do
  let e ← perform s.controller call
  some (e, s.release e)

/-- A metric read. -/
def read (s : Endpoint T F R) (call : Call T) : Option (Event T F R × Endpoint T F R) := do
  let (e, s) ← s.withController call
  some ({ who := none, entries := [e], dropped := ControllerChanges.none }, s)

/-- `Endpoint::try_reserve`, and with a `load` in the place of the `refresh` this endpoint's part of `try_reserve_pair`. -/
def tryReserve (s : Endpoint T F R) (first : Call T) : Option (Event T F R × Endpoint T F R) := do
  let e ← perform s.controller first
  let (e', s') ← { s with controller := e.after }.withController (.reserve s.clock)
  match e'.reply with
  | .reserved (.ok token) =>
    some ({ who := some s.requests.length, entries := [e, e'], dropped := ControllerChanges.none },
      { s' with requests := s'.requests ++ [.reservation (some token) .away] })
  | .reserved (.error _) => some ({ who := none, entries := [e, e'], dropped := ControllerChanges.none }, s')
  | _ => none

/-- The check of `Reservation::dispatch`; the changes of a failed one are dropped. A panic of its `unreachable!` would
leave the loop and drop the reservation. -/
def check (s : Endpoint T F R) (i : ℕ) (token : DispatchReservation) (notified : Bool) :
    Option (Event T F R × Endpoint T F R) := do
  let e ← perform s.controller (.onDispatched token s.clock)
  let (changes, controller) := e.after.takeChanges
  match e.reply with
  | .dispatched (.ok active) =>
    some ({ who := some i, entries := [e], dropped := ControllerChanges.none },
      { s with controller, requests := s.requests.set i (.active (some active)) }.notify changes)
  | .dispatched (.error state) =>
    some ({ who := some i, entries := [e], dropped := changes },
      { s with controller, requests := s.requests.set i (.reservation (some token) (waitAfter notified state)) })
  | _ => none

/-- `Reservation::dispatch` from one lock acquisition or suspension to the next. -/
def runDispatch (s : Endpoint T F R) (i : ℕ) : Option (Event T F R × Endpoint T F R) :=
  let goto (token : DispatchReservation) (wait : Wait (Option T)) : Event T F R × Endpoint T F R :=
    (Event.silent, { s with requests := s.requests.set i (.reservation (some token) wait) })
  match s.requests[i]? with
  | some (.reservation (some token) .away) => some (goto token (.enabled false))
  | some (.reservation (some token) (.enabled notified)) => s.check i token notified
  | some (.reservation (some token) (.asleep notified timer)) =>
    if notified ∨ timer.any (· ≤ s.clock) then some (goto token .away) else none
  | _ => none

/-- `ActiveRequest::complete`, and the drop of a `Reservation`; a guard without a token does nothing. -/
def complete (s : Endpoint T F R) (i : ℕ) (completion : Completion) : Option (Event T F R × Endpoint T F R) := do
  match s.requests[i]? with
  | some (.reservation (some token) _) =>
    let (e, s) ← s.withController (.cancel token s.clock)
    some ({ who := some i, entries := [e], dropped := ControllerChanges.none },
      { s with requests := s.requests.set i (.reservation none .away) })
  | some (.active (some token)) =>
    let (e, s) ← s.withController (.finish token completion s.clock)
    some ({ who := some i, entries := [e], dropped := ControllerChanges.none },
      { s with requests := s.requests.set i (.active none) })
  | some _ => some (Event.silent, s)
  | none => none

/-- `Endpoint::ready` from one lock acquisition or suspension to the next; it returns when the queue has room. -/
def runReady (s : Endpoint T F R) (j : ℕ) : Option (Event T F R × Endpoint T F R) :=
  let goto (wait : Wait Unit) : Event T F R × Endpoint T F R :=
    (Event.silent, { s with readies := s.readies.set j ⟨(), wait⟩ })
  match s.readies[j]? with
  | some ⟨(), .away⟩ => some (goto (.enabled false))
  | some ⟨(), .enabled notified⟩ =>
    if s.controller.maySchedule then some (goto .away) else some (goto (.asleep notified ()))
  | some ⟨(), .asleep notified ()⟩ => if notified then some (goto .away) else none
  | none => none

def exec (s : Endpoint T F R) : Label T → Option (Event T F R × Endpoint T F R)
  | .tick now => if s.clock ≤ now then some (Event.silent, { s with clock := now }) else none
  | .load => s.read (.load s.clock)
  | .snapshot => s.read (.snapshot s.clock)
  | .tryReserve => s.tryReserve (.refresh s.clock)
  | .tryReservePair asked => if asked then s.tryReserve (.load s.clock) else s.read (.load s.clock)
  | .runDispatch i => s.runDispatch i
  | .finish i completion =>
    match s.requests[i]? with
    | some (.active _) => s.complete i completion
    | _ => none
  | .drop i => s.complete i .abandoned
  | .ready => some (Event.silent, { s with readies := s.readies ++ [⟨(), .away⟩] })
  | .runReady j => s.runReady j
  | .dropReady j => some (Event.silent, { s with readies := s.readies.set j ⟨(), .away⟩ })
  | .notifyAdmission =>
    match s.admission with
    | 0 => none
    | admission + 1 => some (Event.silent, { s with admission, readies := s.readies.map Waiter.notify })
  | .notifyDispatch =>
    match s.dispatch with
    | 0 => none
    | dispatch + 1 => some (Event.silent, { s with dispatch, requests := s.requests.map Request.notify })

end Endpoint

/-- What the guard of a request holds, and where its task waits. -/
def Request.client {T : Type} : Request T → Client T
  | .reservation (some token) dispatch => ⟨.queued token, dispatch⟩
  | .active (some token) => ⟨.inflight token, .away⟩
  | .reservation none _ | .active none => ⟨.finished, .away⟩

/-- The request has neither guard any more. -/
def Request.isGone {T : Type} : Request T → Bool
  | .reservation none _ | .active none => true
  | _ => false

section

variable (T F R : Type) [AddCommMonoid T] [LinearOrder T] [Sub T] [Time T] [F64 F] [Secs T F] [Rng R F]

def system : System T F R where
  State := Endpoint T F R
  Label := Label T
  start controller clock := { controller, clock, admission := 0, dispatch := 0, requests := [], readies := [] }
  exec := Endpoint.exec
  view s := { controller := s.controller, clock := s.clock, owed := s.dispatch, clients := s.requests.map Request.client }
  admissionWaits s := s.readies.filterMap fun x =>
    match x.wait with
    | .asleep notified _ => some (notified || decide (0 < s.admission))
    | _ => none
  gone s := s.requests.map Request.isGone
  drop := .drop

end

/-! ## Moves -/

section

variable {T F R : Type} [AddCommMonoid T] [LinearOrder T] [Sub T] [Time T] [F64 F] [Secs T F] [Rng R F]

namespace Endpoint

/-- A future of `ready` moves on. -/
inductive Look (s : Endpoint T F R) : Wait Unit → Wait Unit → Prop
  | enable : Look s .away (.enabled false)
  | pass {notified : Bool} : s.controller.maySchedule = true → Look s (.enabled notified) .away
  | sleep {notified : Bool} : s.controller.maySchedule = false → Look s (.enabled notified) (.asleep notified ())
  | wake : Look s (.asleep true ()) .away

/-- **What a step does.** -/
inductive Move (s : Endpoint T F R) : Label T → Event T F R → Endpoint T F R → Prop
  | tick {now : T} : s.clock ≤ now → Move s (.tick now) .silent { s with clock := now }
  | read {l : Label T} {e : Entry T F R} : Step s.controller e e.after → e.call.IsRead → e.call.now? = some s.clock →
      l = .load ∨ l = .snapshot ∨ l = .tryReservePair false → Move s l ⟨none, [e], .none⟩ (s.release e)
  | accept {l : Label T} {first e : Entry T F R} {token : DispatchReservation} :
      Step s.controller first first.after → first.call.IsRead → first.call.now? = some s.clock →
      Step first.after e e.after → e.call = .reserve s.clock → e.reply = .reserved (.ok token) →
      l = .tryReserve ∨ l = .tryReservePair true → Move s l ⟨some s.requests.length, [first, e], .none⟩
        { s.release e with requests := s.requests ++ [.reservation (some token) .away] }
  | refuse {l : Label T} {first e : Entry T F R} {error : ScheduleError} :
      Step s.controller first first.after → first.call.IsRead → first.call.now? = some s.clock →
      Step first.after e e.after → e.call = .reserve s.clock → e.reply = .reserved (.error error) →
      l = .tryReserve ∨ l = .tryReservePair true → Move s l ⟨none, [first, e], .none⟩ (s.release e)
  | enable {i : ℕ} {token : DispatchReservation} : s.requests[i]? = some (.reservation (some token) .away) →
      Move s (.runDispatch i) .silent
        { s with requests := s.requests.set i (.reservation (some token) (.enabled false)) }
  | wake {i : ℕ} {token : DispatchReservation} {notified : Bool} {timer : Option T} :
      s.requests[i]? = some (.reservation (some token) (.asleep notified timer)) →
      notified = true ∨ timer.any (· ≤ s.clock) = true →
      Move s (.runDispatch i) .silent { s with requests := s.requests.set i (.reservation (some token) .away) }
  | dispatch {i : ℕ} {token : DispatchReservation} {notified : Bool} {e : Entry T F R} {active : InFlightRequest T} :
      s.requests[i]? = some (.reservation (some token) (.enabled notified)) → Step s.controller e e.after →
      e.call = .onDispatched token s.clock → e.reply = .dispatched (.ok active) →
      Move s (.runDispatch i) ⟨some i, [e], .none⟩
        { s.release e with requests := s.requests.set i (.active (some active)) }
  | check {i : ℕ} {token : DispatchReservation} {notified : Bool} {e : Entry T F R} {state : DispatchState T} :
      s.requests[i]? = some (.reservation (some token) (.enabled notified)) → Step s.controller e e.after →
      e.call = .onDispatched token s.clock → e.reply = .dispatched (.error state) →
      Move s (.runDispatch i) ⟨some i, [e], e.after.changes⟩ { s with
        controller := { e.after with changes := .none }
        requests := s.requests.set i (.reservation (some token) (waitAfter notified state)) }
  | complete {i : ℕ} {l : Label T} {request request' : Request T} {completion : Completion} {e : Entry T F R} :
      s.requests[i]? = some request → l = .finish i completion ∨ l = .drop i → Step s.controller e e.after →
      request.client.purpose.release? completion s.clock = some e.call → request'.client = ⟨.finished, .away⟩ →
      Move s l ⟨some i, [e], .none⟩ { s.release e with requests := s.requests.set i request' }
  | completed {i : ℕ} {l : Label T} {request : Request T} {completion : Completion} : s.requests[i]? = some request →
      l = .finish i completion ∨ l = .drop i → request.client = ⟨.finished, .away⟩ → Move s l .silent s
  | ready : Move s .ready .silent { s with readies := s.readies ++ [⟨(), .away⟩] }
  | look {j : ℕ} {wait wait' : Wait Unit} : s.readies[j]? = some ⟨(), wait⟩ → Look s wait wait' →
      Move s (.runReady j) .silent { s with readies := s.readies.set j ⟨(), wait'⟩ }
  | dropReady {j : ℕ} : Move s (.dropReady j) .silent { s with readies := s.readies.set j ⟨(), .away⟩ }
  | notifyAdmission {admission : ℕ} : s.admission = admission + 1 →
      Move s .notifyAdmission .silent { s with admission, readies := s.readies.map Waiter.notify }
  | notifyDispatch {dispatch : ℕ} : s.dispatch = dispatch + 1 →
      Move s .notifyDispatch .silent { s with dispatch, requests := s.requests.map Request.notify }

variable {s s' : Endpoint T F R} {ev : Event T F R} {e : Entry T F R} {i : ℕ} {l : Label T}

theorem withController_cases {call : Call T} (h : s.withController call = some (e, s')) :
    Step s.controller e e.after ∧ e.call = call ∧ s' = s.release e := by
  simp only [withController, Option.bind_eq_bind, Option.bind_eq_some_iff] at h
  obtain ⟨e', he, h⟩ := h
  cases h
  obtain ⟨hstep, hcall⟩ := perform_step he
  exact ⟨hstep, hcall, rfl⟩

theorem read_move {call : Call T} (hr : call.IsRead) (hnow : call.now? = some s.clock)
    (hl : l = .load ∨ l = .snapshot ∨ l = .tryReservePair false) (h : s.read call = some (ev, s')) :
    Move s l ev s' := by
  simp only [read, Option.bind_eq_bind, Option.bind_eq_some_iff] at h
  obtain ⟨⟨e, s₁⟩, hw, h⟩ := h
  obtain ⟨hstep, rfl, rfl⟩ := withController_cases hw
  cases h
  exact .read hstep hr hnow hl

theorem tryReserve_move {first : Call T} (hr : first.IsRead) (hnow : first.now? = some s.clock)
    (hl : l = .tryReserve ∨ l = .tryReservePair true) (h : s.tryReserve first = some (ev, s')) : Move s l ev s' := by
  simp only [tryReserve, Option.bind_eq_bind, Option.bind_eq_some_iff] at h
  obtain ⟨e, he, ⟨e', s₁⟩, hw, h⟩ := h
  obtain ⟨hstep, rfl⟩ := perform_step he
  obtain ⟨hstep', hcall', rfl⟩ := withController_cases hw
  dsimp only at h
  split at h
  · rename_i token hreply
    cases h
    exact .accept hstep hr hnow hstep' hcall' hreply hl
  · rename_i error hreply
    cases h
    exact .refuse hstep hr hnow hstep' hcall' hreply hl
  · cases h

theorem runDispatch_move (h : s.runDispatch i = some (ev, s')) : Move s (.runDispatch i) ev s' := by
  unfold runDispatch at h
  dsimp only at h
  split at h
  · rename_i token hi
    cases h
    exact .enable hi
  · rename_i token notified hi
    simp only [check, Option.bind_eq_bind, Option.bind_eq_some_iff] at h
    obtain ⟨e, he, h⟩ := h
    obtain ⟨hstep, hcall⟩ := perform_step he
    split at h
    · rename_i active hreply
      cases h
      exact .dispatch hi hstep hcall hreply
    · rename_i state hreply
      cases h
      exact .check hi hstep hcall hreply
    · cases h
  · rename_i token notified timer hi
    split at h
    · rename_i hwake
      cases h
      exact .wake hi hwake
    · cases h
  · cases h

theorem complete_move {completion : Completion} (hl : l = .finish i completion ∨ l = .drop i)
    (h : s.complete i completion = some (ev, s')) : Move s l ev s' := by
  unfold complete at h
  split at h
  · rename_i token wait hi
    simp only [Option.bind_eq_bind, Option.bind_eq_some_iff] at h
    obtain ⟨⟨e, s₁⟩, hw, h⟩ := h
    obtain ⟨hstep, hcall, rfl⟩ := withController_cases hw
    cases h
    have hrel : (Request.reservation (some token) wait).client.purpose.release? completion s.clock = some e.call :=
      congrArg some hcall.symm
    exact .complete hi hl hstep hrel rfl
  · rename_i token hi
    simp only [Option.bind_eq_bind, Option.bind_eq_some_iff] at h
    obtain ⟨⟨e, s₁⟩, hw, h⟩ := h
    obtain ⟨hstep, hcall, rfl⟩ := withController_cases hw
    cases h
    have hrel : (Request.active (some token)).client.purpose.release? completion s.clock = some e.call :=
      congrArg some hcall.symm
    exact .complete hi hl hstep hrel rfl
  · rename_i request hqueued hactive hi
    cases h
    refine .completed hi hl ?_
    rcases request with ⟨_ | token, wait⟩ | ⟨_ | token⟩
    · rfl
    · exact absurd rfl (hqueued token wait)
    · rfl
    · exact absurd rfl (hactive token)
  · cases h

theorem runReady_move {j : ℕ} (h : s.runReady j = some (ev, s')) : Move s (.runReady j) ev s' := by
  unfold runReady at h
  dsimp only at h
  split at h
  · rename_i hj
    cases h
    exact .look hj .enable
  · rename_i notified hj
    split at h
    · rename_i hroom
      cases h
      exact .look hj (.pass hroom)
    · rename_i hfull
      cases h
      exact .look hj (.sleep (Bool.eq_false_iff.mpr hfull))
  · rename_i notified hj
    split at h
    · rename_i hnotified
      cases h
      rw [hnotified] at hj
      exact .look hj .wake
    · cases h
  · cases h

theorem exec_move (h : s.exec l = some (ev, s')) : Move s l ev s' := by
  cases l with
  | tick now =>
    simp only [exec] at h
    split at h
    · rename_i hle
      cases h
      exact .tick hle
    · cases h
  | load => exact read_move (show (Call.load s.clock).IsRead from trivial) rfl (Or.inl rfl) h
  | snapshot => exact read_move (show (Call.snapshot s.clock).IsRead from trivial) rfl (Or.inr (Or.inl rfl)) h
  | tryReserve => exact tryReserve_move (show (Call.refresh s.clock).IsRead from trivial) rfl (Or.inl rfl) h
  | tryReservePair asked =>
    simp only [exec] at h
    cases asked with
    | true => exact tryReserve_move (show (Call.load s.clock).IsRead from trivial) rfl (Or.inr rfl) h
    | false => exact read_move (show (Call.load s.clock).IsRead from trivial) rfl (Or.inr (Or.inr rfl)) h
  | runDispatch i => exact runDispatch_move h
  | finish i completion =>
    simp only [exec] at h
    split at h
    · exact complete_move (Or.inl rfl) h
    · cases h
  | drop i => exact complete_move (Or.inr rfl) h
  | ready =>
    cases h
    exact .ready
  | runReady j => exact runReady_move h
  | dropReady j =>
    cases h
    exact .dropReady
  | notifyAdmission =>
    simp only [exec] at h
    split at h
    · cases h
    · rename_i admission ha
      cases h
      exact .notifyAdmission ha
  | notifyDispatch =>
    simp only [exec] at h
    split at h
    · cases h
    · rename_i dispatch hd
      cases h
      exact .notifyDispatch hd

/-! ## The clients -/

/-- What the clients see of the endpoint. -/
def view (s : Endpoint T F R) : Clients T F R := (system T F R).view s

omit [AddCommMonoid T] [LinearOrder T] [Sub T] [Time T] [F64 F] [Secs T F] [Rng R F] in
theorem Request.client_notify (request : Request T) : request.notify.client = request.client.notify := by
  rcases request with ⟨_ | token, wait⟩ | ⟨_ | token⟩
  · rfl
  · rfl
  · rfl
  · rfl

/-- **Every move is a step of the clients.** -/
theorem Move.clients (h : Move s l ev s') : Clients.Step s.view ev s'.view := by
  cases h with
  | tick hle => exact .tick hle
  | @read l e hstep hr hnow _ =>
    exact Clients.Step.read (.single hstep hnow) (inert_single (.read hr)) (Clients.owes_flag _) rfl
      fun hf => by cases hf
  | @accept l first e token hfirst hr hnow hstep hcall hreply _ =>
    have hissued : e.issued? = some token := Entry.issued_of hcall hreply
    have hinert : ∀ x ∈ [first], x.Inert := inert_single (.read hr)
    have hsee := Clients.Step.accept (s := s.view) (.single hfirst hnow) hinert hstep (by rw [hcall]; rfl) hissued
      (Clients.owes_flag _)
    have hlen : s.view.clients.length = s.requests.length := List.length_map ..
    have hview : (s.requests ++ [Request.reservation (some token) .away]).map Request.client =
        s.view.clients ++ [⟨.queued token, .away⟩] := List.map_append ..
    rw [hlen, ← hview] at hsee
    exact hsee
  | @refuse l first e error hfirst hr hnow hstep hcall hreply _ =>
    exact Clients.Step.refused (s := s.view) (.single hfirst hnow) hr hstep hcall hreply
  | @enable i token hplace =>
    exact Clients.Step.placed (fun _ => .silent) s.view hplace fun xs ys hx =>
      .move (x := Request.client (.reservation (some token) .away)) hx (Or.inr rfl)
  | @wake i token notified timer hplace _ =>
    exact Clients.Step.placed (fun _ => .silent) s.view hplace fun xs ys hx =>
      .move (x := Request.client (.reservation (some token) (.asleep notified timer))) hx (Or.inl rfl)
  | @dispatch i token notified e active hplace hstep hcall hreply =>
    have hd : e.dispatched? = some (token, active) := Entry.dispatched_of hcall hreply
    exact Clients.Step.placed (fun i => ⟨some i, [e], .none⟩) (s.release e).view hplace fun xs ys hx =>
      .dispatch hx hstep (by rw [hcall]; rfl) hd (Clients.owes_flag _)
  | @check i token notified e state hplace hstep hcall hreply =>
    exact Clients.Step.placed (fun i => ⟨some i, [e], e.after.changes⟩) (s.view.unlock e.after 0 []) hplace
      fun xs ys hx => .check hx hstep (by rw [hcall]; rfl) (show e.reply.state? = some state by rw [hreply]; rfl)
  | @complete i l request request' completion e hplace _ hstep hrel hdone =>
    refine Clients.Step.placed (fun i => ⟨some i, [e], .none⟩) (s.release e).view hplace fun xs ys hx => ?_
    rw [hdone]
    exact .release hx hstep hrel (Clients.owes_flag _)
  | completed _ _ _ => exact .stay
  | ready => exact .stay
  | look _ _ => exact .stay
  | dropReady => exact .stay
  | notifyAdmission _ => exact .stay
  | notifyDispatch hd =>
    have hsee : Clients.Step s.view Event.silent _ := .broadcast (show s.view.owed = _ + 1 from hd)
    rw [show s.view.clients = s.requests.map Request.client from rfl, ← map_notify Request.client_notify] at hsee
    exact hsee

/-! ## Admission -/

/-- The futures of `ready` that sleep have a wakeup owed to them, or the queue is full. -/
def Admitting (s : Endpoint T F R) : Prop :=
  Covered (fun _ _ => s.controller.maySchedule = false) s.admission s.readies

/-- A turn at the lock drains the admission flag when it makes room. -/
theorem Admitting.release {es : List (Entry T F R)} (h : s.Admitting) (hi : s.view.Inv)
    (hl : Locked s.controller s.clock es e.after) : (s.release e).Admitting := by
  refine Covered.change h (Nat.le_add_right _ _) fun x _ timer _ hfull => ?_
  rcases hi.full hl hfull with hflag | hstill
  · left
    show 0 < s.admission + e.after.changes.admission.toNat
    rw [hflag]
    exact Nat.succ_pos _
  · exact Or.inr hstill

omit [AddCommMonoid T] [LinearOrder T] [Sub T] [Time T] [F64 F] [Secs T F] [Rng R F] in
/-- A future of `ready` moves on; one that falls asleep has just seen a full queue. -/
theorem Admitting.set {j : ℕ} {x : Waiter Unit Unit} {wait : Wait Unit} (h : s.Admitting) (hj : s.readies[j]? = some x)
    (hw : ∀ timer, wait = .asleep false timer → s.controller.maySchedule = false) :
    Admitting { s with readies := s.readies.set j ⟨(), wait⟩ } := by
  obtain ⟨xs, ys, hx, -, hset⟩ := split_set hj
  unfold Admitting at h ⊢
  dsimp only
  rw [hset]
  rw [hx] at h
  exact h.replace fun timer hdeaf => Or.inr (hw timer hdeaf)

/-- **No move loses an admission wakeup.** -/
theorem Move.admitting (h : Move s l ev s') (ha : s.Admitting) (hi : s.view.Inv) : s'.Admitting := by
  cases h with
  | tick _ => exact ha
  | read hstep _ hnow _ => exact ha.release hi (.single hstep hnow)
  | @accept l first e token hfirst _ hnow hstep hcall _ _ =>
    have hl : Locked s.controller s.clock [first] first.after := .single hfirst hnow
    exact ha.release hi (hl.snoc hstep (by rw [hcall]; rfl))
  | @refuse l first e error hfirst _ hnow hstep hcall _ _ =>
    have hl : Locked s.controller s.clock [first] first.after := .single hfirst hnow
    exact ha.release hi (hl.snoc hstep (by rw [hcall]; rfl))
  | enable _ => exact ha
  | wake _ _ => exact ha
  | dispatch _ hstep hcall _ => exact ha.release hi (.single hstep (by rw [hcall]; rfl))
  | @check i token notified e state _ hstep hcall hreply =>
    -- the check that drops its flags makes no room
    have hl : Locked s.controller s.clock [e] e.after := .single hstep (by rw [hcall]; rfl)
    have hsame : SameLine s.controller e.after :=
      hstep.checked (by rw [hcall]; rfl) (show e.reply.state? = some state by rw [hreply]; rfl)
    exact Covered.change ha (Nat.le_refl _) fun x _ timer _ hfull => Or.inr ((hl.maySchedule hsame).trans hfull)
  | complete _ _ hstep hrel _ => exact ha.release hi (.single hstep (Hold.now_of_release hrel))
  | completed _ _ _ => exact ha
  | ready => exact Covered.join ha fun timer hdeaf => by cases hdeaf
  | look hj hlook =>
    refine ha.set hj fun timer hw => ?_
    cases hlook with
    | enable => cases hw
    | pass _ => cases hw
    | sleep hfull => exact hfull
    | wake => cases hw
  | @dropReady j =>
    cases hj : s.readies[j]? with
    | none =>
      have hout : s.readies.length ≤ j := List.getElem?_eq_none_iff.mp hj
      rw [List.set_eq_of_length_le hout]
      exact ha
    | some x => exact ha.set hj fun timer hw => by cases hw
  | notifyAdmission _ => exact covered_notify
  | notifyDispatch _ => exact ha

theorem Admitting.awake (ha : s.Admitting) : (system T F R).Awake s := by
  intro woken hw
  obtain ⟨x, hx, hwait⟩ := List.mem_filterMap.mp hw
  split at hwait
  · rename_i notified timer hx'
    cases hwait
    cases notified with
    | true => exact Or.inl (Bool.true_or _)
    | false =>
      rcases ha x hx timer hx' with howed | hfull
      · exact Or.inl (decide_eq_true howed)
      · exact Or.inr hfull
  · cases hwait

/-! ## Guards -/

/-- The guards that are gone are those without a token. -/
theorem settled (s : Endpoint T F R) : (system T F R).Settled s := by
  refine Agree.settled fun request _ => ?_
  rcases request with ⟨_ | token, wait⟩ | ⟨_ | token⟩
  · rfl
  · rfl
  · rfl
  · rfl

/-- A guard without a token holds nothing. -/
theorem client_finished {request : Request T} (h : s.requests[i]? = some request)
    (hdone : request.client = ⟨.finished, .away⟩) : ∃ x, s.view.clients[i]? = some x ∧ x.purpose = .finished := by
  refine ⟨request.client, ?_, ?_⟩
  · show (s.requests.map Request.client)[i]? = _
    rw [List.getElem?_map, h]
    rfl
  · rw [hdone]

/-- A guard that is dropped holds nothing. -/
theorem Move.dropped (h : Move s (.drop i) ev s') : ∃ x, s'.view.clients[i]? = some x ∧ x.purpose = .finished := by
  cases h with
  | read _ _ _ hl => rcases hl with hl | hl | hl <;> cases hl
  | accept _ _ _ _ _ _ hl => rcases hl with hl | hl <;> cases hl
  | refuse _ _ _ _ _ _ hl => rcases hl with hl | hl <;> cases hl
  | complete hi hl _ _ hdone =>
    rcases hl with hl | hl
    · cases hl
    · cases hl
      obtain ⟨hlt, -⟩ := List.getElem?_eq_some_iff.mp hi
      exact client_finished (List.getElem?_set_self hlt) hdone
  | completed hi hl hdone =>
    rcases hl with hl | hl
    · cases hl
    · cases hl
      exact client_finished hi hdone

end Endpoint

/-- **The Tokio adapter is sound.** -/
theorem system_sound : (system T F R).Sound where
  start _ _ := rfl
  step _ _ _ _ _ h := (Endpoint.exec_move h).clients
  inner := ⟨Endpoint.Admitting, fun _ _ => covered_nil, fun s ha => ⟨ha.awake, s.settled⟩,
    fun _ _ _ _ hi ha h => (Endpoint.exec_move h).admitting ha hi⟩
  drop s i _ _ h := (Endpoint.exec_move (show s.exec (.drop i) = _ from h)).dropped

end

end Loadpace.Tokio
