import Loadpace.Adapter.Tower

/-!
# The Tower adapter is sound

Every `Move` is a step of the clients (`Move.clients`), keeps the waker of a task that waits for admission
(`Move.admitting`), and finishes a request exactly when its future returns (`Move.settled`); so `system_sound`.
-/

namespace Loadpace.Tower

open Systems EndpointController Notify

variable {T F R E : Type} [AddCommMonoid T] [LinearOrder T] [Sub T] [Time T] [F64 F] [Secs T F] [Rng R F]
variable {s s' : Endpoint T F R E} {ev : Event T F R} {e : Entry T F R} {es : List (Entry T F R)} {i : ℕ}
variable {l : Label T E}

namespace Endpoint

/-! ## The clients -/

/-- What the clients see of the endpoint. -/
def view (s : Endpoint T F R E) : Clients T F R := (system T F R E).view s

omit [AddCommMonoid T] [LinearOrder T] [Sub T] [Time T] [F64 F] [Secs T F] [Rng R F] in
/-- The controller at the end of a turn. -/
theorem release_controller (s : Endpoint T F R E) (e : Entry T F R) :
    (s.release e).shared.controller = e.after.takeChanges.2 := by
  unfold release
  dsimp only
  split <;> rfl

theorem release_view (s : Endpoint T F R E) (e : Entry T F R) (requests : List (Request T E)) :
    view { s.release e with requests } =
      s.view.unlock e.after e.after.changes.dispatch.toNat (requests.map Request.client) := by
  unfold view system Clients.unlock
  dsimp only
  rw [release_controller]
  rfl

/-- A future that moves outside its dispatch wait, or within it. -/
theorem goto_clients {state : RequestState T} {place place' : Place T E} (service : Option ℕ)
    (hi : s.requests[i]? = some ⟨state, place⟩) (hw : place'.wait = .away ∨ place'.wait = .enabled false) :
    Clients.Step s.view Event.silent (s.goto i ⟨state, place'⟩ service).2.view :=
  Clients.Step.placed (fun _ => .silent) s.view hi fun _ _ hx => .move (x := Request.client ⟨state, place⟩) hx hw

/-- The timer of a timeout runs to the deadline. -/
theorem wait_afterCheck {caller : Caller} {notified : Bool} {now : T} {state : DispatchState T}
    (h : ∀ deadline, state = .waitUntil deadline → now ≤ deadline) :
    (afterCheck (E := E) caller notified now state).wait = waitAfter notified state := by
  cases state with
  | ready => cases caller <;> rfl
  | waitUntil deadline =>
    simp only [afterCheck, Place.wait, waitAfter]
    rw [add_tsub_cancel_of_le (h deadline rfl)]
  | waitForPrevious => rfl
  | inflightLimit => rfl
  | cancelled => rfl

theorem pollReady_view (s : Endpoint T F R E) (waker : ℕ) : (s.pollReady waker).2.view = s.view := by
  unfold pollReady ControllerState.pollAdmission
  split
  · rfl
  · split
    · rename_i hp
      split at hp
      · cases hp
        rfl
      · split at hp <;> cases hp
    · rename_i hp
      split at hp
      · cases hp
      · split at hp <;> cases hp <;> rfl

omit [AddCommMonoid T] [LinearOrder T] [Sub T] [Time T] [F64 F] [Secs T F] [Rng R F] in
theorem Request.client_notify (request : Request T E) :
    Request.client { request with place := request.place.notify } = request.client.notify := by
  obtain ⟨state, place⟩ := request
  cases place <;> rfl

/-- **Every move is a step of the clients.** -/
theorem Move.clients (h : Move s l ev s') (hi : s.view.Inv) : Clients.Step s.view ev s'.view := by
  cases h with
  | tick hle => exact .tick hle
  | @read l e hstep hr hnow _ =>
    have hview : (s.release e).view = s.view.unlock e.after _ (s.requests.map Request.client) :=
      s.release_view e s.requests
    rw [hview]
    exact Clients.Step.read (.single hstep hnow) (inert_single (.read hr)) (Clients.owes_flag _) rfl
      fun hf => by cases hf
  | pollReady =>
    rw [pollReady_view]
    exact .stay
  | closed _ => exact .stay
  | @accept e reservation _ hstep hcall hreply =>
    obtain ⟨hsame, ho⟩ := hi.reserve hstep hcall
    have hnow : e.call.now? = some s.clock := by rw [hcall]; rfl
    have hissued : e.issued? = some reservation := Entry.issued_of hcall hreply
    have hsee := Clients.Step.accept (s := s.view) ⟨.nil, by simp⟩ (by simp) hstep hnow hissued ho
    have hlen : s.view.clients.length = s.requests.length := List.length_map ..
    have hview : (s.requests ++ [(⟨.queued reservation, .waiting .execute .away⟩ : Request T E)]).map Request.client =
        s.view.clients ++ [⟨.queued reservation, .away⟩] := List.map_append ..
    rw [Clients.unlock, hsame, hlen, ← hview] at hsee
    exact hsee
  | @refuse e error _ hstep hcall hreply =>
    obtain ⟨hsame, ho⟩ := hi.reserve hstep hcall
    have hinert : ∀ x ∈ [e], x.Inert := inert_single (.refused hcall hreply)
    have hsee : Clients.Step s.view ⟨none, [e], .none⟩ _ :=
      .read (.single hstep (by rw [hcall]; rfl)) hinert ho rfl fun hf => by cases hf
    rw [Clients.unlock, hsame] at hsee
    exact hsee
  | jump hplace hjump => exact goto_clients _ hplace hjump.wait
  | @check i reservation caller notified e state hplace _ hstep hcall hreply =>
    have hc : e.call.check? = some (reservation, s.clock) := by rw [hcall]; rfl
    have hs : e.reply.state? = some state := by rw [hreply]; rfl
    have hwait : (afterCheck (E := E) caller notified s.clock state).wait = waitAfter notified state := by
      refine wait_afterCheck fun deadline hstate => hstep.deadline hc ?_
      rw [hs, hstate]
    refine Clients.Step.placed (fun i => ⟨some i, [e], e.after.changes⟩) (s.view.unlock e.after 0 []) hplace
      fun xs ys hx => ?_
    simp only [Request.client, RequestState.hold, hwait]
    exact .check hx hstep hc hs
  | @dispatch i reservation e active hplace hstep hcall hreply =>
    have hd : e.dispatched? = some (reservation, active) := Entry.dispatched_of hcall hreply
    rw [release_view]
    exact Clients.Step.placed (fun i => ⟨some i, [e], .none⟩) (s.view.unlock e.after _ []) hplace fun xs ys hx =>
      .dispatch hx hstep (by rw [hcall]; rfl) hd (Clients.owes_flag _)
  | @retry i reservation e state hplace hstep hcall hreply =>
    rw [release_view]
    exact Clients.Step.placed (fun i => ⟨some i, [e], .none⟩) (s.view.unlock e.after _ []) hplace fun xs ys hx =>
      .retry hx hstep (by rw [hcall]; rfl) (show e.reply.state? = some state by rw [hreply]; rfl) (Clients.owes_flag _)
  | @finish i l state place completion outcome e hplace _ hstep hrel =>
    rw [release_view]
    exact Clients.Step.placed (fun i => ⟨some i, [e], .none⟩) (s.view.unlock e.after _ []) hplace fun xs ys hx =>
      .release hx hstep hrel (Clients.owes_flag _)
  | finished _ _ => exact .stay
  | pending _ => exact .stay
  | ready hplace => exact goto_clients _ hplace (Or.inl rfl)
  | @close i state error e hplace hstep hcall =>
    -- the broadcast of a closing endpoint makes good for the flags that it drops
    have hadmission : e.after.changes.admission = false := by
      rw [hstep.admissionFailure_changes hcall]
      exact congrArg ControllerChanges.admission hi.quiet
    have hinert : ∀ x ∈ [e], x.Inert := inert_single (.admissionFailure hcall)
    have hsee : Clients.Step s.view ⟨none, [e], e.after.changes⟩ _ :=
      .read (.single hstep (by rw [hcall]; rfl)) hinert (fun _ => Nat.one_pos) hadmission fun _ => Nat.one_pos
    have hview : (s.requests.set i ⟨state, .leaving error⟩).map Request.client = s.view.clients :=
      map_set_same Request.client hplace rfl
    rw [← hview] at hsee
    exact hsee
  | unwind hplace _ => exact goto_clients _ hplace (Or.inl rfl)
  | wake _ => exact .stay
  | notifyDispatch hd =>
    have hsee : Clients.Step s.view Event.silent _ := .broadcast (show s.view.owed = _ + 1 from hd)
    rw [show s.view.clients = s.requests.map Request.client from rfl, ← map_notify Request.client_notify] at hsee
    exact hsee

/-! ## Admission -/

/-- A task that waits for admission has left its waker at a full queue, or its waker was taken and is to be woken. -/
def Admitting (s : Endpoint T F R E) : Prop :=
  ∀ waker, s.poller = some (waker, false) →
    waker ∈ s.wakes ∨ (s.shared.admissionWaker = some waker ∧ s.shared.controller.maySchedule = false)

/-- A turn at the lock takes the waker when it makes room. -/
theorem Admitting.release (h : s.Admitting) (hi : s.view.Inv) (hstep : Step s.shared.controller e e.after)
    (hnow : e.call.now? = some s.clock) : (s.release e).Admitting := by
  intro waker hp
  have hwait := h waker hp
  unfold Endpoint.release
  dsimp only
  cases hf : e.after.changes.admission with
  | true =>
    rw [if_pos (show e.after.takeChanges.1.admission = true from hf)]
    left
    apply List.mem_append.mpr
    rcases hwait with hmem | ⟨hwaker, -⟩
    · exact Or.inl hmem
    · right
      show waker ∈ s.shared.admissionWaker.toList
      simp [hwaker]
  | false =>
    rw [if_neg (show ¬e.after.takeChanges.1.admission = true from Bool.eq_false_iff.mp hf)]
    rcases hwait with hmem | ⟨hwaker, hfull⟩
    · exact Or.inl (List.mem_append_left _ hmem)
    · right
      refine ⟨hwaker, ?_⟩
      rcases hi.full (.single hstep hnow) hfull with hf' | hfull'
      · rw [hf] at hf'
        cases hf'
      · exact hfull'

omit [AddCommMonoid T] [LinearOrder T] [Sub T] [Time T] [F64 F] [Secs T F] [Rng R F] in
/-- A step that leaves the waits keeps them when it keeps a full queue full. -/
theorem Admitting.still (h : s.Admitting) {s' : Endpoint T F R E} (hp : s'.poller = s.poller) (hw : s'.wakes = s.wakes)
    (ha : s'.shared.admissionWaker = s.shared.admissionWaker)
    (hfull : s.shared.controller.maySchedule = false → s'.shared.controller.maySchedule = false) : s'.Admitting := by
  intro waker hpoll
  rw [hp] at hpoll
  rw [hw, ha]
  exact (h waker hpoll).imp_right fun ⟨hwaker, hf⟩ => ⟨hwaker, hfull hf⟩

omit [AddCommMonoid T] [LinearOrder T] [Sub T] [Time T] [F64 F] [Secs T F] [Rng R F] in
/-- A task that is told to wait has left its waker. -/
theorem pollReady_admitting (s : Endpoint T F R E) (waker : ℕ) : (s.pollReady waker).2.Admitting := by
  intro waker' hp
  unfold pollReady ControllerState.pollAdmission at hp ⊢
  cases hfailed : s.shared.failed with
  | some error =>
    rw [hfailed] at hp
    cases hp
  | none =>
    rw [hfailed] at hp
    dsimp only at hp ⊢
    by_cases hroom : s.shared.controller.maySchedule = true
    · rw [if_pos hroom] at hp
      cases hp
    · have hfull : s.shared.controller.maySchedule = false := Bool.eq_false_iff.mpr hroom
      rw [if_neg hroom] at hp ⊢
      right
      by_cases hnew : s.shared.admissionWaker.all (· ≠ waker) = true
      · rw [if_pos hnew] at hp ⊢
        cases hp
        exact ⟨rfl, hfull⟩
      · rw [if_neg hnew] at hp ⊢
        cases hp
        refine ⟨?_, hfull⟩
        cases hw : s.shared.admissionWaker with
        | none =>
          rw [hw] at hnew
          exact absurd rfl hnew
        | some waker' =>
          rw [hw] at hnew
          simpa using hnew

/-- **No move loses an admission wakeup.** -/
theorem Move.admitting (h : Move s l ev s') (ha : s.Admitting) (hi : s.view.Inv) : s'.Admitting := by
  have reserved {e : Entry T F R} (hstep : Step s.shared.controller e e.after) (hcall : e.call = .reserve s.clock)
      (hfull : s.shared.controller.maySchedule = false) : e.after.maySchedule = false := by
    rcases hi.full (.single hstep (by rw [hcall]; rfl)) hfull with hf | hfull'
    · rw [(hstep.reserve_changes hcall).trans hi.quiet] at hf
      cases hf
    · exact hfull'
  cases h with
  | tick _ => exact ha
  | read hstep _ hnow _ => exact ha.release hi hstep hnow
  | pollReady => exact pollReady_admitting s _
  | closed _ => exact ha
  | accept _ hstep hcall _ => exact ha.still rfl rfl rfl (reserved hstep hcall)
  | refuse _ hstep hcall _ => exact ha.still rfl rfl rfl (reserved hstep hcall)
  | jump _ _ => exact ha
  | @check i reservation caller notified e state _ _ hstep hcall hreply =>
    -- the check that drops its flags makes no room
    have hl : Locked s.shared.controller s.clock [e] e.after := .single hstep (by rw [hcall]; rfl)
    have hsame : SameLine s.shared.controller e.after :=
      hstep.checked (by rw [hcall]; rfl) (show e.reply.state? = some state by rw [hreply]; rfl)
    exact ha.still rfl rfl rfl fun hfull => (hl.maySchedule hsame).trans hfull
  | dispatch _ hstep hcall _ => exact ha.release hi hstep (by rw [hcall]; rfl)
  | retry _ hstep hcall _ => exact ha.release hi hstep (by rw [hcall]; rfl)
  | finish _ _ hstep hrel => exact ha.release hi hstep (Hold.now_of_release hrel)
  | finished _ _ => exact ha
  | pending _ => exact ha
  | ready _ => exact ha
  | close _ _ _ =>
    intro waker hp
    left
    apply List.mem_append.mpr
    rcases ha waker hp with hmem | ⟨hwaker, -⟩
    · exact Or.inl hmem
    · right
      simp [hwaker]
  | unwind _ _ => exact ha
  | wake _ =>
    intro waker' hp
    obtain ⟨p, hp', hmark⟩ := Option.map_eq_some_iff.mp hp
    split at hmark
    · cases hmark
    · rename_i hne
      subst hmark
      exact (ha waker' hp').imp_left fun hmem => (List.mem_erase_of_ne hne).mpr hmem
  | notifyDispatch _ => exact ha

theorem Admitting.awake (ha : s.Admitting) : (system T F R E).Awake s := by
  intro woken hw
  have hw : woken ∈ s.admissionWaits := hw
  unfold admissionWaits at hw
  cases hp : s.poller with
  | none =>
    rw [hp] at hw
    cases hw
  | some p =>
    obtain ⟨waker, marked⟩ := p
    rw [hp] at hw
    obtain rfl := List.mem_singleton.mp hw
    cases marked with
    | true => exact Or.inl rfl
    | false =>
      rcases ha waker hp with hmem | ⟨-, hfull⟩
      · exact Or.inl (decide_eq_true hmem)
      · exact Or.inr hfull

/-! ## Guards -/

/-- The requests of the futures that have returned, and no others, have finished. -/
def Settled (s : Endpoint T F R E) : Prop :=
  Agree (fun request => request.place.isReturned) Request.client s.requests

omit [AddCommMonoid T] [LinearOrder T] [Sub T] [Time T] [F64 F] [Secs T F] [Rng R F] in
/-- A future that has not returned moves on. -/
theorem Settled.goto {state : RequestState T} {place place' : Place T E} (h : s.Settled)
    (hi : s.requests[i]? = some ⟨state, place⟩) (hp : place.isReturned = false) (hp' : place'.isReturned = false) :
    Agree (fun request => request.place.isReturned) Request.client (s.requests.set i ⟨state, place'⟩) := by
  refine Agree.set h ?_
  have hold : place.isReturned = state.hold.isFinished := h _ (List.mem_of_getElem? hi)
  show place'.isReturned = state.hold.isFinished
  rw [hp']
  exact hp.symm.trans hold

omit [AddCommMonoid T] [LinearOrder T] [Sub T] [Time T] [F64 F] [Secs T F] [Rng R F] in
theorem pollReady_requests (s : Endpoint T F R E) (waker : ℕ) : (s.pollReady waker).2.requests = s.requests := by
  unfold pollReady
  split
  · rfl
  · split <;> rfl

/-- **A move finishes a request exactly when its future returns.** -/
theorem Move.settled (h : Move s l ev s') (hset : s.Settled) : s'.Settled := by
  cases h with
  | tick _ => exact hset
  | read _ _ _ _ => exact hset
  | @pollReady waker =>
    unfold Settled
    rw [pollReady_requests]
    exact hset
  | closed _ => exact hset
  | accept _ _ _ _ => exact Agree.join hset rfl
  | refuse _ _ _ _ => exact hset
  | jump hi hjump => exact hset.goto hi hjump.live.1 hjump.live.2
  | @check _ _ caller _ _ state _ _ _ _ _ =>
    refine Agree.set hset ?_
    cases state with
    | ready => cases caller <;> rfl
    | _ => rfl
  | dispatch _ _ _ _ => exact Agree.set hset rfl
  | retry _ _ _ _ => exact Agree.set hset rfl
  | finish _ _ _ _ => exact Agree.set hset rfl
  | finished _ _ => exact hset
  | pending _ => exact hset
  | ready hi => exact hset.goto hi rfl rfl
  | close hi _ _ => exact hset.goto hi rfl rfl
  | unwind hi hlive => exact hset.goto hi hlive rfl
  | wake _ => exact hset
  | notifyDispatch _ =>
    refine Agree.map hset fun request => ?_
    obtain ⟨state, place⟩ := request
    cases place <;> exact ⟨rfl, rfl⟩

/-- A request that has finished holds nothing. -/
theorem client_finished {place : Place T E} (h : s.requests[i]? = some ⟨.finished, place⟩) :
    ∃ x, s.view.clients[i]? = some x ∧ x.purpose = .finished := by
  refine ⟨Request.client ⟨.finished, place⟩, ?_, rfl⟩
  show (s.requests.map Request.client)[i]? = _
  rw [List.getElem?_map, h]
  rfl

/-- A request that is dropped holds nothing. -/
theorem Move.dropped (h : Move s (.drop i) ev s') : ∃ x, s'.view.clients[i]? = some x ∧ x.purpose = .finished := by
  cases h with
  | read _ _ _ hl => rcases hl with hl | hl <;> cases hl
  | finish hi hends _ _ =>
    cases hends with
    | drop _ =>
      obtain ⟨hlt, -⟩ := List.getElem?_eq_some_iff.mp hi
      exact client_finished (List.getElem?_set_self hlt)
  | finished hi hends =>
    cases hends with
    | drop _ => exact client_finished hi

end Endpoint

/-- **The Tower adapter is sound.** -/
theorem system_sound : (system T F R E).Sound where
  start _ _ := rfl
  step _ _ _ _ hi h := (Endpoint.exec_move h).clients hi
  inner := ⟨fun s => s.Admitting ∧ s.Settled, fun _ _ => ⟨fun _ hp => (by cases hp), fun _ hr => (by cases hr)⟩,
    fun _ hs => ⟨hs.1.awake, Agree.settled hs.2⟩, fun _ _ _ _ hi hs h =>
      ⟨(Endpoint.exec_move h).admitting hs.1 hi, (Endpoint.exec_move h).settled hs.2⟩⟩
  drop s i _ _ h := (Endpoint.exec_move (show s.exec (.drop i) = _ from h)).dropped

end Loadpace.Tower
