import Loadpace.Adapter.Progress

/-!
# How the Rama and the Tokio adapters poll their futures

A poll of a queued request that no check tells to wait brings its future on in its loop, up to its dispatch, and nothing sends it
back (`Tokio.Endpoint.Move.left`, `Rama.Endpoint.Move.left`). So both adapters are prompt (`Tokio.polls_sound`,
`Rama.polls_sound`).
-/

namespace Loadpace

open Systems EndpointController Notify

/-! ## What a change of the list does to a request -/

section

variable {α : Type} {l : List α} {i j : ℕ} {a a' b b' : α}

theorem get_same (hx : l[i]? = some a) (hx' : l[i]? = some a') : a' = a := Option.some.inj (hx'.symm.trans hx)

/-- A request of the list is replaced. -/
theorem get_set (hx : l[i]? = some a) (hb : l[j]? = some b) (hx' : (l.set j b')[i]? = some a') :
    (i = j ∧ b = a ∧ a' = b') ∨ (i ≠ j ∧ a' = a) := by
  obtain ⟨hlt, -⟩ := List.getElem?_eq_some_iff.mp hb
  rcases eq_or_ne i j with rfl | hne
  · rw [List.getElem?_set_self hlt] at hx'
    exact Or.inl ⟨rfl, get_same hx hb, (Option.some.inj hx').symm⟩
  · rw [List.getElem?_set_ne hne.symm] at hx'
    exact Or.inr ⟨hne, get_same hx hx'⟩

/-- A request joins the list. -/
theorem get_join (hx : l[i]? = some a) (hx' : (l ++ [b])[i]? = some a') : a' = a := by
  obtain ⟨hlt, -⟩ := List.getElem?_eq_some_iff.mp hx
  rw [List.getElem?_append_left hlt] at hx'
  exact get_same hx hx'

/-- Every request of the list is notified. -/
theorem get_map {g : α → α} (hx : l[i]? = some a) (hx' : (l.map g)[i]? = some a') : a' = g a := by
  rw [List.getElem?_map, hx] at hx'
  exact (Option.some.inj hx').symm

variable {left : α → ℕ} {poll : Prop}

/-- A request is not sent back, and a poll of its own brings it on. -/
def Brought (left : α → ℕ) (poll : Prop) (a a' : α) : Prop := left a' ≤ left a ∧ (poll → left a' < left a)

theorem Brought.on (h : left a' < left a) : Brought left poll a a' := ⟨h.le, fun _ => h⟩

theorem Brought.stay (h : left a' = left a) (hp : ¬poll) : Brought left poll a a' := ⟨h.le, fun h => absurd h hp⟩

theorem Brought.same (hx : l[i]? = some a) (hx' : l[i]? = some a') (hp : ¬poll) : Brought left poll a a' :=
  .stay (congrArg left (get_same hx hx')) hp

theorem Brought.set (hx : l[i]? = some a) (hb : l[j]? = some b) (hx' : (l.set j b')[i]? = some a') (hp : i ≠ j → ¬poll)
    (hs : i = j → b = a → Brought left poll a b') : Brought left poll a a' := by
  obtain ⟨hij, hba, rfl⟩ | ⟨hne, rfl⟩ := get_set hx hb hx'
  · exact hs hij hba
  · exact .stay rfl (hp hne)

theorem Brought.join (hx : l[i]? = some a) (hx' : (l ++ [b])[i]? = some a') (hp : ¬poll) : Brought left poll a a' :=
  .stay (congrArg left (get_join hx hx')) hp

theorem Brought.map {g : α → α} (hx : l[i]? = some a) (hx' : (l.map g)[i]? = some a') (hg : left (g a) = left a)
    (hp : ¬poll) : Brought left poll a a' := by
  obtain rfl := get_map hx hx'
  exact .stay hg hp

end

/-- The polls of a task, from its place in the dispatch wait to the end of the next check. -/
def pollsLeft {T : Type} : Wait (Option T) → ℕ
  | .asleep _ _ => 3
  | .away => 2
  | .enabled _ => 1

theorem pollsLeft_notify {T : Type} (wait : Wait (Option T)) : pollsLeft wait.notify = pollsLeft wait := by
  cases wait <;> rfl

/-! ## Tokio -/

namespace Tokio

section

variable {T : Type}

def Request.left : Request T → ℕ
  | .reservation (some _) dispatch => pollsLeft dispatch
  | _ => 0

theorem Request.left_notify (request : Request T) : request.notify.left = request.left := by
  rcases request with ⟨_ | token, dispatch⟩ | ⟨_ | token⟩
  · rfl
  · exact pollsLeft_notify dispatch
  · rfl
  · rfl

theorem Request.left_finished {request : Request T} (h : request.client = ⟨.finished, .away⟩) : request.left = 0 := by
  rcases request with ⟨_ | token, dispatch⟩ | ⟨_ | token⟩
  · rfl
  · cases h
  · rfl
  · rfl

end

variable {T F R : Type} [AddCommMonoid T] [LinearOrder T] [Sub T] [Time T] [F64 F] [Secs T F] [Rng R F]

namespace Endpoint

variable {s s' : Endpoint T F R} {ev : Event T F R} {l : Label T} {i : ℕ} {r : DispatchReservation} {wait : Wait (Option T)}

theorem queued_iff : s.view.clients[i]? = some ⟨.queued r, wait⟩ ↔ s.requests[i]? = some (.reservation (some r) wait) := by
  show (s.requests.map Request.client)[i]? = _ ↔ _
  rw [List.getElem?_map, Option.map_eq_some_iff]
  constructor
  · rintro ⟨request, hx, hclient⟩
    rw [hx]
    rcases request with ⟨_ | token, dispatch⟩ | ⟨_ | token⟩ <;> cases hclient
    rfl
  · intro hx
    exact ⟨_, hx, rfl⟩

/-- **No move sends a queued request back**, and its own polls bring it on. -/
theorem Move.left (h : Move s l ev s') (hp : s.view.Prompt r) (hx : s.requests[i]? = some (.reservation (some r) wait))
    {request : Request T} (hx' : s'.requests[i]? = some request) :
    Brought Request.left (l = .runDispatch i) (.reservation (some r) wait) request := by
  have other {j : ℕ} (hne : i ≠ j) : ¬(Label.runDispatch j : Label T) = .runDispatch i := by
    rintro ⟨⟩
    exact hne rfl
  cases h with
  | tick _ => exact .same hx hx' (by rintro ⟨⟩)
  | read _ _ _ hl =>
    refine .same hx hx' ?_
    rintro rfl
    rcases hl with hl | hl | hl <;> cases hl
  | accept _ _ _ _ _ _ hl =>
    refine .join hx hx' ?_
    rintro rfl
    rcases hl with hl | hl <;> cases hl
  | refuse _ _ _ _ _ _ hl =>
    refine .same hx hx' ?_
    rintro rfl
    rcases hl with hl | hl <;> cases hl
  | enable hj =>
    refine .set hx hj hx' other ?_
    rintro rfl ⟨⟩
    exact .on (Nat.lt_succ_self 1)
  | wake hj _ =>
    refine .set hx hj hx' other ?_
    rintro rfl ⟨⟩
    exact .on (Nat.lt_succ_self 2)
  | dispatch hj _ _ _ =>
    refine .set hx hj hx' other ?_
    rintro rfl ⟨⟩
    exact .on Nat.one_pos
  | check hj hstep hcall hreply =>
    refine .set hx hj hx' other ?_
    rintro rfl ⟨⟩
    -- the check would have succeeded
    obtain ⟨e', q, he', hok⟩ := hp.performs_dispatch
    have he := perform_of_step hstep
    rw [hcall] at he
    obtain rfl := Option.some.inj (he'.symm.trans he)
    rw [hreply] at hok
    cases hok
  | complete hj hl _ _ hgone =>
    have hne : ¬l = .runDispatch i := by
      rintro rfl
      rcases hl with hl | hl <;> cases hl
    refine .set hx hj hx' (fun _ => hne) fun _ _ => ⟨?_, fun h => absurd h hne⟩
    rw [Request.left_finished hgone]
    exact Nat.zero_le _
  | completed _ hl _ =>
    refine .same hx hx' ?_
    rintro rfl
    rcases hl with hl | hl <;> cases hl
  | ready => exact .same hx hx' (by rintro ⟨⟩)
  | look _ _ => exact .same hx hx' (by rintro ⟨⟩)
  | dropReady => exact .same hx hx' (by rintro ⟨⟩)
  | notifyAdmission _ => exact .same hx hx' (by rintro ⟨⟩)
  | notifyDispatch _ => exact .map hx hx' (Request.left_notify _) (by rintro ⟨⟩)

/-- **Only its drop cancels a queued request**: another move leaves it queued, or dispatches it. -/
theorem exec_drop (h : s.exec l = some (ev, s')) (hx : s.requests[i]? = some (.reservation (some r) wait))
    {request : Request T} (hx' : s'.requests[i]? = some request) (hgone : request.client.purpose = .finished) :
    l = .drop i := by
  -- a replacement that holds something finishes no request
  have held {j : ℕ} {b b' : Request T} (hj : s.requests[j]? = some b) (hx' : (s.requests.set j b')[i]? = some request)
      (hb : b'.client.purpose ≠ .finished) : l = .drop i := by
    obtain ⟨-, -, rfl⟩ | ⟨-, rfl⟩ := get_set hx hj hx'
    · exact absurd hgone hb
    · cases hgone
  cases exec_move h with
  | accept _ _ _ _ _ _ _ =>
    obtain rfl := get_join hx hx'
    cases hgone
  | enable hj => exact held hj hx' (by rintro ⟨⟩)
  | wake hj _ => exact held hj hx' (by rintro ⟨⟩)
  | dispatch hj _ _ _ => exact held hj hx' (by rintro ⟨⟩)
  | check hj _ _ _ => exact held hj hx' (by rintro ⟨⟩)
  | complete hj hl _ _ _ =>
    obtain ⟨rfl, -, -⟩ | ⟨-, rfl⟩ := get_set hx hj hx'
    · rcases hl with rfl | hl
      · -- only an active request finishes
        simp only [exec, hx] at h
        cases h
      · exact hl
    · cases hgone
  | notifyDispatch _ =>
    obtain rfl := get_map hx hx'
    cases hgone
  | _ =>
    obtain rfl := get_same hx hx'
    cases hgone

/-- **A queued request can be polled** unless it is deaf. -/
theorem runDispatch_isSome (hx : s.requests[i]? = some (.reservation (some r) wait))
    (hdeaf : Clients.deafAt s.clock wait = false) (hp : s.view.Prompt r) : (s.runDispatch i).isSome := by
  unfold runDispatch
  simp only [hx]
  cases wait with
  | away => rfl
  | enabled notified =>
    obtain ⟨e, q, he, hok⟩ := hp.performs_dispatch
    have he : perform s.controller (.onDispatched r s.clock) = some e := he
    simp only [check, he, Option.bind_eq_bind, Option.bind_some, hok]
    rfl
  | asleep notified timer =>
    have hwake : notified = true ∨ timer.any (· ≤ s.clock) = true := by
      rw [Clients.deafAt, Bool.not_eq_false', Bool.or_eq_true] at hdeaf
      exact hdeaf
    simp only [if_pos hwake]
    rfl

theorem notifyDispatch_isSome (h : 0 < s.dispatch) : (s.exec .notifyDispatch).isSome := by
  simp only [exec]
  split
  · rename_i hd
    exact absurd hd h.ne'
  · rfl

end Endpoint

/-- How Tokio polls. -/
def polls : (system T F R).Polls where
  poll := .runDispatch
  broadcast := .notifyDispatch
  placed _ := True
  left s i := (s.requests[i]?.map Request.left).getD 0

/-- **Tokio is prompt.** -/
theorem polls_sound : (polls (T := T) (F := F) (R := R)).Sound where
  start _ _ := trivial
  keeps _ _ _ _ _ _ := trivial
  able s i r wait _ hx hdeaf hp := Endpoint.runDispatch_isSome (Endpoint.queued_iff.mp hx) hdeaf hp
  owed s howed := Endpoint.notifyDispatch_isSome howed
  broadcast s ev s' h := by
    cases Endpoint.exec_move (show s.exec .notifyDispatch = _ from h) with
    | read _ _ _ hl => rcases hl with hl | hl | hl <;> cases hl
    | accept _ _ _ _ _ _ hl => rcases hl with hl | hl <;> cases hl
    | refuse _ _ _ _ _ _ hl => rcases hl with hl | hl <;> cases hl
    | complete _ hl _ _ _ => rcases hl with hl | hl <;> cases hl
    | completed _ hl _ => rcases hl with hl | hl <;> cases hl
    | notifyDispatch _ => exact map_notify Endpoint.Request.client_notify s.requests
  left s l ev s' i r h hq hq' hp := by
    obtain ⟨wait, hx⟩ := hq
    obtain ⟨wait', hx'⟩ := hq'
    have hx := Endpoint.queued_iff.mp hx
    have hx' := Endpoint.queued_iff.mp hx'
    have hbrought := (Endpoint.exec_move h).left hp hx hx'
    show (s'.requests[i]?.map Request.left).getD 0 ≤ (s.requests[i]?.map Request.left).getD 0 ∧
      (l = .runDispatch i → (s'.requests[i]?.map Request.left).getD 0 < (s.requests[i]?.map Request.left).getD 0)
    rw [hx, hx']
    exact hbrought
  drop s l ev s' i r x _ h hq hx hgone := by
    obtain ⟨wait, hq⟩ := hq
    have hview : (s'.requests.map Request.client)[i]? = some x := hx
    rw [List.getElem?_map] at hview
    obtain ⟨request, hx', rfl⟩ := Option.map_eq_some_iff.mp hview
    exact Endpoint.exec_drop h (Endpoint.queued_iff.mp hq) hx' hgone

end Tokio

/-! ## Rama -/

namespace Rama

section

variable {T : Type}

/-- The polls of a queued request, up to its dispatch. -/
def Request.left : Request T → ℕ
  | ⟨.reserved _, .waiting wait⟩ => pollsLeft wait + 1
  | ⟨.reserved _, .ready⟩ => 1
  | _ => 0

theorem Request.left_notify (request : Request T) : (⟨request.state, request.place.notify⟩ : Request T).left = request.left := by
  obtain ⟨state, place⟩ := request
  cases state with
  | reserved _ =>
    cases place with
    | waiting wait => exact congrArg (· + 1) (pollsLeft_notify wait)
    | ready => rfl
    | serving => rfl
    | returned => rfl
  | dispatched _ => rfl
  | finished => rfl

/-- A request with a reservation is before its dispatch. -/
def Request.Placed : Request T → Prop
  | ⟨.reserved _, .serving⟩ | ⟨.reserved _, .returned⟩ => False
  | _ => True

end

variable {T F R : Type} [AddCommMonoid T] [LinearOrder T] [Sub T] [Time T] [F64 F] [Secs T F] [Rng R F]

namespace Endpoint

variable {s s' : Endpoint T F R} {ev : Event T F R} {l : Label T} {i : ℕ} {r : DispatchReservation} {wait : Wait (Option T)}
variable {place : Place T}

theorem queued_iff : s.view.clients[i]? = some ⟨.queued r, wait⟩ ↔
    ∃ place, s.requests[i]? = some ⟨.reserved r, place⟩ ∧ place.wait = wait := by
  show (s.requests.map Request.client)[i]? = _ ↔ _
  rw [List.getElem?_map, Option.map_eq_some_iff]
  constructor
  · rintro ⟨⟨state, place⟩, hx, hclient⟩
    cases state <;> cases hclient
    exact ⟨place, hx, rfl⟩
  · rintro ⟨place, hx, rfl⟩
    exact ⟨_, hx, rfl⟩

/-- **Every move keeps the requests placed.** -/
theorem Move.placed (h : Move s l ev s') (hs : ∀ request ∈ s.requests, request.Placed) :
    ∀ request ∈ s'.requests, request.Placed := by
  have join {b : Request T} (hb : b.Placed) : ∀ request ∈ s.requests ++ [b], request.Placed := by
    intro request hmem
    rcases List.mem_append.mp hmem with hmem | hmem
    · exact hs request hmem
    · exact List.mem_singleton.mp hmem ▸ hb
  have set {j : ℕ} {b : Request T} (hb : b.Placed) : ∀ request ∈ s.requests.set j b, request.Placed := by
    intro request hmem
    rcases List.mem_or_eq_of_mem_set hmem with hmem | rfl
    · exact hs request hmem
    · exact hb
  cases h with
  | tick _ => exact hs
  | read _ _ _ _ => exact hs
  | serve _ _ _ => exact join trivial
  | reject _ _ _ => exact hs
  | reserve _ _ _ _ _ _ _ => exact join trivial
  | refuse _ _ _ _ _ _ _ => exact hs
  | enable _ => exact set trivial
  | wake _ _ => exact set trivial
  | @check _ _ _ _ state _ _ _ _ => exact set (by cases state <;> trivial)
  | dispatch _ _ _ _ => exact set trivial
  | retry _ _ _ _ => exact set trivial
  | finish _ _ _ _ => exact set trivial
  | finished _ _ => exact hs
  | notifyDispatch _ =>
    intro request hmem
    obtain ⟨⟨state, place⟩, hold, rfl⟩ := List.mem_map.mp hmem
    have hplaced := hs _ hold
    cases state <;> cases place <;> exact hplaced

/-- **No move sends a queued request back**, and its own polls bring it on. -/
theorem Move.left (h : Move s l ev s') (hp : s.view.Prompt r) (hx : s.requests[i]? = some ⟨.reserved r, place⟩)
    {request : Request T} (hx' : s'.requests[i]? = some request) :
    Brought Request.left (l = .run i) ⟨.reserved r, place⟩ request := by
  have other {j : ℕ} (hne : i ≠ j) : ¬(Label.run j : Label T) = .run i := by
    rintro ⟨⟩
    exact hne rfl
  cases h with
  | tick _ => exact .same hx hx' (by rintro ⟨⟩)
  | read _ _ _ hl =>
    refine .same hx hx' ?_
    rintro rfl
    rcases hl with hl | hl | hl <;> cases hl
  | serve _ _ _ => exact .join hx hx' (by rintro ⟨⟩)
  | reject _ _ _ => exact .same hx hx' (by rintro ⟨⟩)
  | reserve _ _ _ _ _ _ hl =>
    refine .join hx hx' ?_
    rintro rfl
    rcases hl with hl | hl <;> cases hl
  | refuse _ _ _ _ _ _ hl =>
    refine .same hx hx' ?_
    rintro rfl
    rcases hl with hl | hl <;> cases hl
  | enable hj =>
    refine .set hx hj hx' other ?_
    rintro rfl ⟨⟩
    exact .on (Nat.lt_succ_self 2)
  | wake hj _ =>
    refine .set hx hj hx' other ?_
    rintro rfl ⟨⟩
    exact .on (Nat.lt_succ_self 3)
  | check hj hstep hcall hreply =>
    refine .set hx hj hx' other ?_
    rintro rfl ⟨⟩
    -- the check finds the reservation ready
    obtain ⟨e', he', hready⟩ := hp.performs_check
    have he := perform_of_step hstep
    rw [hcall] at he
    obtain rfl := Option.some.inj (he'.symm.trans he)
    rw [hreply] at hready
    cases hready
    exact .on (Nat.lt_succ_self 1)
  | dispatch hj _ _ _ =>
    refine .set hx hj hx' other ?_
    rintro rfl ⟨⟩
    exact .on Nat.one_pos
  | retry hj hstep hcall hreply =>
    refine .set hx hj hx' other ?_
    rintro rfl ⟨⟩
    -- the dispatch would have succeeded
    obtain ⟨e', q, he', hok⟩ := hp.performs_dispatch
    have he := perform_of_step hstep
    rw [hcall] at he
    obtain rfl := Option.some.inj (he'.symm.trans he)
    rw [hreply] at hok
    cases hok
  | finish hj hl _ _ =>
    have hne : ¬l = .run i := by
      rintro rfl
      rcases hl with ⟨_, hl⟩ | hl <;> cases hl
    exact .set hx hj hx' (fun _ => hne) fun _ _ => ⟨Nat.zero_le _, fun h => absurd h hne⟩
  | finished _ hl =>
    refine .same hx hx' ?_
    rintro rfl
    rcases hl with ⟨_, hl⟩ | hl <;> cases hl
  | notifyDispatch _ => exact .map hx hx' (Request.left_notify _) (by rintro ⟨⟩)

/-- **Only its drop cancels a queued request**: another move leaves it queued, or dispatches it. -/
theorem exec_drop (h : s.exec l = some (ev, s')) (hs : ∀ request ∈ s.requests, request.Placed)
    (hx : s.requests[i]? = some ⟨.reserved r, place⟩) {request : Request T} (hx' : s'.requests[i]? = some request)
    (hgone : request.client.purpose = .finished) : l = .drop i := by
  -- a replacement that holds something finishes no request
  have held {j : ℕ} {b b' : Request T} (hj : s.requests[j]? = some b) (hx' : (s.requests.set j b')[i]? = some request)
      (hb : b'.client.purpose ≠ .finished) : l = .drop i := by
    obtain ⟨-, -, rfl⟩ | ⟨-, rfl⟩ := get_set hx hj hx'
    · exact absurd hgone hb
    · cases hgone
  cases exec_move h with
  | serve _ _ _ =>
    obtain rfl := get_join hx hx'
    cases hgone
  | reserve _ _ _ _ _ _ _ =>
    obtain rfl := get_join hx hx'
    cases hgone
  | enable hj => exact held hj hx' (by rintro ⟨⟩)
  | wake hj _ => exact held hj hx' (by rintro ⟨⟩)
  | check hj _ _ _ => exact held hj hx' (by rintro ⟨⟩)
  | dispatch hj _ _ _ => exact held hj hx' (by rintro ⟨⟩)
  | retry hj _ _ _ => exact held hj hx' (by rintro ⟨⟩)
  | finish hj hl _ _ =>
    obtain ⟨rfl, -, -⟩ | ⟨-, rfl⟩ := get_set hx hj hx'
    · rcases hl with ⟨ok, rfl⟩ | hl
      · -- only a request in service is responded to
        have hplaced := hs _ (List.mem_of_getElem? hx)
        simp only [exec, hx] at h
        cases place with
        | serving => exact hplaced.elim
        | _ => cases h
      · exact hl
    · cases hgone
  | notifyDispatch _ =>
    obtain rfl := get_map hx hx'
    cases hgone
  | _ =>
    obtain rfl := get_same hx hx'
    cases hgone

/-- **A queued request can be polled** unless it is deaf. -/
theorem run_isSome (hs : ∀ request ∈ s.requests, request.Placed) (hx : s.requests[i]? = some ⟨.reserved r, place⟩)
    (hdeaf : Clients.deafAt s.clock place.wait = false) (hp : s.view.Prompt r) : (s.run i).isSome := by
  have hplaced := hs _ (List.mem_of_getElem? hx)
  unfold run
  simp only [hx]
  cases place with
  | waiting wait =>
    cases wait with
    | away => rfl
    | enabled notified =>
      obtain ⟨e, he, hready⟩ := hp.performs_check
      have he : perform s.controller (.dispatchState r s.clock) = some e := he
      simp only [check, he, Option.bind_eq_bind, Option.bind_some, hready]
      rfl
    | asleep notified timer =>
      have hwake : notified = true ∨ timer.any (· ≤ s.clock) = true := by
        rw [Place.wait, Clients.deafAt, Bool.not_eq_false', Bool.or_eq_true] at hdeaf
        exact hdeaf
      simp only [if_pos hwake]
      rfl
  | ready =>
    obtain ⟨e, q, he, hok⟩ := hp.performs_dispatch
    have he : perform s.controller (.onDispatched r s.clock) = some e := he
    simp only [beginDispatch, withController, he, Option.bind_eq_bind, Option.bind_some, hok]
    rfl
  | serving => exact hplaced.elim
  | returned => exact hplaced.elim

theorem notifyDispatch_isSome (h : 0 < s.dispatch) : (s.exec .notifyDispatch).isSome := by
  simp only [exec]
  split
  · rename_i hd
    exact absurd hd h.ne'
  · rfl

end Endpoint

/-- How Rama polls. -/
def polls : (system T F R).Polls where
  poll := .run
  broadcast := .notifyDispatch
  placed s := ∀ request ∈ s.requests, request.Placed
  left s i := (s.requests[i]?.map Request.left).getD 0

/-- **Rama is prompt.** -/
theorem polls_sound : (polls (T := T) (F := F) (R := R)).Sound where
  start _ _ := fun _ hmem => by cases hmem
  keeps s l ev s' hs h := (Endpoint.exec_move h).placed hs
  able s i r wait hs hx hdeaf hp := by
    obtain ⟨place, hplace, rfl⟩ := Endpoint.queued_iff.mp hx
    exact Endpoint.run_isSome hs hplace hdeaf hp
  owed s howed := Endpoint.notifyDispatch_isSome howed
  broadcast s ev s' h := by
    cases Endpoint.exec_move (show s.exec .notifyDispatch = _ from h) with
    | read _ _ _ hl => rcases hl with hl | hl | hl <;> cases hl
    | reserve _ _ _ _ _ _ hl => rcases hl with hl | hl <;> cases hl
    | refuse _ _ _ _ _ _ hl => rcases hl with hl | hl <;> cases hl
    | finish _ hl _ _ => rcases hl with ⟨_, hl⟩ | hl <;> cases hl
    | finished _ hl => rcases hl with ⟨_, hl⟩ | hl <;> cases hl
    | notifyDispatch _ => exact map_notify Endpoint.Request.client_notify s.requests
  left s l ev s' i r h hq hq' hp := by
    obtain ⟨wait, hx⟩ := hq
    obtain ⟨wait', hx'⟩ := hq'
    obtain ⟨place, hx, -⟩ := Endpoint.queued_iff.mp hx
    obtain ⟨place', hx', -⟩ := Endpoint.queued_iff.mp hx'
    have hbrought := (Endpoint.exec_move h).left hp hx hx'
    show (s'.requests[i]?.map Request.left).getD 0 ≤ (s.requests[i]?.map Request.left).getD 0 ∧
      (l = .run i → (s'.requests[i]?.map Request.left).getD 0 < (s.requests[i]?.map Request.left).getD 0)
    rw [hx, hx']
    exact hbrought
  drop s l ev s' i r x hs h hq hx hgone := by
    obtain ⟨wait, hq⟩ := hq
    obtain ⟨place, hq, -⟩ := Endpoint.queued_iff.mp hq
    have hview : (s'.requests.map Request.client)[i]? = some x := hx
    rw [List.getElem?_map] at hview
    obtain ⟨request, hx', rfl⟩ := Option.map_eq_some_iff.mp hview
    exact Endpoint.exec_drop h hs hq hx' hgone

end Rama

end Loadpace
