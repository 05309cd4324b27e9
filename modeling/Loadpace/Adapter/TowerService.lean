import Loadpace.Adapter.TowerSound
import Loadpace.Machine

/-!
# The wrapped service of a Tower endpoint

Each future takes the lock of the wrapped service before it polls it, and keeps it until it has called it, has failed, or
is gone. `Orderly` says where a future can be with which guard, who has the lock, and what a closed endpoint looks like; every
move keeps it (`Move.orderly`).
-/

namespace Loadpace.Tower

open Systems EndpointController Notify

section

variable {T E : Type}

/-- The future has the service lock. -/
@[simp] def Place.serves : Place T E → Bool
  | .waiting .start _ | .locked | .polling | .dispatching | .calling | .leaving _ => true
  | _ => false

/-- The future has found the endpoint open since it took the service lock. -/
@[simp] def Place.uses : Place T E → Bool
  | .waiting .start _ | .polling | .dispatching | .calling => true
  | _ => false

/-- The error that the future is to return, or has returned. -/
@[simp] def Place.error? : Place T E → Option E
  | .leaving error | .failing _ error | .returned (.failed error) => some error
  | _ => none

@[simp] def RequestState.isQueued : RequestState T → Bool
  | .queued _ => true
  | _ => false

@[simp] def RequestState.isInFlight : RequestState T → Bool
  | .inFlight _ => true
  | _ => false

/-- The guard of the request can be in this state. -/
@[simp] def Place.fits (state : RequestState T) : Place T E → Bool
  | .calling | .responding => state.isInFlight
  | .dropping => state.isQueued || state.isInFlight
  | .returned _ => !state.isQueued && !state.isInFlight
  | _ => state.isQueued

theorem Place.serves_of_uses {place : Place T E} (h : place.uses = true) : place.serves = true := by
  cases place with
  | waiting caller wait =>
    cases caller with
    | execute => cases h
    | start => rfl
  | polling | dispatching | calling => rfl
  | _ => cases h

end

section

variable {T F R E : Type}

/-- What is so of one request. -/
structure Placed (s : Endpoint T F R E) (i : ℕ) (request : Request T E) : Prop where
  fits : request.place.fits request.state = true
  serves : request.place.serves = true → s.service = some i
  uses : request.place.uses = true → s.shared.failed = none
  error : ∀ error, request.place.error? = some error → s.shared.failed = some error
  /-- A closed endpoint lets nobody sleep on. -/
  woken : ∀ caller timer, request.place = .waiting caller (.asleep false timer) → s.shared.failed ≠ none → 0 < s.dispatch

variable {s s' : Endpoint T F R E} {i j : ℕ} {request : Request T E}

/-- What a request does not see. -/
theorem Placed.same (h : Placed s i request) (hs : s'.service = s.service) (hf : s'.shared.failed = s.shared.failed)
    (hd : s.dispatch ≤ s'.dispatch) : Placed s' i request :=
  ⟨h.fits, fun hp => hs.trans (h.serves hp), fun hp => hf.trans (h.uses hp), fun e he => hf.trans (h.error e he),
    fun caller timer hp hne => (h.woken caller timer hp (hf ▸ hne)).trans_le hd⟩

/-- A request without the service lock does not see who has it. -/
theorem Placed.idle (h : Placed s j request) (hserves : request.place.serves = false)
    (hf : s'.shared.failed = s.shared.failed) (hd : s.dispatch ≤ s'.dispatch) : Placed s' j request := by
  refine ⟨h.fits, fun hp => ?_, fun hp => hf.trans (h.uses hp), fun e he => hf.trans (h.error e he),
    fun caller timer hp hne => (h.woken caller timer hp (hf ▸ hne)).trans_le hd⟩
  rw [hserves] at hp
  cases hp

/-- One request has the service lock at a time. -/
theorem Placed.apart (h : Placed s j request) (hs : s.service = some i) (hne : j ≠ i) : request.place.serves = false := by
  by_contra hserves
  have hj := h.serves (Bool.not_eq_false _ ▸ hserves)
  exact hne (Option.some.inj (hj.symm.trans hs))

/-- With the lock free nobody serves. -/
theorem Placed.free (h : Placed s j request) (hs : s.service = none) : request.place.serves = false := by
  by_contra hserves
  have hj := h.serves (Bool.not_eq_false _ ▸ hserves)
  rw [hs] at hj
  cases hj

/-- A list of which one request is replaced. -/
theorem forall_set {l : List (Request T E)} {P : ℕ → Request T E → Prop} {b : Request T E} (hb : P i b)
    (hother : ∀ j a, j ≠ i → l[j]? = some a → P j a) : ∀ j a, (l.set i b)[j]? = some a → P j a := by
  intro j a ha
  by_cases hj : j = i
  · subst hj
    rw [List.getElem?_set_self'] at ha
    obtain ⟨_, -, rfl⟩ := Option.map_eq_some_iff.mp ha
    exact hb
  · rw [List.getElem?_set_ne (Ne.symm hj)] at ha
    exact hother j a hj ha

omit s s' request in
/-- A list to which a request is added. -/
theorem getElem?_join {l : List (Request T E)} {a b : Request T E} (h : (l ++ [b])[i]? = some a) :
    l[i]? = some a ∨ (i = l.length ∧ a = b) := by
  rcases Nat.lt_trichotomy i l.length with hi | rfl | hi
  · rw [List.getElem?_append_left hi] at h
    exact Or.inl h
  · rw [List.getElem?_concat_length] at h
    exact Or.inr ⟨rfl, (Option.some.inj h).symm⟩
  · rw [List.getElem?_eq_none (by rw [List.length_append]; exact hi)] at h
    cases h

end

namespace Endpoint

section

variable {T F R E : Type}

/-- Every request is placed, and the service lock is with a future that is in `start` or is going. -/
structure Orderly (s : Endpoint T F R E) : Prop where
  placed : ∀ i request, s.requests[i]? = some request → Placed s i request
  holder : ∀ i, s.service = some i →
    ∃ request, s.requests[i]? = some request ∧ (request.place.serves = true ∨ request.place = .dropping)

variable {s s' : Endpoint T F R E} {i : ℕ} {a b : Request T E}

/-- A step that no request sees. -/
theorem Orderly.same (h : s.Orderly) (hr : s'.requests = s.requests) (hs : s'.service = s.service)
    (hf : s'.shared.failed = s.shared.failed) (hd : s.dispatch ≤ s'.dispatch) : s'.Orderly := by
  refine ⟨fun i request hi => ?_, fun i hi => ?_⟩
  · rw [hr] at hi
    exact (h.placed i request hi).same hs hf hd
  · rw [hs] at hi
    rw [hr]
    exact h.holder i hi

/-- A request may go from one place to another while the service lock stays where it is. -/
structure Goes (s : Endpoint T F R E) (a b : Request T E) : Prop where
  fits : b.place.fits b.state = true
  serves : b.place.serves = true → a.place.serves = true
  uses : b.place.uses = true → a.place.uses = true ∨ s.shared.failed = none
  error : ∀ error, b.place.error? = some error → a.place.error? = some error ∨ s.shared.failed = some error
  asleep : ∀ caller timer, b.place = .waiting caller (.asleep false timer) → s.shared.failed = none

/-- A step that moves one request, and keeps the service lock where it is. -/
theorem Orderly.move (h : s.Orderly) (hi : s.requests[i]? = some a) (hg : s.Goes a b)
    (hk : s.service = some i → a.place.serves = true ∨ a.place = .dropping → b.place.serves = true ∨ b.place = .dropping)
    (hr : s'.requests = s.requests.set i b) (hs : s'.service = s.service) (hf : s'.shared.failed = s.shared.failed)
    (hd : s.dispatch ≤ s'.dispatch) : s'.Orderly := by
  have hp := h.placed i a hi
  refine ⟨?_, fun j hj => ?_⟩
  · rw [hr]
    refine forall_set ⟨hg.fits, ?_, ?_, ?_, ?_⟩ fun j request _ hj => (h.placed j request hj).same hs hf hd
    · intro hb
      exact hs.trans (hp.serves (hg.serves hb))
    · intro hb
      exact hf.trans ((hg.uses hb).elim hp.uses id)
    · intro error hb
      exact hf.trans ((hg.error error hb).elim (hp.error error) id)
    · intro caller timer hb hne
      exact absurd (hf.trans (hg.asleep caller timer hb)) hne
  · rw [hs] at hj
    rw [hr]
    obtain ⟨request, hreq, hserves⟩ := h.holder j hj
    by_cases hij : j = i
    · subst hij
      obtain rfl := Option.some.inj (hi.symm.trans hreq)
      obtain ⟨hlt, -⟩ := List.getElem?_eq_some_iff.mp hi
      exact ⟨b, List.getElem?_set_self hlt, hk hj hserves⟩
    · rw [List.getElem?_set_ne (Ne.symm hij)]
      exact ⟨request, hreq, hserves⟩

/-- A step that moves one request and the service lock, which no other request has. -/
theorem Orderly.turn (h : s.Orderly) (hi : s.requests[i]? = some a) (hr : s'.requests = s.requests.set i b)
    (hb : Placed s' i b) (hs : s.service = none ∨ s.service = some i) (hf : s'.shared.failed = s.shared.failed)
    (hd : s.dispatch ≤ s'.dispatch) (hs' : s'.service = none ∨ s'.service = some i ∧ b.place.serves = true) :
    s'.Orderly := by
  refine ⟨?_, fun j hj => ?_⟩
  · rw [hr]
    refine forall_set hb fun j request hj hreq => ?_
    have hidle : request.place.serves = false := by
      rcases hs with hs | hs
      · exact (h.placed j request hreq).free hs
      · exact (h.placed j request hreq).apart hs hj
    exact (h.placed j request hreq).idle hidle hf hd
  · rcases hs' with hs' | ⟨hs', hserves⟩
    · rw [hs'] at hj
      cases hj
    · obtain rfl : i = j := Option.some.inj (hs'.symm.trans hj)
      obtain ⟨hlt, -⟩ := List.getElem?_eq_some_iff.mp hi
      rw [hr]
      exact ⟨b, List.getElem?_set_self hlt, Or.inl hserves⟩

end

variable {T F R E : Type} [AddCommMonoid T] [LinearOrder T] [Sub T] [Time T] [F64 F] [Secs T F] [Rng R F]
variable {s s' : Endpoint T F R E} {ev : Event T F R} {e : Entry T F R} {i : ℕ} {l : Label T E}

omit [AddCommMonoid T] [LinearOrder T] [Sub T] [Time T] [F64 F] [Secs T F] [Rng R F] in
/-- What the end of a turn leaves alone. -/
theorem release_fields (s : Endpoint T F R E) (e : Entry T F R) : (s.release e).requests = s.requests ∧
    (s.release e).service = s.service ∧ (s.release e).shared.failed = s.shared.failed ∧
    (s.release e).clock = s.clock ∧ s.dispatch ≤ (s.release e).dispatch := by
  unfold release
  dsimp only
  refine ⟨rfl, rfl, ?_, rfl, Nat.le_add_right _ _⟩
  split <;> rfl

omit [AddCommMonoid T] [LinearOrder T] [Sub T] [Time T] [F64 F] [Secs T F] [Rng R F] in
theorem pollReady_fields (s : Endpoint T F R E) (waker : ℕ) : (s.pollReady waker).2.requests = s.requests ∧
    (s.pollReady waker).2.service = s.service ∧ (s.pollReady waker).2.shared.failed = s.shared.failed ∧
    (s.pollReady waker).2.clock = s.clock ∧ (s.pollReady waker).2.dispatch = s.dispatch ∧
    (s.pollReady waker).2.shared.controller = s.shared.controller := by
  unfold pollReady ControllerState.pollAdmission
  split
  · exact ⟨rfl, rfl, rfl, rfl, rfl, rfl⟩
  · split
    · rename_i hp
      split at hp
      · cases hp
        exact ⟨rfl, rfl, rfl, rfl, rfl, rfl⟩
      · split at hp <;> cases hp
    · rename_i hp
      split at hp
      · cases hp
      · split at hp <;> cases hp <;> exact ⟨rfl, rfl, rfl, rfl, rfl, rfl⟩

omit [AddCommMonoid T] [Sub T] [Time T] [F64 F] [Secs T F] [Rng R F] in
/-- A jump keeps the futures in order. -/
theorem Jump.orderly {state : RequestState T} {place place' : Place T E} {service : Option ℕ}
    (hjump : Jump s i state place place' service) (ho : s.Orderly) (hi : s.requests[i]? = some ⟨state, place⟩) :
    Orderly (s.goto (F := F) (R := R) i ⟨state, place'⟩ service).2 := by
  have hp := ho.placed i _ hi
  cases hjump with
  | @enable _ caller =>
    refine ho.move hi ⟨rfl, ?_, ?_, ?_, ?_⟩ ?_ rfl rfl rfl le_rfl <;> cases caller <;> simp
  | @wake _ caller _ _ _ =>
    refine ho.move hi ⟨rfl, ?_, ?_, ?_, ?_⟩ ?_ rfl rfl rfl le_rfl <;> cases caller <;> simp
  | failExecute hfailed => refine ho.move hi ⟨rfl, ?_, ?_, ?_, ?_⟩ ?_ rfl rfl rfl le_rfl <;> simp [hfailed]
  | failStart hfailed => refine ho.move hi ⟨rfl, ?_, ?_, ?_, ?_⟩ ?_ rfl rfl rfl le_rfl <;> simp [hfailed]
  | @failLocked state error hfailed =>
    refine ho.move (b := ⟨state, .leaving error⟩) hi ⟨hp.fits, ?_, ?_, ?_, ?_⟩ ?_ rfl rfl rfl le_rfl <;> simp [hfailed]
  | @poll state hfailed =>
    refine ho.move (b := ⟨state, .polling⟩) hi ⟨hp.fits, ?_, ?_, ?_, ?_⟩ ?_ rfl rfl rfl le_rfl <;> simp [hfailed]
  | lock hfree =>
    refine ho.turn hi rfl ⟨hp.fits, ?_, ?_, ?_, ?_⟩ (Or.inl hfree) rfl le_rfl (Or.inr ⟨rfl, rfl⟩) <;> simp [goto]
  | call =>
    refine ho.turn hi rfl ⟨hp.fits, ?_, ?_, ?_, ?_⟩ (Or.inr (hp.serves rfl)) rfl le_rfl (Or.inl rfl) <;> simp
  | @leave _ error =>
    have hfailed : s.shared.failed = some error := hp.error error rfl
    refine ho.turn hi rfl ⟨hp.fits, ?_, ?_, ?_, ?_⟩ (Or.inr (hp.serves rfl)) rfl le_rfl (Or.inl rfl) <;> simp [goto, hfailed]

omit [LinearOrder T] [Time T] [F64 F] [Secs T F] [Rng R F] in
/-- Where a check leads. -/
theorem afterCheck_goes {reservation : DispatchReservation} {caller : Caller} {notified : Bool} {now : T}
    {state : DispatchState T} (hfailed : s.shared.failed = none) :
    s.Goes ⟨.queued reservation, .waiting caller (.enabled notified)⟩
      ⟨.queued reservation, afterCheck caller notified now state⟩ ∧
    (Place.serves (T := T) (E := E) (.waiting caller (.enabled notified)) = true →
      (afterCheck (E := E) caller notified now state).serves = true ∨ afterCheck (E := E) caller notified now state = .dropping) := by
  cases caller <;> cases state <;> refine ⟨⟨?_, ?_, ?_, ?_, ?_⟩, ?_⟩ <;> simp [afterCheck, hfailed]

/-- **Every move keeps the futures in order.** -/
theorem Move.orderly (h : Move s l ev s') (ho : s.Orderly) : s'.Orderly := by
  cases h with
  | tick _ => exact ho.same rfl rfl rfl le_rfl
  | @read l e _ _ _ _ =>
    obtain ⟨hr, hs, hf, -, hd⟩ := release_fields s e
    exact ho.same hr hs hf hd
  | @pollReady waker =>
    obtain ⟨hr, hs, hf, -, hd, -⟩ := pollReady_fields s waker
    exact ho.same hr hs hf hd.ge
  | closed _ => exact ho.same rfl rfl rfl le_rfl
  | @accept e reservation hfailed _ _ _ =>
    refine ⟨fun i request hi => ?_, fun i hi => ?_⟩
    · rcases getElem?_join hi with hi | ⟨-, rfl⟩
      · exact (ho.placed i request hi).same rfl rfl le_rfl
      · constructor <;> simp
    · obtain ⟨request, hreq, hserves⟩ := ho.holder i hi
      obtain ⟨hlt, -⟩ := List.getElem?_eq_some_iff.mp hreq
      exact ⟨request, (List.getElem?_append_left hlt).trans hreq, hserves⟩
  | refuse _ _ _ _ => exact ho.same rfl rfl rfl le_rfl
  | jump hi hjump => exact hjump.orderly ho hi
  | check hi hfailed _ _ _ =>
    obtain ⟨hgoes, hkeeps⟩ := afterCheck_goes hfailed
    exact ho.move hi hgoes (fun _ hserves => hkeeps (hserves.resolve_right (by rintro ⟨⟩))) rfl rfl rfl le_rfl
  | @dispatch i reservation e active hi _ _ _ =>
    obtain ⟨-, hs, hf, -, hd⟩ := release_fields s e
    refine ho.move hi ⟨rfl, ?_, ?_, ?_, ?_⟩ ?_ rfl hs hf hd <;> simp
  | @retry i reservation e state hi _ _ _ =>
    obtain ⟨-, hs, hf, -, hd⟩ := release_fields s e
    refine ho.move hi ⟨rfl, ?_, ?_, ?_, ?_⟩ ?_ rfl hs hf hd <;> simp
  | @finish i l state place completion outcome e hi hends _ _ =>
    obtain ⟨-, hs, hf, -, hd⟩ := release_fields s e
    refine ho.move hi ⟨rfl, ?_, ?_, ?_, ?_⟩ (fun hheld hserves => ?_) rfl hs hf hd
    · simp
    · simp
    · intro error he
      cases hends with
      | fail => exact Or.inl he
      | respond => cases he
      | drop _ => cases he
    · simp
    · cases hends with
      | fail => exact absurd hserves (by simp)
      | respond => exact absurd hserves (by simp)
      | drop hne => exact absurd hheld hne
  | finished _ _ => exact ho
  | pending _ => exact ho
  | @ready i state hi =>
    have hp := ho.placed _ _ hi
    refine ho.move (b := ⟨state, .dispatching⟩) hi ⟨hp.fits, ?_, ?_, ?_, ?_⟩ ?_ rfl rfl rfl le_rfl <;> simp
  | @close i state error e hi _ _ =>
    have hp := ho.placed i _ hi
    have hheld := hp.serves rfl
    refine ⟨?_, fun j hj => ?_⟩
    · refine forall_set (P := Placed _) ⟨hp.fits, fun _ => hheld, ?_, ?_, fun _ _ _ _ => Nat.succ_pos _⟩ fun j request hj hreq => ?_
      · simp
      · simp
      · -- nobody else has got to the wrapped service, or has seen an error
        have hother := ho.placed j request hreq
        have hserves := hother.apart hheld hj
        refine ⟨hother.fits, ?_, ?_, ?_, fun _ _ _ _ => Nat.succ_pos _⟩
        · intro hs
          rw [hserves] at hs
          cases hs
        · intro hu
          rw [Place.serves_of_uses hu] at hserves
          cases hserves
        · intro error' he
          have hopen := hp.uses rfl
          rw [hother.error error' he] at hopen
          cases hopen
    · obtain rfl : i = j := Option.some.inj (hheld.symm.trans hj)
      obtain ⟨hlt, -⟩ := List.getElem?_eq_some_iff.mp hi
      exact ⟨_, List.getElem?_set_self hlt, Or.inl rfl⟩
  | @unwind i state place hi hlive =>
    have hfits : Place.fits (E := E) state .dropping = true := by
      have hfits := (ho.placed i _ hi).fits
      cases place with
      | returned _ => cases hlive
      | _ => cases state <;> first | rfl | cases hfits
    by_cases hs : s.service = some i
    · refine ho.turn hi rfl ⟨hfits, ?_, ?_, ?_, ?_⟩ (Or.inr hs) rfl le_rfl (Or.inl (if_pos hs)) <;> simp
    · refine ho.move (b := ⟨state, .dropping⟩) hi ⟨hfits, ?_, ?_, ?_, ?_⟩ ?_ rfl (if_neg hs) rfl le_rfl <;> simp
  | wake _ => exact ho.same rfl rfl rfl le_rfl
  | @notifyDispatch dispatch hd =>
    refine ⟨fun i request hi => ?_, fun i hi => ?_⟩
    · obtain ⟨old, hold, rfl⟩ := Option.map_eq_some_iff.mp ((List.getElem?_map ..).symm.trans hi)
      have hp := ho.placed i old hold
      obtain ⟨state, place⟩ := old
      cases place with
      | waiting caller wait =>
        -- a broadcast leaves nobody asleep
        refine ⟨hp.fits, ?_, ?_, ?_, ?_⟩
        · cases caller with
          | execute => rintro ⟨⟩
          | start => exact hp.serves
        · cases caller with
          | execute => rintro ⟨⟩
          | start => exact hp.uses
        · rintro _ ⟨⟩
        · intro _ _ hw
          cases wait <;> cases hw
      | _ => exact ⟨hp.fits, hp.serves, hp.uses, hp.error, by rintro _ _ ⟨⟩⟩
    · obtain ⟨request, hreq, hserves⟩ := ho.holder i hi
      refine ⟨{ request with place := request.place.notify }, ?_, ?_⟩
      · show (s.requests.map _)[i]? = _
        rw [List.getElem?_map, hreq]
        rfl
      · obtain ⟨state, place⟩ := request
        cases place with
        | waiting caller wait =>
          cases caller with
          | execute => exact absurd hserves (by simp)
          | start => exact Or.inl rfl
        | _ => exact hserves

end Endpoint

/-! ## What the futures do with the wrapped service -/

/-- What a step does with the wrapped service, with its lock, or with a request that is to call it; each with the request. -/
inductive Act (T E : Type)
  | lock (i : ℕ)
  | unlock (i : ℕ)
  | poll (i : ℕ) (result : Poll (Except E Unit))
  /-- The request is dispatched at this instant. -/
  | dispatch (i : ℕ) (dispatchedAt : T)
  /-- The service is called, and its lock given up. -/
  | call (i : ℕ)

/-- What was done, and when. -/
abbrev Acts (T E : Type) := List (Act T E × T)

section

variable {T E : Type}

/-- The request that has the lock afterwards. -/
def Act.holder (before : Option ℕ) : Act T E → Option ℕ
  | .lock i => some i
  | .unlock _ | .call _ => none
  | .poll _ _ | .dispatch _ _ => before

def Act.called? : Act T E → Option ℕ
  | .call i => some i
  | _ => none

def Act.dispatched? : Act T E → Option ℕ
  | .dispatch i _ => some i
  | _ => none

namespace Acts

/-- The request that has the lock. -/
def holder (acts : Acts T E) : Option ℕ := acts.foldl (fun before a => a.1.holder before) none

/-- The requests with which the service was called, in this order. -/
def calls (acts : Acts T E) : List ℕ := acts.filterMap fun a => a.1.called?

/-- The requests that were dispatched, in this order. -/
def dispatches (acts : Acts T E) : List ℕ := acts.filterMap fun a => a.1.dispatched?

/-- The last that was done is that request `i` took the lock, and polled the service without success. -/
def Opened (acts : Acts T E) (i : ℕ) : Prop :=
  ∃ earlier t polls, acts = earlier ++ (.lock i, t) :: polls ∧ ∀ a ∈ polls, a.1 = .poll i .pending

/-- Then it found the service ready at `t`. -/
def Readied (acts : Acts T E) (i : ℕ) (t : T) : Prop :=
  ∃ earlier, Opened earlier i ∧ acts = earlier ++ [(.poll i (.ready (.ok ())), t)]

/-- Then it was dispatched, at no earlier instant. -/
def Dispatched [LE T] (acts : Acts T E) (i : ℕ) (dispatchedAt : T) : Prop :=
  ∃ earlier t t', Readied earlier i t ∧ acts = earlier ++ [(.dispatch i dispatchedAt, t')] ∧ t ≤ dispatchedAt

variable {acts : Acts T E} {i : ℕ} {t : T} {a : Act T E × T}

theorem holder_snoc : holder (acts ++ [a]) = a.1.holder (holder acts) := by
  rw [holder, List.foldl_append]
  rfl

theorem calls_snoc : calls (acts ++ [a]) = calls acts ++ a.1.called?.toList := by
  rw [calls, List.filterMap_append]
  cases h : a.1.called? <;> simp [calls, h]

theorem dispatches_snoc : dispatches (acts ++ [a]) = dispatches acts ++ a.1.dispatched?.toList := by
  rw [dispatches, List.filterMap_append]
  cases h : a.1.dispatched? <;> simp [dispatches, h]

theorem opened_lock : Opened (acts ++ [(.lock i, t)]) i := ⟨acts, t, [], rfl, by simp⟩

theorem Opened.poll (h : Opened acts i) : Opened (acts ++ [(.poll i .pending, t)]) i := by
  obtain ⟨earlier, t', polls, rfl, hpolls⟩ := h
  refine ⟨earlier, t', polls ++ [(.poll i .pending, t)], by simp, fun a ha => ?_⟩
  rcases List.mem_append.mp ha with ha | ha
  · exact hpolls a ha
  · rw [List.mem_singleton.mp ha]

end Acts

end

namespace Endpoint

section

variable {T F R E : Type}

def act? (s : Endpoint T F R E) (l : Label T E) (ev : Event T F R) : Option (Act T E) :=
  match l with
  | .run i =>
    match s.requests[i]? with
    | some ⟨_, .locking⟩ => some (.lock i)
    | some ⟨_, .dispatching⟩ => (ev.entries.findSome? Entry.dispatched?).map fun x => .dispatch i x.2.dispatchedAt
    | some ⟨_, .calling⟩ => some (.call i)
    | some ⟨_, .leaving _⟩ => some (.unlock i)
    | _ => none
  | .pollInner i result => some (.poll i result)
  | .unwind i => if s.service = some i then some (.unlock i) else none
  | _ => none

/-- What was done after a step. -/
def watch (s : Endpoint T F R E) (acts : Acts T E) (l : Label T E) (ev : Event T F R) : Acts T E :=
  acts ++ (s.act? l ev).toList.map fun a => (a, s.clock)

theorem watch_none {s : Endpoint T F R E} {acts : Acts T E} {l : Label T E} {ev : Event T F R}
    (h : s.act? l ev = none) : s.watch acts l ev = acts := by
  rw [watch, h]
  exact List.append_nil acts

theorem watch_some {s : Endpoint T F R E} {acts : Acts T E} {l : Label T E} {ev : Event T F R} {x : Act T E}
    (h : s.act? l ev = some x) : s.watch acts l ev = acts ++ [(x, s.clock)] := by
  rw [watch, h]
  rfl

/-- The step of an endpoint that is watched. -/
def Watched [AddCommMonoid T] [LinearOrder T] [Sub T] [Time T] [F64 F] [Secs T F] [Rng R F]
    (x : Endpoint T F R E × Acts T E) (y : Label T E × Event T F R) (x' : Endpoint T F R E × Acts T E) : Prop :=
  x.1.exec y.1 = some (y.2, x'.1) ∧ x'.2 = x.1.watch x.2 y.1 y.2

/-- What was done for one request. -/
structure Recorded [LE T] (s : Endpoint T F R E) (acts : Acts T E) (i : ℕ) (request : Request T E) : Prop where
  opened : request.place = .locked ∨ request.place = .polling → acts.Opened i
  readied : request.place = .dispatching ∨ (∃ wait, request.place = .waiting .start wait) →
    ∃ t, acts.Readied i t ∧ t ≤ s.clock
  dispatched : request.place = .calling →
    ∃ active, request.state = .inFlight active ∧ acts.Dispatched i active.dispatchedAt
  /-- The sample of a dispatched request starts when the service was ready for it, or later. -/
  sampled : ∀ active, request.state = .inFlight active →
    ∃ t, (.poll i (.ready (.ok ())), t) ∈ acts ∧ t ≤ active.dispatchedAt
  next : request.state.isQueued = true → ∀ k ∈ acts.dispatches, k < i
  last : request.place = .calling → ∀ k ∈ acts.calls, k < i

/-- **The discipline** of the calls of the wrapped service. -/
structure Disciplined [LE T] (s : Endpoint T F R E) (acts : Acts T E) : Prop where
  recorded : ∀ i request, s.requests[i]? = some request → s.Recorded acts i request
  holder : s.service = acts.holder
  turns : ∀ before i t after, acts = before ++ (.call i, t) :: after → ∃ dispatchedAt, Acts.Dispatched before i dispatchedAt
  calls : acts.calls.Pairwise (· < ·)
  dispatches : acts.dispatches.Pairwise (· < ·)
  called : ∀ k ∈ acts.calls, k ∈ acts.dispatches
  known : ∀ k ∈ acts.dispatches, k < s.requests.length

variable [Preorder T] {s s' : Endpoint T F R E} {acts : Acts T E} {i j : ℕ} {a b request : Request T E}

/-- Time passes. -/
theorem Recorded.same (h : s.Recorded acts i request) (hc : s.clock ≤ s'.clock) : s'.Recorded acts i request :=
  ⟨h.opened, fun hp => (h.readied hp).imp fun _ ht => ⟨ht.1, ht.2.trans hc⟩, h.dispatched, h.sampled, h.next, h.last⟩

/-- Another request does something with the service. -/
theorem Recorded.idle {x : Act T E × T} (h : s.Recorded acts j request) (hserves : request.place.serves = false)
    (hnext : ∀ k, x.1.dispatched? = some k → request.state.isQueued = true → k < j) :
    s'.Recorded (acts ++ [x]) j request := by
  refine ⟨?_, ?_, ?_, ?_, ?_, ?_⟩
  · rintro (hp | hp) <;> rw [hp] at hserves <;> cases hserves
  · rintro (hp | ⟨wait, hp⟩) <;> rw [hp] at hserves <;> cases hserves
  · intro hp
    rw [hp] at hserves
    cases hserves
  · intro active ha
    obtain ⟨t, hmem, hle⟩ := h.sampled active ha
    exact ⟨t, List.mem_append_left _ hmem, hle⟩
  · intro hq k hk
    rw [Acts.dispatches_snoc] at hk
    rcases List.mem_append.mp hk with hk | hk
    · exact h.next hq k hk
    · exact hnext k (Option.mem_toList.mp hk) hq
  · intro hp
    rw [hp] at hserves
    cases hserves

/-- The request itself goes on, and is not dispatched. -/
theorem Recorded.goto {acts' : Acts T E} {state : RequestState T} {place place' : Place T E}
    (h : s.Recorded acts i ⟨state, place⟩) (hsub : acts ⊆ acts') (hd : acts'.dispatches = acts.dispatches)
    (hopened : place' = .locked ∨ place' = .polling → acts'.Opened i)
    (hreadied : place' = .dispatching ∨ (∃ wait, place' = .waiting .start wait) → ∃ t, acts'.Readied i t ∧ t ≤ s'.clock)
    (hcalling : place' ≠ .calling) : s'.Recorded acts' i ⟨state, place'⟩ :=
  ⟨hopened, hreadied, fun hp => absurd hp hcalling,
    fun active ha => (h.sampled active ha).imp fun _ ht => ⟨hsub ht.1, ht.2⟩,
    fun hq k hk => h.next hq k (hd ▸ hk), fun hp => absurd hp hcalling⟩

/-- Its request goes to a place with something else than a dispatch. -/
theorem Recorded.acted {x : Act T E × T} {state : RequestState T} {place place' : Place T E}
    (h : s.Recorded acts i ⟨state, place⟩) (hx : x.1.dispatched? = none)
    (hopened : place' = .locked ∨ place' = .polling → Acts.Opened (acts ++ [x]) i)
    (hreadied : place' = .dispatching ∨ (∃ wait, place' = .waiting .start wait) →
      ∃ t, Acts.Readied (acts ++ [x]) i t ∧ t ≤ s'.clock)
    (hcalling : place' ≠ .calling) : s'.Recorded (acts ++ [x]) i ⟨state, place'⟩ := by
  refine h.goto (List.subset_append_left _ _) ?_ hopened hreadied hcalling
  rw [Acts.dispatches_snoc, hx]
  exact List.append_nil _

/-- A step that does nothing with the service. -/
theorem Disciplined.same (h : s.Disciplined acts) (hr : s'.requests = s.requests) (hs : s'.service = s.service)
    (hc : s.clock ≤ s'.clock) : s'.Disciplined acts := by
  refine ⟨fun i request hi => ?_, hs.trans h.holder, h.turns, h.calls, h.dispatches, h.called, ?_⟩
  · rw [hr] at hi
    exact (h.recorded i request hi).same hc
  · rw [hr]
    exact h.known

/-- A step of one request that does nothing with the service. -/
theorem Disciplined.move (h : s.Disciplined acts) (hr : s'.requests = s.requests.set i b) (hs : s'.service = s.service)
    (hc : s.clock ≤ s'.clock) (hb : s'.Recorded acts i b) : s'.Disciplined acts := by
  refine ⟨?_, hs.trans h.holder, h.turns, h.calls, h.dispatches, h.called, ?_⟩
  · rw [hr]
    exact forall_set hb fun j request _ hj => (h.recorded j request hj).same hc
  · rw [hr, List.length_set]
    exact h.known

/-- A step of the request that has the service lock, or takes it. -/
theorem Disciplined.act {x : Act T E} {t : T} (h : s.Disciplined acts) (hi : s.requests[i]? = some a)
    (hr : s'.requests = s.requests.set i b) (hs : s'.service = x.holder s.service)
    (hidle : ∀ j request, j ≠ i → s.requests[j]? = some request → request.place.serves = false)
    (hb : s'.Recorded (acts ++ [(x, t)]) i b)
    (hdispatch : ∀ k, x.dispatched? = some k → k = i ∧ a.state.isQueued = true ∧
      ∀ j request, j ≠ i → s.requests[j]? = some request → request.state.isQueued = true → i < j)
    (hcall : ∀ k, x.called? = some k → x = .call i ∧ k = i ∧ a.place = .calling) :
    s'.Disciplined (acts ++ [(x, t)]) := by
  have ha := h.recorded i a hi
  obtain ⟨hlt, -⟩ := List.getElem?_eq_some_iff.mp hi
  have hlast : ∀ k ∈ acts.calls, ∀ b ∈ x.called?.toList, k < b := by
    intro k hk b hb
    obtain ⟨-, rfl, hp⟩ := hcall b (Option.mem_toList.mp hb)
    exact ha.last hp k hk
  have hnext : ∀ k ∈ acts.dispatches, ∀ b ∈ x.dispatched?.toList, k < b := by
    intro k hk b hb
    obtain ⟨rfl, hq, -⟩ := hdispatch b (Option.mem_toList.mp hb)
    exact ha.next hq k hk
  have single (o : Option ℕ) : o.toList.Pairwise (· < ·) := by cases o <;> simp
  refine ⟨?_, ?_, ?_, ?_, ?_, ?_, ?_⟩
  · rw [hr]
    refine forall_set hb fun j request hj hreq => ?_
    refine (h.recorded j request hreq).idle (hidle j request hj hreq) fun k hk hq => ?_
    obtain ⟨rfl, -, hothers⟩ := hdispatch k hk
    exact hothers j request hj hreq hq
  · rw [Acts.holder_snoc, ← h.holder]
    exact hs
  · intro before k u after hacts
    rcases List.eq_nil_or_concat after with rfl | ⟨after, y, rfl⟩
    · obtain ⟨rfl, hx⟩ := List.append_inj' hacts rfl
      obtain ⟨rfl, -⟩ := Prod.mk.inj (List.cons.inj hx).1
      obtain ⟨-, rfl, hp⟩ := hcall k rfl
      obtain ⟨active, -, hd⟩ := ha.dispatched hp
      exact ⟨_, hd⟩
    · rw [List.concat_eq_append, ← List.cons_append, ← List.append_assoc] at hacts
      exact h.turns before k u after (List.append_inj' hacts rfl).1
  · rw [Acts.calls_snoc]
    exact List.pairwise_append.mpr ⟨h.calls, single _, hlast⟩
  · rw [Acts.dispatches_snoc]
    exact List.pairwise_append.mpr ⟨h.dispatches, single _, hnext⟩
  · intro k hk
    rw [Acts.calls_snoc] at hk
    rw [Acts.dispatches_snoc]
    rcases List.mem_append.mp hk with hk | hk
    · exact List.mem_append_left _ (h.called k hk)
    · obtain ⟨-, rfl, hp⟩ := hcall k (Option.mem_toList.mp hk)
      -- a request that is to call was the last to be dispatched
      obtain ⟨active, -, earlier, _, t', -, rfl, -⟩ := ha.dispatched hp
      rw [Acts.dispatches_snoc]
      exact List.mem_append_left _ (List.mem_append_right _ List.mem_cons_self)
  · intro k hk
    rw [hr, List.length_set]
    rw [Acts.dispatches_snoc] at hk
    rcases List.mem_append.mp hk with hk | hk
    · exact h.known k hk
    · obtain ⟨rfl, -⟩ := hdispatch k (Option.mem_toList.mp hk)
      exact hlt

end

section

variable {T F R E : Type} [AddCommMonoid T] [LinearOrder T] [Sub T] [Time T] [F64 F] [Secs T F] [Rng R F]
variable {s s' : Endpoint T F R E} {ev : Event T F R} {e : Entry T F R} {i : ℕ} {l : Label T E} {acts : Acts T E}

omit [AddCommMonoid T] [LinearOrder T] [Sub T] [Time T] [F64 F] [Secs T F] [Rng R F] in
/-- The last step of a request does nothing with the service. -/
theorem Ends.act? {state : RequestState T} {place : Place T E} {completion : Completion} {outcome : Outcome E}
    (h : Ends s i l place completion outcome) (hi : s.requests[i]? = some ⟨state, place⟩) : s.act? l ev = none := by
  cases h with
  | fail => simp [Endpoint.act?, hi]
  | respond => rfl
  | drop _ => rfl

/-- What a client shows of its request. -/
theorem view_queued {reservation : DispatchReservation} {place : Place T E}
    (hi : s.requests[i]? = some ⟨.queued reservation, place⟩) :
    s.view.clients[i]? = some ⟨.queued reservation, place.wait⟩ := by
  show (s.requests.map Request.client)[i]? = _
  rw [List.getElem?_map, hi]
  rfl

omit [AddCommMonoid T] [LinearOrder T] [Sub T] [Time T] [F64 F] [Secs T F] [Rng R F] in
/-- Nobody else serves while a request has the service lock, or nobody has it. -/
theorem Orderly.idle (ho : s.Orderly) (hs : s.service = none ∨ s.service = some i) :
    ∀ j request, j ≠ i → s.requests[j]? = some request → request.place.serves = false := by
  intro j request hj hreq
  rcases hs with hs | hs
  · exact (ho.placed j request hreq).free hs
  · exact (ho.placed j request hreq).apart hs hj

omit [AddCommMonoid T] [Sub T] [Time T] [F64 F] [Secs T F] [Rng R F] in
/-- A jump keeps the discipline. -/
theorem Jump.disciplined {state : RequestState T} {place place' : Place T E} {service : Option ℕ}
    (hjump : Jump s i state place place' service) (ho : s.Orderly) (hd : s.Disciplined acts)
    (hi : s.requests[i]? = some ⟨state, place⟩) :
    (s.goto (F := F) (R := R) i ⟨state, place'⟩ service).2.Disciplined (s.watch acts (.run i) .silent) := by
  have ha := hd.recorded i _ hi
  have hp := ho.placed i _ hi
  cases hjump with
  | enable =>
    rw [watch_none (by simp [act?, hi])]
    refine hd.move rfl rfl le_rfl (ha.goto (List.Subset.refl _) rfl (by simp) ?_ (by simp))
    rintro (⟨⟨⟩⟩ | ⟨wait, ⟨⟩⟩)
    exact ha.readied (Or.inr ⟨_, rfl⟩)
  | wake _ =>
    rw [watch_none (by simp [act?, hi])]
    refine hd.move rfl rfl le_rfl (ha.goto (List.Subset.refl _) rfl (by simp) ?_ (by simp))
    rintro (⟨⟨⟩⟩ | ⟨wait, ⟨⟩⟩)
    exact ha.readied (Or.inr ⟨_, rfl⟩)
  | failExecute _ =>
    rw [watch_none (by simp [act?, hi])]
    exact hd.move rfl rfl le_rfl (ha.goto (List.Subset.refl _) rfl (by simp) (by simp) (by simp))
  | failStart _ =>
    rw [watch_none (by simp [act?, hi])]
    exact hd.move rfl rfl le_rfl (ha.goto (List.Subset.refl _) rfl (by simp) (by simp) (by simp))
  | lock hfree =>
    rw [watch_some (x := .lock i) (by simp [act?, hi])]
    refine hd.act hi rfl rfl (ho.idle (Or.inl hfree)) ?_ (by rintro _ ⟨⟩) (by rintro _ ⟨⟩)
    exact ha.acted rfl (fun _ => Acts.opened_lock) (by simp) (by simp)
  | failLocked _ =>
    rw [watch_none (by simp [act?, hi])]
    exact hd.move rfl rfl le_rfl (ha.goto (List.Subset.refl _) rfl (by simp) (by simp) (by simp))
  | poll _ =>
    rw [watch_none (by simp [act?, hi])]
    exact hd.move rfl rfl le_rfl
      (ha.goto (List.Subset.refl _) rfl (fun _ => ha.opened (Or.inl rfl)) (by simp) (by simp))
  | call =>
    rw [watch_some (x := .call i) (by simp [act?, hi])]
    refine hd.act hi rfl rfl (ho.idle (Or.inr (hp.serves rfl))) ?_ (by rintro _ ⟨⟩) ?_
    · exact ha.acted rfl (by simp) (by simp) (by simp)
    · rintro _ ⟨⟩
      exact ⟨rfl, rfl, rfl⟩
  | leave =>
    rw [watch_some (x := .unlock i) (by simp [act?, hi])]
    refine hd.act hi rfl rfl (ho.idle (Or.inr (hp.serves rfl))) ?_ (by rintro _ ⟨⟩) (by rintro _ ⟨⟩)
    exact ha.acted rfl (by simp) (by simp) (by simp)

/-- **Every move keeps the discipline.** -/
theorem Move.disciplined (h : Move s l ev s') (ho : s.Orderly) (hinv : s.view.Inv) (hl : s.view.Lined)
    (hd : s.Disciplined acts) : s'.Disciplined (s.watch acts l ev) := by
  cases h with
  | tick hle =>
    rw [watch_none rfl]
    exact hd.same rfl rfl hle
  | @read l e _ _ _ hl =>
    obtain ⟨hr, hs, -, hc, -⟩ := release_fields s e
    rw [watch_none (by rcases hl with rfl | rfl <;> rfl)]
    exact hd.same hr hs hc.ge
  | @pollReady waker =>
    obtain ⟨hr, hs, -, hc, -⟩ := pollReady_fields s waker
    rw [watch_none rfl]
    exact hd.same hr hs hc.ge
  | closed _ =>
    rw [watch_none rfl]
    exact hd.same rfl rfl le_rfl
  | @accept e reservation _ _ _ _ =>
    rw [watch_none rfl]
    refine ⟨fun i request hi => ?_, hd.holder, hd.turns, hd.calls, hd.dispatches, hd.called, fun k hk => ?_⟩
    · rcases getElem?_join hi with hi | ⟨rfl, rfl⟩
      · exact (hd.recorded i request hi).same le_rfl
      · exact ⟨by simp, by simp, by simp, by simp, fun _ => hd.known, by simp⟩
    · exact (hd.known k hk).trans_le (by simp)
  | refuse _ _ _ _ =>
    rw [watch_none rfl]
    exact hd.same rfl rfl le_rfl
  | jump hi hjump => exact hjump.disciplined ho hd hi
  | @check i reservation caller notified e state hi _ _ _ _ =>
    have ha := hd.recorded i _ hi
    rw [watch_none (by simp [act?, hi])]
    refine hd.move rfl rfl le_rfl (ha.goto (List.Subset.refl _) rfl ?_ ?_ ?_)
    · cases caller <;> cases state <;> simp [afterCheck]
    · intro hp
      have hstart : caller = .start := by
        cases caller with
        | start => rfl
        | execute => cases state <;> simp [afterCheck] at hp
      subst hstart
      exact ha.readied (Or.inr ⟨_, rfl⟩)
    · cases caller <;> cases state <;> simp [afterCheck]
  | @dispatch i reservation e active hi hstep hcall hreply =>
    have ha := hd.recorded i _ hi
    have hdis : e.dispatched? = some (reservation, active) := Entry.dispatched_of hcall hreply
    obtain ⟨t, hready, hle⟩ := ha.readied (Or.inl rfl)
    have hat : active.dispatchedAt = s.clock := hstep.dispatched_at hcall hreply
    obtain ⟨-, hs, -, hc, -⟩ := release_fields s e
    rw [watch_some (x := .dispatch i active.dispatchedAt) (by simp [act?, hi, hdis])]
    refine hd.act hi rfl hs (ho.idle (Or.inr ((ho.placed i _ hi).serves rfl))) ?_ ?_ (by rintro _ ⟨⟩)
    · refine ⟨by simp, by simp, fun _ => ⟨active, rfl, acts, t, s.clock, hready, rfl, hat ▸ hle⟩, ?_, by simp, ?_⟩
      · rintro _ ⟨⟩
        obtain ⟨earlier, -, rfl⟩ := hready
        exact ⟨t, by simp, hat ▸ hle⟩
      · intro _ k hk
        rw [Acts.calls_snoc] at hk
        exact ha.next rfl k (hd.called k (by simpa [Act.called?] using hk))
    · rintro _ ⟨⟩
      refine ⟨rfl, rfl, fun j request hj hreq hq => ?_⟩
      obtain ⟨state, place⟩ := request
      cases state with
      | queued r => exact hl.head hinv (view_queued hi) rfl (view_queued hreq) rfl (hstep.dispatched hdis).2.2.1 hj
      | inFlight _ => cases hq
      | finished => cases hq
  | @retry i reservation e state hi _ hcall hreply =>
    have ha := hd.recorded i _ hi
    obtain ⟨-, hs, -, hc, -⟩ := release_fields s e
    have hdis : e.dispatched? = none := by rw [Entry.dispatched?, hcall, hreply]; rfl
    rw [watch_none (by simp [act?, hi, hdis])]
    refine hd.move rfl hs hc.ge (ha.goto (List.Subset.refl _) rfl (by simp) (fun _ => ?_) (by simp))
    obtain ⟨t, hready, hle⟩ := ha.readied (Or.inl rfl)
    exact ⟨t, hready, hle.trans hc.ge⟩
  | @finish i l state place completion outcome e hi hends _ _ =>
    obtain ⟨-, hs, -, hc, -⟩ := release_fields s e
    rw [watch_none (hends.act? hi)]
    exact hd.move rfl hs hc.ge ⟨by simp, by simp, by simp, by simp, by simp, by simp⟩
  | finished hi hends =>
    rw [watch_none (hends.act? hi)]
    exact hd
  | @pending i state hi =>
    have ha := hd.recorded i _ hi
    obtain ⟨hlt, hget⟩ := List.getElem?_eq_some_iff.mp hi
    rw [watch_some (x := .poll i .pending) rfl]
    refine hd.act (b := ⟨state, .polling⟩) hi ?_ rfl (ho.idle (Or.inr ((ho.placed i _ hi).serves rfl))) ?_ (by rintro _ ⟨⟩)
      (by rintro _ ⟨⟩)
    · rw [← hget, List.set_getElem_self]
    · exact ha.acted rfl (fun _ => (ha.opened (Or.inr rfl)).poll) (by simp) (by simp)
  | @ready i state hi =>
    have ha := hd.recorded i _ hi
    rw [watch_some (x := .poll i (.ready (.ok ()))) rfl]
    refine hd.act hi rfl rfl (ho.idle (Or.inr ((ho.placed i _ hi).serves rfl))) ?_ (by rintro _ ⟨⟩) (by rintro _ ⟨⟩)
    refine ha.acted rfl (by simp) (fun _ => ?_) (by simp)
    exact ⟨s.clock, ⟨acts, ha.opened (Or.inr rfl), rfl⟩, le_rfl⟩
  | @close i state error e hi _ _ =>
    have ha := hd.recorded i _ hi
    rw [watch_some (x := .poll i (.ready (.error error))) rfl]
    refine hd.act hi rfl rfl (ho.idle (Or.inr ((ho.placed i _ hi).serves rfl))) ?_ (by rintro _ ⟨⟩) (by rintro _ ⟨⟩)
    exact ha.acted rfl (by simp) (by simp) (by simp)
  | @unwind i state place hi _ =>
    have ha := hd.recorded i _ hi
    by_cases hs : s.service = some i
    · rw [watch_some (x := .unlock i) (by simp [act?, hs])]
      refine hd.act hi rfl (if_pos hs) (ho.idle (Or.inr hs)) ?_ (by rintro _ ⟨⟩) (by rintro _ ⟨⟩)
      exact ha.acted rfl (by simp) (by simp) (by simp)
    · rw [watch_none (by simp [act?, hs])]
      exact hd.move rfl (if_neg hs) le_rfl (ha.goto (List.Subset.refl _) rfl (by simp) (by simp) (by simp))
  | wake _ =>
    rw [watch_none rfl]
    exact hd.same rfl rfl le_rfl
  | @notifyDispatch dispatch _ =>
    rw [watch_none rfl]
    refine ⟨fun i request hi => ?_, hd.holder, hd.turns, hd.calls, hd.dispatches, hd.called, fun k hk => ?_⟩
    · obtain ⟨⟨state, place⟩, hold, rfl⟩ := Option.map_eq_some_iff.mp ((List.getElem?_map ..).symm.trans hi)
      have ha := hd.recorded i _ hold
      cases place with
      | waiting caller wait =>
        refine ha.goto (List.Subset.refl _) rfl (by simp [Place.notify]) ?_ (by simp [Place.notify])
        rintro (⟨⟨⟩⟩ | ⟨wait', ⟨⟩⟩)
        exact ha.readied (Or.inr ⟨_, rfl⟩)
      | _ => exact ha.same le_rfl
    · exact (hd.known k hk).trans_le (List.length_map ..).ge

/-! ## Runs -/

variable {c₀ : EndpointController T F R} {start : T} {tr : List (Label T E × Event T F R)}

/-- What holds of every reachable endpoint. -/
structure Sound (s : Endpoint T F R E) (acts : Acts T E) : Prop where
  inv : s.view.Inv
  lined : s.view.Lined
  orderly : s.Orderly
  disciplined : s.Disciplined acts

theorem Move.sound (h : Move s l ev s') (hs : s.Sound acts) : s'.Sound (s.watch acts l ev) :=
  ⟨(h.clients hs.inv).inv hs.inv, (h.clients hs.inv).lined hs.inv hs.lined, h.orderly hs.orderly,
    h.disciplined hs.orderly hs.inv hs.lined hs.disciplined⟩

/-- **Every run can be watched**, and keeps the discipline. -/
theorem run_watched (h0 : Fresh c₀) (h : Run (system T F R E).Step ((system T F R E).start c₀ start) tr s) :
    ∃ acts, Run Watched ((system T F R E).start c₀ start, []) tr (s, acts) ∧ s.Sound acts := by
  induction h with
  | nil =>
    refine ⟨[], .nil, System.inv_start h0 start, List.Pairwise.nil, ⟨by rintro _ _ ⟨⟩, by rintro _ ⟨⟩⟩, ?_⟩
    exact ⟨by rintro _ _ ⟨⟩, rfl, by simp, .nil, .nil, by rintro _ ⟨⟩, by rintro _ ⟨⟩⟩
  | @snoc tr m x s _ he ih =>
    obtain ⟨acts, hw, hs⟩ := ih
    exact ⟨m.watch acts x.1 x.2, hw.snoc ⟨he, rfl⟩, (exec_move he).sound hs⟩

end

end Endpoint

/-! ## Calls of the wrapped service -/

namespace Acts

variable {T E : Type} {acts : Acts T E} {i : ℕ} {t : T}

theorem Opened.holder (h : Opened acts i) : acts.holder = some i := by
  obtain ⟨earlier, t, polls, rfl, hpolls⟩ := h
  induction polls using List.reverseRecOn with
  | nil => exact holder_snoc
  | append_singleton polls a ih =>
    rw [← List.cons_append, ← List.append_assoc, holder_snoc, hpolls a (by simp)]
    exact ih fun a ha => hpolls a (List.mem_append_left _ ha)

theorem Dispatched.holder [LE T] (h : Dispatched acts i t) : acts.holder = some i := by
  obtain ⟨_, _, _, ⟨earlier, ho, rfl⟩, rfl, -⟩ := h
  rw [holder_snoc, holder_snoc]
  exact ho.holder

theorem Dispatched.mem [LE T] (h : Dispatched acts i t) : i ∈ acts.dispatches := by
  obtain ⟨_, _, _, -, rfl, -⟩ := h
  rw [dispatches_snoc]
  exact List.mem_append_right _ List.mem_cons_self

end Acts

section

variable {T F R E : Type} [AddCommMonoid T] [LinearOrder T] [Sub T] [Time T] [F64 F] [Secs T F] [Rng R F]
variable {c₀ : EndpointController T F R} {start : T} {tr : List (Label T E × Event T F R)} {s : Endpoint T F R E}

/-- **The wrapped service is called with care.** In every run, whatever the futures do and whenever they are dropped, each call
of the wrapped service is made by the request that has its lock, which since it took the lock has done nothing but poll the
service until it was ready, and be dispatched, at no earlier instant and for the only time; the calls are in the order in
which the requests were accepted; and the sample of every dispatched request starts when the service was ready for it, or
later. -/
theorem inner_call_discipline (h0 : Fresh c₀) (h : Run (system T F R E).Step ((system T F R E).start c₀ start) tr s) :
    ∃ acts, Run Endpoint.Watched ((system T F R E).start c₀ start, []) tr (s, acts) ∧ s.service = acts.holder ∧
      (∀ before i t after, acts = before ++ (.call i, t) :: after → Acts.holder before = some i ∧
        (∃ dispatchedAt, Acts.Dispatched before i dispatchedAt) ∧ acts.dispatches.count i = 1) ∧
      acts.calls.Pairwise (· < ·) ∧
      ∀ i active place, s.requests[i]? = some ⟨.inFlight active, place⟩ →
        ∃ t, (.poll i (.ready (.ok ())), t) ∈ acts ∧ t ≤ active.dispatchedAt := by
  obtain ⟨acts, hw, -, -, -, hd⟩ := Endpoint.run_watched h0 h
  refine ⟨acts, hw, hd.holder, fun before i t after hacts => ?_, hd.calls, fun i active place hi => ?_⟩
  · obtain ⟨dispatchedAt, hdispatched⟩ := hd.turns before i t after hacts
    refine ⟨hdispatched.holder, ⟨dispatchedAt, hdispatched⟩, ?_⟩
    have hmem : i ∈ acts.dispatches := by
      rw [hacts, Acts.dispatches, List.filterMap_append]
      exact List.mem_append_left _ hdispatched.mem
    exact List.count_eq_one_of_mem (hd.dispatches.imp Nat.ne_of_lt) hmem
  · exact (hd.recorded i _ hi).sampled active rfl

end

/-- Two requests of an endpoint: the first is dispatched and called, and the second waits for its slot first. -/
def callLabels : List (Label ℕ ℕ) :=
  [.call, .call, .run 0, .run 0, .run 0, .run 0, .pollInner 0 .pending, .pollInner 0 (.ready (.ok ())), .run 0, .run 0,
    .tick 5000000, .run 1, .run 1, .run 1, .run 1, .pollInner 1 (.ready (.ok ())), .run 1, .run 1]

/-- The service was found ready for the second request before it was dispatched. -/
theorem inner_call_discipline_two : ∃ tr s acts, (system ℕ ℚ ℕ ℕ).play ((system ℕ ℚ ℕ ℕ).start sample 0) callLabels =
    some (tr, s) ∧ Run Endpoint.Watched ((system ℕ ℚ ℕ ℕ).start sample 0, []) tr (s, acts) ∧ acts.calls.Pairwise (· < ·) ∧
    s.shared.controller.inflight = 2 ∧ ∃ t, (.poll 1 (.ready (.ok ())), t) ∈ acts ∧ t ≤ 5000000 := by
  have hp : ((system ℕ ℚ ℕ ℕ).play ((system ℕ ℚ ℕ ℕ).start sample 0) callLabels).any (fun x =>
      let s : Endpoint ℕ ℚ ℕ ℕ := x.2
      decide (s.shared.controller.inflight = 2 ∧ s.view.clients[1]?.map Waiter.purpose =
        some (.inflight { controllerId := 7, dispatchedAt := 5000000, wasPaced := false }))) = true := by decide +kernel
  obtain ⟨⟨tr, s⟩, hr, hres⟩ := (Option.any_eq_true _ _).mp hp
  obtain ⟨hinflight, hactive⟩ := of_decide_eq_true hres
  obtain ⟨acts, hw, -, -, hcalls, hsampled⟩ := inner_call_discipline sample_fresh (System.play_run hr)
  obtain ⟨x, hx, hpurpose⟩ := Option.map_eq_some_iff.mp hactive
  obtain ⟨⟨state, place⟩, hi, rfl⟩ := Option.map_eq_some_iff.mp ((List.getElem?_map ..).symm.trans hx)
  cases state with
  | inFlight active =>
    obtain rfl := Hold.inflight.inj hpurpose
    exact ⟨tr, s, acts, hr, hw, hcalls, hinflight, hsampled 1 _ place hi⟩
  | queued _ => cases hpurpose
  | finished => cases hpurpose

end Loadpace.Tower
