import Loadpace.Adapter.Locked
import Loadpace.Lib.Notify

/-!
# The clients of a controller

What the adapters have in common: a controller behind a lock, and any number of requests, each with a guard that holds a
reservation or an inflight request, and with its place in the dispatch wait. A turn at the lock makes calls, drains the
flags, and owes a broadcast when the dispatch flag was among them; only a check of a request's own reservation may drop the
flags. `Clients.Step` is one step of such a system, and `Clients.Inv` its invariant (`Clients.Step.inv`).
-/

namespace Loadpace

open Systems EndpointController Notify

/-- What the guard of a request holds. -/
inductive Hold (T : Type)
  | queued (reservation : DispatchReservation)
  | inflight (request : InFlightRequest T)
  | finished
  deriving DecidableEq, Repr

namespace Hold

variable {T : Type}

/-- The call that releases what the guard holds. -/
def release? (completion : Completion) (now : T) : Hold T → Option (Call T)
  | .queued reservation => some (.cancel reservation now)
  | .inflight request => some (.finish request completion now)
  | .finished => none

theorem now_of_release {hold : Hold T} {completion : Completion} {now : T} {call : Call T}
    (h : hold.release? completion now = some call) : call.now? = some now := by
  cases hold with
  | queued _ => cases h; rfl
  | inflight _ => cases h; rfl
  | finished => cases h

def ticket? : Hold T → Option ℕ
  | .queued reservation => some reservation.id
  | _ => none

def isInflight : Hold T → Bool
  | .inflight _ => true
  | _ => false

def isFinished : Hold T → Bool
  | .finished => true
  | _ => false

theorem isFinished_iff {hold : Hold T} : hold.isFinished = true ↔ hold = .finished := by
  cases hold <;> simp [isFinished]

/-- What the guard holds was given out by the controller. -/
def Own (controllerId : ℕ) : Hold T → Prop
  | .queued reservation => reservation.controllerId = controllerId
  | .inflight request => request.controllerId = controllerId
  | .finished => True

end Hold

/-- A request: its guard, and its dispatch wait, which may have a timer. -/
abbrev Client (T : Type) := Waiter (Hold T) (Option T)

/-- How a task waits after a check of its reservation. -/
def waitAfter {T : Type} (notified : Bool) : DispatchState T → Wait (Option T)
  | .ready | .cancelled => .away
  | .waitUntil deadline => .asleep notified (some deadline)
  | .waitForPrevious | .inflightLimit => .asleep notified none

/-- A step of an adapter: the request it is about, the calls it made, and the flags that it drained and threw away. -/
structure Event (T F R : Type) where
  who : Option ℕ
  entries : List (Entry T F R)
  dropped : ControllerChanges

/-- A step that makes no call. -/
def Event.silent {T F R : Type} : Event T F R := { who := none, entries := [], dropped := ControllerChanges.none }

structure Clients (T F R : Type) where
  controller : EndpointController T F R
  clock : T
  /-- The broadcasts to the dispatch waits that are still to be made. -/
  owed : ℕ
  clients : List (Client T)

/-- The identities of the queued reservations. -/
def tickets {T : Type} (clients : List (Client T)) : List ℕ := clients.filterMap fun x => x.purpose.ticket?

/-- The number of requests in flight. -/
def inflights {T : Type} (clients : List (Client T)) : ℕ := clients.countP fun x => x.purpose.isInflight

section

variable {T : Type} {xs ys : List (Client T)} {x y : Client T}

theorem tickets_split : tickets (xs ++ x :: ys) = tickets xs ++ (x.purpose.ticket?.toList ++ tickets ys) := by
  unfold tickets
  rw [List.filterMap_append, List.filterMap_cons]
  cases x.purpose.ticket? <;> rfl

theorem inflights_split : inflights (xs ++ x :: ys) = inflights (xs ++ ys) + (if x.purpose.isInflight then 1 else 0) := by
  unfold inflights
  rw [List.countP_append, List.countP_cons, List.countP_append]
  omega

theorem tickets_notify : tickets (xs.map Waiter.notify) = tickets xs := by
  unfold tickets
  rw [List.filterMap_map]
  rfl

theorem inflights_notify : inflights (xs.map Waiter.notify) = inflights xs := by
  unfold inflights
  rw [List.countP_map]
  rfl

/-- A list at one of its places. -/
theorem split_set {α : Type} {l : List α} {i : ℕ} {a : α} (h : l[i]? = some a) :
    ∃ xs ys, l = xs ++ a :: ys ∧ xs.length = i ∧ ∀ b, l.set i b = xs ++ b :: ys := by
  obtain ⟨hi, rfl⟩ := List.getElem?_eq_some_iff.mp h
  refine ⟨l.take i, l.drop (i + 1), ?_, ?_, fun b => ?_⟩
  · rw [List.getElem_cons_drop, List.take_append_drop]
  · rw [List.length_take, Nat.min_eq_left hi.le]
  · rw [List.set_eq_take_append_cons_drop, if_pos hi]

/-- The clients of a list of requests at one of its places. -/
theorem map_split {α : Type} (f : α → Client T) {l : List α} {i : ℕ} {a : α} (h : l[i]? = some a) :
    ∃ xs ys, l.map f = xs ++ f a :: ys ∧ xs.length = i ∧ ∀ b, (l.set i b).map f = xs ++ f b :: ys := by
  obtain ⟨xs, ys, hl, hi, hset⟩ := split_set h
  refine ⟨xs.map f, ys.map f, ?_, ?_, fun b => ?_⟩
  · rw [hl, List.map_append, List.map_cons]
  · rw [List.length_map, hi]
  · rw [hset, List.map_append, List.map_cons]

/-- A broadcast to the requests is a broadcast to their clients. -/
theorem map_notify {α : Type} {f : α → Client T} {g : α → α} (h : ∀ a, f (g a) = (f a).notify) (l : List α) :
    (l.map g).map f = (l.map f).map Waiter.notify := by
  rw [List.map_map, List.map_map]
  exact List.map_congr_left fun a _ => h a

/-- A request that its client does not show to have changed. -/
theorem map_set_same {α : Type} (f : α → Client T) {l : List α} {i : ℕ} {a b : α} (h : l[i]? = some a) (hf : f b = f a) :
    (l.set i b).map f = l.map f := by
  obtain ⟨xs, ys, hx, -, hset⟩ := map_split f h
  rw [hset, hf, hx]

/-- What stands at the other places. -/
theorem mem_sides {j : ℕ} (h : (xs ++ y :: ys)[j]? = some x) (hj : j ≠ xs.length) : x ∈ xs ∨ x ∈ ys := by
  rcases Nat.lt_or_gt_of_ne hj with hlt | hgt
  · rw [List.getElem?_append_left hlt] at h
    exact Or.inl (List.mem_of_getElem? h)
  · obtain ⟨k, rfl⟩ : ∃ k, j = xs.length + (k + 1) := ⟨j - xs.length - 1, by omega⟩
    rw [List.getElem?_append_right (by omega), Nat.add_sub_cancel_left, List.getElem?_cons_succ] at h
    exact Or.inr (List.mem_of_getElem? h)

/-- A list of clients of which one is replaced. -/
theorem forall_replace {P : Client T → Prop} (h : ∀ z ∈ xs ++ x :: ys, P z) (hy : P y) : ∀ z ∈ xs ++ y :: ys, P z := by
  intro z hz
  rcases List.mem_append.mp hz with hz | hz
  · exact h z (List.mem_append_left _ hz)
  · rcases List.mem_cons.mp hz with rfl | hz
    · exact hy
    · exact h z (List.mem_append_right _ (List.mem_cons_of_mem _ hz))

end

namespace Clients

section

variable {T F R : Type}

/-- The end of a turn at the lock: the flags are drained, and broadcasts are owed. -/
def unlock (s : Clients T F R) (m : EndpointController T F R) (owed : ℕ) (clients : List (Client T)) : Clients T F R :=
  { s with controller := { m with changes := ControllerChanges.none }, owed := s.owed + owed, clients }

/-- The dispatch flag is drained into a broadcast. -/
def Owes (m : EndpointController T F R) (owed : ℕ) : Prop := m.changes.dispatch = true → 0 < owed

theorem owes_flag (m : EndpointController T F R) : Owes m m.changes.dispatch.toNat := by
  intro h
  rw [h]
  exact Nat.one_pos

end

variable {T F R : Type} [AddCommMonoid T] [LinearOrder T] [Sub T] [Time T] [F64 F] [Secs T F] [Rng R F]

/-- One step of the system. -/
inductive Step (s : Clients T F R) : Event T F R → Clients T F R → Prop
  /-- A step that the controller and the dispatch waits do not see. -/
  | stay : Step s .silent s
  | tick {now : T} : s.clock ≤ now → Step s .silent { s with clock := now }
  | broadcast {owed : ℕ} : s.owed = owed + 1 →
      Step s .silent { s with owed, clients := s.clients.map Waiter.notify }
  /-- A task enables its listener, or leaves its wait. -/
  | move {xs ys : List (Client T)} {x : Client T} {wait : Wait (Option T)} : s.clients = xs ++ x :: ys →
      wait = .away ∨ wait = .enabled false → Step s .silent { s with clients := xs ++ { x with wait } :: ys }
  /-- Calls that leave the queue as it is. -/
  | read {es : List (Entry T F R)} {m : EndpointController T F R} {owed : ℕ} {dropped : ControllerChanges} :
      Locked s.controller s.clock es m → (∀ e ∈ es, e.Inert) → Owes m owed → dropped.admission = false →
      (dropped.dispatch = true → 0 < owed) → Step s ⟨none, es, dropped⟩ (s.unlock m owed s.clients)
  /-- A new request. -/
  | accept {es : List (Entry T F R)} {e : Entry T F R} {m m' : EndpointController T F R} {owed : ℕ}
      {r : DispatchReservation} : Locked s.controller s.clock es m → (∀ e ∈ es, e.Inert) → Loadpace.Step m e m' →
      e.call.now? = some s.clock → e.issued? = some r → Owes m' owed →
      Step s ⟨some s.clients.length, es ++ [e], .none⟩ (s.unlock m' owed (s.clients ++ [⟨.queued r, .away⟩]))
  /-- A task with its listener enabled inspects its reservation, and drops the flags. -/
  | check {xs ys : List (Client T)} {r : DispatchReservation} {notified : Bool} {e : Entry T F R}
      {m : EndpointController T F R} {state : DispatchState T} : s.clients = xs ++ ⟨.queued r, .enabled notified⟩ :: ys →
      Loadpace.Step s.controller e m → e.call.check? = some (r, s.clock) → e.reply.state? = some state →
      Step s ⟨some xs.length, [e], m.changes⟩ (s.unlock m 0 (xs ++ ⟨.queued r, waitAfter notified state⟩ :: ys))
  /-- A dispatch that fails. -/
  | retry {xs ys : List (Client T)} {r : DispatchReservation} {wait : Wait (Option T)} {e : Entry T F R}
      {m : EndpointController T F R} {state : DispatchState T} {owed : ℕ} : s.clients = xs ++ ⟨.queued r, wait⟩ :: ys →
      Loadpace.Step s.controller e m → e.call.check? = some (r, s.clock) → e.reply.state? = some state → Owes m owed →
      Step s ⟨some xs.length, [e], .none⟩ (s.unlock m owed (xs ++ ⟨.queued r, .away⟩ :: ys))
  | dispatch {xs ys : List (Client T)} {r : DispatchReservation} {wait : Wait (Option T)} {e : Entry T F R}
      {m : EndpointController T F R} {q : InFlightRequest T} {owed : ℕ} : s.clients = xs ++ ⟨.queued r, wait⟩ :: ys →
      Loadpace.Step s.controller e m → e.call.now? = some s.clock → e.dispatched? = some (r, q) → Owes m owed →
      Step s ⟨some xs.length, [e], .none⟩ (s.unlock m owed (xs ++ ⟨.inflight q, .away⟩ :: ys))
  | release {xs ys : List (Client T)} {x : Client T} {completion : Completion} {e : Entry T F R}
      {m : EndpointController T F R} {owed : ℕ} : s.clients = xs ++ x :: ys → Loadpace.Step s.controller e m →
      x.purpose.release? completion s.clock = some e.call → Owes m owed →
      Step s ⟨some xs.length, [e], .none⟩ (s.unlock m owed (xs ++ ⟨.finished, .away⟩ :: ys))

/-- A step that replaces one request of a list by another. -/
theorem Step.placed {α : Type} {f : α → Client T} {l : List α} {i : ℕ} {a b : α} {s : Clients T F R}
    (ev : ℕ → Event T F R) (s' : Clients T F R) (hi : l[i]? = some a) (h : ∀ xs ys, l.map f = xs ++ f a :: ys →
      Step s (ev xs.length) { s' with clients := xs ++ f b :: ys }) :
    Step s (ev i) { s' with clients := (l.set i b).map f } := by
  obtain ⟨xs, ys, hx, rfl, hset⟩ := map_split f hi
  rw [hset]
  exact h xs ys hx

/-- A reservation that is refused after a read, under one lock. -/
theorem Step.refused {s : Clients T F R} {first e : Entry T F R} {m : EndpointController T F R} {error : ScheduleError}
    (hl : Locked s.controller s.clock [first] first.after) (hr : first.call.IsRead) (h : Loadpace.Step first.after e m)
    (hcall : e.call = .reserve s.clock) (hreply : e.reply = .reserved (.error error)) :
    Step s ⟨none, [first, e], .none⟩ (s.unlock m m.changes.dispatch.toNat s.clients) := by
  refine Step.read (hl.snoc h (by rw [hcall]; rfl)) ?_ (owes_flag _) rfl fun hf => by cases hf
  intro x hx
  rcases List.mem_cons.mp hx with rfl | hx
  · exact .read hr
  · rw [List.mem_singleton.mp hx]
    exact .refused hcall hreply

/-! ## The invariant -/

end Clients

section

variable {T F R : Type} [LinearOrder T]

/-- A task may sleep on unless its reservation is the queue head, and a queue head may sleep on while the inflight count is
at its bound, or until the instant at which it is to be checked again. -/
def EndpointController.MaySleep (c : EndpointController T F R) (hold : Hold T) (timer : Option T) : Prop :=
  ∀ r front rest, hold = .queued r → c.pending = front :: rest → front.id = r.id →
    c.config.maxInflight ≤ c.inflight ∨ ∃ t, timer = some t ∧ t ≤ c.recheckAt front.scheduledAt

/-- Calls that move nothing let every sleeper sleep on. -/
theorem MaySleep.unmoved {c m : EndpointController T F R} {hold : Hold T} {timer : Option T} (hu : Unmoved c m)
    (hin : ∀ r, hold = .queued r → r.id ∈ ids c.pending) (h : c.MaySleep hold timer) : EndpointController.MaySleep { m with changes := ControllerChanges.none } hold timer := by
  intro r front rest hr hp hid
  have hne : c.pending ≠ [] := by
    intro hc
    have hmem := hin r hr
    rw [hc] at hmem
    cases hmem
  have hplaces := hu.places
  rw [hp] at hplaces
  cases hc : c.pending with
  | nil => exact absurd hc hne
  | cons front' rest' =>
    -- the head is where it was
    rw [hc, List.map_cons, List.map_cons, List.cons_prefix_cons] at hplaces
    obtain ⟨hid', hslot⟩ := Prod.mk.inj hplaces.1
    show m.config.maxInflight ≤ m.inflight ∨ ∃ t, timer = some t ∧ t ≤ m.recheckAt front.scheduledAt
    rw [hu.inflight, hu.config]
    rcases h r front' rest' hr hc (hid'.trans hid) with hcap | ⟨t, ht, hle⟩
    · exact Or.inl hcap
    · refine Or.inr ⟨t, ht, hle.trans ?_⟩
      rw [hslot]
      exact recheckAt_le (hu.next hne) _

end

namespace Clients

variable {T F R : Type} [AddCommMonoid T] [LinearOrder T] [Sub T] [Time T] [F64 F] [Secs T F] [Rng R F]

/-- While the lock is free: no flag is up, each queued reservation and each request in flight has its guard, and no dispatch
wakeup is lost. -/
structure Inv (s : Clients T F R) : Prop where
  reached : ∃ c₀ tr, Fresh c₀ ∧ Run Loadpace.Step c₀ tr s.controller
  quiet : s.controller.changes = ControllerChanges.none
  own : ∀ x ∈ s.clients, x.purpose.Own s.controller.controllerId
  line : (tickets s.clients).Perm (ids s.controller.pending)
  work : inflights s.clients = s.controller.inflight
  covered : Covered s.controller.MaySleep s.owed s.clients

variable {s s' : Clients T F R} {ev : Event T F R} {es : List (Entry T F R)} {m : EndpointController T F R}

theorem Inv.ids_nodup (h : s.Inv) : (ids s.controller.pending).Nodup := by
  obtain ⟨c₀, tr, h0, hrun⟩ := h.reached
  rw [← ledger_ids]
  exact Tickets.waiting_nodup (run_tickets h0 hrun)

theorem Inv.apart (h : s.Inv) : s.controller.probe.Apart := by
  obtain ⟨c₀, tr, h0, hrun⟩ := h.reached
  exact run_apart h0 hrun

theorem Inv.in_line (h : s.Inv) {x : Client T} (hx : x ∈ s.clients) {r : DispatchReservation}
    (hr : x.purpose = .queued r) : r.id ∈ ids s.controller.pending := by
  refine h.line.subset (List.mem_filterMap.mpr ⟨x, hx, ?_⟩)
  rw [hr]
  rfl

theorem Inv.holds (h : s.Inv) {x : Client T} (hx : x ∈ s.clients) {r : DispatchReservation}
    (hr : x.purpose = .queued r) : s.controller.Holds r := by
  have hown := h.own x hx
  rw [hr] at hown
  exact ⟨hown, h.in_line hx hr⟩

/-- After a turn every sleeper may sleep on, or a broadcast is owed. -/
theorem Inv.turn (h : s.Inv) {owed : ℕ} (hl : Locked s.controller s.clock es m) (ho : Owes m owed) :
    Covered (EndpointController.MaySleep { m with changes := ControllerChanges.none }) (s.owed + owed) s.clients := by
  refine h.covered.change (Nat.le_add_right _ _) fun x hx timer _ hsleep => ?_
  rcases (hl.wakes h.apart).unmoved with hd | hu
  · exact Or.inl (Nat.lt_of_lt_of_le (ho hd) (Nat.le_add_left _ _))
  · exact Or.inr (MaySleep.unmoved hu (fun r hr => h.in_line hx hr) hsleep)

/-- A turn that makes room raises the admission flag. -/
theorem Inv.full (h : s.Inv) (hl : Locked s.controller s.clock es m) (hfull : s.controller.maySchedule = false) :
    m.changes.admission = true ∨ m.maySchedule = false := by
  cases hm : m.maySchedule with
  | false => exact Or.inr rfl
  | true => exact Or.inl ((hl.wakes h.apart).room hfull hm)

/-- A reservation that is not drained finds no flag and raises none. -/
theorem Inv.reserve (h : s.Inv) {e : Entry T F R} (hstep : Loadpace.Step s.controller e m)
    (hc : e.call = .reserve s.clock) : { m with changes := .none } = m ∧ Owes m 0 := by
  have hquiet : m.changes = ControllerChanges.none := (hstep.reserve_changes hc).trans h.quiet
  constructor
  · rw [← hquiet]
  · intro hf
    rw [hquiet] at hf
    cases hf

/-- The end of a turn. -/
theorem Inv.unlock (h : s.Inv) {owed : ℕ} {clients : List (Client T)} (hl : Locked s.controller s.clock es m)
    (hown : ∀ x ∈ clients, x.purpose.Own s.controller.controllerId)
    (hline : (tickets clients).Perm (ids m.pending)) (hwork : inflights clients = m.inflight)
    (hcov : Covered (EndpointController.MaySleep { m with changes := ControllerChanges.none }) (s.owed + owed) clients) :
    (s.unlock m owed clients).Inv := by
  obtain ⟨c₀, tr, h0, hrun⟩ := h.reached
  have hdrain : Loadpace.Step m
      { call := .takeChanges, reply := .changes m.changes, before := m, after := m.takeChanges.2 } m.takeChanges.2 :=
    ⟨rfl, rfl, rfl⟩
  refine ⟨⟨c₀, _, h0, (hrun.append hl.run).snoc hdrain⟩, rfl, fun x hx => ?_, hline, hwork, hcov⟩
  have hid : m.controllerId = s.controller.controllerId := (run_fixed hl.run).1
  exact hid.symm ▸ hown x hx

/-- A check of one reservation lets every other sleeper sleep on, and its own task is right to fall asleep. -/
theorem check_maySleep {c m : EndpointController T F R} {e : Entry T F R} {r : DispatchReservation} {now : T}
    {state : DispatchState T} (h : Loadpace.Step c e m) (hc : e.call.check? = some (r, now))
    (hs : e.reply.state? = some state) :
    (∀ hold timer, (∀ r', hold = .queued r' → r'.id ≠ r.id) → c.MaySleep hold timer → m.MaySleep hold timer) ∧
    ∀ notified timer, waitAfter notified state = .asleep false timer → m.MaySleep (.queued r) timer := by
  rcases dispatchState_cases (h.check_state hc hs) with ⟨-, rfl, rfl⟩ | ⟨hh, hnot, rfl, rfl⟩ |
    ⟨-, m', front, rest, -, hp, hid, hch⟩
  · exact ⟨fun _ _ _ hsleep => hsleep, fun notified timer hw => by cases hw⟩
  · refine ⟨fun _ _ _ hsleep => hsleep, fun notified timer hw r' front rest hr hp hid => ?_⟩
    cases hr
    refine absurd ⟨hh.1, ?_⟩ hnot
    rw [hp]
    exact congrArg some hid
  · -- the queue head; every other task may sleep
    have hothers {m : EndpointController T F R} {front' : PendingReservation T} {rest' : List (PendingReservation T)}
        (hp' : m.pending = front' :: rest') (hid' : front'.id = r.id) (hold : Hold T) (timer : Option T)
        (hne : ∀ r', hold = .queued r' → r'.id ≠ r.id) : m.MaySleep hold timer := by
      intro r' front'' rest'' hr hp'' hid''
      rw [hp'] at hp''
      obtain ⟨rfl, -⟩ := List.cons.inj hp''
      exact absurd (hid''.symm.trans hid') (hne r' hr)
    cases hch with
    | inflightLimit hcap =>
      exact ⟨fun hold timer hne _ => hothers hp hid hold timer hne, fun _ _ _ _ _ _ _ _ _ => Or.inl hcap⟩
    | waitUntil _ _ =>
      have hwaited : (m'.waited front rest).pending = { front with wasPaced := true } :: rest := rfl
      refine ⟨fun hold timer hne _ => hothers hwaited hid hold timer hne, fun notified timer hw r' front' rest' _ hp' _ => ?_⟩
      have htimer : some ((m'.waited front rest).recheckAt front.scheduledAt) = timer := (Wait.asleep.inj hw).2
      obtain ⟨rfl, -⟩ := List.cons.inj hp'
      exact Or.inr ⟨_, htimer.symm, le_rfl⟩
    | ready _ _ => exact ⟨fun hold timer hne _ => hothers hp hid hold timer hne, fun _ _ hw => by cases hw⟩

/-- No two requests hold one reservation. -/
theorem Inv.distinct (h : s.Inv) {xs ys : List (Client T)} {r : DispatchReservation} {wait : Wait (Option T)}
    (hx : s.clients = xs ++ ⟨.queued r, wait⟩ :: ys) {y : Client T} (hy : y ∈ xs ∨ y ∈ ys) {r' : DispatchReservation}
    (hr : y.purpose = .queued r') : r'.id ≠ r.id := by
  have hnodup : (tickets s.clients).Nodup := h.line.nodup_iff.mpr h.ids_nodup
  rw [hx, tickets_split] at hnodup
  have hmem (zs : List (Client T)) (hz : y ∈ zs) : r'.id ∈ tickets zs :=
    List.mem_filterMap.mpr ⟨y, hz, by rw [hr]; rfl⟩
  intro heq
  rcases hy with hy | hy
  · refine List.disjoint_of_nodup_append hnodup (hmem xs hy) ?_
    rw [heq]
    exact List.mem_append_left _ List.mem_cons_self
  · have hlast := hnodup.of_append_right
    exact List.disjoint_of_nodup_append hlast (heq ▸ List.mem_cons_self) (hmem ys hy)

/-- **One step keeps the invariant.** -/
theorem Step.inv (h : Step s ev s') (hi : s.Inv) : s'.Inv := by
  have hown := hi.own
  have hline := hi.line
  have hwork := hi.work
  cases h with
  | stay => exact hi
  | tick hle => exact ⟨hi.reached, hi.quiet, hown, hline, hwork, hi.covered⟩
  | broadcast ho =>
    refine ⟨hi.reached, hi.quiet, fun x hx => ?_, ?_, ?_, covered_notify⟩
    · obtain ⟨y, hy, rfl⟩ := List.mem_map.mp hx
      exact hown y hy
    · exact tickets_notify.symm ▸ hline
    · exact inflights_notify.trans hwork
  | @move xs ys x wait hx hw =>
    have hcov := hi.covered
    rw [hx] at hown hline hwork hcov
    rw [tickets_split] at hline
    rw [inflights_split] at hwork
    refine ⟨hi.reached, hi.quiet, forall_replace hown (hown x (List.mem_append_right _ List.mem_cons_self)), ?_, ?_,
      hcov.replace fun timer hdeaf => ?_⟩
    · exact tickets_split.symm ▸ hline
    · exact inflights_split.trans hwork
    · rcases hw with rfl | rfl
      · cases hdeaf
      · cases hdeaf
  | read hl hes ho hadm hdrop =>
    obtain ⟨hids, hinflight⟩ := hl.inert hes
    exact hi.unlock hl hown (hids ▸ hline) (hwork.trans hinflight.symm) (hi.turn hl ho)
  | @accept es e m m' owed r hl hes he hnow hr ho =>
    obtain ⟨hids, hinflight⟩ := hl.inert hes
    obtain ⟨hid, hids', hinflight'⟩ := he.issued hr
    have hl' := hl.snoc he hnow
    refine hi.unlock hl' (fun x hx => ?_) ?_ ?_ ((hi.turn hl' ho).join fun timer hdeaf => by cases hdeaf)
    · rcases List.mem_append.mp hx with hx | hx
      · exact hown x hx
      · obtain rfl := List.mem_singleton.mp hx
        exact hid.trans (run_fixed hl.run).1
    · rw [hids', hids, tickets_split]
      exact hline.append_right [r.id]
    · rw [hinflight', hinflight, inflights_split, List.append_nil]
      exact hwork
  | @check xs ys r notified e m state hx he hc hs =>
    have hl : Locked s.controller s.clock [e] m := .single he (Call.now_of_check hc)
    obtain ⟨hids, hinflight⟩ := he.checked hc hs
    obtain ⟨hothers, hself⟩ := check_maySleep he hc hs
    have hcov := hi.covered
    rw [hx] at hown hline hwork hcov
    rw [tickets_split] at hline
    rw [inflights_split] at hwork
    refine hi.unlock hl (forall_replace hown (hown ⟨.queued r, .enabled notified⟩ ?_)) ?_ ?_ ?_
    · exact List.mem_append_right _ List.mem_cons_self
    · rw [hids, tickets_split]
      exact hline
    · rw [hinflight, inflights_split]
      exact hwork
    · -- the others sleep on, and the task itself is right to fall asleep
      intro z hz timer hdeaf
      have hother (hmem : z ∈ xs ∨ z ∈ ys) : 0 < s.owed + 0 ∨ EndpointController.MaySleep
          { m with changes := ControllerChanges.none } z.purpose timer := by
        have hz' : z ∈ xs ++ (⟨.queued r, .enabled notified⟩ : Client T) :: ys := by
          rcases hmem with hmem | hmem
          · exact List.mem_append_left _ hmem
          · exact List.mem_append_right _ (List.mem_cons_of_mem _ hmem)
        refine (hcov z hz' timer hdeaf).imp_right fun hsleep => ?_
        exact hothers z.purpose timer (fun r' hr' => hi.distinct hx hmem hr') hsleep
      rcases List.mem_append.mp hz with hz | hz
      · exact hother (Or.inl hz)
      · rcases List.mem_cons.mp hz with rfl | hz
        · exact Or.inr (hself notified timer hdeaf)
        · exact hother (Or.inr hz)
  | @retry xs ys r wait e m state owed hx he hc hs ho =>
    have hl : Locked s.controller s.clock [e] m := .single he (Call.now_of_check hc)
    obtain ⟨hids, hinflight⟩ := he.checked hc hs
    have hcov := hi.turn hl ho
    rw [hx] at hown hline hwork hcov
    rw [tickets_split] at hline
    rw [inflights_split] at hwork
    refine hi.unlock hl (forall_replace hown (hown ⟨.queued r, wait⟩ ?_)) ?_ ?_ (hcov.replace fun _ hd => by cases hd)
    · exact List.mem_append_right _ List.mem_cons_self
    · rw [hids, tickets_split]
      exact hline
    · rw [hinflight, inflights_split]
      exact hwork
  | @dispatch xs ys r wait e m q owed hx he hnow hd ho =>
    have hl : Locked s.controller s.clock [e] m := .single he hnow
    obtain ⟨-, hq, hids, hinflight⟩ := he.dispatched hd
    have hcov := hi.turn hl ho
    rw [hx] at hown hline hwork hcov
    rw [tickets_split, hids] at hline
    rw [inflights_split] at hwork
    refine hi.unlock hl (forall_replace hown hq) ?_ ?_ (hcov.replace fun _ hd => by cases hd)
    · rw [tickets_split]
      exact (List.perm_middle.symm.trans hline).cons_inv
    · rw [inflights_split, hinflight, ← hwork]
      rfl
  | @release xs ys x completion e m owed hx he hrel ho =>
    have hmem : x ∈ s.clients := hx ▸ List.mem_append_right _ List.mem_cons_self
    have hl : Locked s.controller s.clock [e] m := .single he (Hold.now_of_release hrel)
    have hcov := (hi.turn hl ho)
    have hxown := hown x hmem
    rw [hx] at hown hline hwork hcov
    rw [tickets_split] at hline
    rw [inflights_split] at hwork
    cases hp : x.purpose with
    | queued r =>
      have hcall : e.call = .cancel r s.clock := by rw [hp] at hrel; exact (Option.some.inj hrel).symm
      obtain ⟨-, hids, hinflight, -, -⟩ := he.cancelled hcall (hi.holds hmem hp)
      rw [hp] at hline hwork
      refine hi.unlock hl (forall_replace hown trivial) ?_ ?_ (hcov.replace fun _ hd => by cases hd)
      · rw [tickets_split, hids]
        exact (List.cons_perm_iff_perm_erase.mp (List.perm_middle.symm.trans hline)).2
      · rw [inflights_split, hinflight]
        exact hwork
    | inflight q =>
      have hcall : e.call = .finish q completion s.clock := by rw [hp] at hrel; exact (Option.some.inj hrel).symm
      rw [hp] at hxown hline hwork
      obtain ⟨-, hids, hinflight⟩ := he.finished hcall hxown
      refine hi.unlock hl (forall_replace hown trivial) ?_ ?_ (hcov.replace fun _ hd => by cases hd)
      · rw [tickets_split, hids]
        exact hline
      · rw [inflights_split, hinflight, ← hwork]
        rfl
    | finished =>
      rw [hp] at hrel
      cases hrel

/-- Clients that hold nothing leave nothing with the controller. -/
theorem Inv.empty (h : s.Inv) (hall : ∀ x ∈ s.clients, x.purpose = .finished) :
    s.controller.pending = [] ∧ s.controller.inflight = 0 := by
  have htickets : tickets s.clients = [] := by
    refine List.filterMap_eq_nil_iff.mpr fun x hx => ?_
    rw [hall x hx]
    rfl
  have hinflights : inflights s.clients = 0 := by
    refine List.countP_eq_zero.mpr fun x hx => ?_
    rw [hall x hx]
    exact Bool.false_ne_true
  have hline := h.line
  rw [htickets] at hline
  exact ⟨List.map_eq_nil_iff.mp (List.nil_perm.mp hline), h.work.symm.trans hinflights⟩

/-! ## The flags that a check drops -/

/-- The flags that a step drops are of no use to any task but its own: the admission flag is not among them, and the
dispatch flag only when it is broadcast in any case, or when no other request is the queue head. -/
structure Spares (ev : Event T F R) (s' : Clients T F R) : Prop where
  admission : ev.dropped.admission = false
  dispatch : ev.dropped.dispatch = true → 0 < s'.owed ∨ ∀ j x r front rest, ev.who ≠ some j → s'.clients[j]? = some x →
    x.purpose = .queued r → s'.controller.pending = front :: rest → front.id ≠ r.id

omit [AddCommMonoid T] [LinearOrder T] [Sub T] [Time T] [F64 F] [Secs T F] [Rng R F] in
theorem Spares.none {s' : Clients T F R} (h : ev.dropped = ControllerChanges.none) : Spares ev s' := by
  constructor
  · rw [h]
    rfl
  · intro hd
    rw [h] at hd
    cases hd

/-- **No step drops a flag that another task needs.** -/
theorem Step.spares (h : Clients.Step s ev s') (hi : s.Inv) : Spares ev s' := by
  cases h with
  | read _ _ _ hadmission hdispatch =>
    exact ⟨hadmission, fun hd => Or.inl (Nat.lt_of_lt_of_le (hdispatch hd) (Nat.le_add_left _ _))⟩
  | @check xs ys r notified e m state hx he hc hs =>
    have hquiet := hi.quiet
    rcases dispatchState_cases (he.check_state hc hs) with ⟨-, -, rfl⟩ | ⟨-, -, -, rfl⟩ |
      ⟨-, m', front, rest, hm, hp, hid, hch⟩
    · exact .none hquiet
    · exact .none hquiet
    · obtain ⟨hadm, -⟩ := refresh_changes hi.apart hm
      -- the request of the check stays the queue head
      obtain ⟨hsame, front', rest', hp', hid'⟩ : m.changes = m'.changes ∧ ∃ front' rest', m.pending = front' :: rest' ∧
          front'.id = r.id := by
        cases hch with
        | inflightLimit _ => exact ⟨rfl, front, rest, hp, hid⟩
        | waitUntil _ _ => exact ⟨rfl, _, rest, rfl, hid⟩
        | ready _ _ => exact ⟨rfl, front, rest, hp, hid⟩
      constructor
      · show m.changes.admission = false
        rw [hsame, hadm, hquiet]
        rfl
      · intro _
        right
        intro j x r' front'' rest'' hj hget hr hp''
        have hmem : x ∈ xs ∨ x ∈ ys := mem_sides hget fun hn => hj (congrArg some hn.symm)
        have hp'' : m.pending = front'' :: rest'' := hp''
        rw [hp'] at hp''
        obtain ⟨rfl, -⟩ := List.cons.inj hp''
        rw [hid']
        exact (hi.distinct hx hmem hr).symm
  | _ => exact .none rfl

/-! ## The order of acceptance -/

/-- The requests hold their reservations in the order in which they were accepted. -/
def Lined (s : Clients T F R) : Prop := (tickets s.clients).Pairwise (· < ·)

/-- The queue is in the order of issue. -/
theorem sorted_of_run {c₀ c : EndpointController T F R} {tr : List (Entry T F R)} (h0 : Fresh c₀)
    (h : Run Loadpace.Step c₀ tr c) : (ids c.pending).Pairwise (· < ·) := by
  rw [← ledger_ids, show c.ledger.ids = c.ledger.line.waiting from rfl, Tickets.waiting_eq (run_tickets h0 h)]
  exact List.pairwise_lt_range.filter _

theorem Inv.sorted (h : s.Inv) : (ids s.controller.pending).Pairwise (· < ·) := by
  obtain ⟨c₀, tr, h0, hrun⟩ := h.reached
  exact sorted_of_run h0 hrun

/-- **One step keeps the order.** -/
theorem Step.lined (h : Clients.Step s ev s') (hi : s.Inv) (hl : s.Lined) : s'.Lined := by
  have replaced {xs ys : List (Client T)} {x y : Client T} (hx : s.clients = xs ++ x :: ys)
      (hy : y.purpose.ticket? = x.purpose.ticket? ∨ y.purpose.ticket? = none) :
      (tickets (xs ++ y :: ys)).Pairwise (· < ·) := by
    refine List.Pairwise.sublist ?_ hl
    rw [hx, tickets_split, tickets_split]
    rcases hy with hy | hy
    · rw [hy]
    · rw [hy]
      exact (List.Sublist.refl _).append (List.sublist_append_right ..)
  cases h with
  | stay => exact hl
  | tick _ => exact hl
  | broadcast _ => exact (congrArg (List.Pairwise (· < ·)) tickets_notify).mpr hl
  | move hx _ => exact replaced hx (Or.inl rfl)
  | read _ _ _ _ _ => exact hl
  | @accept es e m m' owed r hlocked hes he hnow hr _ =>
    obtain ⟨c₀, tr, h0, hrun⟩ := hi.reached
    obtain ⟨-, hids, -⟩ := he.issued hr
    -- the new ticket stands last in the queue
    have hsorted := sorted_of_run h0 ((hrun.append hlocked.run).snoc he)
    rw [hids, (hlocked.inert hes).ids] at hsorted
    have hlast := (List.pairwise_append.mp hsorted).2.2
    show (tickets (s.clients ++ [⟨.queued r, .away⟩])).Pairwise (· < ·)
    rw [tickets_split]
    refine List.pairwise_append.mpr ⟨hl, List.pairwise_singleton _ _, fun a ha b hb => ?_⟩
    exact hlast a (hi.line.subset ha) b hb
  | check hx _ _ _ => exact replaced hx (Or.inl rfl)
  | retry hx _ _ _ _ => exact replaced hx (Or.inl rfl)
  | dispatch hx _ _ _ _ => exact replaced hx (Or.inr rfl)
  | release hx _ _ _ => exact replaced hx (Or.inr rfl)

/-- The request at the head of the queue was accepted before the others that are queued. -/
theorem Lined.head (h : s.Lined) (hi : s.Inv) {i j : ℕ} {x y : Client T} {r r' : DispatchReservation} {rest : List ℕ}
    (hx : s.clients[i]? = some x) (hr : x.purpose = .queued r) (hy : s.clients[j]? = some y) (hr' : y.purpose = .queued r')
    (hhead : ids s.controller.pending = r.id :: rest) (hne : j ≠ i) : i < j := by
  rcases Nat.lt_trichotomy j i with hlt | heq | hgt
  · obtain ⟨hi', hx⟩ := List.getElem?_eq_some_iff.mp hx
    obtain ⟨hj', hy⟩ := List.getElem?_eq_some_iff.mp hy
    have hids : r'.id < r.id := by
      refine List.pairwise_iff_getElem.mp (List.pairwise_filterMap.mp h) j i hj' hi' hlt _ ?_ _ ?_
      · rw [hy, hr']
        rfl
      · rw [hx, hr]
        rfl
    have hmem := hi.in_line (List.mem_of_getElem? (List.getElem?_eq_some_iff.mpr ⟨hj', hy⟩)) hr'
    have hsorted := hi.sorted
    rw [hhead] at hmem hsorted
    rcases List.mem_cons.mp hmem with heq | hmem
    · exact absurd heq hids.ne
    · exact absurd (List.rel_of_pairwise_cons hsorted hmem) (Nat.not_lt.mpr hids.le)
  · exact absurd heq hne
  · exact hgt

end Clients

end Loadpace
