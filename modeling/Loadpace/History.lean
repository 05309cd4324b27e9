import Loadpace.Ledger
import Loadpace.Lib.Tickets

/-!
# Histories

An `Entry` records one call with its reply and the controller before and after it; `Step` is one call on one controller.
A run of `Step` is a run of one controller, and a run of `familyStep Step` is a run of any number of them. Its
history tells which reservations were issued, cancelled and dispatched, and which requests were issued and released.
-/

namespace Loadpace

open Systems

structure Entry (T F R : Type) where
  call : Call T
  reply : Reply T F
  before : EndpointController T F R
  after : EndpointController T F R

section

variable {T F R : Type} [AddCommMonoid T] [LinearOrder T] [Sub T] [Time T] [F64 F] [Secs T F] [Rng R F]

/-- One call on a controller. -/
def Step (c : EndpointController T F R) (e : Entry T F R) (c' : EndpointController T F R) : Prop :=
  e.before = c ∧ e.after = c' ∧ c.exec e.call = some (e.reply, c')

/-- One call on a controller whose clock does not move back. -/
def TimedStep : EndpointController T F R × T → Entry T F R → EndpointController T F R × T → Prop :=
  timedStep (fun e => e.call.now?) Step

/-- A timed step is a call at an instant the clock has not passed, or takes the changes. -/
theorem TimedStep.cases {s s' : EndpointController T F R × T} {e : Entry T F R} (h : TimedStep s e s') :
    Step s.1 e s'.1 ∧ ((∃ now, e.call.now? = some now ∧ s.2 ≤ now ∧ s'.2 = now) ∨
      (e.call = .takeChanges ∧ s'.1 = { s.1 with changes := ControllerChanges.none } ∧ s'.2 = s.2)) := by
  obtain ⟨hstep, htime⟩ := h
  refine ⟨hstep, ?_⟩
  have hx := hstep.2.2
  cases hc : e.call with
  | takeChanges =>
    simp only [hc, Call.now?] at htime
    rw [hc] at hx
    have heq : s.1.takeChanges.2 = s'.1 := congrArg Prod.snd (Option.some.inj hx)
    exact Or.inr ⟨rfl, heq.symm, htime⟩
  | _ =>
    simp only [hc, Call.now?] at htime
    exact Or.inl ⟨_, rfl, htime⟩

/-- Runs the calls in order. -/
def play (c : EndpointController T F R) : List (Call T) → Option (List (Entry T F R) × EndpointController T F R)
  | [] => some ([], c)
  | call :: rest => do
    let (reply, m) ← c.exec call
    let (tr, c') ← play m rest
    some ({ call, reply, before := c, after := m } :: tr, c')

theorem play_run {c c' : EndpointController T F R} {calls : List (Call T)} {tr : List (Entry T F R)}
    (h : play c calls = some (tr, c')) : Run Step c tr c' := by
  induction calls generalizing c tr with
  | nil => cases h; exact .nil
  | cons call rest ih =>
    simp only [play, Option.bind_eq_bind, Option.bind_eq_some_iff] at h
    obtain ⟨⟨reply, m⟩, he, ⟨tr', m'⟩, hr, h⟩ := h
    cases h
    exact .cons ⟨rfl, rfl, he⟩ (ih hr)

/-- The clock after the calls. -/
def clockAfter (clock : T) (calls : List (Call T)) : T := calls.foldl (fun clock call => call.now?.getD clock) clock

/-- No call moves the clock back. -/
def Ordered (clock : T) : List (Call T) → Prop
  | [] => True
  | call :: rest => clock ≤ call.now?.getD clock ∧ Ordered (call.now?.getD clock) rest

instance Ordered.decidable (clock : T) : (calls : List (Call T)) → Decidable (Ordered clock calls)
  | [] => inferInstanceAs (Decidable True)
  | _ :: rest => @instDecidableAnd _ _ _ (Ordered.decidable _ rest)

theorem play_timed {c c' : EndpointController T F R} {calls : List (Call T)} {tr : List (Entry T F R)} {clock : T}
    (h : play c calls = some (tr, c')) (ho : Ordered clock calls) :
    Run TimedStep (c, clock) tr (c', clockAfter clock calls) := by
  induction calls generalizing c tr clock with
  | nil => cases h; exact .nil
  | cons call rest ih =>
    simp only [play, Option.bind_eq_bind, Option.bind_eq_some_iff] at h
    obtain ⟨⟨reply, m⟩, he, ⟨tr', m'⟩, hr, h⟩ := h
    cases h
    refine .cons (s := (m, call.now?.getD clock)) ⟨⟨rfl, rfl, he⟩, ?_⟩ (ih hr ho.2)
    have hle := ho.1
    cases hn : call.now? with
    | none => simp only [hn]; rfl
    | some now => rw [hn] at hle; simp only [hn]; exact ⟨hle, rfl⟩

/-- Runs the calls in order, each on its own controller. -/
def playFleet {ι : Type} [DecidableEq ι] (cs : ι → EndpointController T F R) :
    List (ι × Call T) → Option (List (ι × Entry T F R) × (ι → EndpointController T F R))
  | [] => some ([], cs)
  | (i, call) :: rest => do
    let (reply, m) ← (cs i).exec call
    let (tr, cs') ← playFleet (Function.update cs i m) rest
    some ((i, { call, reply, before := cs i, after := m }) :: tr, cs')

theorem playFleet_run {ι : Type} [DecidableEq ι] {cs cs' : ι → EndpointController T F R} {calls : List (ι × Call T)}
    {tr : List (ι × Entry T F R)} (h : playFleet cs calls = some (tr, cs')) : Run (familyStep Step) cs tr cs' := by
  induction calls generalizing cs tr with
  | nil => cases h; exact .nil
  | cons call rest ih =>
    simp only [playFleet, Option.bind_eq_bind, Option.bind_eq_some_iff] at h
    obtain ⟨⟨reply, m⟩, he, ⟨tr', m'⟩, hr, h⟩ := h
    cases h
    have hu : Function.update cs call.1 m call.1 = m := Function.update_self ..
    exact .cons ⟨⟨rfl, hu.symm, by rw [hu]; exact he⟩, fun j hj => Function.update_of_ne hj ..⟩ (ih hr)

theorem Step.ledger {c c' : EndpointController T F R} {e : Entry T F R} (h : Step c e c') :
    LedgerStep c.ledger e.call e.reply c'.ledger := EndpointController.exec_ledger h.2.2

end

/-! ## What a history says -/

section

variable {T F R : Type}

namespace Entry

/-- The reservation that the call issued. -/
def issued? (e : Entry T F R) : Option DispatchReservation :=
  match e.call, e.reply with
  | .reserve _, .reserved (.ok r) => some r
  | _, _ => none

/-- The reservation that the call cancelled. -/
def cancelled? (e : Entry T F R) : Option DispatchReservation :=
  match e.call, e.reply with
  | .cancel r _, .cancelled true => some r
  | _, _ => none

/-- The reservation that the call dispatched, and its request. -/
def dispatched? (e : Entry T F R) : Option (DispatchReservation × InFlightRequest T) := dispatchedOf e.call e.reply

/-- The reservation that the call resolved. -/
def resolved? (e : Entry T F R) : Option DispatchReservation := e.cancelled? <|> e.dispatched?.map Prod.fst

end Entry

def issued (tr : List (Entry T F R)) : List DispatchReservation := tr.filterMap Entry.issued?

def cancelled (tr : List (Entry T F R)) : List DispatchReservation := tr.filterMap Entry.cancelled?

def dispatched (tr : List (Entry T F R)) : List DispatchReservation :=
  tr.filterMap fun e => e.dispatched?.map Prod.fst

def resolved (tr : List (Entry T F R)) : List DispatchReservation := tr.filterMap Entry.resolved?

theorem mem_resolved {tr : List (Entry T F R)} {r : DispatchReservation} :
    r ∈ resolved tr ↔ r ∈ cancelled tr ∨ r ∈ dispatched tr := by
  simp only [resolved, cancelled, dispatched, List.mem_filterMap, ← exists_or, ← and_or_left]
  refine exists_congr fun e => and_congr_right fun _ => ?_
  unfold Entry.resolved? Entry.cancelled? Entry.dispatched? dispatchedOf
  cases e.call <;> cases e.reply <;> simp

theorem own_of_resolved {e : Entry T F R} {r : DispatchReservation} (hr : e.resolved? = some r) :
    e.issued? = some r ∨ e.cancelled? = some r ∨ e.dispatched?.map Prod.fst = some r := by
  unfold Entry.resolved? at hr
  cases hc : e.cancelled? with
  | some r' => rw [hc] at hr; exact Or.inr (Or.inl hr)
  | none => rw [hc] at hr; exact Or.inr (Or.inr hr)

end

/-! ## The queue is a line of tickets -/

section

variable {T F R : Type}

/-- What happens to the queue. -/
def ticketOf : Call T → Reply T F → Option Tickets.Event
  | .reserve _, .reserved (.ok r) => some (.issue r.id)
  | .cancel r _, .cancelled true => some (.withdraw r.id)
  | .onDispatched r _, .dispatched (.ok _) => some (.serve r.id)
  | _, _ => none

def Entry.ticket? (e : Entry T F R) : Option Tickets.Event := ticketOf e.call e.reply

theorem ticketOf_state {call : Call T} {reply : Reply T F} {s : DispatchState T} (h : reply.state? = some s) :
    ticketOf call reply = none := by
  cases call <;> cases reply <;> simp_all [ticketOf, Reply.state?]
  split at h <;> simp_all

theorem ticketOf_finished (call : Call T) (b : Bool) : ticketOf call (.finished b : Reply T F) = none := by
  cases call <;> rfl

theorem ticketOf_read {call : Call T} {reply : Reply T F} (h : call.IsRead) : ticketOf call reply = none := by
  cases call <;> first | rfl | exact h.elim

/-- The identities of the reservations in a history are those of its tickets. -/
theorem Entry.ids_ticket (e : Entry T F R) :
    e.issued?.map DispatchReservation.id = e.ticket?.bind Tickets.Event.issued? ∧
    e.resolved?.map DispatchReservation.id = e.ticket?.bind Tickets.Event.gone? ∧
    (e.dispatched?.map Prod.fst).map DispatchReservation.id = e.ticket?.bind Tickets.Event.served? := by
  unfold issued? resolved? cancelled? dispatched? dispatchedOf ticket?
  cases hc : e.call <;> cases hr : e.reply <;> try exact ⟨rfl, rfl, rfl⟩
  · rename_i res
    cases res <;> exact ⟨rfl, rfl, rfl⟩
  · rename_i removed
    cases removed <;> exact ⟨rfl, rfl, rfl⟩
  · rename_i res
    cases res <;> exact ⟨rfl, rfl, rfl⟩

/-- The tickets of a ledger's queue. -/
def Ledger.line (l : Ledger T F) : Tickets.Line := { next := l.nextId, waiting := l.ids }

/-- The reservation of a ticket. -/
def token (controllerId id : ℕ) : DispatchReservation := { controllerId, id }

variable [AddCommMonoid T] [LinearOrder T] [Sub T] [Time T] [F64 F] [Secs T F]

theorem Ledger.line_release (l : Ledger T F) (q : InFlightRequest T) (latency now : T) (completion : Completion) :
    (l.release q latency now completion).line = l.line := by
  cases completion <;> rfl

/-- No call changes the identity or the configuration. -/
theorem LedgerStep.fixed {l l' : Ledger T F} {call : Call T} {reply : Reply T F} (h : LedgerStep l call reply l') :
    l'.controllerId = l.controllerId ∧ l'.config = l.config := by
  cases h with
  | finished => rename_i completion _ _ _ _ _; cases completion <;> exact ⟨rfl, rfl⟩
  | _ => exact ⟨rfl, rfl⟩

/-- The queue moves as a line of tickets. -/
theorem LedgerStep.line {l l' : Ledger T F} {call : Call T} {reply : Reply T F} (h : LedgerStep l call reply l') :
    match ticketOf call reply with
    | none => l'.line = l.line
    | some t => Tickets.Step l.line t l'.line := by
  cases h with
  | reserved _ _ =>
    have hi : (l.entries ++ [(l.nextId, false)]).map Prod.fst = l.ids ++ [l.nextId] := by simp [Ledger.ids]
    simp only [ticketOf, Ledger.line, Ledger.ids, hi]
    exact .issue _ _
  | cancelled hh =>
    rename_i r now
    have hi : (l.entries.eraseP fun e => e.1 = r.id).map Prod.fst = l.ids.erase r.id := by
      have hp : (fun e : ℕ × Bool => decide (e.1 = r.id)) = (fun x => r.id == x) ∘ Prod.fst := by
        funext e
        by_cases he : e.1 = r.id
        · simp [he]
        · simp [he, Ne.symm he]
      rw [List.erase_eq_eraseP, Ledger.ids, List.eraseP_map, hp]
    simp only [ticketOf, Ledger.line, Ledger.ids, hi]
    exact .withdraw _ _ _ hh.2
  | dispatched hc he _ =>
    simp only [ticketOf, Ledger.line, Ledger.ids, Ledger.dispatch, he, List.map_cons]
    exact .serve _ _ _
  | unknown _ hs _ | waitForPrevious _ hs _ _ | inflightLimit _ hs _ _ => rw [ticketOf_state hs]
  | waitUntil _ hs _ he _ =>
    rw [ticketOf_state hs]
    simp only [Ledger.line, Ledger.ids, he, List.map_cons]
  | finished _ _ _ => rw [ticketOf_finished]; exact Ledger.line_release ..
  | foreign _ _ => rw [ticketOf_finished]
  | read hr => rw [ticketOf_read hr]
  | _ => rfl

end

section

variable {T F R : Type} [AddCommMonoid T] [LinearOrder T] [Sub T] [Time T] [F64 F] [Secs T F] [Rng R F]
variable {c₀ c c' : EndpointController T F R} {e : Entry T F R} {tr : List (Entry T F R)}

theorem run_fixed (h : Run Step c₀ tr c) : c.controllerId = c₀.controllerId ∧ c.config = c₀.config :=
  h.invariant (P := fun c => c.controllerId = c₀.controllerId ∧ c.config = c₀.config) ⟨rfl, rfl⟩
    fun _ _ _ hs hP => ⟨hs.ledger.fixed.1.trans hP.1, hs.ledger.fixed.2.trans hP.2⟩

omit [Rng R F] in
theorem fresh_line (h : EndpointController.Fresh c₀) : c₀.ledger.line = Tickets.empty := by
  obtain ⟨config, now, rng, controllerId, hn⟩ := h
  obtain ⟨_, _, _, _, _, _, _, _, _, rfl⟩ := EndpointController.newWithRng_cases hn
  rfl

/-- **The controller's queue refines the line of tickets.** -/
theorem run_line (h : Run Step c₀ tr c) :
    Run Tickets.Step c₀.ledger.line (tr.filterMap Entry.ticket?) c.ledger.line := by
  induction h with
  | nil => exact .nil
  | @snoc tr m e c _ he ih =>
    have hl := he.ledger.line
    rw [List.filterMap_append, List.filterMap_cons, List.filterMap_nil]
    unfold Entry.ticket? at ih ⊢
    cases ht : ticketOf e.call e.reply with
    | none => rw [ht] at hl; simpa [hl] using ih
    | some t => rw [ht] at hl; exact ih.snoc hl

/-- A call that issues, cancels or dispatches a reservation is on the reservation's own controller. -/
theorem LedgerStep.own {l l' : Ledger T F} {call : Call T} {reply : Reply T F} (h : LedgerStep l call reply l')
    {r : DispatchReservation} (hr : (∃ now, call = .reserve now ∧ reply = .reserved (.ok r)) ∨
      (∃ now, call = .cancel r now ∧ reply = .cancelled true) ∨
      (∃ now q, call = .onDispatched r now ∧ reply = .dispatched (.ok q))) : r.controllerId = l.controllerId := by
  rcases hr with ⟨now, rfl, rfl⟩ | ⟨now, rfl, rfl⟩ | ⟨now, q, rfl, rfl⟩
  · cases h with
    | reserved => rfl
    | unknown hc | waitForPrevious hc | inflightLimit hc | waitUntil hc => cases hc
    | read hr => exact hr.elim
  · cases h with
    | cancelled hh => exact hh.1
    | unknown hc | waitForPrevious hc | inflightLimit hc | waitUntil hc => cases hc
    | read hr => exact hr.elim
  · cases h with
    | dispatched hc => exact hc
    | unknown _ hs | waitForPrevious _ hs | inflightLimit _ hs | waitUntil _ hs => cases hs
    | read hr => exact hr.elim

/-- The reservations of a history are the controller's own. -/
theorem Step.own (h : Step c e c') {r : DispatchReservation}
    (hr : e.issued? = some r ∨ e.cancelled? = some r ∨ e.dispatched?.map Prod.fst = some r) :
    r.controllerId = c.controllerId := by
  refine h.ledger.own ?_
  unfold Entry.issued? Entry.cancelled? Entry.dispatched? dispatchedOf at hr
  rcases hr with hr | hr | hr
  · split at hr
    · rename_i now _ hc hp
      cases hr
      exact Or.inl ⟨now, hc, hp⟩
    · cases hr
  · split at hr
    · rename_i _ now hc hp
      cases hr
      exact Or.inr (Or.inl ⟨now, hc, hp⟩)
    · cases hr
  · split at hr
    · rename_i _ now q hc hp
      cases hr
      exact Or.inr (Or.inr ⟨now, q, hc, hp⟩)
    · cases hr

end

end Loadpace
