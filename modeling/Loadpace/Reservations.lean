import Loadpace.History
import Loadpace.Machine

/-!
# The life of a reservation

The queue of a controller is a line of tickets (`run_line`), so its history decides what becomes of each reservation:
`Lifecycle` collects it for one controller, and `reservation_lifecycle` proves it for any number of controllers with
distinct identities, whatever tokens the calls are given.
-/

namespace Loadpace

open Systems EndpointController

variable {T F R : Type} [AddCommMonoid T] [LinearOrder T] [Sub T] [Time T] [F64 F] [Secs T F] [Rng R F]

/-- The reservation no longer counts for the controller. -/
def Spent (c : EndpointController T F R) (r : DispatchReservation) : Prop :=
  ∀ now, c.cancel r now = (false, c) ∧ c.dispatchState r now = some (.cancelled, c) ∧
    c.onDispatched r now = some (.error .cancelled, c)

theorem spent_of_not_holds {c : EndpointController T F R} {r : DispatchReservation} (h : ¬c.Holds r) : Spent c r := by
  intro now
  have hd : c.dispatchState r now = some (.cancelled, c) := dispatchState_unknown h
  refine ⟨cancel_unknown c now h, hd, ?_⟩
  unfold onDispatched
  rw [hd]
  rfl

/-- The history of one controller, and the queue it leads to. -/
structure Lifecycle (tr : List (Entry T F R)) (c : EndpointController T F R) : Prop where
  /-- No two reservations are the same. -/
  issued_nodup : (issued tr).Nodup
  /-- A reservation is cancelled or dispatched at most once, and not both. -/
  resolved_nodup : (resolved tr).Nodup
  resolved_issued : ∀ r ∈ resolved tr, r ∈ issued tr
  /-- The queue is the issued reservations minus the cancelled and the dispatched ones, in the order of issue. -/
  queue : c.pending.map (fun entry => token c.controllerId entry.id) =
    (issued tr).filter fun r => r ∉ cancelled tr ∧ r ∉ dispatched tr
  /-- Dispatches are in the order of issue. -/
  dispatched_order : (dispatched tr).Sublist (issued tr)
  capacity : c.pending.length ≤ c.config.queueCapacity
  /-- `reserve` fails exactly when the queue is full or the identities are used up, and then changes nothing. -/
  reserve_fails : ∀ now, ((∃ e, (c.reserve now).1 = .error e) ↔
    c.config.queueCapacity ≤ c.pending.length ∨ (issued tr).length = u64Max) ∧
    ∀ e, (c.reserve now).1 = .error e → (c.reserve now).2 = c

section Member

variable {c₀ c : EndpointController T F R} {tr : List (Entry T F R)}

/-- The tickets of a history of a fresh controller. -/
theorem run_tickets (h0 : Fresh c₀) (h : Run Step c₀ tr c) :
    Run Tickets.Step Tickets.empty (tr.filterMap Entry.ticket?) c.ledger.line := fresh_line h0 ▸ run_line h

/-- Tokens of one controller, from their identities. -/
theorem tokens_eq (h : Run Step c₀ tr c) {f : Entry T F R → Option DispatchReservation}
    {g : Tickets.Event → Option ℕ} (hf : ∀ e : Entry T F R, (f e).map DispatchReservation.id = e.ticket?.bind g)
    (hown : ∀ e : Entry T F R, ∀ r, f e = some r →
      e.issued? = some r ∨ e.cancelled? = some r ∨ e.dispatched?.map Prod.fst = some r) :
    tr.filterMap f = ((tr.filterMap Entry.ticket?).filterMap g).map (token c.controllerId) := by
  rw [List.filterMap_filterMap, List.map_filterMap]
  refine List.filterMap_congr fun e he => ?_
  obtain ⟨_, _, m, _, _, hm, hs, _⟩ := h.of_mem he
  rw [← hf e]
  cases hr : f e with
  | none => rfl
  | some r =>
    have hc := (hs.own (hown e r hr)).trans ((run_fixed hm).1.trans (run_fixed h).1.symm)
    simp only [Option.map_some, token, ← hc]

theorem issued_eq (h : Run Step c₀ tr c) :
    issued tr = (Tickets.issued (tr.filterMap Entry.ticket?)).map (token c.controllerId) :=
  tokens_eq h (fun e => e.ids_ticket.1) fun _ _ => Or.inl

theorem resolved_eq (h : Run Step c₀ tr c) :
    resolved tr = (Tickets.gone (tr.filterMap Entry.ticket?)).map (token c.controllerId) := by
  refine tokens_eq h (fun e => e.ids_ticket.2.1) fun e r hr => Or.inr ?_
  unfold Entry.resolved? at hr
  cases hc : e.cancelled? with
  | some r' => rw [hc] at hr; exact Or.inl hr
  | none => rw [hc] at hr; exact Or.inr hr

theorem dispatched_eq (h : Run Step c₀ tr c) :
    dispatched tr = (Tickets.served (tr.filterMap Entry.ticket?)).map (token c.controllerId) :=
  tokens_eq h (fun e => e.ids_ticket.2.2) fun _ _ hr => Or.inr (Or.inr hr)

theorem token_injective (n : ℕ) : Function.Injective (token n) := fun _ _ h => congrArg DispatchReservation.id h

/-- A resolved reservation has left the queue for good. -/
theorem spent_of_resolved (h0 : Fresh c₀) (h : Run Step c₀ tr c) {r : DispatchReservation} (hr : r ∈ resolved tr) :
    Spent c r := by
  rw [resolved_eq h] at hr
  obtain ⟨n, hn, rfl⟩ := List.mem_map.mp hr
  refine spent_of_not_holds fun hh => Tickets.not_waiting_of_gone (run_tickets h0 h) hn ?_
  have := hh.2
  rwa [← ledger_ids] at this

/-- The controller has issued the reservation, and it has left the queue. -/
def EndpointController.Past (c : EndpointController T F R) (r : DispatchReservation) : Prop :=
  r.controllerId = c.controllerId ∧ r.id < c.nextId ∧ r.id ∉ ids c.pending

/-- A reservation that has left the queue does not come back. -/
theorem Past.run {r : DispatchReservation} (h : c₀.Past r) (hrun : Run Step c₀ tr c) : c.Past r := by
  obtain ⟨hown, hissued, hgone⟩ := h
  have hline := run_line hrun
  refine ⟨hown.trans (run_fixed hrun).1.symm, ?_, fun hmem => hgone ?_⟩
  · exact Nat.lt_of_lt_of_le hissued (Tickets.run_next_le hline)
  · rw [← ledger_ids] at hmem ⊢
    exact Tickets.run_waited hline hissued hmem

/-- No call takes the queue past its capacity. -/
theorem LedgerStep.capacity {l l' : Ledger T F} {call : Call T} {reply : Reply T F} (h : LedgerStep l call reply l')
    (hl : l.entries.length ≤ l.config.queueCapacity) : l'.entries.length ≤ l'.config.queueCapacity := by
  cases h with
  | reserved hroom _ => simpa using Nat.succ_le_of_lt hroom
  | cancelled _ => exact (List.eraseP_sublist.length_le).trans hl
  | waitUntil _ _ _ he _ => rw [he] at hl; exact hl
  | dispatched _ he _ => rw [he] at hl; exact (Nat.le_succ _).trans hl
  | finished => rename_i completion _ _ _ _ _; cases completion <;> exact hl
  | _ => exact hl

theorem run_capacity (h0 : Fresh c₀) (h : Run Step c₀ tr c) : c.pending.length ≤ c.config.queueCapacity := by
  have hc : c.ledger.entries.length ≤ c.ledger.config.queueCapacity := by
    refine h.invariant (P := fun c => c.ledger.entries.length ≤ c.ledger.config.queueCapacity) ?_
      fun _ _ _ hs hl => hs.ledger.capacity hl
    obtain ⟨config, now, rng, controllerId, hn⟩ := h0
    obtain ⟨_, _, _, _, _, _, _, _, _, rfl⟩ := newWithRng_cases hn
    exact Nat.zero_le _
  simpa [ledger] using hc

/-- One controller. -/
theorem run_lifecycle (h0 : Fresh c₀) (h : Run Step c₀ tr c) : Lifecycle tr c := by
  have ht := run_tickets h0 h
  have hi : (Tickets.issued (tr.filterMap Entry.ticket?)) = List.range c.nextId := Tickets.issued_eq ht
  have hlen : (issued tr).length = c.nextId := by rw [issued_eq h, hi]; simp
  constructor
  · rw [issued_eq h, hi]
    exact List.nodup_range.map (token_injective _)
  · rw [resolved_eq h]
    exact (Tickets.gone_nodup ht).map (token_injective _)
  · intro r hr
    rw [resolved_eq h] at hr
    obtain ⟨n, hn, rfl⟩ := List.mem_map.mp hr
    rw [issued_eq h, hi]
    exact List.mem_map_of_mem (List.mem_range.mpr (Tickets.lt_next_of_gone ht hn))
  · have hw : ids c.pending = (List.range c.nextId).filter (· ∉ Tickets.gone (tr.filterMap Entry.ticket?)) := by
      rw [← ledger_ids]; exact Tickets.waiting_eq ht
    have hq : c.pending.map (fun entry => token c.controllerId entry.id) = (ids c.pending).map (token c.controllerId) := by
      rw [ids, List.map_map]; rfl
    have hf : (fun r => decide (r ∉ cancelled tr ∧ r ∉ dispatched tr)) = fun r => decide (r ∉ resolved tr) := by
      funext r
      simp only [mem_resolved, not_or]
    rw [hq, hw, issued_eq h, hi, hf, resolved_eq h, List.filter_map]
    refine congrArg _ (List.filter_congr fun n _ => ?_)
    simp only [Function.comp, List.mem_map_of_injective (token_injective c.controllerId)]
  · rw [dispatched_eq h, issued_eq h]
    exact (Tickets.served_sublist ht).map _
  · exact run_capacity h0 h
  · rw [hlen]
    exact reserve_fails_iff c

end Member

/-! ## Any number of controllers -/

section Fleet

variable {ι : Type} [DecidableEq ι]

/-- Fresh controllers with distinct identities. -/
def FreshFleet (cs : ι → EndpointController T F R) : Prop :=
  (∀ i, Fresh (cs i)) ∧ Function.Injective fun i => (cs i).controllerId

variable {cs₀ cs : ι → EndpointController T F R} {tr : List (ι × Entry T F R)}

/-- Every call of a fleet's history is on a controller that has its first identity. -/
theorem fleet_own (h : Run (familyStep Step) cs₀ tr cs) {i : ι} {e : Entry T F R} (he : (i, e) ∈ tr)
    {r : DispatchReservation}
    (hr : e.issued? = some r ∨ e.cancelled? = some r ∨ e.dispatched?.map Prod.fst = some r) :
    r.controllerId = (cs₀ i).controllerId := by
  obtain ⟨_, _, _, _, _, hm, hs, _⟩ := (h.member i).of_mem (mem_memberHistory.mpr he)
  exact (hs.own hr).trans (run_fixed hm).1

/-- A token of a fleet's history is in the history of the controller that has its identity. -/
theorem member_of_fleet {f : Entry T F R → Option DispatchReservation}
    (hown : ∀ e : Entry T F R, ∀ r, f e = some r →
      e.issued? = some r ∨ e.cancelled? = some r ∨ e.dispatched?.map Prod.fst = some r)
    (hinj : Function.Injective fun i => (cs₀ i).controllerId) (h : Run (familyStep Step) cs₀ tr cs) {i : ι}
    {r : DispatchReservation} (hi : r.controllerId = (cs₀ i).controllerId) (hr : r ∈ (tr.map Prod.snd).filterMap f) :
    r ∈ (memberHistory i tr).filterMap f := by
  obtain ⟨e, he, hf⟩ := List.mem_filterMap.mp hr
  obtain ⟨⟨j, e'⟩, hm, rfl⟩ := List.mem_map.mp he
  obtain rfl : j = i := hinj ((fleet_own h hm (hown e' r hf)).symm.trans hi)
  exact List.mem_filterMap.mpr ⟨e', mem_memberHistory.mpr hm, hf⟩

/-- A list of tokens without repetition in each member's history has none in the fleet's. -/
theorem fleet_nodup {f : Entry T F R → Option DispatchReservation}
    (hown : ∀ e : Entry T F R, ∀ r, f e = some r →
      e.issued? = some r ∨ e.cancelled? = some r ∨ e.dispatched?.map Prod.fst = some r)
    (hmem : ∀ {c₀ c : EndpointController T F R} {tr : List (Entry T F R)}, Fresh c₀ → Run Step c₀ tr c →
      (tr.filterMap f).Nodup)
    (h0 : FreshFleet cs₀) (h : Run (familyStep Step) cs₀ tr cs) : ((tr.map Prod.snd).filterMap f).Nodup := by
  induction h with
  | nil => exact List.nodup_nil
  | @snoc tr m e cs hr he ih =>
    obtain ⟨i, e⟩ := e
    rw [List.map_append, List.filterMap_append, List.map_singleton]
    cases hf : f e with
    | none => simpa [hf] using ih
    | some r =>
      rw [show List.filterMap f [e] = [r] by simp [hf]]
      refine List.nodup_append_comm.mp (List.nodup_cons.mpr ⟨fun hin => ?_, by simpa using ih⟩)
      have hi : r.controllerId = (cs₀ i).controllerId :=
        fleet_own (hr.snoc he) (List.mem_append_right _ List.mem_cons_self) (hown e r hf)
      have hold := member_of_fleet hown h0.2 hr hi (by simpa using hin)
      have hnew := hmem (h0.1 i) ((hr.snoc he).member i)
      rw [memberHistory_append, List.filterMap_append] at hnew
      refine List.disjoint_of_nodup_append hnew hold ?_
      simp [memberHistory, hf]

/-- **The life of a reservation.** In every history of controllers with distinct identities, every issued reservation is
resolved at most once, is spent on every controller from then on, and each controller's queue is what its history
says. -/
theorem reservation_lifecycle (h0 : FreshFleet cs₀) (h : Run (familyStep Step) cs₀ tr cs) :
    (issued (tr.map Prod.snd)).Nodup ∧ (resolved (tr.map Prod.snd)).Nodup ∧
    (∀ r ∈ resolved (tr.map Prod.snd), r ∈ issued (tr.map Prod.snd) ∧ ∀ j, Spent (cs j) r) ∧
    ∀ i, Lifecycle (memberHistory i tr) (cs i) := by
  have hlife (i : ι) : Lifecycle (memberHistory i tr) (cs i) := run_lifecycle (h0.1 i) (h.member i)
  refine ⟨fleet_nodup (fun _ _ => Or.inl) (fun hf hr => (run_lifecycle hf hr).issued_nodup) h0 h,
    fleet_nodup (fun _ _ => own_of_resolved) (fun hf hr => (run_lifecycle hf hr).resolved_nodup) h0 h,
    fun r hr => ⟨?_, fun j => ?_⟩, hlife⟩
  · obtain ⟨e, he, hf⟩ := List.mem_filterMap.mp hr
    obtain ⟨⟨i, e'⟩, hm, rfl⟩ := List.mem_map.mp he
    have hres : r ∈ resolved (memberHistory i tr) := List.mem_filterMap.mpr ⟨e', mem_memberHistory.mpr hm, hf⟩
    obtain ⟨e, he, hi⟩ := List.mem_filterMap.mp ((hlife i).resolved_issued r hres)
    exact List.mem_filterMap.mpr ⟨e, List.mem_map.mpr ⟨(i, e), mem_memberHistory.mp he, rfl⟩, hi⟩
  · by_cases hj : r.controllerId = (cs₀ j).controllerId
    · exact spent_of_resolved (h0.1 j) (h.member j) (member_of_fleet (fun _ _ => own_of_resolved) h0.2 h hj hr)
    · exact spent_of_not_holds fun hh => hj (hh.1.trans (run_fixed (h.member j)).1)

end Fleet

/-- Two controllers: one reservation is cancelled, one dispatched, and both are then used again and elsewhere. -/
def reservationCalls : List (Bool × Call ℕ) :=
  [(true, .reserve 0), (true, .reserve 0), (false, .reserve 0), (true, .cancel ⟨7, 1⟩ 1), (true, .onDispatched ⟨7, 0⟩ 2),
    (false, .onDispatched ⟨7, 0⟩ 3), (true, .cancel ⟨7, 1⟩ 4), (true, .dispatchState ⟨7, 0⟩ 5)]

def sampleFleet (i : Bool) : EndpointController ℕ ℚ ℕ := if i then sample else sample'

theorem sampleFleet_fresh : FreshFleet sampleFleet := by
  refine ⟨fun i => ?_, fun i j => ?_⟩
  · cases i <;> exact ⟨sampleConfig, 0, 0, _, (Option.some_get _).symm⟩
  · revert i j
    decide +kernel

theorem reservation_lifecycle_two : ∃ tr cs, playFleet sampleFleet reservationCalls = some (tr, cs) ∧
    resolved (tr.map Prod.snd) = [⟨7, 1⟩, ⟨7, 0⟩] ∧ (∀ j, Spent (cs j) ⟨7, 0⟩) ∧
    ∀ i, Lifecycle (memberHistory i tr) (cs i) := by
  have hp : (playFleet sampleFleet reservationCalls).map (fun r => resolved (r.1.map Prod.snd)) =
      some [⟨7, 1⟩, ⟨7, 0⟩] := by decide +kernel
  obtain ⟨⟨tr, cs⟩, hr, hres⟩ := Option.map_eq_some_iff.mp hp
  obtain ⟨_, _, hspent, hlife⟩ := reservation_lifecycle sampleFleet_fresh (playFleet_run hr)
  exact ⟨tr, cs, hr, hres, (hspent _ (by rw [hres]; simp)).2, hlife⟩

end Loadpace
