import Loadpace.Fluid
import Loadpace.Readiness
import Loadpace.Reservations

/-!
# Predicted slots are honoured

A slot is predicted from the queue, and kept by the pacer: the two agree while the interval stays and no head of the queue
is passed over (`Entry.OnTime`). The queue then stays regular (`Step.onTime`), a dispatch moves its first slot by one
interval and every other call leaves it (`run_first`), and a reservation is one interval behind for every reservation that
stays ahead (`predicted_slots_honoured`).
-/

namespace Loadpace

open Systems EndpointController

section

variable {T F R : Type} [AddCommMonoid T] [LinearOrder T] [Sub T] [Time T]

/-- A settled schedule stays settled until its head has passed. -/
theorem EndpointController.Settled.later {c : EndpointController T F R} {clock now : T} (hs : c.Settled clock)
    (hle : clock ≤ now) (hhead : ∀ front ∈ c.pending.head?, now ≤ front.scheduledAt) : c.Settled now := by
  refine hs.lazy.unexpired hle fun s hmem => ?_
  rw [slots, List.head?_map, Option.mem_def, Option.map_eq_some_iff] at hmem
  obtain ⟨front, hfront, rfl⟩ := hmem
  cases hp : c.pending with
  | nil =>
    rw [hp] at hfront
    cases hfront
  | cons first others =>
    rw [hp] at hfront
    obtain rfl : first = front := Option.some.inj hfront
    have hslot := hs.head hp
    refine max_le ?_ (hhead first (by rw [hp]; rfl))
    rw [hslot]
    exact le_max_left _ _

/-- A reservation takes the next slot of a settled schedule. -/
theorem EndpointController.reserve_settled {c : EndpointController T F R} {now : T} (hs : c.Settled now) :
    (c.reserve now).2.Settled now := by
  rcases c.reserve_cases now with hsame | ⟨-, -, happ⟩
  · rw [hsame]
    exact hs
  · rw [happ]
    unfold Settled slots
    rw [List.map_append, List.length_append, List.length_singleton, List.iterate_add]
    have hslots : c.pending.map PendingReservation.scheduledAt =
        List.iterate c.advance (c.pacer.nextAt now) c.pending.length := hs
    rw [hslots, List.map_singleton, hs.nextVirtualSlot]
    rfl

variable [F64 F] [Secs T F] [Rng R F]
variable {c₀ c c' : EndpointController T F R} {e : Entry T F R} {tr rest : List (Entry T F R)}
variable {start clock clock' now : T}

/-- The call keeps the interval, and finds no head of the queue past its slot. -/
structure Entry.OnTime (e : Entry T F R) : Prop where
  interval : e.after.pacer.interval = e.before.pacer.interval
  head : ∀ front ∈ e.before.pending.head?, ∀ now ∈ e.call.now?, now ≤ front.scheduledAt

instance (e : Entry T F R) : Decidable e.OnTime :=
  decidable_of_iff (e.after.pacer.interval = e.before.pacer.interval ∧
    ∀ front ∈ e.before.pending.head?, ∀ now ∈ e.call.now?, now ≤ front.scheduledAt)
    ⟨fun h => ⟨h.1, h.2⟩, fun h => ⟨h.interval, h.head⟩⟩

/-- A call that keeps the interval keeps the pacer, up to the commit of a dispatch. -/
theorem Step.steady (h : Step c e c') (hnow : e.call.now? = some now) (hi : c'.pacer.interval = c.pacer.interval) :
    c'.pacer = if e.dispatched?.isSome then c.pacer.commit now else c.pacer := by
  cases h.pacing with
  | still hnone hsame =>
    rw [hnone]
    exact hsame
  | repaced _ hnone _ hset =>
    rw [hnone]
    exact Gcra.setRate_same hset hi
  | @committed t m pacer hnow' hsome _ hset _ heq =>
    obtain rfl : t = now := Option.some.inj (hnow'.symm.trans hnow)
    have hkept : pacer.interval = c.pacer.interval := by
      rw [heq] at hi
      exact hi
    rw [if_pos hsome, heq, Gcra.setRate_same hset hkept]

/-- **One call**: the schedule stays settled, and its first slot moves by one interval if the call dispatches. -/
theorem Step.onTime (h : TimedStep (c, clock) e (c', now)) (hs : c.Settled clock) (hon : e.OnTime) :
    c'.Settled now ∧ (c.pending ≠ [] →
      c'.pacer.nextAt now = if e.dispatched?.isSome then c.advance (c.pacer.nextAt clock) else c.pacer.nextAt clock) := by
  obtain ⟨hstep, ⟨t, hnow, hle, hclock⟩ | ⟨hcall, heq, hclock⟩⟩ := TimedStep.cases h
  · obtain rfl : now = t := hclock
    have hle : clock ≤ now := hle
    have hstep : Step c e c' := hstep
    have hbefore : e.before = c := hstep.1
    have hafter : e.after = c' := hstep.2.1
    have hhead : ∀ front ∈ c.pending.head?, now ≤ front.scheduledAt := fun front hfront =>
      hon.head front (hbefore ▸ hfront) now hnow
    have hlater := hs.later hle hhead
    have hinterval : c'.pacer.interval = c.pacer.interval := by
      rw [← hbefore, ← hafter]
      exact hon.interval
    refine ⟨?_, fun hne => ?_⟩
    · rcases Step.settles hstep hlater.lazy hnow le_rfl with ⟨-, hset⟩ | ⟨-, rfl | rfl⟩
      · exact hset
      · exact hlater
      · exact reserve_settled hlater
    · obtain ⟨front, others, hp⟩ := List.exists_cons_of_ne_nil hne
      have hfirst : c.pacer.nextAt now = c.pacer.nextAt clock := (hlater.head hp).symm.trans (hs.head hp)
      have hle' : now ≤ c.pacer.nextAt now := le_max_right _ _
      rw [hstep.steady hnow hinterval, ← hfirst]
      split
      · exact max_eq_left (hle'.trans (c.le_advance _))
      · rfl
  · obtain rfl : now = clock := hclock
    have heq : c' = { c with changes := ControllerChanges.none } := heq
    have hnone : e.dispatched? = none := by
      unfold Entry.dispatched?
      rw [hcall]
      rfl
    rw [heq, hnone]
    exact ⟨hs.congr rfl rfl, fun _ => rfl⟩

/-! ## Continuations -/

theorem run_onTime (hs : c.Settled clock) (h : Run TimedStep (c, clock) rest (c', clock')) (hon : ∀ e ∈ rest, e.OnTime) :
    c'.Settled clock' ∧ c'.advance = c.advance := by
  generalize hx : (c', clock') = x at h
  induction h generalizing c' clock' with
  | nil =>
    obtain ⟨rfl, rfl⟩ := Prod.mk.inj hx
    exact ⟨hs, rfl⟩
  | @snoc rest m e x hr he ih =>
    subst hx
    obtain ⟨hm, hadv⟩ := ih (fun e he => hon e (List.mem_append_left _ he)) rfl
    have hlast := hon e (List.mem_append_right _ List.mem_cons_self)
    have hafter : e.after = c' := he.1.2.1
    have hi : c'.pacer.interval = m.1.pacer.interval := by
      rw [← he.1.1, ← hafter]
      exact hlast.interval
    refine ⟨(Step.onTime he hm hlast).1, ?_⟩
    rw [← hadv]
    unfold advance
    rw [hi]

/-- Each dispatch moves the first slot by one interval while a reservation stays in the queue. -/
theorem run_first (ho : c.ledger.line.Ordered) (hs : c.Settled clock) (h : Run TimedStep (c, clock) rest (c', clock'))
    (hon : ∀ e ∈ rest, e.OnTime) {n : ℕ} (hn : n ∈ ids c.pending) (hn' : n ∈ ids c'.pending) :
    c'.pacer.nextAt clock' = c.advance^[(dispatched rest).length] (c.pacer.nextAt clock) := by
  generalize hx : (c', clock') = x at h
  induction h generalizing c' clock' with
  | nil =>
    obtain ⟨rfl, rfl⟩ := Prod.mk.inj hx
    rfl
  | @snoc rest m e x hr he ih =>
    subst hx
    have hbefore : ∀ e ∈ rest, e.OnTime := fun e he => hon e (List.mem_append_left _ he)
    obtain ⟨hm, hadv⟩ := run_onTime hs hr hbefore
    -- the reservation was in the queue before the last call
    have hline := (Tickets.run_ordered ho (run_line hr.untimed)).2
    have hissued : n < m.1.ledger.line.next := (ho.issued n (by rw [← ledger_ids] at hn; exact hn)).trans_le hline
    have hwait : n ∈ ids m.1.pending := by
      rw [← ledger_ids] at hn' ⊢
      exact Tickets.run_waited (run_line (Run.single he.1)) hissued hn'
    have hne : m.1.pending ≠ [] := by
      intro hnil
      rw [hnil] at hwait
      cases hwait
    have hlast := (Step.onTime he hm (hon e (List.mem_append_right _ List.mem_cons_self))).2 hne
    have hdispatched : dispatched (rest ++ [e]) = dispatched rest ++ (e.dispatched?.map Prod.fst).toList := by
      rw [dispatched, List.filterMap_append, List.filterMap_cons, List.filterMap_nil]
      cases e.dispatched? <;> rfl
    rw [ih hbefore hwait rfl, hadv] at hlast
    rw [hlast, hdispatched, List.length_append]
    cases hd : e.dispatched? with
    | none => rfl
    | some x => exact (Function.iterate_succ_apply' c.advance _ _).symm

theorem cancelled_eq (h : Run Step c tr c') :
    cancelled tr = (Tickets.withdrawn (tr.filterMap Entry.ticket?)).map (token c'.controllerId) := by
  refine tokens_eq h (fun e => ?_) fun _ _ hr => Or.inr (Or.inl hr)
  unfold Entry.cancelled? Entry.ticket?
  cases e.call <;> cases e.reply <;> try rfl
  · rename_i res
    cases res <;> rfl
  · rename_i removed
    cases removed <;> rfl
  · rename_i res
    cases res <;> rfl

/-- The reservations ahead of `n` that the history cancels. -/
def cancelledAhead (n : ℕ) (tr : List (Entry T F R)) : ℕ := (cancelled tr).countP fun r => r.id < n

/-- **A slot of a continuation**: one interval after the first slot of the start for every reservation that stayed ahead. -/
theorem run_slot (ho : c.ledger.line.Ordered) (hs : c.Settled clock) (h : Run TimedStep (c, clock) rest (c', clock'))
    (hon : ∀ e ∈ rest, e.OnTime) {i j : ℕ} {p p' : PendingReservation T} (hp : c.pending[i]? = some p)
    (hp' : c'.pending[j]? = some p') (hid : p'.id = p.id) :
    i = j + (dispatched rest).length + cancelledAhead p.id rest ∧
      p'.scheduledAt = c.advance^[i - cancelledAhead p.id rest] (c.pacer.nextAt clock) := by
  have hwait : (ids c.pending)[i]? = some p.id := by rw [ids, List.getElem?_map, hp]; rfl
  have hwait' : (ids c'.pending)[j]? = some p.id := by rw [ids, List.getElem?_map, hp', ← hid]; rfl
  have hmem : p.id ∈ ids c.pending := List.mem_of_getElem? hwait
  have hmem' : p.id ∈ ids c'.pending := List.mem_of_getElem? hwait'
  have hfirst := run_first ho hs h hon hmem hmem'
  obtain ⟨hs', hadv⟩ := run_onTime hs h hon
  rw [← ledger_ids] at hwait hwait' hmem hmem'
  have hplace : i = j + (dispatched rest).length + cancelledAhead p.id rest := by
    have hline := run_line h.untimed
    have hrun := Tickets.run_place ho hmem hline hmem'
    rw [ho.place_eq hwait, (Tickets.run_ordered ho hline).1.place_eq hwait'] at hrun
    rw [cancelledAhead, dispatched_eq h.untimed, cancelled_eq h.untimed, List.length_map, List.countP_map]
    exact hrun
  refine ⟨hplace, ?_⟩
  have hlt : j < c'.pending.length := (List.getElem?_eq_some_iff.mp hp').1
  have hslot : c'.slots[j]? = some p'.scheduledAt := by rw [slots, List.getElem?_map, hp']; rfl
  rw [hs', List.getElem?_iterate _ _ _ _ hlt] at hslot
  rw [← Option.some.inj hslot, hfirst, hadv, ← Function.iterate_add_apply]
  congr 1
  omega

/-- Every pacing interval is positive. -/
theorem run_interval_pos (h0 : Fresh c₀) (h : Run Step c₀ tr c) : 0 < c.pacer.interval := by
  refine h.invariant (P := fun c => 0 < c.pacer.interval) ?_ fun m e m' he hpos => ?_
  · obtain ⟨config, now, rng, controllerId, hn⟩ := h0
    obtain ⟨-, -, -, latency, gradient, pacer, -, -, hp, rfl⟩ := newWithRng_cases hn
    unfold Gcra.new at hp
    simp only [Option.bind_eq_bind, Option.bind_eq_some_iff] at hp
    obtain ⟨interval, hi, hp⟩ := hp
    obtain rfl := Option.some.inj hp
    exact rateToInterval_pos hi
  · cases Step.pacing he with
    | still _ hsame => exact hsame ▸ hpos
    | repaced _ _ _ hset => exact rateToInterval_pos (Gcra.setRate_cases hset).1
    | committed _ _ _ hset _ heq =>
      rw [heq]
      exact rateToInterval_pos (Gcra.setRate_cases hset).1

omit [F64 F] [Secs T F] [Rng R F] in
/-- Where nothing saturates, an advance is later. -/
theorem advance_lt {i k : ℕ} {first : T} (hpos : 0 < c.pacer.interval)
    (hexact : (checkedAdd first (i • c.pacer.interval)).isSome) (hk : k < i) :
    c.advance^[k] first < c.advance (c.advance^[k] first) := by
  have hexact' : (checkedAdd first ((k + 1) • c.pacer.interval)).isSome :=
    checkedAdd_mono (nsmul_le_nsmul_left zero_le hk) hexact
  have hnow : c.advance^[k] first = first + k • c.pacer.interval :=
    advance_iterate (checkedAdd_mono (nsmul_le_nsmul_left zero_le (Nat.le_succ k)) hexact')
  have hnext : c.advance^[k + 1] first = first + (k + 1) • c.pacer.interval := advance_iterate hexact'
  rw [← Function.iterate_succ_apply' c.advance k, hnext, hnow, succ_nsmul, ← add_assoc]
  exact lt_add_of_pos_right _ hpos

/-! ## The next check -/

omit [AddCommMonoid T] [LinearOrder T] [Sub T] [Time T] [F64 F] [Secs T F] [Rng R F] in
/-- The reservation at the head of the queue is the first of it. -/
theorem heads_iff (ho : c.ledger.line.Ordered) {r : DispatchReservation} {j : ℕ} {p : PendingReservation T}
    (hp : c.pending[j]? = some p) (hid : p.id = r.id) (hown : r.controllerId = c.controllerId) : c.Heads r ↔ j = 0 := by
  have hwait : (ids c.pending)[j]? = some r.id := by rw [ids, List.getElem?_map, hp, ← hid]; rfl
  constructor
  · rintro ⟨-, hhead⟩
    rw [List.head?_eq_getElem?] at hhead
    rw [← ledger_ids] at hwait hhead
    exact (ho.place_eq hwait).symm.trans (ho.place_eq hhead)
  · rintro rfl
    exact ⟨hown, by rw [List.head?_eq_getElem?]; exact hwait⟩

/-- What the next check finds of a queued reservation: it is not ready before its slot, and ready at its slot when it is the
queue head and inflight has room. -/
theorem check_onTime (ho : c.ledger.line.Ordered) (hs : c.Settled clock) {r : DispatchReservation} {j : ℕ}
    {p : PendingReservation T} (hp : c.pending[j]? = some p) (hid : p.id = r.id) (h : TimedStep (c, clock) e (c', now))
    (hon : e.OnTime) (hcall : e.call = .dispatchState r now) {state : DispatchState T} (hreply : e.reply = .state state) :
    (now < p.scheduledAt → state ≠ .ready) ∧
      (now = p.scheduledAt → c.Heads r → c.inflight < c.config.maxInflight → state = .ready) := by
  obtain ⟨hset, hfirst⟩ := Step.onTime h hs hon
  have hcheck : c.dispatchState r now = some (state, c') := by
    obtain ⟨-, -, hx⟩ := h.1
    rw [hcall, hreply] at hx
    obtain ⟨⟨s, m⟩, hs, heq⟩ := Option.map_eq_some_iff.mp hx
    cases heq
    exact hs
  have hnone : e.dispatched? = none := by
    unfold Entry.dispatched?
    rw [hcall]
    rfl
  -- the slot of the head that the check finds is the slot that was predicted
  have hslot (hh : c.Heads r) {front : PendingReservation T} {others : List (PendingReservation T)}
      (hc' : c'.pending = front :: others) : front.scheduledAt = p.scheduledAt := by
    obtain rfl := (heads_iff ho hp hid hh.1).mp hh
    cases hc : c.pending with
    | nil =>
      rw [hc] at hp
      cases hp
    | cons first rest =>
      rw [hc] at hp
      obtain rfl : first = p := Option.some.inj hp
      have hkept := hfirst (by rw [hc]; exact List.cons_ne_nil _ _)
      rw [hnone] at hkept
      exact (hset.head hc').trans (hkept.trans (hs.head hc).symm)
  rcases dispatchState_cases hcheck with ⟨hn, rfl, -⟩ | ⟨-, hn, rfl, -⟩ | ⟨hh, m, front, others, hm, hpm, -, hch⟩
  · exact ⟨fun _ => by rintro ⟨⟩, fun _ hh _ => absurd hh.holds hn⟩
  · exact ⟨fun _ => by rintro ⟨⟩, fun _ hh _ => absurd hh hn⟩
  · cases hch with
    | inflightLimit hfull =>
      refine ⟨fun _ => by rintro ⟨⟩, fun _ _ hroom => ?_⟩
      exact absurd ((room_of_ledger (refresh_ledger hm)).mpr hroom) (not_lt.mpr hfull)
    | waitUntil _ hlater =>
      refine ⟨fun _ => by rintro ⟨⟩, fun hnow _ _ => ?_⟩
      let seen := { front with wasPaced := true }
      have heq : seen.scheduledAt = p.scheduledAt := hslot hh (show (m.waited front others).pending = seen :: others from rfl)
      have hlater : now < seen.scheduledAt := hlater
      rw [heq, hnow] at hlater
      exact absurd hlater (lt_irrefl _)
    | ready _ hdue =>
      refine ⟨fun hlt => ?_, fun _ _ _ => rfl⟩
      rw [hslot hh hpm] at hdue
      exact absurd hlt (not_lt.mpr hdue)

omit [F64 F] [Secs T F] [Rng R F] in
/-- A reservation whose slot has come is the queue head, unless the clock has no room for one more interval. -/
theorem first_of_due (hs : c.Settled clock) (hhead : ∀ front ∈ c.pending.head?, now ≤ front.scheduledAt) {j : ℕ}
    {p : PendingReservation T} (hp : c.pending[j]? = some p) (hnow : now = p.scheduledAt)
    (hroom : j ≠ 0 → c.pacer.nextAt clock < c.advance (c.pacer.nextAt clock)) : j = 0 := by
  by_contra hne
  obtain ⟨k, rfl⟩ := Nat.exists_eq_succ_of_ne_zero hne
  cases hc : c.pending with
  | nil =>
    rw [hc] at hp
    cases hp
  | cons first others =>
    have hlt : k + 1 < c.pending.length := (List.getElem?_eq_some_iff.mp hp).1
    have hslot : c.slots[k + 1]? = some p.scheduledAt := by rw [slots, List.getElem?_map, hp]; rfl
    rw [hs, List.getElem?_iterate _ _ _ _ hlt] at hslot
    have hle := hhead first (by rw [hc]; rfl)
    rw [hs.head hc, hnow, ← Option.some.inj hslot] at hle
    have hmono := Function.monotone_iterate_of_id_le (f := c.advance) c.le_advance (Nat.succ_le_succ (Nat.zero_le k))
    exact absurd ((hmono _).trans hle) (not_le.mpr (hroom hne))

/-- **Predicted slots are honoured.** A settled queue predicts a slot for each reservation. In every continuation that keeps
the interval and passes no queue head over, the slot is one interval later than the first one for every reservation that
stays ahead. -/
theorem predicted_slots_honoured {c₁ : EndpointController T F R} {clock₁ : T} (h0 : FreshAt c₀ start)
    (h : Run TimedStep (c₀, start) tr (c₁, clock₁)) (he : TimedStep (c₁, clock₁) e (c, clock)) (hset : e.Settles)
    {i : ℕ} {p : PendingReservation T} (hp : c.pending[i]? = some p)
    (h' : Run TimedStep (c, clock) rest (c', clock')) (hon : ∀ e ∈ rest, e.OnTime)
    {j : ℕ} {p' : PendingReservation T} (hp' : c'.pending[j]? = some p') (hid : p'.id = p.id) :
    -- the reservations ahead are those issued before
    (c.pending.Pairwise fun a b => a.id < b.id) ∧
    p.scheduledAt = c.advance^[i] (c.pacer.nextAt clock) ∧
    -- the slot never moves later, and moves only when a reservation ahead is cancelled
    p'.scheduledAt = c.advance^[i - cancelledAhead p.id rest] (c.pacer.nextAt clock) ∧
    p'.scheduledAt ≤ p.scheduledAt ∧ (cancelledAhead p.id rest = 0 → p'.scheduledAt = p.scheduledAt) ∧
    -- the next check finds the reservation ready at its slot, and at no earlier instant
    ∀ d m now state, TimedStep (c', clock') d (m, now) → d.OnTime →
      d.call = .dispatchState (token c.controllerId p.id) now → d.reply = .state state →
      (now < p'.scheduledAt → state ≠ .ready) ∧
      (now = p'.scheduledAt → c'.inflight < c'.config.maxInflight →
        c'.Heads (token c.controllerId p.id) ∨ (checkedAdd (c.pacer.nextAt clock) (i • c.pacer.interval)).isSome →
        state = .ready) := by
  have hsettled : c.Settled clock := by
    obtain ⟨hstep, ⟨t, hnow, hle, hclock⟩ | ⟨hcall, -, -⟩⟩ := TimedStep.cases he
    · obtain rfl : clock = t := hclock
      rcases Step.settles hstep (run_lazy h0 h) hnow hle with ⟨-, hs⟩ | ⟨hn, -⟩
      · exact hs
      · exact absurd hset hn
    · unfold Entry.Settles at hset
      rw [hcall] at hset
      exact hset.elim
  have hrun := (h.snoc he).untimed
  have ho : c.ledger.line.Ordered := Tickets.ordered_of_run (run_tickets h0.fresh hrun)
  have ho' := (Tickets.run_ordered ho (run_line h'.untimed)).1
  obtain ⟨hs', hadv⟩ := run_onTime hsettled h' hon
  have hslot := (run_slot ho hsettled .nil (List.forall_mem_nil _) hp hp rfl).2
  obtain ⟨hplace, hslot'⟩ := run_slot ho hsettled h' hon hp hp' hid
  have hslot : p.scheduledAt = c.advance^[i] (c.pacer.nextAt clock) := hslot
  have hmono := Function.monotone_iterate_of_id_le (f := c.advance) c.le_advance
  refine ⟨?_, hslot, hslot', ?_, fun hkept => ?_, fun d m now state hd hdon hcall hreply => ?_⟩
  · have hsorted := ho.sorted
    rw [show c.ledger.line.waiting = ids c.pending from ledger_ids c] at hsorted
    exact List.pairwise_map.mp hsorted
  · rw [hslot, hslot']
    exact hmono (Nat.sub_le _ _) _
  · rw [hslot, hslot', hkept, Nat.sub_zero]
  · have hown : (token c.controllerId p.id).controllerId = c'.controllerId := (run_fixed h'.untimed).1.symm
    obtain ⟨hearly, hready⟩ := check_onTime ho' hs' hp' hid hd hdon hcall hreply
    refine ⟨hearly, fun hnow hroom hor => hready hnow ?_ hroom⟩
    rcases hor with hh | hexact
    · exact hh
    · refine (heads_iff ho' hp' hid hown).mpr (first_of_due hs' ?_ hp' hnow fun hne => ?_)
      · intro front hfront
        obtain ⟨hbefore, -, -⟩ := hd.1
        exact hdon.head front (by rw [hbefore]; exact hfront) now (by rw [hcall]; rfl)
      · -- the first slot has moved by the intervals of the dispatches, and has room for the one that is left
        have hfirst := run_first ho hsettled h' hon (List.mem_map_of_mem (List.mem_of_getElem? hp))
          (hid ▸ List.mem_map_of_mem (List.mem_of_getElem? hp'))
        rw [hfirst, hadv]
        exact advance_lt (run_interval_pos h0.fresh hrun) hexact (by omega)

end

/-- Three reservations; the first is dispatched at its slot and the second is cancelled, so that the third takes its slot. -/
theorem predicted_slots_honoured_three : ∃ c c' tr rest, ∃ p p' : PendingReservation ℕ,
    Run TimedStep (sample, 0) tr (c, 0) ∧ Run TimedStep (c, 0) rest (c', 3000000) ∧
    c.pending[2]? = some p ∧ c'.pending[0]? = some p' ∧ p.scheduledAt = 10000000 ∧ p'.scheduledAt = 5000000 ∧
    cancelledAhead p.id rest = 1 ∧ p'.scheduledAt = c.advance^[2 - cancelledAhead p.id rest] (c.pacer.nextAt 0) := by
  have hplay : (play sample [.reserve 0, .reserve 0, .reserve 0]).bind (fun x => (play x.2 [.load 0]).bind fun y =>
      (play y.2 [.onDispatched ⟨7, 0⟩ 0, .cancel ⟨7, 1⟩ 3000000]).bind fun z =>
        y.2.pending[2]?.bind fun p => z.2.pending[0]?.map fun p' =>
          (p.scheduledAt, p'.scheduledAt, p.id, p'.id, decide (∀ e ∈ z.1, e.OnTime), cancelledAhead p.id z.1)) =
      some (10000000, 5000000, 2, 2, true, 1) := by decide +kernel
  simp only [Option.bind_eq_some_iff, Option.map_eq_some_iff, Prod.mk.injEq, decide_eq_true_eq] at hplay
  obtain ⟨⟨tr, c₁⟩, h₁, ⟨settle, c⟩, h₂, ⟨rest, c'⟩, h₃, p, hp, p', hp', hslot, hslot', hid, hid', hon, hcancelled⟩ := hplay
  have hrun := play_timed h₁ (show Ordered 0 [Call.reserve 0, .reserve 0, .reserve 0] by decide)
  have hrest := play_timed h₃ (show Ordered 0 [Call.onDispatched ⟨7, 0⟩ 0, .cancel ⟨7, 1⟩ 3000000] by decide)
  simp only [play, Option.bind_eq_bind, Option.bind_eq_some_iff, Option.some.injEq, Prod.mk.injEq] at h₂
  obtain ⟨⟨reply, m⟩, hload, -, ⟨rfl, rfl⟩, rfl, rfl⟩ := h₂
  have hstep : TimedStep (c₁, 0) { call := .load 0, reply, before := c₁, after := m } (m, 0) :=
    ⟨⟨rfl, rfl, hload⟩, le_refl 0, rfl⟩
  obtain ⟨-, -, hat, -⟩ := predicted_slots_honoured sample_freshAt hrun hstep trivial hp hrest hon hp' (hid'.trans hid.symm)
  exact ⟨m, c', _, rest, p, p', hrun.snoc hstep, hrest, hp, hp', hslot, hslot', hid ▸ hcancelled, hat⟩

end Loadpace
