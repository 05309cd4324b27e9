import Loadpace.History
import Loadpace.Lib.Slots
import Loadpace.Machine
import Mathlib.Algebra.Group.Action.Defs

/-!
# The virtual queue

The slots of the queue are kept lazily: `reserve` appends a slot without a refresh, and `updateRate` rebuilds the queue only
when the interval changed or the slot of the head has passed. The queue is a line of slots on the committed TAT
(`run_lazy`), and every call that settles the schedule leaves it regular (`Step.settles`): the slot of each entry is
`nextAt` advanced by its place in the queue. `virtual_queue_canonical` draws the consequences.
-/

namespace Loadpace

open Systems

namespace EndpointController

variable {T F R : Type} [AddCommMonoid T] [LinearOrder T] [Sub T] [Time T]

/-- One interval later. -/
def advance (c : EndpointController T F R) (t : T) : T := saturatingAdd t c.pacer.interval

def slots (c : EndpointController T F R) : List T := c.pending.map PendingReservation.scheduledAt

/-- The slots are regular from `nextAt`. -/
def Settled (c : EndpointController T F R) (now : T) : Prop :=
  c.slots = List.iterate c.advance (c.pacer.nextAt now) c.pending.length

/-- The slots are a line on the committed TAT that was appended to at instants up to `clock`. -/
def Lazy (c : EndpointController T F R) (clock : T) : Prop := Slots.Spread c.advance c.pacer.tat clock c.slots

theorem le_advance (c : EndpointController T F R) (t : T) : t ≤ c.advance t := le_saturatingAdd _ _

theorem reschedule_slots (interval next : T) (ps : List (PendingReservation T)) :
    (reschedule interval next ps).map PendingReservation.scheduledAt =
      List.iterate (fun t => saturatingAdd t interval) next ps.length := by
  induction ps generalizing next with
  | nil => rfl
  | cons p ps ih => exact congrArg (next :: ·) (ih _)

theorem reschedule_length (interval next : T) (ps : List (PendingReservation T)) :
    (reschedule interval next ps).length = ps.length := by
  have h := congrArg List.length (reschedule_map (fun p => p.id) (fun _ _ => rfl) interval next ps)
  simpa using h

/-- Rebuilding forgets the slots that were there. -/
theorem reschedule_congr (interval next : T) {ps qs : List (PendingReservation T)}
    (h : ps.map PendingReservation.entry = qs.map PendingReservation.entry) :
    reschedule interval next ps = reschedule interval next qs := by
  induction ps generalizing next qs with
  | nil =>
    obtain rfl : qs = [] := List.map_eq_nil_iff.mp h.symm
    rfl
  | cons p ps ih =>
    cases qs with
    | nil => cases h
    | cons q qs =>
      obtain ⟨he, h⟩ := List.cons.inj h
      have hid : p.id = q.id := congrArg Prod.fst he
      have hw : p.wasPaced = q.wasPaced := congrArg Prod.snd he
      rw [reschedule, reschedule, hid, hw, ih _ h]

/-- A settled queue is its own rebuild. -/
theorem Settled.rebuild {c : EndpointController T F R} {now : T} (h : c.Settled now) :
    c.rebuildVirtualQueue now = c := by
  have hp (next : T) (ps : List (PendingReservation T))
      (hs : ps.map PendingReservation.scheduledAt = List.iterate c.advance next ps.length) :
      reschedule c.pacer.interval next ps = ps := by
    induction ps generalizing next with
    | nil => rfl
    | cons p ps ih =>
      obtain ⟨hfirst, hrest⟩ := List.cons.inj hs
      obtain rfl : p.scheduledAt = next := hfirst
      exact congrArg (p :: ·) (ih _ hrest)
  have hc := hp _ _ h
  unfold rebuildVirtualQueue
  rw [hc]

/-- The slot of the queue head. -/
theorem Settled.head {c : EndpointController T F R} {now : T} {front : PendingReservation T}
    {rest : List (PendingReservation T)} (h : c.Settled now) (hp : c.pending = front :: rest) :
    front.scheduledAt = c.pacer.nextAt now := by
  have hs : c.slots = List.iterate c.advance (c.pacer.nextAt now) c.pending.length := h
  rw [slots, hp] at hs
  exact (List.cons.inj hs).1

theorem Settled.lazy {c : EndpointController T F R} {now : T} (h : c.Settled now) : c.Lazy now := by
  have hs : Slots.Spread c.advance c.pacer.tat now (List.iterate c.advance (c.pacer.nextAt now) c.pending.length) :=
    Slots.spread_iterate _
  unfold Lazy
  rw [h]
  exact hs

theorem rebuild_settled (c : EndpointController T F R) (now : T) : (c.rebuildVirtualQueue now).Settled now := by
  have hs := reschedule_slots c.pacer.interval (c.pacer.nextAt now) c.pending
  unfold Settled slots
  rw [rebuildVirtualQueue, hs, reschedule_length]
  rfl

/-- The slots and the pacer are all that the schedule is made of. -/
theorem Settled.congr {c c' : EndpointController T F R} {now : T} (h : c.Settled now) (hs : c'.slots = c.slots)
    (hp : c'.pacer = c.pacer) : c'.Settled now := by
  have hl : c'.pending.length = c.pending.length := by simpa [slots] using congrArg List.length hs
  have ha : c'.advance = c.advance := by unfold advance; rw [hp]
  unfold Settled
  rw [hs, hl, hp, ha]
  exact h

theorem Lazy.congr {c c' : EndpointController T F R} {clock : T} (h : c.Lazy clock) (hs : c'.slots = c.slots)
    (hp : c'.pacer = c.pacer) : c'.Lazy clock := by
  have ha : c'.advance = c.advance := by unfold advance; rw [hp]
  unfold Lazy
  rw [hs, hp, ha]
  exact h

/-- A line whose head has not passed is regular. -/
theorem Lazy.unexpired {c : EndpointController T F R} {clock now : T} (hl : c.Lazy clock) (hc : clock ≤ now)
    (hhead : ∀ s ∈ c.slots.head?, c.pacer.nextAt now ≤ s) : c.Settled now := by
  have hreg := Slots.Spread.unexpired hl c.le_advance hc hhead
  have hlen : c.slots.length = c.pending.length := List.length_map _
  rw [hlen] at hreg
  exact hreg

theorem nextVirtualSlot_eq (c : EndpointController T F R) (now : T) :
    c.nextVirtualSlot now = Slots.nextSlot c.advance c.pacer.tat c.slots now := by
  unfold nextVirtualSlot Slots.nextSlot slots
  rw [List.getLast?_map, Option.map_map]
  rfl

theorem Settled.nextVirtualSlot {c : EndpointController T F R} {now : T} (h : c.Settled now) :
    c.nextVirtualSlot now = c.advance^[c.pending.length] (c.pacer.nextAt now) := by
  rw [nextVirtualSlot_eq, h]
  exact Slots.nextSlot_iterate c.le_advance _

/-- A new reservation is appended to the line. -/
theorem reserve_lazy {c : EndpointController T F R} {clock now : T} (hl : c.Lazy clock) (hc : clock ≤ now) : (c.reserve now).2.Lazy now := by
  rcases c.reserve_cases now with hsame | ⟨-, -, happ⟩
  · rw [hsame]
    exact hl.mono hc
  · rw [happ]
    have ha := Slots.Spread.append hl hc
    rw [← nextVirtualSlot_eq] at ha
    unfold Lazy slots
    rw [List.map_append]
    exact ha

/-- A cancellation settles the schedule when the reservation is queued, and changes nothing otherwise. -/
theorem cancel_schedule (c : EndpointController T F R) (r : DispatchReservation) (now : T) :
    ((c.cancel r now).1 = true ∧ (c.cancel r now).2.Settled now) ∨
      ((c.cancel r now).1 = false ∧ (c.cancel r now).2 = c) := by
  by_cases hh : c.Holds r
  · rw [cancel_held c now hh]
    exact Or.inl ⟨rfl, rebuild_settled _ now⟩
  · rw [cancel_unknown c now hh]
    exact Or.inr ⟨rfl, rfl⟩

variable [F64 F] [Secs T F]

/-- **`updateRate` settles the schedule**, whether it rebuilds the queue or not. -/
theorem updateRate_settled {c c' : EndpointController T F R} {clock now : T} (hl : c.Lazy clock) (hc : clock ≤ now)
    (h : c.updateRate now = some c') : c'.Settled now := by
  obtain ⟨pacer, hp, ⟨-, rfl⟩ | ⟨hi, hx, rfl⟩⟩ := updateRate_cases h
  · exact rebuild_settled { c with probe := c.probe.active now, pacer, changes := { c.changes with dispatch := true } } now
  · obtain rfl : pacer = c.pacer := Gcra.setRate_same hp hi
    refine (hl.unexpired hc fun s hs => ?_).congr rfl rfl
    rw [slots, List.head?_map, Option.mem_def, Option.map_eq_some_iff] at hs
    obtain ⟨p, hp, rfl⟩ := hs
    by_contra hlt
    refine hx ?_
    unfold HeadExpired
    rw [hp]
    exact decide_eq_true (not_le.mp hlt)

theorem released_schedule (c : EndpointController T F R) (q : InFlightRequest T) (latency now : T)
    (completion : Completion) : (c.released q latency now completion).slots = c.slots ∧
      (c.released q latency now completion).pacer = c.pacer := by
  cases completion <;> exact ⟨rfl, rfl⟩

variable [Rng R F]

theorem refresh_settled {c c' : EndpointController T F R} {clock now : T} (hl : c.Lazy clock) (hc : clock ≤ now)
    (h : c.refresh now = some c') : c'.Settled now := by
  obtain ⟨probe, rng, m, -, hm, rfl⟩ := refresh_cases h
  have hl' : Lazy { c with probe := probe.active now, probeRng := rng } clock := hl.congr rfl rfl
  have hs : m.Settled now := updateRate_settled hl' hc hm
  exact hs.congr rfl rfl

end EndpointController

section

variable {T F R : Type} [AddCommMonoid T] [LinearOrder T] [Sub T] [Time T] [F64 F] [Secs T F] [Rng R F]

open EndpointController

/-- The calls that settle the schedule: the readings, a check of the queue head, a successful dispatch or cancellation, the
release of a request of the controller, and an admission failure. -/
def Entry.Settles (e : Entry T F R) : Prop :=
  match e.call with
  | .reserve _ | .takeChanges => False
  | .cancel _ _ => e.cancelled?.isSome
  | .dispatchState r _ => e.before.Heads r
  | .onDispatched r _ => e.before.Heads r ∨ e.dispatched?.isSome
  | .finish q _ _ | .onComplete q _ _ _ | .onAbandoned q _ => q.controllerId = e.before.controllerId
  | .onAdmissionFailure _ | .refresh _ | .load _ | .predictedCompletion _ | .snapshot _ => True

variable {c₀ c c' : EndpointController T F R} {e : Entry T F R} {tr : List (Entry T F R)} {start clock now : T}

/-- A check settles the schedule when it is of the queue head, and changes nothing otherwise. -/
theorem check_schedule {r : DispatchReservation} {s : DispatchState T} (hl : c.Lazy clock) (hc : clock ≤ now)
    (h : c.dispatchState r now = some (s, c')) : (c.Heads r ∧ c'.Settled now) ∨ (¬c.Heads r ∧ c' = c) := by
  rcases dispatchState_cases h with ⟨hn, -, rfl⟩ | ⟨-, hn, -, rfl⟩ | ⟨hh, m, front, rest, hm, hp, -, hch⟩
  · exact Or.inr ⟨fun hh => hn hh.holds, rfl⟩
  · exact Or.inr ⟨hn, rfl⟩
  · have hs : m.Settled now := refresh_settled hl hc hm
    refine Or.inl ⟨hh, ?_⟩
    cases hch with
    | inflightLimit _ => exact hs
    | ready _ _ => exact hs
    | waitUntil _ _ =>
      -- the mark is not a slot
      refine hs.congr ?_ rfl
      simp only [slots, waited, hp, List.map_cons]

omit [Rng R F] in
/-- A release settles the schedule when the request is the controller's own, and changes nothing otherwise. -/
theorem release_schedule {q : InFlightRequest T} {completion : Completion} {latency : T} {b : Bool} (hl : c.Lazy clock)
    (hc : clock ≤ now) (h : (q.controllerId ≠ c.controllerId ∧ b = false ∧ c' = c) ∨
      (q.controllerId = c.controllerId ∧ 0 < c.inflight ∧ b = true ∧
        (c.released q latency now completion).updateRate now = some c')) :
    (q.controllerId = c.controllerId ∧ c'.Settled now) ∨ (q.controllerId ≠ c.controllerId ∧ c' = c) := by
  rcases h with ⟨hq, -, rfl⟩ | ⟨hq, -, -, hu⟩
  · exact Or.inr ⟨hq, rfl⟩
  · obtain ⟨hs, hp⟩ := released_schedule c q latency now completion
    exact Or.inl ⟨hq, updateRate_settled (hl.congr hs hp) hc hu⟩

/-- **One call**: it settles the schedule if it is a call that does, and otherwise reserves or changes nothing. -/
theorem Step.settles (h : Step c e c') (hl : c.Lazy clock) (hnow : e.call.now? = some now) (hc : clock ≤ now) :
    (e.Settles ∧ c'.Settled now) ∨ (¬e.Settles ∧ (c' = c ∨ c' = (c.reserve now).2)) := by
  obtain ⟨call, reply, before, after⟩ := e
  obtain ⟨hb, -, hx⟩ := h
  dsimp only at hb hx hnow
  subst hb
  cases call with
  | reserve t =>
    cases hnow
    have heq : (before.reserve now).2 = c' := congrArg Prod.snd (Option.some.inj hx)
    exact Or.inr ⟨id, Or.inr heq.symm⟩
  | cancel r t =>
    cases hnow
    have heq : (before.cancel r now).2 = c' := congrArg Prod.snd (Option.some.inj hx)
    have hreply : Reply.cancelled (before.cancel r now).1 = reply := congrArg Prod.fst (Option.some.inj hx)
    rw [← hreply]
    rcases cancel_schedule before r now with ⟨hb, hset⟩ | ⟨hb, hsame⟩
    · rw [hb]
      exact Or.inl ⟨rfl, heq ▸ hset⟩
    · rw [hb]
      exact Or.inr ⟨fun h => (by cases h), Or.inl (heq.symm.trans hsame)⟩
  | dispatchState r t =>
    cases hnow
    obtain ⟨⟨s, m⟩, hs, he⟩ := Option.map_eq_some_iff.mp hx
    cases he
    rcases check_schedule hl hc hs with ⟨hh, hset⟩ | ⟨hh, heq⟩
    · exact Or.inl ⟨hh, hset⟩
    · exact Or.inr ⟨hh, Or.inl heq⟩
  | onDispatched r t =>
    cases hnow
    obtain ⟨⟨res, m⟩, hs, he⟩ := Option.map_eq_some_iff.mp hx
    cases he
    rcases onDispatched_cases hs with ⟨s, -, rfl, hd⟩ | ⟨hh, m', front, rest, -, -, -, -, -, -, heq⟩
    · rcases check_schedule hl hc hd with ⟨hh, hset⟩ | ⟨hh, heq⟩
      · exact Or.inl ⟨Or.inl hh, hset⟩
      · refine Or.inr ⟨?_, Or.inl heq⟩
        rintro (hh' | hd')
        · exact hh hh'
        · cases hd'
    · refine Or.inl ⟨Or.inl hh, ?_⟩
      rw [show m = _ from heq]
      exact rebuild_settled _ now
  | finish q completion t =>
    cases hnow
    obtain ⟨⟨b, m⟩, hs, he⟩ := Option.map_eq_some_iff.mp hx
    cases he
    rcases release_schedule hl hc (finish_cases hs) with ⟨hq, hset⟩ | ⟨hq, heq⟩
    · exact Or.inl ⟨hq, hset⟩
    · exact Or.inr ⟨hq, Or.inl heq⟩
  | onComplete q outcome latency t =>
    cases hnow
    obtain ⟨⟨b, m⟩, hs, he⟩ := Option.map_eq_some_iff.mp hx
    cases he
    rcases release_schedule hl hc (onComplete_cases hs) with ⟨hq, hset⟩ | ⟨hq, heq⟩
    · exact Or.inl ⟨hq, hset⟩
    · exact Or.inr ⟨hq, Or.inl heq⟩
  | onAbandoned q t =>
    cases hnow
    obtain ⟨⟨b, m⟩, hs, he⟩ := Option.map_eq_some_iff.mp hx
    cases he
    rcases release_schedule hl hc (onAbandoned_cases 0 hs) with ⟨hq, hset⟩ | ⟨hq, heq⟩
    · exact Or.inl ⟨hq, hset⟩
    · exact Or.inr ⟨hq, Or.inl heq⟩
  | onAdmissionFailure t =>
    cases hnow
    obtain ⟨m, hm, he⟩ := Option.map_eq_some_iff.mp hx
    cases he
    have hl' : Lazy { before with
      failures := before.failures + 1, gradient := before.gradient.onFailureAt now } clock := hl.congr rfl rfl
    exact Or.inl ⟨trivial, updateRate_settled hl' hc hm⟩
  | refresh t =>
    cases hnow
    obtain ⟨m, hm, he⟩ := Option.map_eq_some_iff.mp hx
    cases he
    exact Or.inl ⟨trivial, refresh_settled hl hc hm⟩
  | load t =>
    cases hnow
    obtain ⟨⟨x, m⟩, hm, he⟩ := Option.map_eq_some_iff.mp hx
    cases he
    exact Or.inl ⟨trivial, refresh_settled hl hc (load_cases hm).1⟩
  | predictedCompletion t =>
    cases hnow
    obtain ⟨⟨x, m⟩, hm, he⟩ := Option.map_eq_some_iff.mp hx
    cases he
    exact Or.inl ⟨trivial, refresh_settled hl hc (predictedCompletion_cases hm).1⟩
  | snapshot t =>
    cases hnow
    obtain ⟨⟨x, m⟩, hm, he⟩ := Option.map_eq_some_iff.mp hx
    cases he
    obtain ⟨m', hr, rfl, -⟩ := snapshot_cases hm
    exact Or.inl ⟨trivial, (refresh_settled hl hc hr).congr rfl rfl⟩
  | takeChanges => cases hnow

/-- A call that does not settle the schedule keeps it a line of slots. -/
theorem Step.schedule (h : Step c e c') (hl : c.Lazy clock) (hnow : e.call.now? = some now) (hc : clock ≤ now) :
    (e.Settles ∧ c'.Settled now) ∨ (¬e.Settles ∧ c'.Lazy now) := by
  rcases h.settles hl hnow hc with hset | ⟨hn, rfl | rfl⟩
  · exact Or.inl hset
  · exact Or.inr ⟨hn, hl.mono hc⟩
  · exact Or.inr ⟨hn, reserve_lazy hl hc⟩

/-- The schedule of every reachable controller is a line of slots. -/
theorem run_lazy (h0 : FreshAt c₀ start) (h : Run TimedStep (c₀, start) tr (c, clock)) : c.Lazy clock := by
  refine h.invariant (P := fun s => s.1.Lazy s.2) ?_ fun s e s' hs hl => ?_
  · obtain ⟨config, rng, controllerId, hn⟩ := h0
    obtain ⟨_, _, _, _, _, _, _, _, _, rfl⟩ := newWithRng_cases hn
    exact Slots.Spread.nil
  · obtain ⟨hstep, ⟨t, hnow, hle, hclock⟩ | ⟨-, heq, hclock⟩⟩ := TimedStep.cases hs
    · rw [hclock]
      rcases hstep.schedule hl hnow hle with ⟨-, hset⟩ | ⟨-, hlazy⟩
      · exact hset.lazy
      · exact hlazy
    · rw [hclock, heq]
      exact Lazy.congr hl rfl rfl

/-! ## Exact sums -/

omit [F64 F] [Secs T F] [Rng R F] in
/-- Where nothing saturates, `n` advances add `n` intervals. -/
theorem advance_iterate {interval t : T} {n : ℕ} (h : (checkedAdd t (n • interval)).isSome) :
    (fun t => saturatingAdd t interval)^[n] t = t + n • interval := by
  induction n generalizing t with
  | zero => rw [zero_nsmul, add_zero]; rfl
  | succ n ih =>
    rw [succ_nsmul'] at h
    obtain ⟨h1, hn⟩ := checkedAdd_add h
    rw [Function.iterate_succ_apply, saturatingAdd_exact h1, ih hn, succ_nsmul', add_assoc]

/-- The sums of `load` and of the virtual tail do not saturate. -/
def NothingSaturates (c : EndpointController T F R) (now : T) : Prop :=
  (checkedAdd (c.pacer.nextAt now) (c.queued • c.pacer.interval + c.latency.expectedRtt)).isSome

instance (c : EndpointController T F R) (now : T) : Decidable (NothingSaturates c now) :=
  inferInstanceAs (Decidable (_ = true))

omit [Rng R F] in
theorem nextVirtualSlot_exact {now : T} (hs : c.Settled now) (hn : NothingSaturates c now) :
    c.nextVirtualSlot now = c.pacer.nextAt now + c.queued • c.pacer.interval :=
  hs.nextVirtualSlot.trans (advance_iterate (checkedAdd_add hn).1)

theorem load_exact {x : F} {now : T} (hl : c.Lazy clock) (hc : clock ≤ now) (h : c.load now = some (x, c'))
    (hn : NothingSaturates c' now) :
    x = asSecsF64 (c'.pacer.nextAt now - now + c'.queued • c'.pacer.interval + c'.latency.expectedRtt) := by
  obtain ⟨hr, rfl⟩ := load_cases h
  have hslot := nextVirtualSlot_exact (refresh_settled hl hc hr) hn
  have hle : now ≤ c'.pacer.nextAt now := le_max_right _ _
  have hle' : now ≤ c'.pacer.nextAt now + c'.queued • c'.pacer.interval := hle.trans le_self_add
  rw [hslot, saturatingAdd_exact (checkedAdd_add hn).2, tsub_add_eq_add_tsub hle, tsub_add_eq_add_tsub hle']

theorem virtualTail_exact {view : ControllerSnapshot T F} {now : T} (hl : c.Lazy clock) (hc : clock ≤ now)
    (h : c.snapshot now = some (view, c')) (hn : NothingSaturates c' now) :
    view.virtualTailTat =
      if view.queued = 0 then none else some (c'.pacer.nextAt now + view.queued • c'.pacer.interval) := by
  obtain ⟨m, hr, rfl, htail, hq⟩ := snapshot_cases h
  have hs : m.Settled now := refresh_settled hl hc hr
  have hsum : m.advance^[m.queued] (m.pacer.nextAt now) = m.pacer.nextAt now + m.queued • m.pacer.interval :=
    advance_iterate (checkedAdd_add hn).1
  rw [htail, hq]
  cases hp : m.pending.length with
  | zero =>
    rw [List.length_eq_zero_iff.mp hp]
    rfl
  | succ n =>
    rw [if_neg (Nat.succ_ne_zero n)]
    have hlast : m.slots.getLast? = some (m.advance^[n] (m.pacer.nextAt now)) := by
      rw [hs, hp, Slots.getLast?_iterate]
    have hmap : m.pending.getLast?.map (fun entry => saturatingAdd entry.scheduledAt m.pacer.interval) =
        m.slots.getLast?.map m.advance := by
      rw [slots, List.getLast?_map, Option.map_map]
      rfl
    rw [hmap, hlast, Option.map_some, ← Function.iterate_succ_apply' m.advance n]
    have hlen : m.queued = n + 1 := hp
    rw [hlen] at hsum
    exact congrArg some hsum

/-! ## The canonical form -/

/-- **The virtual queue has a canonical form.** In every history with a clock that does not move back, every call that
settles the schedule leaves entry `i` at `nextAt` advanced `i` times. So `updateRate` leaves the schedule that an
unconditional rebuild would; a cancellation keeps the pacer and leaves the schedule of a queue that never held the
reservation; and where nothing saturates, `load` and the virtual tail are sums of intervals. -/
theorem virtual_queue_canonical (h0 : FreshAt c₀ start) (h : Run TimedStep (c₀, start) tr (c, clock)) :
    (∀ e c' now, TimedStep (c, clock) e (c', now) → e.Settles → ∀ i entry, c'.pending[i]? = some entry →
      entry.scheduledAt = (fun t => saturatingAdd t c'.pacer.interval)^[i] (c'.pacer.nextAt now)) ∧
    (∀ (d m : EndpointController T F R) now, clock ≤ now → d.pending = c.pending → d.pacer = c.pacer → d.updateRate now = some m →
      m.rebuildVirtualQueue now = m) ∧
    (∀ r now c', c.cancel r now = (true, c') → c'.pacer = c.pacer ∧
      ∀ d : EndpointController T F R, d.pacer = c.pacer →
        d.ledger.entries = c.ledger.entries.eraseP (fun entry => entry.1 = r.id) →
        (d.rebuildVirtualQueue now).pending = c'.pending) ∧
    (∀ now x c', clock ≤ now → c.load now = some (x, c') → NothingSaturates c' now →
      x = asSecsF64 (c'.pacer.nextAt now - now + c'.queued • c'.pacer.interval + c'.latency.expectedRtt)) ∧
    ∀ now view c', clock ≤ now → c.snapshot now = some (view, c') → NothingSaturates c' now →
      view.virtualTailTat =
        if view.queued = 0 then none else some (c'.pacer.nextAt now + view.queued • c'.pacer.interval) := by
  have hl := run_lazy h0 h
  refine ⟨fun e c' now he hset i entry hi => ?_, fun d m now hc hp hpacer hu => ?_, fun r now c' hcancel => ?_,
    fun now x c' hc hx hn => load_exact hl hc hx hn, fun now view c' hc hv hn => virtualTail_exact hl hc hv hn⟩
  · obtain ⟨hstep, ⟨t, hnow, hle, hclock⟩ | ⟨hcall, -, -⟩⟩ := TimedStep.cases he
    · obtain rfl : now = t := hclock
      rcases hstep.schedule hl hnow hle with ⟨-, hs⟩ | ⟨hn, -⟩
      · have hlt : i < c'.pending.length := (List.getElem?_eq_some_iff.mp hi).1
        have hslot : c'.slots[i]? = some entry.scheduledAt := by rw [slots, List.getElem?_map, hi]; rfl
        rw [hs, List.getElem?_iterate _ _ _ _ hlt] at hslot
        exact (Option.some.inj hslot).symm
      · exact absurd hset hn
    · unfold Entry.Settles at hset
      rw [hcall] at hset
      exact hset.elim
  · have hd : d.Lazy clock := hl.congr (by rw [slots, slots, hp]) hpacer
    exact (updateRate_settled hd hc hu).rebuild
  · by_cases hh : c.Holds r
    · rw [cancel_held c now hh] at hcancel
      obtain ⟨-, rfl⟩ := Prod.mk.inj hcancel
      refine ⟨rfl, fun d hpacer hent => ?_⟩
      have hent : d.pending.map PendingReservation.entry =
          (c.pending.eraseP fun entry => entry.id = r.id).map PendingReservation.entry := by
        rw [eraseP_entries]; exact hent
      simp only [rebuildVirtualQueue, hpacer]
      exact reschedule_congr _ _ hent
    · rw [cancel_unknown c now hh] at hcancel
      cases (Prod.mk.inj hcancel).1

end

open EndpointController

/-- Three reservations; the first is dispatched, the others wait. -/
def scheduleCalls : List (Call ℕ) := [.reserve 0, .reserve 0, .onDispatched ⟨7, 0⟩ 2, .reserve 9000000]

theorem virtual_queue_canonical_two : ∃ tr c x c', play sample scheduleCalls = some (tr, c) ∧
    c.load 9000001 = some (x, c') ∧ c'.slots = [9000001, 13545456] ∧ NothingSaturates c' 9000001 ∧
    x = asSecsF64 (c'.pacer.nextAt 9000001 - 9000001 + c'.queued • c'.pacer.interval + c'.latency.expectedRtt) := by
  have hp : (play sample scheduleCalls).bind (fun r => (r.2.load 9000001).map fun x =>
      (x.2.slots, decide (NothingSaturates x.2 9000001))) = some ([9000001, 13545456], true) := by decide +kernel
  obtain ⟨⟨tr, c⟩, hr, hload⟩ := Option.bind_eq_some_iff.mp hp
  obtain ⟨⟨x, c'⟩, hx, hres⟩ := Option.map_eq_some_iff.mp hload
  obtain ⟨hs, hn⟩ := Prod.mk.inj hres
  have hrun := play_timed hr (show Ordered 0 scheduleCalls by decide)
  have hsum := (virtual_queue_canonical sample_freshAt hrun).2.2.2.1 9000001 x c' (by decide) hx (of_decide_eq_true hn)
  exact ⟨tr, c, x, c', hr, hx, hs, of_decide_eq_true hn, hsum⟩

/-- An empty queue has no virtual tail. -/
theorem virtual_tail_of_empty_queue : ¬∀ (c₀ c c' : EndpointController ℕ ℚ ℕ) (start clock now : ℕ) tr view,
    FreshAt c₀ start → Run TimedStep (c₀, start) tr (c, clock) → clock ≤ now → c.snapshot now = some (view, c') →
    NothingSaturates c' now → view.virtualTailTat = some (c'.pacer.nextAt now + view.queued • c'.pacer.interval) := by
  intro h
  have hp : (sample.snapshot 0).map (fun r => (r.1.virtualTailTat, decide (NothingSaturates r.2 0))) =
      some (none, true) := by decide +kernel
  obtain ⟨⟨view, c'⟩, hv, hres⟩ := Option.map_eq_some_iff.mp hp
  obtain ⟨htail, hn⟩ := Prod.mk.inj hres
  have htail' := h sample sample c' 0 0 0 [] view sample_freshAt .nil le_rfl hv (of_decide_eq_true hn)
  rw [htail] at htail'
  cases htail'

end Loadpace
