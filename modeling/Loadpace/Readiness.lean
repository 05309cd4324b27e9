import Loadpace.Fluid

/-!
# Readiness is stable

A queue head that was found ready stays due until it is cancelled or dispatched (`ready_kept`): the committed TAT has passed and
inflight has room (`Due`); no other dispatch overtakes the head, so inflight does not grow, and a change of rate has no phase
to scale, so the TAT stays in the past (`Due.step`). A head that is due is dispatched unless its refresh panics
(`Due.dispatches_iff`).

The only fact about floats is that a zero or a NaN stays one when it is divided or multiplied (`NullLaws`).
-/

namespace Loadpace

open Systems EndpointController

/-! ## Nothing left to scale -/

section

variable {T F : Type} [AddCommMonoid T] [LinearOrder T] [Sub T] [Time T] [F64 F] [Secs T F]

/-- A zero of either sign, or no number. -/
def F64.Null (x : F) : Prop := F64.isNan x ∨ (x ≤ 0.0 ∧ 0.0 ≤ x)

/-- No time is a null number of seconds, and a null number stays null. -/
class NullLaws (T F : Type) [AddCommMonoid T] [F64 F] [Secs T F] : Prop where
  asSecsF64_zero : F64.Null (asSecsF64 (0 : T) : F)
  null_div : ∀ x y : F, F64.Null x → F64.Null (x / y)
  null_mul : ∀ x y : F, F64.Null x → F64.Null (x * y)

theorem durationFromSecs_null {x : F} (h : F64.Null x) : (durationFromSecsSaturating x : T) = 0 := by
  have hor : F64.isNan x = true ∨ x ≤ 0.0 := h.imp_right And.left
  simp only [durationFromSecsSaturating, if_pos hor]

theorem saturatingAdd_zero (t : T) : saturatingAdd t 0 = t := by
  simp only [saturatingAdd, checkedAdd_zero]

/-- A change of rate leaves a TAT that has passed in the past. -/
theorem setRate_tat [NullLaws T F] {g g' : Gcra T} {rate : F} {now : T} (h : g.setRate rate now = some g')
    (ht : g.tat ≤ now) : g'.tat ≤ now := by
  obtain ⟨-, rfl | ⟨-, heq⟩⟩ := Gcra.setRate_cases h
  · exact ht
  · have hnull : F64.Null (asSecsF64 (g.tat - now) / asSecsF64 g.interval * asSecsF64 g'.interval : F) := by
      rw [tsub_eq_zero_of_le ht]
      exact NullLaws.null_mul T _ _ (NullLaws.null_div T _ _ NullLaws.asSecsF64_zero)
    rw [heq, durationFromSecs_null hnull, saturatingAdd_zero]

end

/-- Exact arithmetic has one zero. -/
theorem exact_null {F : Type} [Field F] [LinearOrder F] [IsStrictOrderedRing F] [Powers F] {x : F} :
    F64.Null x ↔ x = 0 := by
  have hzero : (0.0 : F) = 0 := by norm_num
  constructor
  · rintro (h | ⟨hle, hge⟩)
    · cases h
    · rw [← hzero]
      exact le_antisymm hle hge
  · intro h
    rw [h]
    exact Or.inr ⟨hzero.ge, hzero.le⟩

theorem exact_nullLaws {T F : Type} [AddCommMonoid T] [Field F] [LinearOrder F] [IsStrictOrderedRing F] [Powers F]
    [Secs T F] (h : (asSecsF64 (0 : T) : F) = 0) : NullLaws T F where
  asSecsF64_zero := exact_null.mpr h
  null_div x y hx := by
    have hx : x = 0 := exact_null.mp hx
    exact exact_null.mpr (show x / y = 0 by rw [hx, zero_div])
  null_mul x y hx := by
    have hx : x = 0 := exact_null.mp hx
    exact exact_null.mpr (show x * y = 0 by rw [hx, zero_mul])

instance machineNullLaws : NullLaws ℕ ℚ := exact_nullLaws (show ((0 : ℕ) : ℚ) / 1000000000 = 0 by norm_num)

open scoped NNReal in
instance exactTimeNullLaws : NullLaws ℝ≥0 ℝ := exact_nullLaws NNReal.coe_zero

/-! ## A head that is due -/

section

variable {T F R : Type} [AddCommMonoid T] [LinearOrder T] [Sub T] [Time T] [F64 F] [Secs T F] [Rng R F]
variable {c₀ c c' : EndpointController T F R} {e : Entry T F R} {tr rest : List (Entry T F R)}
variable {r : DispatchReservation} {start clock now later : T}

/-- The reservation is the queue head, inflight has room, and the committed TAT has passed. -/
structure Due (r : DispatchReservation) (c : EndpointController T F R) (clock : T) : Prop where
  heads : c.Heads r
  room : c.inflight < c.config.maxInflight
  tat : c.pacer.tat ≤ clock

omit [AddCommMonoid T] [Sub T] [Time T] [F64 F] [Secs T F] [Rng R F] [LinearOrder T] in
/-- Two reservations that head one queue are the same. -/
theorem Heads.unique {r' : DispatchReservation} (h : c.Heads r) (h' : c.Heads r') : r' = r := by
  obtain ⟨hc, hid⟩ := h
  obtain ⟨hc', hid'⟩ := h'
  have heq : r.id = r'.id := Option.some.inj (hid.symm.trans hid')
  cases r
  cases r'
  simp_all

/-- A call that keeps the queue head dispatches nothing. -/
theorem Step.dispatches_head (h : Step c e c') (hh : c.Heads r) (hk : e.resolved? ≠ some r) : e.dispatched? = none := by
  by_contra hne
  obtain ⟨⟨r', q⟩, hd⟩ := Option.ne_none_iff_exists'.mp hne
  rcases h.ledger.kinds with ⟨r₁, q₁, waited, rest, t, hcall, hd₁, -, hc, he, -, -⟩ | ⟨-, -, -, -, -, -, -, hn, -⟩ |
    ⟨-, -, hn, -⟩ | ⟨hn, -, -, -⟩
  · have hd₁ : e.dispatched? = some (r₁, q₁) := hd₁
    have hh₁ : c.Heads r₁ := ledger_heads.mp ⟨hc, by rw [Ledger.ids, he]; rfl⟩
    obtain rfl := Heads.unique hh hh₁
    refine hk ?_
    have hcan : e.cancelled? = none := by
      unfold Entry.cancelled?
      rw [hcall]
    rw [Entry.resolved?, hcan, hd₁]
    rfl
  · exact hne hn
  · exact hne hn
  · exact hne hn

/-- A call that keeps the queue head leaves it the head. -/
theorem Step.keeps_head (h : Step c e c') (hh : c.Heads r) (hk : e.resolved? ≠ some r) : c'.Heads r := by
  have hfixed := h.ledger.fixed
  have hline := h.ledger.line
  have hids := e.ids_ticket.2.1
  have hhead : c.ledger.line.waiting.head? = some r.id := (ledger_heads.mpr hh).2
  refine ledger_heads.mp ⟨hh.1.trans hfixed.1.symm, ?_⟩
  show c'.ledger.line.waiting.head? = some r.id
  unfold Entry.ticket? at hids
  -- no ticket of the call takes the head
  have hgone (n : ℕ) (hn : e.resolved?.map DispatchReservation.id = some n) : n ≠ r.id := by
    rintro rfl
    obtain ⟨r', hr', hid⟩ := Option.map_eq_some_iff.mp hn
    have hown := h.own (own_of_resolved hr')
    have heq : r' = r := by
      have hc : r'.controllerId = r.controllerId := hown.trans hh.1.symm
      cases r
      cases r'
      simp_all
    exact hk (heq ▸ hr')
  cases ht : ticketOf e.call e.reply with
  | none =>
    rw [ht] at hline
    rw [show c'.ledger.line = c.ledger.line from hline]
    exact hhead
  | some ticket =>
    rw [ht] at hline hids
    have hline : Tickets.Step c.ledger.line ticket c'.ledger.line := hline
    generalize c.ledger.line = l at hline hhead
    generalize c'.ledger.line = l' at hline
    cases hline with
    | issue next waiting =>
      cases waiting with
      | nil => cases hhead
      | cons _ _ => exact hhead
    | withdraw next n waiting _ =>
      have hne := hgone n hids
      cases waiting with
      | nil => cases hhead
      | cons first others =>
        obtain rfl : first = r.id := Option.some.inj hhead
        have herase : (r.id :: others).erase n = r.id :: others.erase n := List.erase_cons_tail (by simpa using hne.symm)
        show ((r.id :: others).erase n).head? = some r.id
        rw [herase]
        rfl
    | serve next first others => exact absurd (Option.some.inj hhead) (hgone first hids)

/-- Without a dispatch inflight does not grow. -/
theorem Step.inflight_le (h : Step c e c') (hd : e.dispatched? = none) : c'.inflight ≤ c.inflight := by
  rcases h.ledger.kinds with ⟨r₁, q₁, _, _, _, -, hd₁, -⟩ | ⟨q, completion, latency, t, -, -, -, -, hl⟩ |
    ⟨t, -, -, hl⟩ | ⟨-, -, -, hl⟩
  · have hd₁ : e.dispatched? = some (r₁, q₁) := hd₁
    rw [hd] at hd₁
    cases hd₁
  · have hi : c'.ledger.inflight = c.ledger.inflight - 1 := by
      rw [hl]
      cases completion <;> rfl
    have hi : c'.inflight = c.inflight - 1 := hi
    omega
  · exact (congrArg Ledger.inflight hl).le
  · exact hl.inflight.le

/-- **A head that is due stays due** under every call that keeps it. -/
theorem Due.step [NullLaws T F] (hd : Due r c clock) (h : TimedStep (c, clock) e (c', now)) (hk : e.resolved? ≠ some r) :
    Due r c' now := by
  obtain ⟨hstep, htime⟩ := TimedStep.cases h
  have hstep : Step c e c' := hstep
  have hnone := hstep.dispatches_head hd.heads hk
  have hfixed := hstep.ledger.fixed
  have hcfg : c'.config = c.config := hfixed.2
  have hinflight := hstep.inflight_le hnone
  have hle : clock ≤ now := by
    rcases htime with ⟨t, -, hle, heq⟩ | ⟨-, -, heq⟩
    · have heq : now = t := heq
      exact heq ▸ hle
    · have heq : now = clock := heq
      exact heq.ge
  refine ⟨hstep.keeps_head hd.heads hk, hinflight.trans_lt (hcfg ▸ hd.room), ?_⟩
  have htat : c.pacer.tat ≤ now := hd.tat.trans hle
  cases hstep.pacing with
  | still _ hsame =>
    rw [hsame]
    exact htat
  | repaced hnow _ _ hset =>
    rcases htime with ⟨t, hnow', -, heq⟩ | ⟨hcall, -, -⟩
    · have heq : now = t := heq
      obtain rfl := Option.some.inj (hnow'.symm.trans hnow)
      rw [heq] at htat ⊢
      exact setRate_tat hset htat
    · rw [hcall] at hnow
      cases hnow
  | committed _ hsome => rw [hnone] at hsome; cases hsome

theorem run_due [NullLaws T F] (hd : Due r c clock) (h : Run TimedStep (c, clock) rest (c', now))
    (hk : ∀ e ∈ rest, e.resolved? ≠ some r) : Due r c' now := by
  generalize hx : (c', now) = x at h
  induction h generalizing c' now with
  | nil =>
    obtain ⟨rfl, rfl⟩ := Prod.mk.inj hx
    exact hd
  | @snoc rest m e x hr he ih =>
    subst hx
    have hm := ih (fun e he => hk e (List.mem_append_left _ he)) rfl
    exact hm.step he (hk e (List.mem_append_right _ List.mem_cons_self))

/-- A head that was found ready is due. -/
theorem due_of_ready (h : c.dispatchState r now = some (.ready, c')) : Due r c' now := by
  obtain ⟨hh, hm, front, rest, hp, -, hroom, hslot⟩ := ready_cases h
  refine ⟨hh.of_ledger (refresh_ledger hm), hroom, ?_⟩
  exact (le_max_left _ _).trans ((refresh_head hm hp).trans hslot)

/-- **What a check of the queue head finds** when inflight has room: the head is ready when the committed TAT has passed, and
waits for the TAT otherwise. -/
theorem check_head {m : EndpointController T F R} (hh : c.Heads r) (hl : c.Lazy clock) (hle : clock ≤ later)
    (hroom : c.inflight < c.config.maxInflight) (hm : c.refresh later = some m) :
    ∃ front rest, m.pending = front :: rest ∧ m.Heads r ∧ m.inflight < m.config.maxInflight ∧
      ((m.pacer.tat ≤ later ∧ front.scheduledAt = later ∧ c.dispatchState r later = some (.ready, m)) ∨
        (later < m.pacer.tat ∧ front.scheduledAt = m.pacer.tat ∧ c.dispatchState r later =
          some (.waitUntil ((m.waited front rest).recheckAt m.pacer.tat), m.waited front rest))) := by
  have hmroom := (room_of_ledger (refresh_ledger hm)).mpr hroom
  have hmh := hh.of_ledger (refresh_ledger hm)
  obtain ⟨front, rest, hp, -⟩ := hmh.front
  have hslot : front.scheduledAt = m.pacer.nextAt later := (refresh_settled hl hle hm).head hp
  refine ⟨front, rest, hp, hmh, hmroom, ?_⟩
  rcases le_or_gt m.pacer.tat later with hpast | hahead
  · have hslot : front.scheduledAt = later := hslot.trans (max_eq_right hpast)
    exact Or.inl ⟨hpast, hslot, dispatchState_head hh hm hp (.ready hmroom hslot.le)⟩
  · have hslot : front.scheduledAt = m.pacer.tat := hslot.trans (max_eq_left hahead.le)
    have hcheck := dispatchState_head hh hm hp (.waitUntil hmroom (hslot ▸ hahead))
    rw [hslot] at hcheck
    exact Or.inr ⟨hahead, hslot, hcheck⟩

/-- A head that is due is found ready, and is dispatched, whenever its refresh does not panic. -/
theorem Due.dispatch [NullLaws T F] (hd : Due r c clock) (hl : c.Lazy clock) (hle : clock ≤ later)
    {m : EndpointController T F R} (hm : c.refresh later = some m) :
    c.dispatchState r later = some (.ready, m) ∧ ∃ q c', c.onDispatched r later = some (.ok q, c') := by
  obtain ⟨m₁, hrate, -⟩ := refresh_pacing hm
  have htat : m.pacer.tat ≤ later := setRate_tat hrate (hd.tat.trans hle)
  obtain ⟨front, rest, hp, -, hroom, ⟨-, hslot, hready⟩ | ⟨hahead, -⟩⟩ := check_head hd.heads hl hle hd.room hm
  · exact ⟨hready, _, _, onDispatched_ok hd.heads hm hp hroom hslot.le⟩
  · exact absurd hahead (not_lt.mpr htat)

/-- **What keeps a head that is due from its dispatch** is a panic of the refresh. -/
theorem Due.dispatches_iff [NullLaws T F] (hd : Due r c clock) (hl : c.Lazy clock) (hle : clock ≤ later) :
    (∃ q m, c.onDispatched r later = some (.ok q, m)) ↔ (c.refresh later).isSome := by
  constructor
  · rintro ⟨q, m, hok⟩
    rcases onDispatched_cases hok with ⟨s, -, hres, -⟩ | ⟨-, m', front, rest, hm, -⟩
    · cases hres
    · rw [hm]
      rfl
  · intro hsome
    obtain ⟨m, hm⟩ := Option.isSome_iff_exists.mp hsome
    exact (hd.dispatch hl hle hm).2

/-- **A head that was found ready is due** after every history with a clock that does not move back in which it is neither
cancelled nor dispatched. -/
theorem ready_kept [NullLaws T F] {c'' : EndpointController T F R} {clock' : T} (h0 : FreshAt c₀ start)
    (h : Run TimedStep (c₀, start) tr (c, clock)) (he : TimedStep (c, clock) e (c', now))
    (hcall : e.call = .dispatchState r now) (hready : e.reply = .state .ready)
    (h' : Run TimedStep (c', now) rest (c'', clock')) (hkept : ∀ e ∈ rest, e.resolved? ≠ some r) :
    Due r c'' clock' ∧ c''.Lazy clock' := by
  have hdue : Due r c' now := by
    obtain ⟨-, -, hx⟩ := he.1
    rw [hcall, hready] at hx
    obtain ⟨⟨s, m⟩, hs, heq⟩ := Option.map_eq_some_iff.mp hx
    cases heq
    exact due_of_ready hs
  exact ⟨run_due hdue h' hkept, run_lazy h0 ((h.snoc he).append h')⟩

end

end Loadpace
