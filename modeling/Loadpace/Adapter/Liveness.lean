import Loadpace.Sustained
import Loadpace.Adapter.Polling

/-!
# Every request is dispatched

In exact time no request of the Rama and the Tokio adapter waits forever (`every_request_is_dispatched`). A queue head becomes
due: the phase of the pacer falls at the rate of the longest interval or faster (`run_phase_falls`), and inflight, which no other
dispatch raises, falls as requests finish (`Stuck.room`). A head that is due leaves the queue, and with every head that leaves
the others move up.
-/

namespace Loadpace

open Systems EndpointController Notify

open scoped NNReal

/-! ## No refresh panics -/

section

variable {R : Type} [Rng R ℝ] {c₀ c : EndpointController ℝ≥0 ℝ R} {tr : List (Entry ℝ≥0 ℝ R)}

/-- **No refresh panics** after a history whose round-trip times are at most a fifth of the longest duration. -/
theorem refresh_returns (hdraws : UnitDraws R) (h0 : Fresh c₀) (hconfig : c₀.config.expectedRtt ≤ durationMax / 5)
    (h : Run Step c₀ tr c) (hcalls : ∀ e ∈ tr, e.call.Within (durationMax / 5)) (now : ℝ≥0) : (c.refresh now).isSome := by
  obtain ⟨⟨probe, rng⟩, hd⟩ := Option.isSome_iff_exists.mp (probeDecision_isSome hdraws c now)
  have hsets : SetsRate c (.refresh now) { c with probe := probe.active now, probeRng := rng } now := .read trivial rfl hd
  have hcall : (Call.refresh now : Call ℝ≥0).Within (durationMax / 5) := fun q latency now hr => by cases hr
  have hexec := (hsets.returns_iff (run_tuned h0 h)).mpr (hsets.sustained h0 hconfig h hcalls hcall)
  exact (read_isSome_iff (show (Call.refresh now : Call ℝ≥0).IsRead from trivial) rfl).mp hexec

omit [Rng R ℝ] in
/-- A call without an instant releases nothing. -/
theorem Call.within_of_now {bound : ℝ≥0} {call : Call ℝ≥0} (h : call.now?.isSome → call.Within bound) : call.Within bound := by
  intro q latency now hr
  refine h ?_ q latency now hr
  rw [Call.now_of_release hr]
  rfl

/-! ## The phase falls -/

theorem run_interval (h0 : Fresh c₀) (h : Run Step c₀ tr c) : 0 < c.pacer.interval ∧ c.pacer.interval ≤ durationMax := by
  refine h.invariant (P := fun c => 0 < c.pacer.interval ∧ c.pacer.interval ≤ durationMax) ?_ fun c e c' he hc => ?_
  · obtain ⟨config, start, rng, controllerId, hn⟩ := h0
    obtain ⟨_, _, _, _, _, pacer, _, _, hp, rfl⟩ := newWithRng_cases hn
    unfold Gcra.new at hp
    simp only [Option.bind_eq_bind, Option.bind_eq_some_iff] at hp
    obtain ⟨interval, hi, hp⟩ := hp
    obtain rfl := Option.some.inj hp
    obtain ⟨-, hval, hmax⟩ := rateToInterval_exactTime hi
    refine ⟨?_, hmax⟩
    show 0 < interval
    rw [← NNReal.coe_pos, hval]
    exact lt_max_of_lt_right (by norm_num)
  · cases he.pacing with
    | still _ hsame => exact hsame ▸ hc
    | repaced _ _ _ hset =>
      obtain ⟨hpos, hmax, -⟩ := Gcra.setRate_scaled hset
      exact ⟨hpos, hmax⟩
    | committed _ _ _ hset _ heq =>
      obtain ⟨hpos, hmax, -⟩ := Gcra.setRate_scaled hset
      exact heq ▸ ⟨hpos, hmax⟩

/-- What is left of a phase after so long, at the slowest rate. -/
noncomputable def slowest (phase elapsed : ℝ) : ℝ := max 0 (phase - elapsed / ((durationMax : ℝ≥0) : ℝ))

theorem slowest_mono {a b : ℝ} (h : a ≤ b) (elapsed : ℝ) : slowest a elapsed ≤ slowest b elapsed :=
  max_le_max le_rfl (sub_le_sub_right h _)

theorem slowest_add (phase : ℝ) {s t : ℝ} (ht : 0 ≤ t) : slowest (slowest phase s) t = slowest phase (s + t) := by
  have hD := durationMax_pos
  have hle : 0 ≤ t / ((durationMax : ℝ≥0) : ℝ) := div_nonneg ht hD.le
  unfold slowest
  rw [add_div, ← sub_sub]
  rcases le_total (phase - s / ((durationMax : ℝ≥0) : ℝ)) 0 with h | h
  · rw [max_eq_left h, max_eq_left (by linarith), max_eq_left (by linarith)]
  · rw [max_eq_right h]

theorem Gcra.phase_slowest {g : Gcra ℝ≥0} (hpos : 0 < g.interval) (hmax : g.interval ≤ durationMax) {now later : ℝ≥0}
    (h : now ≤ later) : g.phase later ≤ slowest (g.phase now) ((later : ℝ) - now) := by
  rw [g.phase_later h, slowest]
  refine max_le_max le_rfl (sub_le_sub_left ?_ _)
  rw [div_eq_mul_inv]
  refine mul_le_mul_of_nonneg_left ?_ (sub_nonneg.mpr (NNReal.coe_le_coe.mpr h))
  exact inv_anti₀ (NNReal.coe_pos.mpr hpos) (NNReal.coe_le_coe.mpr hmax)

/-- **The phase falls** while nothing is dispatched. -/
theorem run_phase_falls {c' : EndpointController ℝ≥0 ℝ R} {before : List (Entry ℝ≥0 ℝ R)} {clock now : ℝ≥0} (h0 : Fresh c₀)
    (hc : Run Step c₀ before c) (h : Run TimedStep (c, clock) tr (c', now)) (hd : ∀ e ∈ tr, e.dispatched? = none) :
    clock ≤ now ∧ c'.pacer.phase now ≤ slowest (c.pacer.phase clock) ((now : ℝ) - clock) := by
  generalize hx : (c', now) = x at h
  induction h generalizing c' now with
  | nil =>
    obtain ⟨rfl, rfl⟩ := Prod.mk.inj hx
    refine ⟨le_rfl, ?_⟩
    rw [sub_self, slowest, zero_div, sub_zero]
    exact le_max_right _ _
  | @snoc tr m e x hr he ih =>
    subst hx
    obtain ⟨m, t⟩ := m
    obtain ⟨hle, hfalls⟩ := ih (fun e he => hd e (List.mem_append_left _ he)) rfl
    obtain ⟨hpos, hmax⟩ := run_interval h0 (hc.append hr.untimed)
    have hd := hd e (List.mem_append_right _ List.mem_cons_self)
    obtain ⟨hstep, ⟨t', hnow, hlt, heq⟩ | ⟨-, hsame, heq⟩⟩ := TimedStep.cases he
    · obtain rfl : now = t' := heq
      have hlt : t ≤ now := hlt
      refine ⟨hle.trans hlt, ?_⟩
      -- the phase falls up to the call, and a change of rate does not raise it
      have hrate : c'.pacer.phase now ≤ m.pacer.phase now := by
        cases hstep.pacing with
        | still _ hsame =>
          have hsame : c'.pacer = m.pacer := hsame
          rw [hsame]
        | repaced hnow' _ _ hset =>
          obtain rfl := Option.some.inj (hnow.symm.trans hnow')
          obtain ⟨-, -, heq | hphase⟩ := Gcra.setRate_scaled hset
          · rw [heq]
          · exact hphase.trans_le (min_le_left _ _)
        | committed _ hsome _ _ _ _ =>
          rw [hd] at hsome
          cases hsome
      have hlater := (hrate.trans (Gcra.phase_slowest hpos hmax hlt)).trans (slowest_mono hfalls _)
      rwa [slowest_add _ (sub_nonneg.mpr (NNReal.coe_le_coe.mpr hlt)), add_comm, sub_add_sub_cancel] at hlater
    · obtain rfl : now = t := heq
      obtain rfl : c' = { m with changes := ControllerChanges.none } := hsame
      exact ⟨hle, hfalls⟩

end

/-! ## A head becomes due -/

section

variable {T F R : Type} [AddCommMonoid T] [LinearOrder T] [Sub T] [Time T] [F64 F] [Secs T F] [Rng R F]
variable {S : System T F R} {ρ : Endless S.Step} {c₀ : EndpointController T F R} {start : T} {m n k : ℕ}
variable {s : Clients T F R} {i : ℕ} {r : DispatchReservation}

theorem System.Reached.config (h : S.Reached ρ c₀ start k) : (S.view (ρ.state k)).controller.config = c₀.config := by
  obtain ⟨tr, clock, hpast, -, -⟩ := h.past
  exact (run_fixed hpast.untimed).2

theorem System.Reached.clock_le (h : ∀ k, S.Reached ρ c₀ start k) (hle : m ≤ k) :
    (S.view (ρ.state m)).clock ≤ (S.view (ρ.state k)).clock := by
  induction k, hle using Nat.le_induction with
  | base => exact le_rfl
  | succ k _ ih => exact ih.trans (h k).step.clock_le

/-- What the steps between two moments do to the line. -/
theorem System.Reached.line (h : ∀ k, S.Reached ρ c₀ start k) (hle : m ≤ k) : ∃ tr,
    Run Tickets.Step (S.view (ρ.state m)).controller.ledger.line tr (S.view (ρ.state k)).controller.ledger.line := by
  induction k, hle using Nat.le_induction with
  | base => exact ⟨_, .nil⟩
  | succ k _ ih =>
    obtain ⟨tr, hrun⟩ := ih
    obtain ⟨⟨clock, -, hturn⟩, -⟩ := (h k).step.history (h k).inv le_rfl
    exact ⟨_, hrun.append (run_line hturn.untimed)⟩

theorem System.Reached.ordered (h : S.Reached ρ c₀ start k) (h0 : Fresh c₀) :
    (S.view (ρ.state k)).controller.ledger.line.Ordered := by
  obtain ⟨tr, clock, hpast, -, -⟩ := h.past
  exact Tickets.ordered_of_run (run_tickets h0 hpast.untimed)

theorem Clients.Inv.queued_mem (h : s.Inv) (hq : s.Queued i r) : r.id ∈ ids s.controller.pending := by
  obtain ⟨wait, hx⟩ := hq
  exact h.in_line (List.mem_of_getElem? hx) rfl

/-- The queue head is the reservation of a request. -/
theorem Clients.Inv.head (h : s.Inv) {id : ℕ} {rest : List ℕ} (hids : ids s.controller.pending = id :: rest) :
    ∃ j r, s.Queued j r ∧ s.controller.Heads r ∧ r.id = id := by
  have hmem : id ∈ tickets s.clients := h.line.symm.subset (hids ▸ List.mem_cons_self)
  obtain ⟨⟨purpose, wait⟩, hx, hticket⟩ := List.mem_filterMap.mp hmem
  obtain ⟨j, hj⟩ := List.getElem?_of_mem hx
  cases purpose with
  | queued r =>
    obtain rfl : r.id = id := Option.some.inj hticket
    refine ⟨j, r, ⟨wait, hj⟩, ⟨(h.holds hx rfl).1, ?_⟩, rfl⟩
    rw [hids]
    rfl
  | inflight _ => cases hticket
  | finished => cases hticket

/-- A head that stays queued. -/
structure Stuck (S : System T F R) (ρ : Endless S.Step) (n i : ℕ) (r : DispatchReservation) : Prop where
  queued : ∀ k, n ≤ k → (S.view (ρ.state k)).Queued i r
  heads : (S.view (ρ.state n)).controller.Heads r

theorem Stuck.step (h : Stuck S ρ n i r) (hr : ∀ k, S.Reached ρ c₀ start k) (hk : n ≤ k) :
    (S.view (ρ.state k)).controller.Heads r ∧
      (S.view (ρ.state (k + 1))).controller.inflight ≤ (S.view (ρ.state k)).controller.inflight := by
  induction k, hk using Nat.le_induction with
  | base => exact ⟨h.heads, ((hr n).step.keeps_head (hr n).inv h.heads (h.queued _ (Nat.le_succ n))).2⟩
  | succ k hk ih =>
    have hheads := ((hr k).step.keeps_head (hr k).inv ih.1 (h.queued _ (Nat.le_succ_of_le hk))).1
    exact ⟨hheads, ((hr _).step.keeps_head (hr _).inv hheads (h.queued _ (by omega))).2⟩

/-- No request is in flight forever. -/
def Finishes (S : System T F R) (ρ : Endless S.Step) : Prop :=
  ∀ j n : ℕ, ∃ k, n ≤ k ∧ ∀ x : Client T, (S.view (ρ.state k)).clients[j]? = some x → x.purpose.isInflight = false

/-- **Inflight has room** in the end while a head stays queued. -/
theorem Stuck.room (h : Stuck S ρ n i r) (h0 : Fresh c₀) (hr : ∀ k, S.Reached ρ c₀ start k) (hfinishes : Finishes S ρ) :
    ∃ m, n ≤ m ∧ ∀ k, m ≤ k →
      (S.view (ρ.state k)).controller.inflight < (S.view (ρ.state k)).controller.config.maxInflight := by
  obtain ⟨m, hm, hsettled⟩ : ∃ m, n ≤ m ∧ ∀ k, m ≤ k →
      (S.view (ρ.state k)).controller.inflight = (S.view (ρ.state m)).controller.inflight :=
    settles fun k hk => (h.step hr hk).2
  refine ⟨m, hm, fun k hk => ?_⟩
  rw [hsettled k hk, (hr k).config]
  by_contra hfull
  have hpos : 0 < c₀.config.maxInflight := by
    obtain ⟨config, now, rng, controllerId, hn⟩ := h0
    obtain ⟨-, hmax, -, _, _, _, _, _, _, rfl⟩ := newWithRng_cases hn
    exact hmax
  -- a request that is in flight then stays so
  have hwork (k : ℕ) := (hr k).inv.work
  have hsome : 0 < inflights (S.view (ρ.state m)).clients := by
    rw [hwork m]
    omega
  obtain ⟨⟨purpose, wait⟩, hx, hin⟩ := List.countP_pos_iff.mp hsome
  obtain ⟨j, hj⟩ := List.getElem?_of_mem hx
  cases purpose with
  | queued _ => cases hin
  | finished => cases hin
  | inflight q =>
    have hstays {k : ℕ} (hk : m ≤ k) : ∃ y, (S.view (ρ.state k)).clients[j]? = some y ∧ y.purpose = .inflight q := by
      induction k, hk using Nat.le_induction with
      | base => exact ⟨_, hj, rfl⟩
      | succ k hk ih =>
        obtain ⟨y, hy, hpurpose⟩ := ih
        refine ((hr k).step.inflights_lt hy hpurpose).resolve_right fun hlt => ?_
        have hsame := hsettled k hk
        have hsame' := hsettled (k + 1) (Nat.le_succ_of_le hk)
        rw [hwork, hwork] at hlt
        omega
    obtain ⟨k', hk', hout⟩ := hfinishes j m
    obtain ⟨y, hy, hpurpose⟩ := hstays hk'
    have hout := hout y hy
    rw [hpurpose] at hout
    cases hout

end

section

variable {R : Type} [Rng R ℝ] {s s' : Clients ℝ≥0 ℝ R} {ev : Event ℝ≥0 ℝ R} {i : ℕ} {r : DispatchReservation}

theorem Clients.Step.phase_falls (h : Clients.Step s ev s') (hi : s.Inv) (hh : s.controller.Heads r) (hq : s'.Queued i r) :
    s'.controller.pacer.phase s'.clock ≤ slowest (s.controller.pacer.phase s.clock) ((s'.clock : ℝ) - s.clock) := by
  obtain ⟨c₀, tr, h0, hrun⟩ := hi.reached
  obtain ⟨⟨clock, hle, hturn⟩, -⟩ := h.history hi le_rfl
  obtain ⟨-, hnone, -⟩ := run_kept hh hturn (h.unresolved hi hq)
  obtain ⟨-, hfalls⟩ := run_phase_falls h0 hrun hturn hnone
  obtain ⟨hpos, hmax⟩ := run_interval h0 (hrun.append hturn.untimed)
  have hlater := (Gcra.phase_slowest hpos hmax hle).trans (slowest_mono hfalls _)
  rwa [slowest_add _ (sub_nonneg.mpr (NNReal.coe_le_coe.mpr hle)), add_comm, sub_add_sub_cancel] at hlater

variable {S : System ℝ≥0 ℝ R} {ρ : Endless S.Step} {c₀ : EndpointController ℝ≥0 ℝ R} {start : ℝ≥0} {n : ℕ}

/-- **The committed TAT passes** while a head stays queued. -/
theorem Stuck.tat (h : Stuck S ρ n i r) (h0 : Fresh c₀) (hr : ∀ k, S.Reached ρ c₀ start k)
    (htime : ∀ t, ∃ k, t ≤ (S.view (ρ.state k)).clock) :
    ∃ m, n ≤ m ∧ ∀ k, m ≤ k → (S.view (ρ.state k)).controller.pacer.tat ≤ (S.view (ρ.state k)).clock := by
  have hfalls {k : ℕ} (hk : n ≤ k) : (S.view (ρ.state k)).controller.pacer.phase (S.view (ρ.state k)).clock ≤
      slowest ((S.view (ρ.state n)).controller.pacer.phase (S.view (ρ.state n)).clock)
        ((S.view (ρ.state k)).clock - (S.view (ρ.state n)).clock) := by
    induction k, hk using Nat.le_induction with
    | base =>
      rw [sub_self, slowest, zero_div, sub_zero]
      exact le_max_right _ _
    | succ k hk ih =>
      have hstep := (hr k).step.phase_falls (hr k).inv (h.step hr hk).1 (h.queued _ (Nat.le_succ_of_le hk))
      have hclock := sub_nonneg.mpr (NNReal.coe_le_coe.mpr (hr k).step.clock_le)
      have hlater := hstep.trans (slowest_mono ih _)
      rw [slowest_add _ hclock] at hlater
      refine hlater.trans_eq (congrArg _ ?_)
      ring
  have hD := durationMax_pos
  generalize hφ : (S.view (ρ.state n)).controller.pacer.phase (S.view (ρ.state n)).clock = φ at hfalls
  obtain ⟨m, hm⟩ := htime ((S.view (ρ.state n)).clock + (φ * ((durationMax : ℝ≥0) : ℝ)).toNNReal)
  refine ⟨max n m, le_max_left _ _, fun k hk => ?_⟩
  obtain ⟨hn, hm'⟩ := max_le_iff.mp hk
  obtain ⟨tr, clock, hpast, -, -⟩ := (hr k).past
  refine (Gcra.phase_eq_zero (run_interval h0 hpast.untimed).1).mp (le_antisymm ((hfalls hn).trans_eq ?_) (Gcra.phase_nonneg _ _))
  -- so much time has passed
  have hle := NNReal.coe_le_coe.mpr (hm.trans (System.Reached.clock_le hr hm'))
  rw [NNReal.coe_add] at hle
  have htime := Real.le_coe_toNNReal (φ * ((durationMax : ℝ≥0) : ℝ))
  refine max_eq_left (sub_nonpos.mpr ((le_div_iff₀ hD).mpr ?_))
  linarith

end

/-! ## Every request leaves the queue -/

section

variable {R : Type} {S : System ℝ≥0 ℝ R} {P : S.Polls} {ρ : Endless S.Step} {bound : ℝ≥0} {σ : S.State}

/-- A run that forgets no future and no broadcast, whose clock runs on, in which requests in flight finish, and no
round-trip time is longer than `bound`. -/
structure System.Polls.Lively (P : S.Polls) (bound : ℝ≥0) (ρ : Endless S.Step) : Prop where
  fair : P.Fair ρ
  time : ∀ t, ∃ k, t ≤ (S.view (ρ.state k)).clock
  finishes : Finishes S ρ
  within : ∀ k, ∀ e ∈ (ρ.label k).2.entries, e.call.Within bound

theorem System.Polls.Lively.cons {x : S.Label × Event ℝ≥0 ℝ R} (h : P.Lively bound ρ)
    (hs : S.Step σ x (ρ.state 0)) (hx : ∀ e ∈ x.2.entries, e.call.Within bound) : P.Lively bound (ρ.cons hs) where
  fair := ⟨fun i => (h.fair.polls i).cons hs, h.fair.broadcasts.cons hs⟩
  time t := by
    obtain ⟨k, hk⟩ := h.time t
    exact ⟨k + 1, hk⟩
  finishes j n := by
    obtain ⟨k, hk, hout⟩ := h.finishes j n
    exact ⟨k + 1, Nat.le_succ_of_le hk, hout⟩
  within k := by
    cases k with
    | zero => exact hx
    | succ k => exact h.within k

/-- A run before a lively one. -/
theorem System.Polls.Lively.after {tr : List (S.Label × Event ℝ≥0 ℝ R)} (h : P.Lively bound ρ)
    (hrun : Run S.Step σ tr (ρ.state 0)) (htr : ∀ x ∈ tr, ∀ e ∈ x.2.entries, e.call.Within bound) :
    ∃ ρ' : Endless S.Step, ρ'.state 0 = σ ∧ P.Lively bound ρ' := by
  induction tr generalizing σ with
  | nil => exact ⟨ρ, hrun.nil_inv, h⟩
  | cons x tr ih =>
    obtain ⟨σ', hx, hrest⟩ := hrun.cons_inv
    obtain ⟨ρ', hstart, hl⟩ := ih hrest fun y hy => htr y (List.mem_cons_of_mem x hy)
    have hs : S.Step σ x (ρ'.state 0) := hstart ▸ hx
    exact ⟨ρ'.cons hs, rfl, hl.cons hs (htr x List.mem_cons_self)⟩

end

section

variable {R : Type} [Rng R ℝ] {S : System ℝ≥0 ℝ R} {P : S.Polls} {ρ : Endless S.Step}
variable {c₀ : EndpointController ℝ≥0 ℝ R} {start : ℝ≥0} {n i : ℕ} {r : DispatchReservation}
variable (hP : P.Sound) (hS : S.Sound) (hdraws : UnitDraws R) (h0 : FreshAt c₀ start)
variable (hconfig : c₀.config.expectedRtt ≤ durationMax / 5) (hρ : ρ.state 0 = S.start c₀ start)
variable (hl : P.Lively (durationMax / 5) ρ)

include hP hS hdraws h0 hconfig hρ hl

/-- **A head leaves the queue.** -/
theorem System.Polls.Sound.head_leaves (i : ℕ) (hh : (S.view (ρ.state n)).controller.Heads r) :
    ∃ k, n ≤ k ∧ ¬(S.view (ρ.state k)).Queued i r := by
  by_contra hnever
  push Not at hnever
  have hr := hS.reached h0.fresh hρ
  have hstuck : Stuck S ρ n i r := ⟨hnever, hh⟩
  obtain ⟨m₁, hm₁, htat⟩ := hstuck.tat h0.fresh hr hl.time
  obtain ⟨m₂, hm₂, hroom⟩ := hstuck.room h0.fresh hr hl.finishes
  have hm : n ≤ max m₁ m₂ := hm₁.trans (le_max_left _ _)
  have hdue : Due r (S.view (ρ.state (max m₁ m₂))).controller (S.view (ρ.state (max m₁ m₂))).clock :=
    ⟨(hstuck.step hr hm).1, hroom _ (le_max_right _ _), htat _ (le_max_left _ _)⟩
  have hreturns (k : ℕ) : ((S.view (ρ.state k)).controller.refresh (S.view (ρ.state k)).clock).isSome := by
    obtain ⟨tr, clock, hpast, -, hentries⟩ := (hr k).past
    refine refresh_returns hdraws h0.fresh hconfig hpast.untimed (fun e he => Call.within_of_now fun hnow => ?_) _
    obtain ⟨j, hj⟩ := hentries e he hnow
    exact hl.within j e hj
  obtain ⟨k, hk, hgone⟩ := hP.leaves hS h0 hρ hl.fair hreturns (hnever _ hm) hdue
  exact hgone (hnever _ (hm.trans (Nat.le_succ_of_le hk)))

/-- **A queued request leaves the queue**, after the heads before it. -/
theorem System.Polls.Sound.request_leaves (hq : (S.view (ρ.state n)).Queued i r) :
    ∃ k, n ≤ k ∧ ¬(S.view (ρ.state k)).Queued i r := by
  have hr := hS.reached h0.fresh hρ
  generalize hp : (S.view (ρ.state n)).controller.ledger.line.place r.id = p
  induction p using Nat.strong_induction_on generalizing n with
  | _ p ih =>
    subst hp
    have hmem := (hr n).inv.queued_mem hq
    obtain ⟨id, rest, hids⟩ := List.exists_cons_of_ne_nil (List.ne_nil_of_mem hmem)
    obtain ⟨j, head, hqueued, hheads, rfl⟩ := (hr n).inv.head hids
    obtain ⟨k, hk, hstays, hgone⟩ :=
      ends_at hqueued (hP.head_leaves hS hdraws h0 hconfig hρ hl j hheads)
    have hleft := ((hr k).step.leaves (hr k).inv hstays hgone).1
    by_cases hstill : (S.view (ρ.state (k + 1))).Queued i r
    · -- the request has moved up
      have hmem' := (hr (k + 1)).inv.queued_mem hstill
      have hlt : head.id < r.id := by
        have hsorted := (hr n).inv.sorted
        rw [hids] at hsorted hmem
        refine (List.pairwise_cons.mp hsorted).1 _ ((List.mem_cons.mp hmem).resolve_left fun heq => ?_)
        exact hleft (heq ▸ hmem')
      obtain ⟨tr, hrun⟩ := System.Reached.line hr (Nat.le_succ_of_le hk)
      have hhead : head.id ∈ ids (S.view (ρ.state n)).controller.pending := hids ▸ List.mem_cons_self
      rw [← ledger_ids] at hmem hhead hleft
      obtain ⟨k', hk', hgone'⟩ := ih _ (Tickets.run_place_lt ((hr n).ordered h0.fresh) hmem hrun hlt hhead hleft) hstill rfl
      exact ⟨k', by omega, hgone'⟩
    · exact ⟨k + 1, by omega, hstill⟩

end

/-- The adapters whose requests have futures of their own. -/
inductive Poller
  | tokio
  | rama

section

variable (T F R : Type) [AddCommMonoid T] [LinearOrder T] [Sub T] [Time T] [F64 F] [Secs T F] [Rng R F]

def Poller.adapter : Poller → Adapter
  | .tokio => .tokio
  | .rama => .rama

def Poller.polls : (poller : Poller) → (poller.adapter.system T F R).Polls
  | .tokio => Tokio.polls
  | .rama => Rama.polls

theorem Poller.sound (poller : Poller) : (poller.polls T F R).Sound := by
  cases poller with
  | tokio => exact Tokio.polls_sound
  | rama => exact Rama.polls_sound

end

section

variable {R : Type} [Rng R ℝ] {c₀ : EndpointController ℝ≥0 ℝ R} {start : ℝ≥0} {n i : ℕ} {r : DispatchReservation}

/-- **Every request is dispatched**, unless its future is dropped before. -/
theorem every_request_is_dispatched (poller : Poller) {ρ : Endless (poller.adapter.system ℝ≥0 ℝ R).Step}
    (hdraws : UnitDraws R) (h0 : FreshAt c₀ start) (hconfig : c₀.config.expectedRtt ≤ durationMax / 5)
    (hρ : ρ.state 0 = (poller.adapter.system ℝ≥0 ℝ R).start c₀ start)
    (hl : (poller.polls ℝ≥0 ℝ R).Lively (durationMax / 5) ρ)
    (hq : ((poller.adapter.system ℝ≥0 ℝ R).view (ρ.state n)).Queued i r) : ∃ k, n ≤ k ∧
      ((∃ q wait, ((poller.adapter.system ℝ≥0 ℝ R).view (ρ.state (k + 1))).clients[i]? = some ⟨.inflight q, wait⟩) ∨
        (ρ.label k).1 = (poller.adapter.system ℝ≥0 ℝ R).drop i) := by
  have hP := poller.sound ℝ≥0 ℝ R
  have hS := poller.adapter.sound ℝ≥0 ℝ R
  obtain ⟨k, hk, hstays, hgone⟩ := ends_at hq (hP.request_leaves hS hdraws h0 hconfig hρ hl hq)
  have hreached := hS.reached h0.fresh hρ k
  obtain ⟨-, ⟨purpose, wait⟩, hx, ⟨q, hin⟩ | hfinished⟩ := hreached.step.leaves hreached.inv hstays hgone
  · cases hin
    exact ⟨k, hk, Or.inl ⟨q, wait, hx⟩⟩
  · exact ⟨k, hk, Or.inr (hP.drop _ _ _ _ i r _ (hP.placed hρ k) (ρ.steps k) hstays hx hfinished)⟩

end

/-! ## A lively run -/

section

variable {R : Type} [Rng R ℝ] {S : System ℝ≥0 ℝ R} {c₀ : EndpointController ℝ≥0 ℝ R} {start : ℝ≥0} {σ : S.State}
variable {tr : List (S.Label × Event ℝ≥0 ℝ R)}

/-- **A request in flight can always finish.** -/
theorem System.Sound.finish_returns (hS : S.Sound) (h0 : Fresh c₀) (hconfig : c₀.config.expectedRtt ≤ durationMax / 5)
    (h : Run S.Step (S.start c₀ start) tr σ) (htr : ∀ x ∈ tr, ∀ e ∈ x.2.entries, e.call.Within (durationMax / 5))
    {q : InFlightRequest ℝ≥0} {wait : Wait (Option ℝ≥0)} (hx : ⟨.inflight q, wait⟩ ∈ (S.view σ).clients)
    {completion : Completion} (hcall : (Call.finish q completion (S.view σ).clock).Within (durationMax / 5)) :
    ((S.view σ).controller.exec (.finish q completion (S.view σ).clock)).isSome := by
  have hinv := (hS.run h0 h).1
  obtain ⟨⟨clock, -, hpast⟩, hfilter⟩ := hS.history h0 h
  have hinflight : 0 < (S.view σ).controller.inflight := by
    rw [← hinv.work]
    exact List.countP_pos_iff.mpr ⟨_, hx, rfl⟩
  have hsets : SetsRate (S.view σ).controller (.finish q completion (S.view σ).clock) _ _ :=
    .release rfl (hinv.own _ hx) hinflight
  refine (hsets.returns_iff (run_tuned h0 hpast.untimed)).mpr
    (hsets.sustained h0 hconfig hpast.untimed (fun e he => Call.within_of_now fun hnow => ?_) hcall)
  have hmem : e ∈ List.filter (fun e => e.call.now?.isSome) _ := List.mem_filter.mpr ⟨he, hnow⟩
  rw [hfilter] at hmem
  obtain ⟨x, hxtr, hentry⟩ := List.mem_flatMap.mp hmem
  exact htr x hxtr e hentry

/-- A Rama endpoint rests when its only request is gone. -/
theorem Rama.rests (bound : ℝ≥0) (s : Rama.Endpoint ℝ≥0 ℝ R) (hs : s.requests = [⟨.finished, .returned⟩]) :
    ∃ ρ : Endless (Rama.system ℝ≥0 ℝ R).Step, ρ.state 0 = s ∧ Rama.polls.Lively bound ρ := by
  induction hd : s.dispatch generalizing s with
  | zero =>
    -- nothing is left to do but to let the clock run
    let ρ : Endless (Rama.system ℝ≥0 ℝ R).Step := {
      state := fun k => { s with clock := s.clock + k }
      label := fun k => (.tick (s.clock + (k + 1 : ℕ)), .silent)
      steps := fun k => if_pos (add_le_add_right (Nat.cast_le.mpr (Nat.le_succ k)) s.clock) }
    have hrun (k i : ℕ) : (Rama.system ℝ≥0 ℝ R).exec (ρ.state k) (.run i) = none := by
      show Rama.Endpoint.run _ i = none
      unfold Rama.Endpoint.run
      dsimp only [ρ]
      rw [hs]
      cases i <;> rfl
    have hnotify (k : ℕ) : (Rama.system ℝ≥0 ℝ R).exec (ρ.state k) .notifyDispatch = none := by
      show Rama.Endpoint.exec _ .notifyDispatch = none
      simp only [Rama.Endpoint.exec, ρ, hd]
    refine ⟨ρ, ?_, ⟨⟨fun i n hen => ?_, fun n hen => ?_⟩, fun t => ?_, fun j n => ⟨n, le_rfl, fun x hx => ?_⟩, ?_⟩⟩
    · show { s with clock := s.clock + ((0 : ℕ) : ℝ≥0) } = s
      rw [Nat.cast_zero, add_zero]
    · obtain ⟨⟨l, ev⟩, s', rfl, he⟩ := hen n le_rfl
      cases (hrun n i).symm.trans he
    · obtain ⟨⟨l, ev⟩, s', rfl, he⟩ := hen n le_rfl
      cases (hnotify n).symm.trans he
    · obtain ⟨k, hk⟩ := exists_nat_ge t
      exact ⟨k, hk.trans le_add_self⟩
    · have hx : (s.requests.map Rama.Request.client)[j]? = some x := hx
      rw [hs] at hx
      cases j <;> cases hx
      rfl
    · intro k e he
      cases he
  | succ d ih =>
    -- a broadcast is still to be made
    obtain ⟨ρ, hstart, hl⟩ := ih { s with
      dispatch := d
      requests := s.requests.map fun request => { request with place := request.place.notify } } (by rw [hs]; rfl) rfl
    have hnotify : (Rama.system ℝ≥0 ℝ R).Step s (.notifyDispatch, .silent) (ρ.state 0) := by
      show s.exec .notifyDispatch = some (.silent, ρ.state 0)
      rw [hstart]
      simp only [Rama.Endpoint.exec, hd]
      rfl
    exact ⟨ρ.cons hnotify, rfl, hl.cons hnotify fun e he => by cases he⟩

end

/-- The first request of an endpoint. -/
theorem every_request_is_dispatched_one : ∃ (c₀ : EndpointController ℝ≥0 ℝ Unit)
    (ρ : Endless (Rama.system ℝ≥0 ℝ Unit).Step) (r : DispatchReservation), FreshAt c₀ 0 ∧
    ρ.state 0 = (Rama.system ℝ≥0 ℝ Unit).start c₀ 0 ∧ Rama.polls.Lively (durationMax / 5) ρ ∧
    ((Rama.system ℝ≥0 ℝ Unit).view (ρ.state 1)).Queued 0 r ∧ ∃ k, 1 ≤ k ∧
      ((∃ q wait, ((Rama.system ℝ≥0 ℝ Unit).view (ρ.state (k + 1))).clients[0]? = some ⟨.inflight q, wait⟩) ∨
        (ρ.label k).1 = .drop 0) := by
  obtain ⟨c₀, served, ready, begun, changes, σ₁, σ, r, q, hnew, hserve, hqueued, hrun, hserving, hcalls, -⟩ :=
    exactSample_steps
  have h0 : FreshAt c₀ 0 := ⟨exactConfigOf 1, (), 7, hnew⟩
  have hconfig : c₀.config.expectedRtt ≤ durationMax / 5 := by
    obtain ⟨-, -, -, _, _, _, _, _, _, rfl⟩ := newWithRng_cases hnew
    exact le_fifth one_le_two
  have hwithin {e : Entry ℝ≥0 ℝ Unit} (he : e ∈ [served, ready, begun]) : e.call.Within (durationMax / 5) := by
    intro q latency now hr
    rw [hcalls e he] at hr
    cases hr
  have hpolled : ∀ x ∈ [((.run 0, .silent) : Rama.Label ℝ≥0 × Event ℝ≥0 ℝ Unit), (.run 0, ⟨some 0, [ready], changes⟩),
      (.run 0, ⟨some 0, [begun], .none⟩)], ∀ e ∈ x.2.entries, e.call.Within (durationMax / 5) := by
    intro x hx e he
    simp only [List.mem_cons, List.not_mem_nil, or_false] at hx
    rcases hx with rfl | rfl | rfl
    · cases he
    · exact hwithin (List.mem_cons_of_mem _ (List.mem_cons.mpr (Or.inl (List.mem_singleton.mp he))))
    · exact hwithin (List.mem_cons_of_mem _ (List.mem_cons_of_mem _ he))
  have hreserved : ∀ e ∈ [served], e.call.Within (durationMax / 5) :=
    fun e he => hwithin (List.mem_cons.mpr (Or.inl (List.mem_singleton.mp he)))
  -- the wrapped service fails at once
  let call : Call ℝ≥0 := .finish q .failure σ.clock
  have hfailure : call.Within (durationMax / 5) := fun q latency now hr => by cases hr
  have hinflight : ⟨.inflight q, .away⟩ ∈ ((Rama.system ℝ≥0 ℝ Unit).view σ).clients := by
    show _ ∈ σ.requests.map Rama.Request.client
    rw [hserving]
    exact List.mem_singleton.mpr rfl
  have hsome : (σ.controller.exec call).isSome :=
    Rama.system_sound.finish_returns h0.fresh hconfig (.cons hserve hrun) (List.forall_mem_cons.mpr ⟨hreserved, hpolled⟩)
      hinflight hfailure
  obtain ⟨⟨reply, c⟩, hexec⟩ := Option.isSome_iff_exists.mp hsome
  let failed : Entry ℝ≥0 ℝ Unit := { call, reply, before := σ.controller, after := c }
  let σ₂ : Rama.Endpoint ℝ≥0 ℝ Unit := { σ.release failed with requests := σ.requests.set 0 ⟨.finished, .returned⟩ }
  have hrespond : (Rama.system ℝ≥0 ℝ Unit).Step σ (.respond 0 false, ⟨some 0, [failed], .none⟩) σ₂ := by
    show Rama.Endpoint.exec σ (.respond 0 false) = _
    simp only [Rama.Endpoint.exec, Rama.Endpoint.finish, Rama.Endpoint.withController, hserving]
    show ((perform σ.controller call >>= _) >>= _) = _
    rw [perform, hexec]
    rfl
  have hgone : σ₂.requests = [⟨.finished, .returned⟩] := by
    show σ.requests.set 0 _ = _
    rw [hserving]
    rfl
  obtain ⟨ρ₂, hstart₂, hl₂⟩ := Rama.rests (durationMax / 5) σ₂ hgone
  have hfailed : ∀ e ∈ [failed], e.call.Within (durationMax / 5) := fun e he => List.mem_singleton.mp he ▸ hfailure
  have hrespond₂ := hstart₂ ▸ hrespond
  obtain ⟨ρ₁, hstart₁, hl₁⟩ := (hl₂.cons hrespond₂ hfailed).after hrun hpolled
  have hfirst : (Rama.system ℝ≥0 ℝ Unit).Step ((Rama.system ℝ≥0 ℝ Unit).start c₀ 0) (.serve, ⟨some 0, [served], .none⟩)
      (ρ₁.state 0) := hstart₁ ▸ hserve
  have hl := hl₁.cons hfirst hreserved
  have hq : ((Rama.system ℝ≥0 ℝ Unit).view (ρ₁.state 0)).Queued 0 r := by
    rw [hstart₁]
    refine ⟨.away, ?_⟩
    show (σ₁.requests.map Rama.Request.client)[0]? = _
    rw [hqueued]
    rfl
  have hdraws : UnitDraws Unit := fun _ => ⟨le_rfl, one_pos⟩
  exact ⟨c₀, ρ₁.cons hfirst, r, h0, rfl, hl, hq, every_request_is_dispatched .rama hdraws h0 hconfig rfl hl (n := 1) hq⟩

end Loadpace
