import Loadpace.Representable

/-!
# What a sustained rate guarantees

A call that comes to the rate update panics when the operating point does not sustain the round-trip estimate, and only then
(`SetsRate.returns_iff`). Nothing else keeps a queue head from what it was told: a head that was found ready is dispatched at
every later instant at which the rate is sustained (`readiness_is_stable`), and a head that checks again at its deadline finds
its slot or a probe transition there (`wait_deadlines_exact`). Two heads of slow endpoints lose theirs to a panic
(`readiness_lost_to_a_panic`, `deadline_lost_to_a_panic`).
-/

namespace Loadpace

open Systems EndpointController

open scoped NNReal

/-! ## Checks that come to the rate update -/

section

variable {R : Type} [Rng R ℝ] {c₀ c c' m : EndpointController ℝ≥0 ℝ R} {tr : List (Entry ℝ≥0 ℝ R)} {call : Call ℝ≥0}
variable {e : Entry ℝ≥0 ℝ R} {rest : List (Entry ℝ≥0 ℝ R)} {r : DispatchReservation} {start clock now later : ℝ≥0}

/-- What a generator draws is in `[0, 1)`. -/
def UnitDraws (R : Type) [Rng R ℝ] : Prop := ∀ rng : R, 0 ≤ (Rng.random rng : ℝ × R).1 ∧ (Rng.random rng : ℝ × R).1 < 1

theorem maybeStart_isSome (hdraws : UnitDraws R) (s : ProbeState ℝ≥0 ℝ) (rng : R) (now : ℝ≥0) :
    ((ProbeSchedule.default : ProbeSchedule ℝ≥0 ℝ).maybeStart s rng now).isSome := by
  obtain ⟨h0, h1⟩ := hdraws rng
  have hi := randomInterval_exact h0 h1.le (rfl : (Rng.random rng : ℝ × R) = ((Rng.random rng).1, (Rng.random rng).2))
  have hpositive (s : ProbeState ℝ≥0 ℝ) (expiry : ℝ≥0) :
      s.startPositive (ProbeSchedule.default : ProbeSchedule ℝ≥0 ℝ).positiveRateDelta expiry =
        some { s with current := some { kind := .positive 20.0, expiry } } := by
    have hguard : F64.isFinite (20.0 : ℝ) = true ∧ (0.0 : ℝ) < 20.0 := ⟨rfl, by norm_num⟩
    show (guard (F64.isFinite (20.0 : ℝ) = true ∧ (0.0 : ℝ) < 20.0) >>= fun _ => some _) = _
    rw [guard, if_pos hguard]
    rfl
  have hnegative (s : ProbeState ℝ≥0 ℝ) (expiry : ℝ≥0) :
      s.startNegative (ProbeSchedule.default : ProbeSchedule ℝ≥0 ℝ).negativeFactor expiry =
        some { s with current := some { kind := .negative 0.8, expiry } } := by
    have hguard : F64.isFinite (0.8 : ℝ) = true ∧ (0.0 : ℝ) ≤ 0.8 ∧ (0.8 : ℝ) < 1.0 := ⟨rfl, by norm_num, by norm_num⟩
    show (guard (F64.isFinite (0.8 : ℝ) = true ∧ (0.0 : ℝ) ≤ 0.8 ∧ (0.8 : ℝ) < 1.0) >>= fun _ => some _) = _
    rw [guard, if_pos hguard]
    rfl
  unfold ProbeSchedule.maybeStart
  dsimp only
  cases (s.active now).current with
  | some probe => rfl
  | none =>
    dsimp only
    split
    · rfl
    · simp only [hi, hpositive, hnegative, Option.bind_eq_bind, Option.bind_some]
      split
      · rfl
      · split <;> rfl

theorem probeDecision_isSome (hdraws : UnitDraws R) (c : EndpointController ℝ≥0 ℝ R) (now : ℝ≥0) :
    (c.probeDecision now).isSome := by
  unfold probeDecision
  split
  · exact maybeStart_isSome hdraws c.probe c.probeRng now
  · rfl

/-- A check of the queue head comes to the rate update. -/
theorem check_setsRate (hdraws : UnitDraws R) (hh : c.Heads r) (call : Call ℝ≥0) (hcall : call.check? = some (r, now)) :
    ∃ m, SetsRate c call m now := by
  obtain ⟨⟨probe, rng⟩, hd⟩ := Option.isSome_iff_exists.mp (probeDecision_isSome hdraws c now)
  exact ⟨_, .check hcall hh hd⟩

/-- The refresh of a check returns exactly when the rate is sustained. -/
theorem SetsRate.refresh_isSome (h : SetsRate c call m now) (hh : c.Heads r) (hcall : call.check? = some (r, now))
    (ht : Tuned c) : (c.refresh now).isSome ↔ m.Sustained now := by
  rw [← h.returns_iff ht]
  cases call with
  | dispatchState r' t =>
    cases hcall
    rw [exec, Option.isSome_map]
    exact (dispatchState_isSome_iff hh).symm
  | onDispatched r' t =>
    cases hcall
    rw [exec, Option.isSome_map]
    exact (onDispatched_isSome_iff hh).symm
  | _ => cases hcall

/-! ## Readiness -/

/-- **Readiness is stable** while the rate is sustained. In every history with a clock that does not move back, a reservation
that was found ready is dispatched at every later instant at which the operating point sustains the round-trip estimate, and
at no other, whatever calls other than its own cancellation or dispatch lie in between; and it does in every history whose
round-trip times are at most a fifth of the longest duration. -/
theorem readiness_is_stable (hdraws : UnitDraws R) {c'' : EndpointController ℝ≥0 ℝ R} {clock' : ℝ≥0} (h0 : FreshAt c₀ start)
    (h : Run TimedStep (c₀, start) tr (c, clock)) (he : TimedStep (c, clock) e (c', now))
    (hcall : e.call = .dispatchState r now) (hready : e.reply = .state .ready)
    (h' : Run TimedStep (c', now) rest (c'', clock'))
    (hkept : ∀ e ∈ rest, e.resolved? ≠ some r) (hle : clock' ≤ later) :
    ∃ m, SetsRate c'' (.onDispatched r later) m later ∧
      ((∃ q m', c''.onDispatched r later = some (.ok q, m')) ↔ m.Sustained later) ∧
      (c₀.config.expectedRtt ≤ durationMax / 5 → (∀ x ∈ tr ++ [e] ++ rest, x.call.Within (durationMax / 5)) →
        m.Sustained later) := by
  obtain ⟨hdue, hl⟩ := ready_kept h0 h he hcall hready h' hkept
  have hrun := ((h.snoc he).append h').untimed
  obtain ⟨m, hsets⟩ := check_setsRate hdraws hdue.heads (.onDispatched r later) rfl
  refine ⟨m, hsets, ?_, fun hconfig hcalls => ?_⟩
  · rw [hdue.dispatches_iff hl hle]
    exact hsets.refresh_isSome hdue.heads rfl (run_tuned h0.fresh hrun)
  · exact hsets.sustained h0.fresh hconfig hrun hcalls fun q latency t hr => by cases hr

end

/-- A second reservation comes between. -/
theorem readiness_is_stable_two : ∃ c : EndpointController ℝ≥0 ℝ Unit, c.dispatchState ⟨7, 0⟩ 0 = some (.ready, c) ∧
    ∃ q m, (c.reserve 0).2.onDispatched ⟨7, 0⟩ 1 = some (.ok q, m) := by
  obtain ⟨c₀, c, hnew, hreserve, hrefresh, hs, -, hpend, -, hinflight, -⟩ :=
    exactSample_reserved () nano_le_one one_le_durationMax
  have hroom : c.inflight < c.config.maxInflight := hs.room (hinflight.trans_le zero_le_one)
  have hcheck : c.dispatchState ⟨7, 0⟩ 0 = some (.ready, c) :=
    dispatchState_head ⟨hs.controllerId.symm, by rw [hpend]; rfl⟩ hrefresh hpend (.ready hroom le_rfl)
  let first : Entry ℝ≥0 ℝ Unit := { call := .reserve 0, reply := .reserved (.ok ⟨7, 0⟩), before := c₀, after := c }
  let e : Entry ℝ≥0 ℝ Unit := { call := .dispatchState ⟨7, 0⟩ 0, reply := .state .ready, before := c, after := c }
  let second : Entry ℝ≥0 ℝ Unit := {
    call := .reserve 0, reply := .reserved (c.reserve 0).1, before := c, after := (c.reserve 0).2 }
  have hfirst : TimedStep (c₀, 0) first (c, 0) := by
    refine ⟨⟨rfl, rfl, ?_⟩, le_rfl, rfl⟩
    show some ((c₀.reserve 0).map Reply.reserved id) = _
    rw [hreserve]
    rfl
  have he : TimedStep (c, 0) e (c, 0) := by
    refine ⟨⟨rfl, rfl, ?_⟩, le_rfl, rfl⟩
    show (c.dispatchState ⟨7, 0⟩ 0).map _ = _
    rw [hcheck]
    rfl
  have hsecond : TimedStep (c, 0) second ((c.reserve 0).2, 0) := ⟨⟨rfl, rfl, rfl⟩, le_rfl, rfl⟩
  have hdraws : UnitDraws Unit := fun _ => ⟨le_rfl, one_pos⟩
  obtain ⟨m, -, hiff, hfifth⟩ := readiness_is_stable hdraws ⟨_, _, _, hnew⟩ (Run.single hfirst) he rfl rfl (Run.single hsecond)
    (fun d hd hr => by obtain rfl := List.mem_singleton.mp hd; cases hr) (zero_le : (0 : ℝ≥0) ≤ 1)
  refine ⟨c, hcheck, hiff.mpr (hfifth ?_ fun x hx q latency now hr => ?_)⟩
  · obtain ⟨_, _, _, _, _, _, _, _, _, rfl⟩ := newWithRng_cases hnew
    exact le_fifth one_le_two
  · simp only [List.cons_append, List.nil_append, List.mem_cons, List.not_mem_nil, or_false] at hx
    rcases hx with rfl | rfl | rfl <;> cases hr

/-- What is left of a check of `r` at `now` after `first`, and of the calls `rest` that follow it. -/
def playCheck (c₀ : EndpointController ℕ ℚ ℕ) (first : List (Call ℕ)) (r : DispatchReservation) (now : ℕ)
    (rest : List (Call ℕ)) : Option (DispatchState ℕ × List (Entry ℕ ℚ ℕ) × EndpointController ℕ ℚ ℕ) := do
  let (_, c) ← play c₀ first
  let (state, c') ← c.dispatchState r now
  let (tr, c'') ← play c' rest
  some (state, tr, c'')

/-- The histories of such a check. -/
theorem playCheck_run {c₀ c'' : EndpointController ℕ ℚ ℕ} {first rest : List (Call ℕ)} {r : DispatchReservation}
    {start now : ℕ} {state : DispatchState ℕ} {tr' : List (Entry ℕ ℚ ℕ)}
    (h : playCheck c₀ first r now rest = some (state, tr', c''))
    (ho : Ordered start (first ++ .dispatchState r now :: rest)) :
    ∃ tr c c' e, Run TimedStep (c₀, start) tr (c, clockAfter start first) ∧
      TimedStep (c, clockAfter start first) e (c', now) ∧ e.call = .dispatchState r now ∧ e.reply = .state state ∧
      Run TimedStep (c', now) tr' (c'', clockAfter now rest) := by
  simp only [playCheck, Option.bind_eq_bind, Option.bind_eq_some_iff, Option.some.injEq, Prod.mk.injEq] at h
  obtain ⟨⟨tr, c⟩, hfirst, ⟨s, c'⟩, hcheck, ⟨tr₁, m⟩, hrest, rfl, rfl, rfl⟩ := h
  have hsplit (clock : ℕ) (xs ys : List (Call ℕ)) (h : Ordered clock (xs ++ ys)) :
      Ordered clock xs ∧ Ordered (clockAfter clock xs) ys := by
    induction xs generalizing clock with
    | nil => exact ⟨trivial, h⟩
    | cons x xs ih =>
      obtain ⟨hle, h⟩ := h
      obtain ⟨hx, hy⟩ := ih _ h
      exact ⟨⟨hle, hx⟩, hy⟩
  obtain ⟨h1, hle, h2⟩ := hsplit start first _ ho
  refine ⟨tr, c, c', { call := .dispatchState r now, reply := .state s, before := c, after := c' },
    play_timed hfirst h1, ⟨⟨rfl, rfl, ?_⟩, hle, rfl⟩, rfl, rfl, play_timed hrest h2⟩
  show (c.dispatchState r now).map _ = _
  rw [hcheck]
  rfl

/-- A configuration that `new` accepts, with one dispatch in four times `10 ^ 18` seconds. -/
def slowConfig : EndpointConfig ℕ where
  expectedRtt := 4000000000000000000000000000
  initialConcurrency := 1
  queueTolerance := 2000000000000000000000000000
  queueCapacity := 4
  maxInflight := 1024

def slowSample : EndpointController ℕ ℚ ℕ := (EndpointController.newWithRng slowConfig 0 1 7).get (by decide +kernel)

/-- The head of a slow endpoint was found ready at its slot; four admission failures stretch the interval to its longest, and the
next refresh draws a negative probe. -/
theorem readiness_lost_to_a_panic : ¬∀ (c₀ c c' c'' : EndpointController ℕ ℚ ℕ) (e : Entry ℕ ℚ ℕ)
    (tr rest : List (Entry ℕ ℚ ℕ)) (r : DispatchReservation) (start clock now clock' later : ℕ), FreshAt c₀ start →
    Run TimedStep (c₀, start) tr (c, clock) → TimedStep (c, clock) e (c', now) → e.call = .dispatchState r now →
    e.reply = .state .ready → Run TimedStep (c', now) rest (c'', clock') → (∀ e ∈ rest, e.resolved? ≠ some r) →
    clock' ≤ later → ∃ q m, c''.onDispatched r later = some (.ok q, m) := by
  intro h
  have hp : (playCheck slowSample [.reserve 0, .onDispatched ⟨7, 0⟩ 0, .reserve 0] ⟨7, 1⟩ 4000000000000000000000000000
      (List.replicate 4 (.onAdmissionFailure 4000000000000000000000000000))).map
      (fun x => (x.1, x.2.1.map Entry.resolved?, (x.2.2.onDispatched ⟨7, 1⟩ 4000000000000000001000000000).isSome)) =
      some (.ready, [none, none, none, none], false) := by decide +kernel
  obtain ⟨⟨state, rest, c''⟩, hplay, hres⟩ := Option.map_eq_some_iff.mp hp
  simp only [Prod.mk.injEq] at hres
  obtain ⟨rfl, hkept, hnone⟩ := hres
  obtain ⟨tr, c, c', e, hrun, he, hcall, hready, hrest⟩ := playCheck_run hplay (by decide : Ordered 0 _)
  obtain ⟨q, m, hok⟩ := h slowSample c c' c'' e tr rest ⟨7, 1⟩ 0 _ _ _ 4000000000000000001000000000
    ⟨slowConfig, 1, 7, (Option.some_get _).symm⟩ hrun he hcall hready hrest (fun d hd hr => by
      have hmem : d.resolved? ∈ [none, none, none, none] := hkept ▸ List.mem_map_of_mem hd
      rw [hr] at hmem
      revert hmem
      decide) (by decide)
  rw [hok] at hnone
  cases hnone

/-! ## Deadlines -/

section

variable {R : Type} [Rng R ℝ] {c₀ c c' : EndpointController ℝ≥0 ℝ R} {tr : List (Entry ℝ≥0 ℝ R)}
variable {r : DispatchReservation} {start clock now s t : ℝ≥0}

/-- What a recheck at the deadline finds, when it comes to the rate update with the controller as it is in `m`. At its slot the
head is ready, and is dispatched, exactly when the rate is sustained; before its slot a probe transition falls due. Without a
probe transition the rate is sustained; and while it is, the head is dispatched or waits at a probe transition. -/
def ExactDeadline (r : DispatchReservation) (c : EndpointController ℝ≥0 ℝ R) (t : ℝ≥0) : Prop :=
  ∃ front rest m, c.pending = front :: rest ∧ SetsRate c (.dispatchState r t) m t ∧
    ((t = front.scheduledAt ∧ ((∃ m', c.dispatchState r t = some (.ready, m')) ↔ m.Sustained t) ∧
        ((∃ q m', c.onDispatched r t = some (.ok q, m')) ↔ m.Sustained t)) ∨
      (t < front.scheduledAt ∧ c.ProbeDue t ∧ ((c.dispatchState r t).isSome ↔ m.Sustained t))) ∧
    (¬c.ProbeDue t → m.Sustained t) ∧
    (m.Sustained t → (∃ q m', c.onDispatched r t = some (.ok q, m')) ∨
      (c.ProbeDue t ∧ ∃ u m', c.dispatchState r t = some (.waitUntil u, m')))

/-- What a head that was told at `now` to wait until `t` finds. -/
structure ExactWait (r : DispatchReservation) (c : EndpointController ℝ≥0 ℝ R) (now t : ℝ≥0) : Prop where
  later : now < t
  between : ∀ s, now < s → s < t →
    ∃ u m, c.dispatchState r s = some (.waitUntil u, m) ∧ m.probe = c.probe ∧ m.probeRng = c.probeRng
  deadline : ExactDeadline r c t

/-- A refresh at a deadline that is no probe transition returns. -/
theorem Waits.returns (h : Waits r c now t) (hprobe : ¬c.ProbeDue t) : (c.refresh t).isSome := by
  have hu : c.Undisturbed t := fun u hu => by
    rcases h.cases with ⟨-, hle⟩ | ⟨-, hnext⟩
    · exact lt_of_le_of_ne (hle u hu) fun heq => hprobe (probeDue_iff.mpr (heq ▸ hu))
    · exact absurd (probeDue_iff.mpr hnext) hprobe
  obtain ⟨m, hm, -⟩ := h.rested.later h.lt.le hu
  rw [hm]
  rfl

/-- A recheck at the deadline that returns finds the head ready, and then dispatches it, or waiting at a probe transition. -/
theorem Waits.finds (h : Waits r c now t) (hm : c.refresh t = some m) :
    ((∃ m', c.dispatchState r t = some (.ready, m')) ∧ ∃ q m', c.onDispatched r t = some (.ok q, m')) ∨
      (t < c.pacer.tat ∧ c.ProbeDue t ∧ ∃ u m', c.dispatchState r t = some (.waitUntil u, m')) := by
  have hl : c.Lazy t := Slots.Spread.mono h.rested.settled.lazy h.lt.le
  rcases h.cases with ⟨ht, -⟩ | ⟨ht, hnext⟩
  · have hdue : Due r c t := ⟨h.heads, h.room, ht.ge⟩
    obtain ⟨hready, hdispatch⟩ := hdue.dispatch hl le_rfl hm
    exact Or.inl ⟨⟨_, hready⟩, hdispatch⟩
  · obtain ⟨front, rest, hp, -, hroom, ⟨-, hslot, hready⟩ | ⟨-, -, hwait⟩⟩ := check_head h.heads hl le_rfl h.room hm
    · exact Or.inl ⟨⟨_, hready⟩, _, _, onDispatched_ok h.heads hm hp hroom hslot.le⟩
    · exact Or.inr ⟨ht, probeDue_iff.mpr hnext, _, _, hwait⟩

/-- **The deadline is exact.** -/
theorem Waits.exact (hdraws : UnitDraws R) (ht : Tuned c) (h : Waits r c now t) : ExactWait r c now t := by
  refine ⟨h.lt, fun s hs hst => h.before hs.le hst, ?_⟩
  obtain ⟨front, rest, hp, hslot⟩ := h.slot
  obtain ⟨m, hsets⟩ := check_setsRate hdraws h.heads (.dispatchState r t) rfl
  have hreturns : (c.refresh t).isSome ↔ m.Sustained t := hsets.refresh_isSome h.heads rfl ht
  refine ⟨front, rest, m, hp, hsets, ?_, fun hprobe => hreturns.mp (h.returns hprobe), fun hsustained => ?_⟩
  · rcases h.cases with ⟨hslot', -⟩ | ⟨hbefore, hnext⟩
    · have hdue : Due r c t := ⟨h.heads, h.room, hslot'.ge⟩
      have hl : c.Lazy t := Slots.Spread.mono h.rested.settled.lazy h.lt.le
      refine Or.inl ⟨hslot'.trans hslot.symm, ⟨?_, fun hsustained => ?_⟩, (hdue.dispatches_iff hl le_rfl).trans hreturns⟩
      · rintro ⟨m', hready⟩
        rw [← hreturns, (ready_cases hready).2.1]
        rfl
      · obtain ⟨u, hu⟩ := Option.isSome_iff_exists.mp (hreturns.mpr hsustained)
        exact ⟨u, (hdue.dispatch hl le_rfl hu).1⟩
    · exact Or.inr ⟨hslot ▸ hbefore, probeDue_iff.mpr hnext, (dispatchState_isSome_iff h.heads).trans hreturns⟩
  · obtain ⟨u, hu⟩ := Option.isSome_iff_exists.mp (hreturns.mpr hsustained)
    rcases h.finds hu with ⟨-, hdispatch⟩ | ⟨-, hprobe, hwait⟩
    · exact Or.inl hdispatch
    · exact Or.inr ⟨hprobe, hwait⟩

/-! ## Rechecks at the deadlines -/

/-- A recheck at the deadline that has to wait again. -/
def Recheck (r : DispatchReservation) (s : EndpointController ℝ≥0 ℝ R × ℝ≥0) (u : ℝ≥0)
    (s' : EndpointController ℝ≥0 ℝ R × ℝ≥0) : Prop :=
  u = s.2 ∧ s.1.dispatchState r u = some (.waitUntil s'.2, s'.1)

/-- A recheck has to wait again only at a probe transition. -/
theorem Waits.recheck {u : ℝ≥0} (h : Waits r c now t) (hr : Recheck r (c, t) u (c', s)) :
    u = t ∧ Waits r c' t s ∧ c.ProbeDue t := by
  obtain ⟨hu, hw⟩ := hr
  obtain rfl : u = t := hu
  have hw : c.dispatchState r u = some (.waitUntil s, c') := hw
  refine ⟨rfl, waits_of_check h.rested.settled.lazy h.lt.le
    (c.pacer.phase_le_one_later h.lt.le h.rested.phase) hw, ?_⟩
  obtain ⟨-, m, _, _, hm, -⟩ := waitUntil_cases hw
  rcases h.finds hm with ⟨⟨m', hready⟩, -⟩ | ⟨-, hprobe, -⟩
  · rw [hw] at hready
    cases hready
  · exact hprobe

theorem Tuned.recheck {x x' : EndpointController ℝ≥0 ℝ R × ℝ≥0} {u : ℝ≥0} (ht : Tuned x.1) (hr : Recheck r x u x') :
    Tuned x'.1 := by
  refine ht.step (e := { call := .dispatchState r u, reply := .state (.waitUntil x'.2), before := x.1, after := x'.1 })
    ⟨rfl, rfl, ?_⟩
  show (x.1.dispatchState r u).map _ = _
  rw [hr.2]
  rfl

/-- The rechecks that have to wait again are at different probe transitions. -/
theorem run_rechecks {ts : List ℝ≥0} (h : Waits r c now t) (hr : Run (Recheck r) (c, t) ts (c', s)) :
    (∃ last, Waits r c' last s ∧ (now :: ts).getLast? = some last) ∧ (now :: ts ++ [s]).IsChain (· < ·) ∧
      ∀ before u after, ts = before ++ u :: after → ∃ m, Run (Recheck r) (c, t) before (m, u) ∧ m.ProbeDue u := by
  generalize hx : (c', s) = x at hr
  induction hr generalizing c' s with
  | nil =>
    obtain ⟨rfl, rfl⟩ := Prod.mk.inj hx
    refine ⟨⟨now, h, rfl⟩, by simpa using h.lt, fun before u after hts => ?_⟩
    simp at hts
  | @snoc ts m u x hrun he ih =>
    subst hx
    obtain ⟨m, v⟩ := m
    obtain ⟨⟨last, hm, hlast⟩, hchain, hdue⟩ := ih rfl
    obtain ⟨rfl, hw, hprobe⟩ := hm.recheck he
    refine ⟨⟨u, hw, by rw [← List.cons_append, List.getLast?_concat]⟩, ?_, fun before w after hts => ?_⟩
    · rw [← List.cons_append]
      refine List.isChain_append.mpr ⟨hchain, List.isChain_singleton _, fun a ha b hb => ?_⟩
      rw [List.getLast?_concat] at ha
      obtain rfl := Option.some.inj ha
      obtain rfl := Option.some.inj hb
      exact hw.lt
    · rcases List.eq_nil_or_concat after with rfl | ⟨after, y, rfl⟩
      · obtain ⟨rfl, hw'⟩ := List.append_inj' hts rfl
        obtain rfl : u = w := by simpa using hw'
        exact ⟨m, hrun, hprobe⟩
      · rw [List.concat_eq_append, ← List.cons_append, ← List.append_assoc] at hts
        exact hdue before w after (List.append_inj' hts rfl).1

/-- **Deadlines are exact** while the rate is sustained. In every reachable state, a queue head that is told to wait until `t` is
told to wait for a later instant; a check before `t` finds it waiting, with no probe decision and no expiry; and at `t` it is
ready, unless `t` is a probe transition before its slot, or the rate is not sustained there (`ExactWait`). The same holds of
every recheck of a head that checks again only at its deadlines. Each recheck that has to wait again is at a probe transition of
its own, so the head is dispatched at the first recheck that is at none. -/
theorem wait_deadlines_exact (hdraws : UnitDraws R) (h0 : FreshAt c₀ start) (h : Run TimedStep (c₀, start) tr (c, clock))
    (hle : clock ≤ now) (hw : c.dispatchState r now = some (.waitUntil t, c')) :
    ExactWait r c' now t ∧
    ∀ ts c'' t', Run (Recheck r) (c', t) ts (c'', t') → (now :: ts ++ [t']).IsChain (· < ·) ∧
      (∀ before u after, ts = before ++ u :: after → ∃ m, Run (Recheck r) (c', t) before (m, u) ∧ m.ProbeDue u) ∧
      (∃ last, (now :: ts).getLast? = some last ∧ ExactWait r c'' last t') ∧
      (¬c''.ProbeDue t' → ∃ q m, c''.onDispatched r t' = some (.ok q, m)) := by
  have hwaits := waits_of_check (run_lazy h0 h) hle ((run_bounded h0 h).2 now hle) hw
  have hfirst : Recheck r (c, now) now (c', t) := ⟨rfl, hw⟩
  have htuned₀ : Tuned (c, now).1 := run_tuned h0.fresh h.untimed
  have htuned : Tuned (c', t).1 := htuned₀.recheck hfirst
  refine ⟨hwaits.exact hdraws htuned, fun ts c'' t' hr => ?_⟩
  obtain ⟨⟨last, hlast, hget⟩, hchain, hdue⟩ := run_rechecks hwaits hr
  have htuned'' : Tuned (c'', t').1 :=
    hr.invariant (P := fun x => Tuned x.1) htuned fun _ _ _ hstep hx => Tuned.recheck hx hstep
  refine ⟨hchain, hdue, ⟨last, hget, hlast.exact hdraws htuned''⟩, fun hprobe => ?_⟩
  obtain ⟨m, hm⟩ := Option.isSome_iff_exists.mp (hlast.returns hprobe)
  rcases hlast.finds hm with ⟨-, hdispatch⟩ | ⟨-, hdue, -⟩
  · exact hdispatch
  · exact absurd hdue hprobe

end

/-! ## A head that waits, and a panic -/

section

variable {c : EndpointController ℝ≥0 ℝ ℕ} {rtt : ℝ≥0}

theorem steadyDraws : UnitDraws ℕ := by
  intro n
  show 0 ≤ (if n < 2 then (0.5 : ℝ) else 0.12) ∧ (if n < 2 then (0.5 : ℝ) else 0.12) < 1
  split <;> norm_num

/-- A grace of one round trip after feedback at the start. -/
theorem rateAt_first_grace {s : ℝ≥0} (he : c.feedbackEpoch = some { lastFeedbackAt := 0, expectedRtt := rtt })
    (hle : s ≤ rtt) : c.rateAt s = c.probedRateAt s := by
  refine rateAt_grace fun epoch hepoch => ?_
  rw [he] at hepoch
  obtain rfl := Option.some.inj hepoch
  rwa [zero_add]

/-- The negative probe that a decision at the slot starts does not sustain a long round trip. -/
theorem slot_panics (hlong : ((durationMax : ℝ≥0) : ℝ) < 5 / 4 * rtt) (hdemand : c.probingHasDemand = true)
    (hprobe : c.probe = { current := none, nextProbeAt := some rtt }) (hrng : c.probeRng = 2)
    (hconc : c.gradient.concurrency = 1) (hrtt : c.latency.expectedRtt = rtt)
    (hepoch : c.feedbackEpoch = some { lastFeedbackAt := 0, expectedRtt := rtt }) : c.refresh rtt = none := by
  have hafter : rtt < rtt + 1 := lt_add_of_pos_right _ one_pos
  have hdecision : c.probeDecision rtt = some (steadyProbe rtt, 4) := by
    refine decision_negative hdemand ?_ ?_ hrng
    · rw [hprobe]
      rfl
    · rw [hprobe]
      exact le_rfl
  have hrate : rateAt { c with probe := (steadyProbe rtt).active rtt, probeRng := 4 } rtt = 1 / (5 / 4 * rtt) := by
    rw [steadyProbe_active hafter, rateAt_first_grace ?_ le_rfl]
    · exact probedRateAt_negative hconc hrtt rfl hafter
    · exact hepoch
  by_contra hne
  have hsome := (refresh_isSome_iff hdecision).mp (Option.isSome_iff_ne_none.mpr hne)
  obtain ⟨interval, hi⟩ := updateRate_isSome_iff.mp hsome
  rw [hrate] at hi
  obtain ⟨-, hval, hmax⟩ := rateToInterval_exactTime hi
  have hle := (le_max_left _ _).trans (hval.symm.trans_le (NNReal.coe_le_coe.mpr hmax))
  rw [one_div_one_div] at hle
  exact absurd hlong (not_lt.mpr hle)

/-- A head with a long interval: three seconds before its slot, no probe starts, and the next decision is at the slot. -/
theorem longSample (hlo : 3 ≤ rtt) (hhi : rtt ≤ durationMax) (hlong : ((durationMax : ℝ≥0) : ℝ) < 5 / 4 * rtt) :
    ∃ (c₀ c c' : EndpointController ℝ≥0 ℝ ℕ) (tr : List (Entry ℝ≥0 ℝ ℕ)), FreshAt c₀ 0 ∧ Run TimedStep (c₀, 0) tr (c, 0) ∧
      c.dispatchState ⟨7, 1⟩ (rtt - 3) = some (.waitUntil rtt, c') ∧
      (∃ front rest, c'.pending = front :: rest ∧ front.scheduledAt = rtt) ∧ c'.refresh rtt = none := by
  have hnano : Time.fromNanos 1 ≤ rtt := nano_le_one.trans ((by norm_num : (1 : ℝ≥0) ≤ 3).trans hlo)
  obtain ⟨c₀, c, tr, h0, hrun, hs, htat, hheads, hinflight, hepoch⟩ :=
    exactSample_queued (0 : ℕ) hnano hhi
  generalize hnow : (rtt - 3 : ℝ≥0) = now
  have hend : now + 3 = rtt := by rw [← hnow]; exact tsub_add_cancel_of_le hlo
  have hlt : now < rtt := by rw [← hend]; exact lt_add_of_pos_right now three_pos
  have hdecision : c.probeDecision now = some ({ current := none, nextProbeAt := some rtt }, 2) := by
    rw [← hend]
    refine decision_none (demand_of_heads hheads hinflight) (hs.unprobed now) ?_ hs.probeRng
    rw [hs.probe]
    exact le_rfl
  have hrate : rateToInterval (rateAt { c with
      probe := ({ current := none, nextProbeAt := some rtt } : ProbeState ℝ≥0 ℝ).active now, probeRng := 2 } now) =
      some rtt := by
    have hbase : probedRateAt { c with
        probe := ({ current := none, nextProbeAt := some rtt } : ProbeState ℝ≥0 ℝ).active now, probeRng := 2 } now =
        1 / (rtt : ℝ) := by
      show c.gradient.concurrency / ((c.latency.expectedRtt : ℝ≥0) : ℝ) = _
      rw [hs.concurrency, hs.expectedRtt]
    rw [rateAt_first_grace ?_ hlt.le, hbase]
    · exact exactInterval hnano hhi
    · exact hepoch
  obtain ⟨m, hm, hprobe, hrng, hinterval, hset⟩ := refresh_decided hdecision hrate
  have hmtat : m.pacer.tat = rtt := by
    rw [Gcra.setRate_same hset (hinterval.trans hs.interval.symm), htat]
  have hroom : c.inflight < c.config.maxInflight := hs.room hinflight.le
  obtain ⟨front, rest, hpend, hmheads, -, ⟨hpast, -⟩ | ⟨-, hslot, hcheck⟩⟩ :=
    check_head hheads (run_lazy h0 hrun) zero_le hroom hm
  · rw [hmtat] at hpast
    exact absurd hlt (not_lt.mpr hpast)
  · have hled := refresh_ledger hm
    have hdemand : (m.waited front rest).probingHasDemand = true :=
      demand_of_heads (r := ⟨7, 1⟩) ⟨hmheads.1, by rw [← hmheads.2, hpend]; rfl⟩
        ((congrArg Ledger.inflight hled).trans hinflight)
    have hdeadline : (m.waited front rest).recheckAt m.pacer.tat = rtt := by
      have hwprobe : (m.waited front rest).probe = { current := none, nextProbeAt := some rtt } := hprobe
      unfold recheckAt nextDispatchRefreshAt
      rw [hwprobe, hmtat]
      simp only [hdemand, if_true]
      exact min_self _
    rw [hdeadline] at hcheck
    refine ⟨c₀, c, m.waited front rest, tr, h0, hrun, hcheck, ⟨{ front with wasPaced := true }, rest, rfl, ?_⟩, ?_⟩
    · exact hslot.trans hmtat
    · refine slot_panics hlong hdemand hprobe hrng ?_ ?_ ?_
      · exact (congrArg (fun l => l.gradient.concurrency) hled).trans hs.concurrency
      · exact (congrArg (fun l => l.latency.expectedRtt) hled).trans hs.expectedRtt
      · exact (congrArg Ledger.feedbackEpoch hled).trans hepoch

theorem wait_deadlines_exact_probed : ∃ c c' : EndpointController ℝ≥0 ℝ ℕ,
    c.dispatchState ⟨7, 1⟩ 0 = some (.waitUntil (5 / 8), c') ∧ ExactWait ⟨7, 1⟩ c' 0 (5 / 8) ∧
    ∃ q m, c'.onDispatched ⟨7, 1⟩ (5 / 8) = some (.ok q, m) := by
  obtain ⟨c₀, c, c', tr, h0, hrun, hw, hnext, -⟩ := negativeSample
  obtain ⟨hexact, hrechecks⟩ := wait_deadlines_exact steadyDraws h0 hrun le_rfl hw
  refine ⟨c, c', hw, hexact, (hrechecks [] c' (5 / 8) .nil).2.2.2 fun hprobe => ?_⟩
  -- the probe ends at one
  rw [probeDue_iff, hnext] at hprobe
  exact five_eighths_lt_one.ne (Option.some.inj hprobe).symm

/-- The head of an endpoint with a round trip of fifteen times `10 ^ 18` seconds has its slot where a decision falls due: the
negative probe that it starts has no interval. -/
theorem deadline_lost_to_a_panic : ¬∀ (c₀ c c' : EndpointController ℝ≥0 ℝ ℕ) (tr : List (Entry ℝ≥0 ℝ ℕ))
    (r : DispatchReservation) (start clock now t : ℝ≥0), FreshAt c₀ start → Run TimedStep (c₀, start) tr (c, clock) →
    clock ≤ now → c.dispatchState r now = some (.waitUntil t, c') → ∃ front rest, c'.pending = front :: rest ∧
      ((∃ m, c'.dispatchState r t = some (.ready, m)) ∨ (t < front.scheduledAt ∧ c'.ProbeDue t)) := by
  intro h
  have hhi : (15000000000000000000 : ℝ≥0) ≤ durationMax := le_durationMax (by norm_num)
  have hlong : ((durationMax : ℝ≥0) : ℝ) < 5 / 4 * (15000000000000000000 : ℝ≥0) := by
    show ((18446744073709551615999999999 / 1000000000 : ℝ≥0) : ℝ) < _
    push_cast
    norm_num
  obtain ⟨c₀, c, c', tr, h0, hrun, hw, ⟨front, rest, hp, hslot⟩, hpanic⟩ := longSample (by norm_num) hhi hlong
  obtain ⟨front', rest', hp', ⟨m, hready⟩ | ⟨hbefore, -⟩⟩ := h c₀ c c' tr ⟨7, 1⟩ 0 0 _ _ h0 hrun zero_le hw
  · have hm := (ready_cases hready).2.1
    rw [hpanic] at hm
    cases hm
  · obtain ⟨rfl, rfl⟩ := List.cons.inj (hp.symm.trans hp')
    rw [hslot] at hbefore
    exact absurd hbefore (lt_irrefl _)

end

end Loadpace
