import Loadpace.Simulator.Report
import Loadpace.Slowing

/-!
# What the event loop leaves unprocessed

The loop goes on while an arrival or a completion is due by the end of the window: it does not ask for the next dispatch,
and it also stops where the clock cannot represent one more arrival. So the arrivals of the window are all handled, but a
request whose slot has come by the end can stay in its queue (`simulator_leaves_a_slot`), and a completion can stay behind
at the end of the clock. `simulator_processes_window` says when neither happens: when no pass of the loop is one that the
condition of the loop misses.
-/

namespace Loadpace.Simulator

open Systems EndpointController

section

variable {T F R : Type} [AddCommMonoid T] [LinearOrder T] [Sub T] [Time T] [F64 F] [Secs T F] [Rng R F]
variable {e e' : EndpointRuntime T F R} {c : EndpointController T F R} {clock now stop : T}

/-! ## The head of a queue at the end of the window -/

/-- A request is queued, inflight has room, and the committed TAT comes by `stop`. -/
def EndpointRuntime.SlotBy (e : EndpointRuntime T F R) (stop : T) : Prop :=
  e.pending ≠ [] ∧ e.controller.inflight < e.controller.config.maxInflight ∧ e.controller.pacer.tat ≤ stop

/-- A slot that comes by `stop` leaves the head ready there. -/
theorem EndpointRuntime.SlotBy.ready [NullLaws T F] (h : e.SlotBy stop) (hok : e.Ok) (hl : e.controller.Lazy clock)
    (hle : clock ≤ stop) (hm : e.controller.refresh stop = some c) :
    ∃ r rest, e.pending = r :: rest ∧ e.controller.dispatchState r stop = some (.ready, c) := by
  obtain ⟨hne, hroom, htat⟩ := h
  cases hp : e.pending with
  | nil => exact absurd hp hne
  | cons r rest =>
    have hdue : Due r e.controller stop := ⟨hok.heads hp, hroom, htat⟩
    exact ⟨r, rest, rfl, (hdue.dispatch (Slots.Spread.mono hl hle) le_rfl hm).1⟩

theorem nextDispatchAt_of_head {r : DispatchReservation} {rest : List DispatchReservation} {s : DispatchState T}
    (hp : e.pending = r :: rest) (hcheck : e.controller.dispatchState r now = some (s, c)) :
    nextDispatchAt e now = some (wakeAt now s, { e with controller := c }) := by
  unfold nextDispatchAt
  split
  · rename_i hnil
    rw [hp] at hnil
    cases hnil
  · rename_i r' rest' hp'
    obtain ⟨rfl, -⟩ := List.cons.inj (hp.symm.trans hp')
    simp only [Option.bind_eq_bind, hcheck, Option.bind_some]

/-- What the next dispatch of an endpoint at rest is. -/
theorem EndpointRuntime.Rests.wakes {t : T} (h : e.Rests now) (hn : nextDispatchAt e now = some (some t, e')) :
    ∃ r rest, e.pending = r :: rest ∧ e.controller.dispatchState r now = some (.waitUntil t, e.controller) ∧
      e.controller.refresh now = some e.controller ∧ e.controller.inflight < e.controller.config.maxInflight := by
  obtain hnil | ⟨r, rest, s, hp, hcheck, hheld, hidle⟩ := h
  · unfold nextDispatchAt at hn
    rw [hnil] at hn
    cases hn
  · rw [nextDispatchAt_of_head hp hcheck] at hn
    cases hheld with
    | inl hfull =>
      rw [hfull] at hn
      cases hn
    | inr hwait =>
      obtain ⟨u, rfl, -⟩ := hwait
      obtain rfl : u = t := Option.some.inj (Prod.mk.inj (Option.some.inj hn)).1
      obtain ⟨-, m, _, _, hm, -, -, hroom, -⟩ := waitUntil_cases hcheck
      exact ⟨r, rest, hp, hcheck, hidle.refresh, (room_of_ledger (refresh_ledger hm)).mp hroom⟩

/-- Without a probe transition the next dispatch is at the committed slot. -/
theorem EndpointRuntime.Rests.slotBy {t : T} (h : e.Rests now) (hl : e.controller.Lazy now)
    (hn : nextDispatchAt e now = some (some t, e')) (hdue : t ≤ stop) (hu : e.controller.Undisturbed stop) :
    e.SlotBy stop := by
  obtain ⟨r, rest, hp, hcheck, hidle, hroom⟩ := h.wakes hn
  refine ⟨by rw [hp]; exact List.cons_ne_nil _ _, hroom, not_lt.mp fun hahead => ?_⟩
  have hlate := lt_recheckAt_iff.mpr ⟨hahead, hu⟩
  rw [← wait_slot hl hidle hcheck] at hlate
  exact absurd hdue (not_le.mpr hlate)

/-- A head at rest is ready at `stop` only when its next dispatch is due by then. -/
theorem EndpointRuntime.Rests.ready [SlowingLaws T F] {r : DispatchReservation} {rest : List DispatchReservation}
    (h : e.Rests now) (hl : e.controller.Lazy now) (hle : now ≤ stop) (hin : Inside stop) (hp : e.pending = r :: rest)
    (hready : e.controller.dispatchState r stop = some (.ready, c)) :
    ∃ t, nextDispatchAt e now = some (some t, e) ∧ t ≤ stop := by
  obtain hnil | ⟨r', others, s, hp', hcheck, hheld, hidle⟩ := h
  · rw [hp] at hnil
    cases hnil
  · obtain ⟨rfl, rfl⟩ := List.cons.inj (hp.symm.trans hp')
    obtain ⟨hh, hm, -, -, -, -, hroom, -⟩ := ready_cases hready
    rw [room_of_ledger (refresh_ledger hm)] at hroom
    rcases hheld with rfl | ⟨t, rfl, -⟩
    · -- without inflight room the head is not ready
      obtain ⟨m, _, _, hm, -, -, hch⟩ := head_cases hh hcheck
      rw [← room_of_ledger (refresh_ledger hm)] at hroom
      cases hch with
      | inflightLimit hfull => exact absurd hroom (not_lt.mpr hfull)
    · exact ⟨t, nextDispatchAt_of_head hp hcheck,
        not_lt.mp fun hlate => check_waits hl hidle.refresh hcheck hle hlate hin hready⟩

/-! ## The state at which the loop is left -/

variable [SeededRng R] {config : SimulationConfig T F} {start : T} {controllerIds : ℕ → ℕ} {window : Window T} {fuel : ℕ}
variable {s s' s₀ m : Simulation T F R} {rooms : List ℕ}

namespace Simulation

/-- Nothing that is due by the end of the window is left. -/
structure Processed (window : Window T) (s : Simulation T F R) : Prop where
  arrivals : ∀ n, window.start + n • window.arrivalInterval ≤ window.stop → n < s.offered
  completions : ∀ q ∈ s.completions, window.stop < q.completionAt
  dispatches : ∀ e ∈ s.endpoints, ∀ r rest c, e.pending = r :: rest →
    e.controller.dispatchState r window.stop ≠ some (.ready, c)

/-- The loop goes on when the next dispatch of an endpoint is due by the end of the window. -/
def GoesOnForWakes (window : Window T) (s : Simulation T F R) : Prop :=
  ∀ e ∈ s.endpoints, ∀ t e', nextDispatchAt e s.cursor = some (some t, e') → t ≤ window.stop → s.goesOn window.stop = true

/-- The loop goes on when the committed slot of a queue head is due by the end of the window. -/
def GoesOnForSlots (window : Window T) (s : Simulation T F R) : Prop :=
  ∀ e ∈ s.endpoints, e.SlotBy window.stop → s.goesOn window.stop = true

/-- The clock represents the arrival after one that is due. -/
def ArrivesOn (window : Window T) (s : Simulation T F R) : Prop :=
  s.nextArrival ≤ window.stop → (checkedAdd s.nextArrival window.arrivalInterval).isSome

/-- Where the loop does not go on, no probe transition falls up to the end of the window. -/
def QuietEnd (window : Window T) (s : Simulation T F R) : Prop :=
  s.goesOn window.stop = false → ∀ e ∈ s.endpoints, e.controller.Undisturbed window.stop

/-- The next arrival is due, or the clock has represented it. -/
def Dated (window : Window T) (s : Simulation T F R) : Prop :=
  s.nextArrival ≤ window.stop ∨
    ∃ last, last ≤ window.stop ∧ checkedAdd last window.arrivalInterval = some s.nextArrival

end Simulation

omit [F64 F] [Secs T F] [Rng R F] [SeededRng R] in
/-- The clock goes on after the end of the window when it represents an arrival that is later. -/
theorem Simulation.Dated.inside (h : s.Dated window) (hlate : window.stop < s.nextArrival) : Inside window.stop := by
  obtain hdue | ⟨last, hle, hadd⟩ := h
  · exact absurd hlate (not_lt.mpr hdue)
  · obtain ⟨x, hx⟩ := le_iff_exists_add.mp hle
    have hnext := checkedAdd_some hadd
    rw [hnext, hx] at hlate
    have hlt : x < window.arrivalInterval := (add_lt_add_iff_left last).mp hlate
    have hsome : (checkedAdd last (x + (window.arrivalInterval - x))).isSome := by
      rw [add_tsub_cancel_of_le hlt.le, hadd]
      rfl
    exact ⟨window.arrivalInterval - x, tsub_pos_of_lt hlt, hx ▸ (checkedAdd_add hsome).2⟩

/-- A pass keeps the next arrival dated. -/
theorem Simulation.Turn.dated {asked settled arrived : Simulation T F R} (hs : s.Dated window)
    (ht : s.Turn window now asked settled arrived s') : s'.Dated window := by
  have hn' : s'.nextArrival = arrived.nextArrival := by rw [(Simulation.finish_drives ht.finish).2]
  obtain ⟨_, _, -, -, hasked, -⟩ := Simulation.nextEvent_cases ht.event
  have hsn : settled.nextArrival = s.nextArrival := by rw [(Simulation.settle_drives ht.settle).2, hasked]
  unfold Simulation.Dated
  rw [hn']
  cases ht.arrives with
  | none _ =>
    rw [hsn]
    exact hs
  | offers harrival hoffer hsome =>
    obtain ⟨t, hadd⟩ := Option.isSome_iff_exists.mp hsome
    refine Or.inr ⟨settled.nextArrival, harrival ▸ ht.inside, ?_⟩
    rw [hadd, checkedAdd_some hadd]

/-- **The state at which the loop is left**: the books are balanced, every controller has lived a history, the arrivals of
the window are handled, and so are its completions unless the clock ended with the last arrival. -/
theorem Leaves.left (h : Leaves fuel config start controllerIds window s) :
    s.Counted ∧ s.Lives start ∧ s.cursor ≤ window.stop ∧
      (∀ n, window.start + n • window.arrivalInterval ≤ window.stop → n < s.offered) ∧
      (s.nextArrival ≤ window.stop ∨ ∀ q ∈ s.completions, window.stop < q.completionAt) := by
  obtain ⟨s₀, hprepare, hloop⟩ := h
  obtain ⟨m, hr, hp⟩ := loop_left hloop
  have hwindow : ∃ d, checkedAdd window.start d = some window.stop := by
    obtain ⟨interval, endpoints, -, rfl, -, -⟩ := prepare_cases hprepare
    exact saturatingAdd_reached start config.duration
  obtain ⟨ha, hl, -, hc⟩ := reaches_going hr (prepare_going hprepare).1
  have hlives := Simulation.pass_lived hl hp
  have harrived (n : ℕ) (hn : m.offered ≤ n) :
      m.nextArrival ≤ window.start + n • window.arrivalInterval := by
    rw [ha.arrivals]
    exact add_le_add_right (nsmul_le_nsmul_left zero_le hn) window.start
  rcases Simulation.pass_cases hp with ⟨-, hg, rfl⟩ | ⟨hmore, -⟩ | ⟨-, now, asked, settled, hb⟩
  · unfold Simulation.goesOn at hg
    rw [Bool.or_eq_false_iff] at hg
    have hlate : window.stop < s.nextArrival := not_le.mp (of_decide_eq_false hg.1)
    refine ⟨ha.counted, hlives, hc, fun n hn => ?_, Or.inr fun q hq => ?_⟩
    · by_contra hge
      exact absurd (hlate.trans_le (harrived n (not_lt.mp hge))) (not_lt.mpr hn)
    · by_contra hge
      exact List.any_eq_false.mp hg.2 q hq (decide_eq_true (not_lt.mp hge))
  · cases hmore
  · obtain ⟨hsc, -, hseq, -⟩ := Simulation.settled_counted ha.counted hb.event hb.settle
    obtain ⟨hcounted, hoffered, -⟩ := Simulation.offer_spec hsc hb.offer
    obtain ⟨hnext, -, hcursor, -⟩ := Simulation.offer_keeps hb.offer
    rw [hseq] at hnext hcursor hoffered
    refine ⟨hcounted, hlives, by rw [hcursor]; exact hb.inside, fun n hn => ?_, Or.inl ?_⟩
    · by_contra hge
      rw [hoffered, not_lt] at hge
      -- the clock represents every instant of the window
      obtain ⟨d, hd⟩ := hwindow
      have hle : m.offered • window.arrivalInterval + window.arrivalInterval ≤ d := by
        rw [checkedAdd_some hd] at hn
        rw [← succ_nsmul]
        exact (nsmul_le_nsmul_left zero_le hge).trans ((add_le_add_iff_left window.start).mp hn)
      have hsome := (checkedAdd_add (checkedAdd_mono hle (by rw [hd]; rfl))).2
      rw [← ha.arrivals, hb.last] at hsome
      cases hsome
    · rw [hnext, ← hb.arrival]
      exact hb.inside

omit [SeededRng R] in
/-- The refresh of the report. -/
theorem refresh_of_report {report : SimulationReport T F} (h : s.report stop = some report) :
    ∀ e ∈ s.endpoints, ∃ c, e.controller.refresh stop = some c := by
  unfold Simulation.report at h
  simp only [Option.bind_eq_bind, Option.bind_eq_some_iff] at h
  obtain ⟨reports, hreports, -⟩ := h
  intro e he
  obtain ⟨i, hi⟩ := List.mem_iff_getElem?.mp he
  obtain ⟨r, -, hr⟩ := forall₂_get (mapM_some hreports) hi
  unfold EndpointRuntime.report EndpointController.snapshot at hr
  simp only [Option.bind_eq_bind, Option.bind_eq_some_iff] at hr
  obtain ⟨_, ⟨c, hc, -⟩, -⟩ := hr
  exact ⟨c, hc⟩

/-- While the clock goes on after the end of the window, every pass ends at rest. -/
theorem reaches_rests (hin : Inside window.stop) (hr : Reaches (Simulation.pass window) s₀ s)
    (h0 : s₀.Going start window rooms ∧ ∀ e ∈ s₀.endpoints, e.Rests s₀.cursor) :
    s.Going start window rooms ∧ ∀ e ∈ s.endpoints, e.Rests s.cursor := by
  refine hr.invariant (P := fun s => s.Going start window rooms ∧ ∀ e ∈ s.endpoints, e.Rests s.cursor) h0
    fun s s' ⟨hg, _⟩ hp => ?_
  rcases Simulation.pass_cases hp with ⟨hmore, -⟩ | ⟨-, now, asked, settled, arrived, ht⟩ | ⟨hmore, -⟩
  · cases hmore
  · obtain ⟨d, hd, hsome⟩ := hin
    have hrests := (ht.rests ⟨d, hd, checkedAdd_earlier ht.inside hsome⟩ hg.accounts.counted).1
    rw [← (ht.accounts hg.accounts).2.1] at hrests
    exact ⟨ht.going hg hp, hrests⟩
  · cases hmore

theorem reaches_dated (hr : Reaches (Simulation.pass window) s₀ s) (h0 : s₀.Dated window) : s.Dated window := by
  refine hr.invariant (P := Simulation.Dated window) h0 fun s s' hs hp => ?_
  rcases Simulation.pass_cases hp with ⟨hmore, -⟩ | ⟨-, now, asked, settled, arrived, ht⟩ | ⟨hmore, -⟩
  · cases hmore
  · exact ht.dated hs
  · cases hmore

/-- **Where the loop is left by its condition**: the endpoints are at rest, and the clock goes on after the window. -/
theorem loop_left_by_condition (hprepare : prepare config start controllerIds = some (window, s₀))
    (hloop : loop (Simulation.pass window) fuel s₀ = some (some s))
    (harrives : ∀ m, Reaches (Simulation.pass window) s₀ m → m.ArrivesOn window) :
    Reaches (Simulation.pass window) s₀ s ∧ s.goesOn window.stop = false ∧ Inside window.stop ∧
      ∀ e ∈ s.endpoints, e.Rests s.cursor := by
  obtain ⟨m, hr, hp⟩ := loop_left hloop
  rcases Simulation.pass_cases hp with ⟨-, hg, rfl⟩ | ⟨hmore, -⟩ | ⟨-, now, asked, settled, hb⟩
  · obtain ⟨ha, hsteady⟩ := prepare_starts hprepare
    have h0 : s₀.Dated window := by
      obtain ⟨_, _, -, rfl, -, rfl⟩ := prepare_cases hprepare
      exact Or.inl (le_saturatingAdd _ _)
    have hlate : window.stop < s.nextArrival := by
      unfold Simulation.goesOn at hg
      rw [Bool.or_eq_false_iff] at hg
      exact not_le.mp (of_decide_eq_false hg.1)
    have hin := (reaches_dated hr h0).inside hlate
    exact ⟨hr, hg, hin, (reaches_rests hin hr ⟨(prepare_going hprepare).1, hsteady.rests⟩).2⟩
  · cases hmore
  · have hsome := harrives m hr (hb.arrival ▸ hb.inside)
    rw [hb.last] at hsome
    cases hsome

/-- The loop is left at the first state at which it does not go on. -/
theorem left_at (hloop : loop (Simulation.pass window) fuel s₀ = some (some s))
    (hr : Reaches (Simulation.pass window) s₀ m) (hg : m.goesOn window.stop = false) : m = s := by
  obtain ⟨fuel', hm⟩ := hr.loop hloop
  have hp : m.pass window = some (false, m) := by
    unfold Simulation.pass
    rw [hg]
    rfl
  cases fuel' with
  | zero => cases hm
  | succ fuel' =>
    rcases loop_succ hm with ⟨x, hx, -⟩ | ⟨x, hx, heq⟩
    · rw [hp] at hx
      cases hx
    · rw [hp] at hx
      obtain rfl : m = x := (Prod.mk.inj (Option.some.inj hx)).2
      exact (Option.some.inj heq).symm

/-- Where the window is processed, the loop went on for every committed slot. -/
theorem Leaves.slots [NullLaws T F] {report : SimulationReport T F}
    (hprepare : prepare config start controllerIds = some (window, s₀))
    (hloop : loop (Simulation.pass window) fuel s₀ = some (some s)) (hreport : s.report window.stop = some report)
    (hp : s.Processed window) (hr : Reaches (Simulation.pass window) s₀ m) : m.GoesOnForSlots window := by
  intro e he hslot
  by_contra hg
  obtain rfl := left_at hloop hr (Bool.not_eq_true _ ▸ hg)
  obtain ⟨hcounted, hlives, hcursor, -⟩ := Leaves.left ⟨s₀, hprepare, hloop⟩
  obtain ⟨c, hc⟩ := refresh_of_report hreport e he
  obtain ⟨r, rest, hpending, hready⟩ := hslot.ready (hcounted.tidy.ok e he) (hlives e he).lazy hcursor hc
  exact hp.dispatches e he r rest c hpending hready

/-- Where the loop goes on for every next dispatch, the window is processed. -/
theorem Leaves.processed [SlowingLaws T F] (hprepare : prepare config start controllerIds = some (window, s₀))
    (hloop : loop (Simulation.pass window) fuel s₀ = some (some s))
    (hall : ∀ m, Reaches (Simulation.pass window) s₀ m → m.ArrivesOn window ∧ m.GoesOnForWakes window) :
    s.Processed window := by
  obtain ⟨hr, hg, hin, hrests⟩ := loop_left_by_condition hprepare hloop fun m hr => (hall m hr).1
  obtain ⟨-, hlives, hcursor, harrivals, -⟩ := Leaves.left ⟨s₀, hprepare, hloop⟩
  refine ⟨harrivals, fun q hq => ?_, fun e he r rest c hp hready => ?_⟩
  · unfold Simulation.goesOn at hg
    rw [Bool.or_eq_false_iff] at hg
    exact not_le.mp fun hdue => List.any_eq_false.mp hg.2 q hq (decide_eq_true hdue)
  · obtain ⟨t, hnext, hdue⟩ := (hrests e he).ready (hlives e he).lazy hcursor hin hp hready
    rw [(hall s hr).2 e he t e hnext hdue] at hg
    cases hg

/-- Without a probe transition before the end, to go on for the committed slots is to go on for every next dispatch. -/
theorem Leaves.wakes (hprepare : prepare config start controllerIds = some (window, s₀))
    (hloop : loop (Simulation.pass window) fuel s₀ = some (some s))
    (hquiet : ∀ m, Reaches (Simulation.pass window) s₀ m → m.ArrivesOn window ∧ m.QuietEnd window)
    (hslots : ∀ m, Reaches (Simulation.pass window) s₀ m → m.GoesOnForSlots window)
    (hr : Reaches (Simulation.pass window) s₀ m) : m.GoesOnForWakes window := by
  intro e he t e' hnext hdue
  by_contra hg
  have hg : m.goesOn window.stop = false := Bool.not_eq_true _ ▸ hg
  obtain rfl := left_at hloop hr hg
  obtain ⟨-, -, -, hrests⟩ := loop_left_by_condition hprepare hloop fun m hr => (hquiet m hr).1
  obtain ⟨-, hlives, -⟩ := Leaves.left ⟨s₀, hprepare, hloop⟩
  have hslot := (hrests e he).slotBy (hlives e he).lazy hnext hdue ((hquiet m hr).2 hg e he)
  rw [hslots m hr e he hslot] at hg
  cases hg

/-- **The window is processed** when the condition of the loop misses no dispatch. A run leaves nothing unprocessed when, in
every state in which the loop tests its condition, the clock represents the arrival after one that is due, and the loop goes on
for the next dispatch of every endpoint that is due by the end. It does leave a request behind when the loop once fails to go on
for the committed slot of a queue head. The two conditions are the same, and exact, when no probe transition falls between the
last pass and the end of the window. -/
theorem simulator_processes_window [NullLaws T F] [SlowingLaws T F] {report : SimulationReport T F}
    (h : simulate R fuel config start controllerIds = some (some report)) :
    ∃ window, ∃ s₀ s : Simulation T F R, prepare config start controllerIds = some (window, s₀) ∧
      loop (Simulation.pass window) fuel s₀ = some (some s) ∧ s.report window.stop = some report ∧
      ((∀ m, Reaches (Simulation.pass window) s₀ m → m.ArrivesOn window ∧ m.GoesOnForWakes window) → s.Processed window) ∧
      (s.Processed window → ∀ m, Reaches (Simulation.pass window) s₀ m → m.GoesOnForSlots window) ∧
      ((∀ m, Reaches (Simulation.pass window) s₀ m → m.ArrivesOn window ∧ m.QuietEnd window) →
        (s.Processed window ↔ ∀ m, Reaches (Simulation.pass window) s₀ m → m.GoesOnForWakes window) ∧
        (s.Processed window ↔ ∀ m, Reaches (Simulation.pass window) s₀ m → m.GoesOnForSlots window)) := by
  obtain ⟨window, s, ⟨s₀, hprepare, hloop⟩, hreport⟩ := simulate_leaves h
  have hslots (hp : s.Processed window) : ∀ m, Reaches (Simulation.pass window) s₀ m → m.GoesOnForSlots window :=
    fun m hr => Leaves.slots hprepare hloop hreport hp hr
  refine ⟨window, s₀, s, hprepare, hloop, hreport, Leaves.processed hprepare hloop, hslots, fun hquiet => ?_⟩
  have hwakes (hall : ∀ m, Reaches (Simulation.pass window) s₀ m → m.GoesOnForSlots window) :
      ∀ m, Reaches (Simulation.pass window) s₀ m → m.GoesOnForWakes window :=
    fun m hr => Leaves.wakes hprepare hloop hquiet hall hr
  have hprocessed (hall : ∀ m, Reaches (Simulation.pass window) s₀ m → m.GoesOnForWakes window) : s.Processed window :=
    Leaves.processed hprepare hloop fun m hr => ⟨(hquiet m hr).1, hall m hr⟩
  exact ⟨⟨fun hp => hwakes (hslots hp), hprocessed⟩, ⟨hslots, fun hall => hprocessed (hwakes hall)⟩⟩

end

/-- In a window of 120 ms the slot of the second request, at 100 ms, comes before the last arrival. -/
theorem simulator_processes_window_tail : ∃ report window, ∃ s : Simulation ℕ ℚ ℕ,
    simulate ℕ 40 (tailConfig 120000000) 0 id = some (some report) ∧
      Leaves 40 (tailConfig 120000000) 0 id window s ∧ report.accepted = 3 ∧ report.dispatched = 2 ∧
      s.Processed window := by
  have hsim : (simulate ℕ 40 (tailConfig 120000000) 0 id).bind (fun r => r.map fun r => (r.accepted, r.dispatched)) =
      some (3, 2) := by decide +kernel
  have hpasses : (prepare (R := ℕ) (tailConfig 120000000) 0 id).map (fun x =>
      (visited (Simulation.pass x.1) 40 x.2).all fun m =>
        (m.goesOn x.1.stop || m.endpoints.all fun e => ((nextDispatchAt e m.cursor).bind Prod.fst).all (x.1.stop < ·)) &&
          (checkedAdd m.nextArrival x.1.arrivalInterval).isSome) = some true := by decide +kernel
  obtain ⟨result, hresult, hr⟩ := Option.bind_eq_some_iff.mp hsim
  obtain ⟨report, rfl, hcounts⟩ := Option.map_eq_some_iff.mp hr
  obtain ⟨haccepted, hdispatched⟩ := Prod.mk.inj hcounts
  obtain ⟨window, s₀, s, hprepare, hloop, -, hprocessed, -⟩ := simulator_processes_window hresult
  rw [hprepare, Option.map_some, Option.some.injEq, List.all_eq_true] at hpasses
  refine ⟨report, window, s, hresult, ⟨s₀, hprepare, hloop⟩, haccepted, hdispatched, hprocessed fun m hm => ?_⟩
  obtain ⟨hgoes, hsome⟩ := (Bool.and_eq_true _ _).mp (hpasses m (hm.visited hloop))
  refine ⟨fun _ => hsome, fun e he t e' hnext hdue => ?_⟩
  rcases (Bool.or_eq_true _ _).mp hgoes with hgoes | hlate
  · exact hgoes
  · have hlate := List.all_eq_true.mp hlate e he
    rw [hnext] at hlate
    exact absurd hdue (not_le.mpr (of_decide_eq_true hlate))

/-- **A slot is left**: in a window of 119 ms the second request arrives at 60 ms for the slot at 100 ms, but the next
arrival is at 120 ms and the first completion at 200 ms, so the loop ends, and leaves the request ready. -/
theorem simulator_leaves_a_slot : ∃ report window, ∃ s : Simulation ℕ ℚ ℕ,
    simulate ℕ 40 (tailConfig 119000000) 0 id = some (some report) ∧
      Leaves 40 (tailConfig 119000000) 0 id window s ∧ report.accepted = 2 ∧ report.dispatched = 1 ∧
      ¬s.Processed window := by
  have hsim : (simulate ℕ 40 (tailConfig 119000000) 0 id).bind (fun r => r.map fun r => (r.accepted, r.dispatched)) =
      some (2, 1) := by decide +kernel
  have hend : (prepare (R := ℕ) (tailConfig 119000000) 0 id).bind (fun x =>
      (loop (Simulation.pass x.1) 40 x.2).bind fun left => left.bind fun s => s.endpoints.head?.bind fun e =>
        e.pending.head?.bind fun r => (e.controller.dispatchState r x.1.stop).map Prod.fst) = some .ready := by
    decide +kernel
  obtain ⟨result, hresult, hr⟩ := Option.bind_eq_some_iff.mp hsim
  obtain ⟨report, rfl, hcounts⟩ := Option.map_eq_some_iff.mp hr
  obtain ⟨haccepted, hdispatched⟩ := Prod.mk.inj hcounts
  obtain ⟨window, s, hleaves, -⟩ := simulate_leaves hresult
  refine ⟨report, window, s, hresult, hleaves, haccepted, hdispatched, fun hp => ?_⟩
  obtain ⟨s₀, hprepare, hloop⟩ := hleaves
  rw [hprepare, Option.bind_some, hloop, Option.bind_some, Option.bind_some] at hend
  simp only [Option.bind_eq_some_iff, Option.map_eq_some_iff] at hend
  obtain ⟨e, he, r, hr, ⟨state, c⟩, hready, rfl⟩ := hend
  obtain ⟨rest, hpending⟩ := List.head?_eq_some_iff.mp hr
  exact hp.dispatches e (List.mem_of_mem_head? he) r rest c hpending hready

end Loadpace.Simulator
