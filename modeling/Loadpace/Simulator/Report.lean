import Loadpace.Simulator.Progress

/-!
# The report of a simulation

The event loop starts from balanced books (`prepare_accounts`), every pass keeps them, and the report reads them off:
`simulator_accounting`. A request is backpressured only when every queue is full after the completions and the
dispatches of its instant (`Turn.backpressured`).
-/

namespace Loadpace.Simulator

open Systems EndpointController Stations

section

variable {T F R : Type} [AddCommMonoid T] [LinearOrder T] [Sub T] [Time T] [F64 F] [Secs T F] [Rng R F] [SeededRng R]
variable {window : Window T} {now : T} {rooms : List ℕ}

/-- The queue holds as many reservations as it may. -/
def EndpointRuntime.Full (e : EndpointRuntime T F R) : Prop := e.controller.queued = e.controller.config.queueCapacity

namespace Simulation

variable {s s' asked settled arrived : Simulation T F R}

/-! ## Backpressure -/

omit [F64 F] [Secs T F] [Rng R F] [SeededRng R] in
/-- An endpoint in order that may not schedule has a queue. -/
theorem pending_ne_nil {e : EndpointRuntime T F R} (hok : e.Ok) (h : e.controller.maySchedule = false) : e.pending ≠ [] := by
  rw [← List.length_pos_iff, hok.length]
  exact hok.capacity.trans_le (maySchedule_false h)

/-- **Backpressure**: every queue is full after the completions and the dispatches of the instant, and stays so. -/
theorem Turn.backpressured (hw : window.InRange) (ha : s.Accounts window rooms)
    (ht : s.Turn window now asked settled arrived s') (hb : s'.backpressured ≠ s.backpressured) :
    now = s.nextArrival ∧ (∀ e ∈ settled.endpoints, e.Full) ∧ s'.endpoints = settled.endpoints := by
  obtain ⟨hc, hp2, hseq, hrests⟩ := settled_counted ha.counted ht.event ht.settle
  have hrests := (hrests (hw.inside ht.inside)).1
  have hsb : settled.backpressured = s.backpressured := by rw [hseq]
  obtain ⟨hends, hfeq⟩ := finish_drives ht.finish
  have hdiffers : arrived.backpressured ≠ settled.backpressured := by
    rw [hsb]
    rw [hfeq] at hb
    exact hb
  cases ht.arrives with
  | none _ => exact absurd rfl hdiffers
  | @offers m hnow hoffer _ =>
    cases offer_cases hc hoffer with
    | accepted _ => exact absurd rfl hdiffers
    | @backpressured es rng hrefresh hfull =>
      -- the refresh of the choice changed nothing: every head is held
      have hfull' : ∀ e ∈ settled.endpoints, e.controller.maySchedule = false := fun e he => by
        obtain ⟨i, hi⟩ := List.mem_iff_getElem?.mp he
        obtain ⟨e', he', hs⟩ := forall₂_get (refreshAll_same hrefresh) hi
        rw [← hs.maySchedule]
        exact hfull e' (List.mem_of_getElem? he')
      have hheld : ∀ e ∈ settled.endpoints, e.Rests now ∧ e.pending ≠ [] := fun e he =>
        ⟨hrests e he, pending_ne_nil (hp2.tidy.ok e he) (hfull' e he)⟩
      obtain rfl : es = settled.endpoints := Option.some.inj (hrefresh.symm.trans (refreshAll_held hheld))
      have hsame := driveAllFrom_held hheld 0 settled.completions
      have hends : driveAllFrom now 0 settled.endpoints settled.completions = some (s'.endpoints, s'.completions) := hends
      rw [hsame] at hends
      obtain ⟨hes, -⟩ := Prod.mk.inj (Option.some.inj hends)
      refine ⟨by rw [hnow, hseq], fun e he => ?_, hes.symm⟩
      obtain ⟨i, hi⟩ := List.mem_iff_getElem?.mp he
      exact le_antisymm (hc.balanced.station i _ (books_get settled.completions hi)).room (maySchedule_false (hfull' e he))

end Simulation

/-! ## Every run -/

variable {config : SimulationConfig T F} {start interval : T} {controllerIds : ℕ → ℕ}
variable {s s₀ s' : Simulation T F R}

/-- **Every pass of the loop** keeps the accounts and ends at rest. -/
theorem reaches_accounts (hw : window.InRange) (h : Reaches (Simulation.pass window) s₀ s)
    (h0 : s₀.Accounts window rooms ∧ s₀.Steady) : s.Accounts window rooms ∧ s.Steady := by
  refine h.invariant (P := fun s => s.Accounts window rooms ∧ s.Steady) h0 fun s s' hs hp => ?_
  rcases Simulation.pass_cases hp with ⟨hmore, -⟩ | ⟨-, now, asked, settled, arrived, ht⟩ | ⟨hmore, -⟩
  · cases hmore
  · exact ⟨(ht.accounts hs.1).1, ht.steady hw hs.1⟩
  · cases hmore

/-- The loop is left in a state that it reached, when its condition no longer holds. -/
theorem loop_accounts {fuel : ℕ} (hw : window.InRange) (h0 : s₀.Accounts window rooms ∧ s₀.Steady)
    (h : loop (Simulation.pass window) fuel s₀ = some (some s)) :
    s.Accounts window rooms ∧ s.goesOn window.stop = false := by
  obtain ⟨m, hr, hp⟩ := loop_left h
  obtain ⟨ha, -⟩ := reaches_accounts hw hr h0
  rcases Simulation.pass_cases hp with ⟨-, hg, rfl⟩ | ⟨hmore, -⟩ | ⟨-, now, asked, settled, hb⟩
  · exact ⟨ha, hg⟩
  · cases hmore
  · exact (hb.not_inRange hw).elim

/-- The loop of a simulation is left at `s`. -/
def Leaves (fuel : ℕ) (config : SimulationConfig T F) (start : T) (controllerIds : ℕ → ℕ) (window : Window T)
    (s : Simulation T F R) : Prop :=
  ∃ s₀, prepare config start controllerIds = some (window, s₀) ∧ loop (Simulation.pass window) fuel s₀ = some (some s)

/-- A simulation that returns reports on the state at which its loop is left. -/
theorem simulate_leaves {fuel : ℕ} {report : SimulationReport T F}
    (h : simulate R fuel config start controllerIds = some (some report)) :
    ∃ window, ∃ s : Simulation T F R, Leaves fuel config start controllerIds window s ∧
      s.report window.stop = some report := by
  unfold simulate at h
  simp only [Option.bind_eq_bind, Option.bind_eq_some_iff] at h
  obtain ⟨⟨window, s₀⟩, hprepare, left, hleft, h⟩ := h
  cases left with
  | none => cases h
  | some s =>
    simp only [Option.bind_eq_some_iff] at h
    obtain ⟨r, hreport, h⟩ := h
    obtain rfl : r = report := Option.some.inj (Option.some.inj h)
    exact ⟨window, s, ⟨s₀, hprepare, hleft⟩, hreport⟩

/-! ## The report -/

omit [SeededRng R] in
/-- A report counts what the endpoint has counted. -/
theorem report_cases {e : EndpointRuntime T F R} {stop : T} {r : EndpointReport T F} (h : e.report stop = some r) :
    r.dispatched = e.station.started ∧ r.completed = e.station.finished ∧ r.snapshot.queued = e.station.waiting ∧
      r.snapshot.inflight = e.station.busy := by
  unfold EndpointRuntime.report at h
  simp only [Option.bind_eq_bind, Option.bind_eq_some_iff] at h
  obtain ⟨⟨view, c⟩, hview, h⟩ := h
  obtain rfl := Option.some.inj h
  unfold EndpointController.snapshot at hview
  simp only [Option.bind_eq_bind, Option.bind_eq_some_iff, ratesAt_snd] at hview
  obtain ⟨m, hm, hview⟩ := hview
  cases hview
  have ha := refresh_alike hm
  exact ⟨rfl, rfl, ha.length, ha.inflight⟩

omit [SeededRng R] in
/-- **The counters of a report** are those of a simulation with balanced books. -/
theorem report_counts {report : SimulationReport T F} {stop : T} (hc : s.Counted) (h : s.report stop = some report) :
    report.offered = s.offered ∧ report.maxQueued = s.maxQueued ∧
      report.accepted + report.backpressured = report.offered ∧
      report.accepted = report.dispatched + (report.endpoints.map fun e => e.snapshot.queued).sum ∧
      report.dispatched = report.completed + (report.endpoints.map fun e => e.snapshot.inflight).sum ∧
      ∀ e ∈ report.endpoints, e.dispatched = e.completed + e.snapshot.inflight := by
  unfold Simulation.report at h
  simp only [Option.bind_eq_bind, Option.bind_eq_some_iff] at h
  obtain ⟨endpoints, hreports, h⟩ := h
  obtain rfl := Option.some.inj h
  have hall := mapM_some hreports
  obtain ⟨hissued, hstarted⟩ := hc.balanced.totals
  have hread {f : EndpointReport T F → ℕ} {g : Station → ℕ}
      (hfg : ∀ (e : EndpointRuntime T F R) (r : EndpointReport T F), e.report stop = some r → g e.station = f r) :
      ((books s.endpoints s.completions).stations.map g).sum = (endpoints.map f).sum := by
    rw [books, List.map_map]
    exact congrArg List.sum (forall₂_map_eq hall fun e r her => hfg e r her)
  have hdispatched : (s.endpoints.map EndpointRuntime.dispatched).sum =
      ((books s.endpoints s.completions).stations.map Station.started).sum := by
    rw [books, List.map_map]
    rfl
  have hcompleted : (s.endpoints.map EndpointRuntime.completed).sum =
      ((books s.endpoints s.completions).stations.map Station.finished).sum := by
    rw [books, List.map_map]
    rfl
  refine ⟨rfl, rfl, hc.split.symm, ?_, ?_, fun r hr => ?_⟩
  · show s.accepted = (s.endpoints.map EndpointRuntime.dispatched).sum + _
    rw [hdispatched, hc.issued, hissued, hread fun e r her => (report_cases her).2.2.1.symm]
  · show (s.endpoints.map EndpointRuntime.dispatched).sum = (s.endpoints.map EndpointRuntime.completed).sum + _
    rw [hdispatched, hcompleted, hstarted, hread fun e r her => (report_cases her).2.2.2.symm]
  · obtain ⟨e, he, her⟩ := forall₂_mem hall hr
    obtain ⟨i, hi⟩ := List.mem_iff_getElem?.mp he
    obtain ⟨hd, hf, -, hb⟩ := report_cases her
    rw [hd, hf, hb]
    exact (hc.balanced.station i _ (books_get s.completions hi)).started

/-- **The accounting of the simulator.** For every configuration that passes the assertions and every seed, with all
instants inside the clock's range: the report counts one request for each arrival of the window, and no request is lost
between its counters; a request is backpressured only at an arrival where every queue is full after the completions and
the dispatches of that instant, and still is when the pass ends; and on a clock that counts nanoseconds the loop ends. -/
theorem simulator_accounting (hi : arrivalInterval config.offeredRate = some interval)
    (hrange : (checkedAdd start (config.duration + interval)).isSome) :
    (∀ fuel report, simulate R fuel config start controllerIds = some (some report) →
      (∃ n, report.offered = n + 1 ∧ n • interval ≤ config.duration ∧ config.duration < (n + 1) • interval) ∧
      report.accepted + report.backpressured = report.offered ∧
      report.accepted = report.dispatched + (report.endpoints.map fun e => e.snapshot.queued).sum ∧
      report.dispatched = report.completed + (report.endpoints.map fun e => e.snapshot.inflight).sum ∧
      (∀ e ∈ report.endpoints, e.dispatched = e.completed + e.snapshot.inflight) ∧
      report.maxQueued ≤ (capacities config).foldl max 0) ∧
    (∀ window (s₀ s : Simulation T F R) more s', prepare config start controllerIds = some (window, s₀) →
      Reaches (Simulation.pass window) s₀ s → s.pass window = some (more, s') → s'.backpressured ≠ s.backpressured →
      ∃ asked settled, s.nextEvent = some (some s.nextArrival, asked) ∧ asked.settle s.nextArrival = some settled ∧
        (∀ e ∈ settled.endpoints, e.Full) ∧ s'.endpoints = settled.endpoints) ∧
    ∀ m, Time.room start = some m → ∃ n, ∀ fuel, n ≤ fuel → simulate R fuel config start controllerIds ≠ some none := by
  refine ⟨fun fuel report h => ?_, fun window s₀ s more s' h hr hp hb => ?_, fun m hm => ?_⟩
  · obtain ⟨window, s, ⟨s₀, hprepare, hleft⟩, hreport⟩ := simulate_leaves h
    obtain ⟨hwindow, hw, h0⟩ := prepare_accounts hi hrange hprepare
    obtain ⟨ha, hg⟩ := loop_accounts hw h0 hleft
    obtain ⟨hoffered, hmax, hsplit, haccepted, hdispatched, heach⟩ := report_counts ha.counted hreport
    refine ⟨?_, hsplit, haccepted, hdispatched, heach, by rw [hmax]; exact ha.maxQueued⟩
    -- the loop was left by its condition: the next arrival is after the window
    have hlate : window.stop < s.nextArrival := by
      unfold Simulation.goesOn at hg
      rw [Bool.or_eq_false_iff] at hg
      exact not_le.mp (of_decide_eq_false hg.1)
    have hlast := ha.last
    rw [ha.arrivals] at hlate
    rw [hoffered]
    rw [hwindow] at hlate hlast
    cases hn : s.offered with
    | zero =>
      rw [hn, zero_nsmul, add_zero] at hlate
      exact absurd (le_self_add.trans_lt hlate) (lt_irrefl _)
    | succ n =>
      rw [hn] at hlate
      exact ⟨n, rfl, (add_le_add_iff_left start).mp (hlast n hn), (add_lt_add_iff_left start).mp hlate⟩
  · obtain ⟨-, hw, h0⟩ := prepare_accounts hi hrange h
    obtain ⟨ha, -⟩ := reaches_accounts hw hr h0
    rcases Simulation.pass_cases hp with ⟨-, -, rfl⟩ | ⟨-, now, asked, settled, arrived, ht⟩ |
      ⟨-, now, asked, settled, hbreak⟩
    · exact absurd rfl hb
    · obtain ⟨rfl, hfull, hsame⟩ := ht.backpressured hw ha hb
      exact ⟨asked, settled, ht.event, ht.settle, hfull, hsame⟩
    · exact (hbreak.not_inRange hw).elim
  · exact simulate_ends hm

end

/-- Eleven requests arrive, and three of them are backpressured. -/
theorem simulator_accounting_busy : ∃ report, simulate ℕ 40 busyConfig 0 id = some (some report) ∧
    (report.offered, report.accepted, report.backpressured, report.dispatched, report.completed, report.maxQueued) =
      (11, 8, 3, 4, 2, 2) ∧
    report.accepted = report.dispatched + (report.endpoints.map fun e => e.snapshot.queued).sum ∧
    report.dispatched = report.completed + (report.endpoints.map fun e => e.snapshot.inflight).sum := by
  have hp : (simulate ℕ 40 busyConfig 0 id).bind (fun r => r.map fun r =>
      (r.offered, r.accepted, r.backpressured, r.dispatched, r.completed, r.maxQueued)) =
      some (11, 8, 3, 4, 2, 2) := by decide +kernel
  obtain ⟨result, hresult, hr⟩ := Option.bind_eq_some_iff.mp hp
  obtain ⟨report, rfl, hcounts⟩ := Option.map_eq_some_iff.mp hr
  have hi : arrivalInterval busyConfig.offeredRate = some 20000000 := by decide +kernel
  have hrange : (checkedAdd 0 (busyConfig.duration + 20000000)).isSome := by decide +kernel
  obtain ⟨-, -, haccepted, hdispatched, -⟩ := (simulator_accounting hi hrange).1 40 report hresult
  exact ⟨report, hresult, hcounts, haccepted, hdispatched⟩

end Loadpace.Simulator
