import Loadpace.Machine
import Loadpace.Simulator.Histories

/-!
# Before the event loop

The loop starts with balanced books, at rest (`prepare_starts`), and with fresh controllers (`prepare_lived`).
`busyConfig` and `tailConfig` are two workloads on the executable platform.
-/

namespace Loadpace.Simulator

open Systems EndpointController Stations

section

variable {T F R : Type} [AddCommMonoid T] [LinearOrder T] [Sub T] [Time T] [F64 F] [Secs T F] [Rng R F] [SeededRng R]
variable {window : Window T} {config : SimulationConfig T F} {start interval : T} {controllerIds : ℕ → ℕ}
variable {s₀ : Simulation T F R}

omit [Rng R F] in
theorem new_cases {x : SimulatedEndpoint T} {e : EndpointRuntime T F R} {seed controllerId : ℕ}
    (h : EndpointRuntime.new x start seed controllerId = some e) : e.Ok ∧ e.pending = [] ∧
      e.station = { capacity := x.config.queueCapacity, issued := 0, waiting := 0, started := 0, busy := 0, finished := 0 } := by
  unfold EndpointRuntime.new at h
  simp only [Option.bind_eq_bind, Option.bind_eq_some_iff, Option.guard_eq_some'] at h
  obtain ⟨-, hworkers, -, hservice, c, hc, h⟩ := h
  obtain rfl := Option.some.inj h
  obtain ⟨hq, -, -, _, _, _, -, -, -, rfl⟩ := newWithRng_cases hc
  refine ⟨⟨rfl, ?_, pos_iff_ne_zero.mpr hservice, x.serviceTime_le, hq⟩, rfl, rfl⟩
  rw [← List.length_pos_iff, List.length_replicate]
  exact hworkers

omit [SeededRng R] in
theorem forall₂_map_eq {α β γ : Type} {r : α → β → Prop} {f : α → γ} {g : β → γ} {l : List α} {l' : List β}
    (h : List.Forall₂ r l l') (hr : ∀ a b, r a b → f a = g b) : l.map f = l'.map g := by
  induction h with
  | nil => rfl
  | cons hab _ ih => rw [List.map_cons, List.map_cons, hr _ _ hab, ih]

theorem arrivalInterval_pos (hi : arrivalInterval config.offeredRate = some interval) : 0 < interval := by
  unfold arrivalInterval at hi
  simp only [Option.bind_eq_bind, Option.bind_eq_some_iff] at hi
  obtain ⟨x, -, hi⟩ := hi
  obtain rfl := Option.some.inj hi
  exact (fromNanos_pos Nat.one_pos).trans_le (le_max_right _ _)

omit [Rng R F] in
theorem prepare_cases (h : prepare config start controllerIds = some (window, s₀)) :
    ∃ interval endpoints, arrivalInterval config.offeredRate = some interval ∧
      window = { start, stop := saturatingAdd start config.duration, arrivalInterval := interval } ∧
      config.endpoints.zipIdx.mapM (fun (e, index) =>
        EndpointRuntime.new e start ((config.seed + index) % 2 ^ 64) (controllerIds index)) = some endpoints ∧
      s₀ = {
        nextArrival := start, offered := 0, accepted := 0, backpressured := 0, maxQueued := 0
        rng := seedFromU64 config.seed, endpoints, completions := [], cursor := start } := by
  unfold prepare at h
  simp only [Option.bind_eq_bind, Option.bind_eq_some_iff, Option.guard_eq_some'] at h
  obtain ⟨-, -, -, -, interval, hi, endpoints, he, h⟩ := h
  cases h
  exact ⟨interval, endpoints, hi, rfl, he, rfl⟩

/-- The capacities of the endpoints. -/
def capacities (config : SimulationConfig T F) : List ℕ := config.endpoints.map fun e => e.config.queueCapacity

/-- The loop starts with balanced books, at rest. -/
theorem prepare_starts (h : prepare config start controllerIds = some (window, s₀)) :
    s₀.Accounts window (capacities config) ∧ s₀.Steady := by
  obtain ⟨interval, endpoints, -, rfl, he, rfl⟩ := prepare_cases h
  have hnew := mapM_some he
  have hall : ∀ e ∈ endpoints, e.Ok ∧ e.pending = [] ∧ e.station.Balanced 0 ∧ e.station.issued = 0 := fun e hmem => by
    obtain ⟨x, -, hx⟩ := forall₂_mem hnew hmem
    obtain ⟨hok, hpending, hstation⟩ := new_cases hx
    rw [hstation]
    exact ⟨hok, hpending, ⟨Nat.zero_le _, rfl, rfl, rfl⟩, rfl⟩
  have hrooms : (books endpoints []).stations.map Station.capacity = capacities config := by
    have hmap := forall₂_map_eq (f := fun x : SimulatedEndpoint T × ℕ => x.1.config.queueCapacity)
      (g := fun e : EndpointRuntime T F R => e.station.capacity) hnew fun x e hx => by rw [(new_cases hx).2.2]
    have hfst : config.endpoints.zipIdx.map (fun x => x.1.config.queueCapacity) = capacities config := by
      have hlist := congrArg (List.map fun e => e.config.queueCapacity) (List.zipIdx_map_fst 0 config.endpoints)
      rw [List.map_map] at hlist
      exact hlist
    rw [books, List.map_map, ← hfst, hmap]
    rfl
  have hissued : (0 : ℕ) = ((books endpoints []).stations.map Station.issued).sum := by
    refine (List.sum_eq_zero fun n hn => ?_).symm
    obtain ⟨x, hx, rfl⟩ := List.mem_map.mp hn
    obtain ⟨e, he, rfl⟩ := List.mem_map.mp hx
    exact (hall e he).2.2.2
  refine ⟨⟨⟨⟨fun e he => (hall e he).1, ?_⟩, ⟨?_, ?_⟩, rfl, hissued⟩, hrooms, ?_, ?_, Nat.zero_le _⟩,
    ⟨fun e he => Or.inl (hall e he).2.1, ?_, le_rfl⟩⟩
  · intro q hq
    cases hq
  · intro i x hx
    obtain ⟨e, he, rfl⟩ := List.mem_map.mp (List.mem_of_getElem? hx)
    exact (hall e he).2.2.1
  · intro i hi
    cases hi
  · rw [zero_nsmul, add_zero]
  · intro n hn
    cases hn
  · intro q hq
    cases hq

/-- It starts inside the clock's range when one more arrival after the window is representable. -/
theorem prepare_accounts (hi : arrivalInterval config.offeredRate = some interval)
    (hrange : (checkedAdd start (config.duration + interval)).isSome)
    (h : prepare config start controllerIds = some (window, s₀)) :
    window = { start, stop := start + config.duration, arrivalInterval := interval } ∧ window.InRange ∧
      s₀.Accounts window (capacities config) ∧ s₀.Steady := by
  have hstarts := prepare_starts h
  obtain ⟨_, _, hi', rfl, -, -⟩ := prepare_cases h
  obtain rfl := Option.some.inj (hi'.symm.trans hi)
  obtain ⟨hstop, hroom⟩ := checkedAdd_add hrange
  rw [saturatingAdd_exact hstop] at hstarts ⊢
  exact ⟨rfl, ⟨le_self_add, hroom, arrivalInterval_pos hi⟩, hstarts⟩

theorem prepare_lived (h : prepare config start controllerIds = some (window, s₀)) : s₀.Lives start := by
  obtain ⟨interval, endpoints, -, -, he, rfl⟩ := prepare_cases h
  intro e hmem
  obtain ⟨x, -, hx⟩ := forall₂_mem (mapM_some he) hmem
  unfold EndpointRuntime.new at hx
  simp only [Option.bind_eq_bind, Option.bind_eq_some_iff] at hx
  obtain ⟨-, -, -, -, c, hc, hx⟩ := hx
  obtain rfl := Option.some.inj hx
  exact ⟨c, [], start, ⟨_, _, _, hc⟩, .nil, le_rfl⟩

end

/-! ## Two workloads -/

/-- A generator with a counter for its state. -/
instance natSeededRng : SeededRng ℕ where
  seedFromU64 n := n
  randomRange rng n := ((rng * 7 + 3) % n, rng + 1)
  randomRange_lt _ _ h := Nat.mod_lt _ h

/-- Two slow endpoints that share fifty requests a second. -/
def busyConfig : SimulationConfig ℕ ℚ where
  duration := 210000000
  offeredRate := 50
  endpoints := List.replicate 2 {
    config := { sampleConfig with expectedRtt := 100000000, initialConcurrency := 1, queueCapacity := 2 }
    workers := 1, serviceTime := 150000000, serviceTime_le := by decide }
  seed := 1

/-- An endpoint with a slot every 100 ms, and an arrival every 60 ms. -/
def tailConfig (duration : ℕ) : SimulationConfig ℕ ℚ where
  duration
  offeredRate := 50 / 3
  endpoints := [{
    config := { sampleConfig with expectedRtt := 100000000, initialConcurrency := 1 }
    workers := 1, serviceTime := 200000000, serviceTime_le := by decide }]
  seed := 1

end Loadpace.Simulator
