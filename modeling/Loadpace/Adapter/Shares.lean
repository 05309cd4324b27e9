import Loadpace.Adapter.Selection
import Loadpace.Lib.Sampling

/-!
# Shares of the endpoints (`reserve_p2c` of `loadpace-rama/src/dns.rs`)

How the draws of the random generator share the requests of a balancer among the endpoints of a snapshot. The generator
draws one of `n` indices and then one of the `n - 1` others, so that each pair of endpoints is drawn once in either order.

* `reserve_outcome`: the pair that is drawn is the choice of the library, by the loads and the room in the queues.
* `p2c_shares`: so an endpoint with room is selected by two draws for each other one that is full or dearer, and by one for
  each that is as dear: the dearest of all never, while the others have room.
-/

namespace Loadpace.Rama

open EndpointController Systems

namespace Balancer

section

variable {T F R : Type} [AddCommMonoid T] [LinearOrder T] [Sub T] [Time T] [F64 F] [Secs T F] [Rng R F]
variable {s : Balancer T F R} {endpoints : List Dns.Endpoint} {i j m : ℕ}

/-- The controller of an endpoint of a snapshot. -/
def controllerOf (s : Balancer T F R) (endpoints : List Dns.Endpoint) (m : ℕ) : Option (EndpointController T F R) :=
  (endpoints[m]?.bind fun a => s.states[a.state]?).map (·.controller)

/-- The endpoint has room in its queue. -/
def hasRoom (s : Balancer T F R) (endpoints : List Dns.Endpoint) (m : ℕ) : Bool :=
  (s.controllerOf endpoints m).any fun c => decide c.HasRoom

/-- The load of the endpoint; `none` is a panic. -/
def loadOf (s : Balancer T F R) (endpoints : List Dns.Endpoint) (m : ℕ) : Option F :=
  (s.controllerOf endpoints m).bind fun c => (c.load s.cache.clock).map Prod.fst

/-- The load of the one is at most that of the other. -/
def cheaper (s : Balancer T F R) (endpoints : List Dns.Endpoint) (i j : ℕ) : Bool :=
  (s.loadOf endpoints i).any fun a => (s.loadOf endpoints j).any fun b => decide (a ≤ b)

/-- The endpoint that a selection takes, if it takes one. -/
def outcome (s : Balancer T F R) (endpoints : List Dns.Endpoint) (firstIndex secondIndex : ℕ) : Option (Option Dns.Endpoint) :=
  (s.reserve endpoints firstIndex secondIndex).map fun x => x.1.toOption.map Prod.fst

omit [AddCommMonoid T] [LinearOrder T] [Sub T] [Time T] [F64 F] [Secs T F] [Rng R F] in
theorem controllerOf_some (s : Balancer T F R) {a : Dns.Endpoint} {c : EndpointController T F R}
    (ha : endpoints[m]? = some a) (hc : s.controllerOf endpoints m = some c) :
    ∃ state, s.states[a.state]? = some state ∧ state.controller = c := by
  rw [controllerOf, ha] at hc
  exact Option.map_eq_some_iff.mp hc

/-- The choice of a pair, by the loads and the room. -/
theorem reservePair_choice {first second m₁ m₂ : EndpointController T F R} {firstLoad secondLoad : F} {now : T}
    (h₁ : first.load now = some (firstLoad, m₁)) (h₂ : second.load now = some (secondLoad, m₂)) :
    ∃ result first' second', reservePair first second now = some (result, first', second') ∧
      result.toOption.map Prod.fst =
        if firstLoad ≤ secondLoad then if first.HasRoom then some PairChoice.first else if second.HasRoom then some .second else none
        else if second.HasRoom then some .second else if first.HasRoom then some .first else none := by
  have hsome : (reservePair first second now).isSome :=
    reservePair_isSome.mpr ⟨by rw [h₁]; rfl, by rw [h₂]; rfl⟩
  obtain ⟨⟨result, first', second'⟩, hpair⟩ := Option.isSome_iff_exists.mp hsome
  refine ⟨result, first', second', hpair, ?_⟩
  obtain ⟨_, _, _, _, h₁', h₂', hsel⟩ := reservePair_selects hpair
  obtain ⟨rfl, -⟩ := Prod.mk.inj (Option.some.inj (h₁.symm.trans h₁'))
  obtain ⟨rfl, -⟩ := Prod.mk.inj (Option.some.inj (h₂.symm.trans h₂'))
  cases result with
  | error _ =>
    have hnone := mt hsel.ok_iff.mpr (by rintro ⟨_, _, h⟩; cases h)
    obtain ⟨hfirst, hsecond⟩ := not_or.mp hnone
    simp only [hfirst, hsecond, if_false, ite_self]
    rfl
  | ok x =>
    obtain ⟨choice, token⟩ := x
    have hroom := hsel.ok_iff.mp ⟨choice, token, rfl⟩
    have hchoice := (hsel.ok rfl).1
    show some choice = _
    rw [hchoice, preferredChoice]
    by_cases hle : firstLoad ≤ secondLoad
    · rw [if_pos hle, if_pos hle]
      by_cases hfirst : first.HasRoom
      · rw [if_pos hfirst]
        exact congrArg some (if_pos hfirst)
      · rw [if_neg hfirst, if_pos (hroom.resolve_left hfirst)]
        exact congrArg some (if_neg hfirst)
    · rw [if_neg hle, if_neg hle]
      by_cases hsecond : second.HasRoom
      · rw [if_pos hsecond]
        exact congrArg some (if_pos hsecond)
      · rw [if_neg hsecond, if_pos (hroom.resolve_right hsecond)]
        exact congrArg some (if_neg hsecond)

/-- **What a draw selects** is the choice by the loads and the room. -/
theorem reserve_outcome (hdistinct : (endpoints.map (·.state)).Nodup)
    (hloads : ∀ m < endpoints.length, (s.loadOf endpoints m).isSome) (hi : i < endpoints.length)
    (hj : j < endpoints.length - 1) : s.outcome endpoints i j = some
      ((Sampling.choose (s.hasRoom endpoints) (s.cheaper endpoints) i (Sampling.second i j)).bind fun m => endpoints[m]?) := by
  have hk := Sampling.second_lt hi hj
  have hne := Sampling.second_ne i j
  have hb : ∃ b, endpoints[if i ≤ j then j + 1 else j]? = some b := ⟨_, List.getElem?_eq_getElem hk⟩
  obtain ⟨b, hb⟩ := hb
  obtain ⟨a, ha⟩ : ∃ a, endpoints[i]? = some a := ⟨_, List.getElem?_eq_getElem hi⟩
  generalize hsecond : Sampling.second i j = k at hk hne
  have hb' : endpoints[k]? = some b := hsecond ▸ hb
  obtain ⟨firstLoad, hx⟩ := Option.isSome_iff_exists.mp (hloads i hi)
  obtain ⟨secondLoad, hy⟩ := Option.isSome_iff_exists.mp (hloads k hk)
  obtain ⟨c₁, hc₁, hfirst⟩ := Option.bind_eq_some_iff.mp hx
  obtain ⟨c₂, hc₂, hlast⟩ := Option.bind_eq_some_iff.mp hy
  obtain ⟨⟨l, m₁⟩, hl₁, rfl⟩ := Option.map_eq_some_iff.mp hfirst
  obtain ⟨⟨l', m₂⟩, hl₂, rfl⟩ := Option.map_eq_some_iff.mp hlast
  obtain ⟨state₁, hs₁, rfl⟩ := s.controllerOf_some ha hc₁
  obtain ⟨state₂, hs₂, rfl⟩ := s.controllerOf_some hb' hc₂
  have hstates : a.state ≠ b.state := by
    intro heq
    refine hne ((List.getElem?_inj (by rwa [List.length_map]) hdistinct).mp ?_)
    rw [List.getElem?_map, List.getElem?_map, ha, hb', Option.map_some, Option.map_some, heq]
  obtain ⟨fallback, hfallback⟩ : ∃ fallback, s.states.head? = some fallback := by
    cases hs : s.states with
    | nil =>
      rw [hs] at hs₁
      cases hs₁
    | cons fallback _ => exact ⟨fallback, rfl⟩
  have hget {x : ℕ} {state : Endpoint T F R} (hx : s.states[x]? = some state) : s.states.getD x fallback = state := by
    rw [List.getD_eq_getElem?_getD, hx, Option.getD_some]
  obtain ⟨result, first', second', hpair, hchoice⟩ := reservePair_choice hl₁ hl₂
  have hp2c := reserveP2c_eq (fun x => s.states.getD x fallback) s.cache.clock hj ha hb hstates
  rw [hget hs₁, hget hs₂, hpair] at hp2c
  have houtcome : s.outcome endpoints i j = some ((result.toOption.map Prod.fst).map fun choice => choice.of a b) := by
    simp only [outcome, reserve, hfallback, hp2c, Option.bind_eq_bind, Option.bind_some, Option.map_some]
    cases result with
    | error _ => rfl
    | ok _ => rfl
  have hroom₁ : s.hasRoom endpoints i = decide state₁.controller.HasRoom := by rw [hasRoom, hc₁, Option.any_some]
  have hroom₂ : s.hasRoom endpoints k = decide state₂.controller.HasRoom := by rw [hasRoom, hc₂, Option.any_some]
  have hcheaper : s.cheaper endpoints i k = decide (l ≤ l') := by rw [cheaper, hx, hy, Option.any_some, Option.any_some]
  rw [houtcome, hchoice, Sampling.choose, hroom₁, hroom₂, hcheaper]
  simp only [decide_eq_true_eq]
  split_ifs
  all_goals simp [PairChoice.of, ha, hb']

end

section

variable {T F R : Type} [AddCommMonoid T] [LinearOrder T] [Sub T] [Time T] [F64 F] [Secs T F] [Rng R F] [OrderedSecs T F]
variable {s : Balancer T F R} {endpoints : List Dns.Endpoint} {k e : ℕ}
variable {config : EndpointConfig T} {refreshAfter evictAfterStale clock : T} {mode : Dns.DnsResolveIpMode}
variable {tr : List (BalancerLabel T F R (R × ℕ) × Report T F R)}

/-- No load is a NaN. -/
theorem cheaper_total (hloads : ∀ m < endpoints.length, (s.loadOf endpoints m).isSome) :
    ∀ i < endpoints.length, ∀ j < endpoints.length,
      s.cheaper endpoints i j = true ∨ s.cheaper endpoints j i = true := by
  have hsecs {m : ℕ} {l : F} (hl : s.loadOf endpoints m = some l) : ∃ t : T, l = asSecsF64 t := by
    obtain ⟨c, -, hload⟩ := Option.bind_eq_some_iff.mp hl
    obtain ⟨⟨l, m⟩, hread, rfl⟩ := Option.map_eq_some_iff.mp hload
    exact ⟨_, (load_cases hread).2⟩
  intro i hi j hj
  obtain ⟨a, ha⟩ := Option.isSome_iff_exists.mp (hloads i hi)
  obtain ⟨b, hb⟩ := Option.isSome_iff_exists.mp (hloads j hj)
  obtain ⟨t, rfl⟩ := hsecs ha
  obtain ⟨t', rfl⟩ := hsecs hb
  rw [cheaper, cheaper, ha, hb]
  simp only [Option.any_some, decide_eq_true_eq]
  exact OrderedSecs.le_total t t'

/-- **The shares of the endpoints.** A call of any run of the balancer is about to select from `n` endpoints whose loads can
be read. Of the `n * (n - 1)` draws, an endpoint without room is selected by none; one with room by two for each other
endpoint that is full or dearer, and by one for each that is as dear and has room; and a draw is rejected just when it is of
two full endpoints. -/
theorem p2c_shares (h : Run (Step (dnsCache config refreshAfter evictAfterStale mode)) (empty clock) tr s)
    (hp : s.serves[k]? = some (.loaded e endpoints))
    (hloads : ∀ m < endpoints.length, (s.loadOf endpoints m).isSome) :
    (Sampling.draws endpoints.length).card = endpoints.length * (endpoints.length - 1) ∧
    (∀ (m : ℕ) (a : Dns.Endpoint), endpoints[m]? = some a →
      ((Sampling.draws endpoints.length).filter fun d => s.outcome endpoints d.1 d.2 = some (some a)).card =
        if s.hasRoom endpoints m then
          2 * (Sampling.beaten endpoints.length (s.hasRoom endpoints) (s.cheaper endpoints) m).card +
            (Sampling.ties endpoints.length (s.hasRoom endpoints) (s.cheaper endpoints) m).card
        else 0) ∧
    (∀ d ∈ Sampling.draws endpoints.length, s.outcome endpoints d.1 d.2 = some none ↔
      s.hasRoom endpoints d.1 = false ∧ s.hasRoom endpoints (Sampling.second d.1 d.2) = false) ∧
    ((Sampling.draws endpoints.length).filter fun d => s.outcome endpoints d.1 d.2 = some none).card =
      ((Finset.range endpoints.length).filter fun m => s.hasRoom endpoints m = false).card *
        (((Finset.range endpoints.length).filter fun m => s.hasRoom endpoints m = false).card - 1) := by
  have hdistinct := ((run_inv h).serves k _ hp).distinct e endpoints rfl
  have houtcome : ∀ d ∈ Sampling.draws endpoints.length, s.outcome endpoints d.1 d.2 = some
      ((Sampling.choose (s.hasRoom endpoints) (s.cheaper endpoints) d.1 (Sampling.second d.1 d.2)).bind
        fun m => endpoints[m]?) := by
    intro d hd
    obtain ⟨hi, hj⟩ := Finset.mem_product.mp hd
    exact reserve_outcome hdistinct hloads (Finset.mem_range.mp hi) (Finset.mem_range.mp hj)
  have hchosen : ∀ d ∈ Sampling.draws endpoints.length, ∀ m',
      Sampling.choose (s.hasRoom endpoints) (s.cheaper endpoints) d.1 (Sampling.second d.1 d.2) = some m' →
        m' < endpoints.length := by
    intro d hd m' hm'
    obtain ⟨hi, hj⟩ := Finset.mem_product.mp hd
    rw [Finset.mem_range] at hi hj
    rcases Sampling.choose_mem hm' with rfl | rfl
    · exact hi
    · exact Sampling.second_lt hi hj
  have hrejected : ∀ d ∈ Sampling.draws endpoints.length, s.outcome endpoints d.1 d.2 = some none ↔
      Sampling.choose (s.hasRoom endpoints) (s.cheaper endpoints) d.1 (Sampling.second d.1 d.2) = none := by
    intro d hd
    rw [houtcome d hd, Option.some_inj]
    constructor
    · intro hnone
      cases hm' : Sampling.choose (s.hasRoom endpoints) (s.cheaper endpoints) d.1 (Sampling.second d.1 d.2) with
      | none => rfl
      | some m' =>
        rw [hm', Option.bind_some, List.getElem?_eq_getElem (hchosen d hd m' hm')] at hnone
        cases hnone
    · intro hnone
      rw [hnone]
      rfl
  refine ⟨Sampling.card_draws _, fun m a ha => ?_, fun d hd => (hrejected d hd).trans Sampling.choose_none, ?_⟩
  · have hm : m < endpoints.length := (List.getElem?_eq_some_iff.mp ha).1
    have hfilter : (Sampling.draws endpoints.length).filter (fun d => s.outcome endpoints d.1 d.2 = some (some a)) =
        (Sampling.draws endpoints.length).filter fun d =>
          Sampling.choose (s.hasRoom endpoints) (s.cheaper endpoints) d.1 (Sampling.second d.1 d.2) = some m := by
      refine Finset.filter_congr fun d hd => ?_
      rw [houtcome d hd, Option.some_inj]
      constructor
      · intro hget
        obtain ⟨m', hm', hget⟩ := Option.bind_eq_some_iff.mp hget
        -- the endpoints are distinct
        have hsame : (endpoints.map (·.state))[m']? = (endpoints.map (·.state))[m]? := by
          rw [List.getElem?_map, List.getElem?_map, hget, ha]
        have hlt : m' < (endpoints.map (·.state)).length := by
          rw [List.length_map]
          exact hchosen d hd m' hm'
        rw [hm', (List.getElem?_inj hlt hdistinct).mp hsame]
      · intro hm'
        rw [hm', Option.bind_some, ha]
    rw [hfilter]
    cases hroom : s.hasRoom endpoints m with
    | false => exact Sampling.card_choose_closed hroom
    | true => exact Sampling.card_choose (cheaper_total hloads) hm hroom
  · rw [← Sampling.card_choose_none _ (s.hasRoom endpoints) (s.cheaper endpoints)]
    exact congrArg Finset.card (Finset.filter_congr hrejected)

end

/-- A call is about to select one of two fresh endpoints, each of which one of the two draws selects. -/
theorem p2c_shares_two : ∃ tr s endpoints, Run (Step sampleDns) (empty 0) tr s ∧
    s.serves = [.loaded 0 endpoints] ∧ endpoints = [⟨.v4 1, 0⟩, ⟨.v4 2, 1⟩] ∧
    (Sampling.draws endpoints.length).card = 2 ∧
    ((Sampling.draws endpoints.length).filter fun d => s.outcome endpoints d.1 d.2 = some (some ⟨.v4 2, 1⟩)).card = 1 := by
  have hp : (play sampleDns (empty 0) (superseding.take 10)).any (fun x =>
      let s := x.2
      let endpoints : List Dns.Endpoint := [⟨.v4 1, 0⟩, ⟨.v4 2, 1⟩]
      decide (s.serves = [.loaded 0 endpoints] ∧ (∀ m < endpoints.length, (s.loadOf endpoints m).isSome) ∧
        s.hasRoom endpoints 1 = true ∧ (Sampling.beaten 2 (s.hasRoom endpoints) (s.cheaper endpoints) 1).card = 0 ∧
        (Sampling.ties 2 (s.hasRoom endpoints) (s.cheaper endpoints) 1).card = 1)) = true := by decide +kernel
  obtain ⟨⟨tr, s⟩, hplay, hres⟩ := (Option.any_eq_true _ _).mp hp
  obtain ⟨hserves, hloads, hroom, hbeaten, hties⟩ := of_decide_eq_true hres
  have hrun := play_run hplay
  obtain ⟨hcard, hshare, -⟩ := p2c_shares (k := 0) hrun (by rw [hserves]; rfl) hloads
  refine ⟨tr, s, _, hrun, hserves, rfl, hcard, ?_⟩
  rw [hshare 1 _ rfl, if_pos hroom]
  show 2 * (Sampling.beaten 2 _ _ 1).card + (Sampling.ties 2 _ _ 1).card = 1
  rw [hbeaten, hties]

end Balancer

end Loadpace.Rama
