import Loadpace.Dns.Expiry

/-!
# Evictions of a host entry (`loadpace-rama/src/dns.rs`)

`DnsCache::new` gives the entry map a capacity and an idle time, so the map may drop an entry of its own, between any two
steps (`Evicts`).

`evictions_keep_identity`: whenever it does, refreshes keep the identity of endpoints, one initializer runs at a time, the
map loses an entry before another is made, and no controller belongs to two entries: whoever still holds the evicted entry
and whoever looks its hostname up again have controllers of their own.
-/

namespace Loadpace.Dns

open Systems

variable {T S C : Type}

/-- The entry map drops the entry, for its capacity or its idle time. -/
def Evicts (s s' : State T C) : Prop := s' = { s with cached := none }

/-- The entry map loses its entry: an eviction, or the `invalidate` of a lookup, that finds one. -/
def loses (s : State T C) : Option (Label T S C) → Bool
  | none | some (.task _ .invalidate) => s.cached.isSome
  | _ => false

/-! ## What belongs to one entry -/

/-- No endpoint state is published by two entries. -/
def Apart (s : State T C) : Prop :=
  ∀ e e' snapshot snapshot', s.current e = some snapshot → s.current e' = some snapshot' →
    ∀ a ∈ snapshot.endpoints, ∀ a' ∈ snapshot'.endpoints, a.state = a'.state → e = e'

theorem current_lt {s : State T C} {e : ℕ} {snapshot : ResolvedSnapshot T} (h : s.current e = some snapshot) :
    e < s.entries.length := by
  obtain ⟨entry, he, -⟩ := Option.map_eq_some_iff.mp h
  exact (List.getElem?_eq_some_iff.mp he).1

section

variable [LinearOrder T] [Sub T] {d : DnsCache T S C} {s s' : State T C} {l : Label T S C} {tr : List (Label T S C)}

/-- A step publishes in one entry. -/
theorem Move.publishes_one (h : Move d s l s') {e e' : ℕ} (he : s'.current e ≠ s.current e)
    (he' : s'.current e' ≠ s.current e') : e = e' := by
  obtain ⟨i, goal, previous, snapshot, hl, hp, hnew, hgoal⟩ := (h.current e).resolve_left he
  obtain ⟨i', goal', previous', snapshot', hl', hp', hnew', hgoal'⟩ := (h.current e').resolve_left he'
  subst hl
  cases hl'
  cases hp.symm.trans hp'
  rcases hgoal with ⟨rfl, hnone⟩ | rfl
  · rcases hgoal' with ⟨-, hnone'⟩ | hgoal'
    · -- both are the entry that the initializer makes
      have hlast : ∀ x snapshot, s'.current x = some snapshot → s.current x = none → x = s.entries.length := by
        intro x snapshot hx hn
        have hlt := current_lt hx
        have hge : s.entries.length ≤ x := by simpa [State.current] using hn
        rcases h.cached with ⟨-, hlen⟩ | ⟨-, hlen, -⟩ | ⟨-, hlen, -⟩ <;> omega
      rw [hlast e _ hnew hnone, hlast e' _ hnew' hnone']
    · cases hgoal'
  · rcases hgoal' with ⟨h', -⟩ | h'
    · cases h'
    · cases h'
      rfl

/-- What a step publishes has its endpoint states from the same entry, or they are new. -/
theorem Inv.published_apart (hi : Inv d tr s) (ha : Apart s) (h : Step d s l s') {e x : ℕ}
    {snapshot snapshot' : ResolvedSnapshot T} (he : s'.current e = some snapshot) (hne : s'.current e ≠ s.current e)
    (hx : s.current x = some snapshot') {a a' : Endpoint} (hm : a ∈ snapshot.endpoints) (hm' : a' ∈ snapshot'.endpoints)
    (hs : a.state = a'.state) : e = x := by
  obtain ⟨i, new, -, hnew, hp⟩ := (hi.publishes h e).resolve_left hne
  cases he.symm.trans hnew
  by_cases hold : ∃ old, s.current e = some old ∧ a.ip ∈ old.ips
  · obtain ⟨old, hold, hip⟩ := hold
    obtain ⟨b, hb, hba⟩ := List.mem_map.mp hip
    -- the address had an endpoint in the entry, and has kept it
    have hok : snapshot.Ok s'.states.length := by
      obtain ⟨entry, hentry, rfl⟩ := Option.map_eq_some_iff.mp he
      exact (((exec_move h).sound hi.sound).entry hentry).2
    have hb' : b ∈ snapshot.endpoints := by
      apply hp.kept old hold b hb
      rw [hba]
      exact List.mem_map_of_mem hm
    obtain rfl := hok.ip_inj hb' hm hba
    exact ha e x old snapshot' hold hx b hb a' hm' hs
  · have hfresh := (hp.fresh a hm fun old ho hip => hold ⟨old, ho, hip⟩).1
    exact absurd (.inl ⟨x, snapshot', hx, a', hm', hs.symm⟩) hfresh

theorem Inv.apart (hi : Inv d tr s) (ha : Apart s) (h : Step d s l s') : Apart s' := by
  intro e e' snapshot snapshot' he he' a hm a' hm' hs
  by_cases hsame : s'.current e = s.current e
  · by_cases hsame' : s'.current e' = s.current e'
    · exact ha e e' snapshot snapshot' (hsame ▸ he) (hsame' ▸ he') a hm a' hm' hs
    · exact (hi.published_apart ha h he' hsame' (hsame ▸ he) hm' hm hs.symm).symm
  · by_cases hsame' : s'.current e' = s.current e'
    · exact hi.published_apart ha h he hsame (hsame' ▸ he') hm hm' hs
    · exact (exec_move h).publishes_one hsame hsame'

end

/-! ## Runs with evictions -/

section

variable [LinearOrder T] [Sub T] {d : DnsCache T S C} {clock : T} {s s' : State T C}
  {tr : List (Option (Label T S C))}

/-- The steps of the cache, and evictions between them. -/
abbrev EvictingStep (d : DnsCache T S C) : State T C → Option (Label T S C) → State T C → Prop :=
  disturbedStep (Step d) Evicts

/-- What the steps and the evictions keep. -/
structure Kept (d : DnsCache T S C) (tr : List (Label T S C)) (s : State T C) : Prop where
  inv : Inv d tr s
  single : Single s
  apart : Apart s
  resolved : ∀ e snapshot, s.current e = some snapshot → ∃ i answers, .task i (.answer answers) ∈ tr ∧
    ∀ ip, ip ∈ snapshot.ips ↔ answers.Resolved d.mode ip

omit [Sub T] in
theorem kept_empty : Kept d [] (State.empty clock) :=
  ⟨inv_empty, single_empty, fun e e' snapshot snapshot' h => (by cases h), fun e snapshot h => (by cases h)⟩

theorem Kept.step {tr : List (Label T S C)} {l : Label T S C} (hk : Kept d tr s) (h : Step d s l s') :
    Kept d (tr ++ [l]) s' := by
  refine ⟨hk.inv.step h, (exec_move h).single hk.single, hk.inv.apart hk.apart h, fun e snapshot he => ?_⟩
  rcases hk.inv.publishes h e with hsame | ⟨i, new, -, hnew, hp⟩
  · obtain ⟨i, answers, hmem, hres⟩ := hk.resolved e snapshot (hsame ▸ he)
    exact ⟨i, answers, List.mem_append_left _ hmem, hres⟩
  · cases he.symm.trans hnew
    obtain ⟨answers, ha, hres⟩ := hp.resolved
    exact ⟨i, answers, List.mem_append_left _ (mem_answersOf (ha ▸ List.mem_singleton_self _)), hres⟩

omit [Sub T] in
/-- An eviction leaves the entries, their refreshes and the tasks. -/
theorem Kept.evict {tr : List (Label T S C)} (hk : Kept d tr s) (h : Evicts s s') : Kept d tr s' := by
  subst h
  obtain ⟨hs, hx, hc, hp, ha⟩ := hk.inv
  exact ⟨⟨⟨hs.entries, fun e h => (by cases h), hs.tasks⟩, ⟨hx.one, hx.flag⟩, hc, ⟨hp.unknown, hp.one, hp.new⟩,
    ⟨ha.none, ha.one⟩⟩, ⟨hk.single.one, fun i _ => rfl, fun e h => (by cases h)⟩, hk.apart, hk.resolved⟩

theorem run_kept (h : Run (EvictingStep d) (State.empty clock) tr s) : Kept d (tr.filterMap id) s :=
  h.disturbed_invariant kept_empty (fun _ _ _ _ hstep hk => hk.step hstep) fun _ _ _ hev hk => hk.evict hev

/-- Before another entry is made, the map loses the one it has. -/
theorem run_entries {tr : List (State T C × Option (Label T S C))}
    (h : Run (stampedStep (EvictingStep d)) (State.empty clock) tr s) :
    s.entries.length ≤ tr.countP (fun x => loses x.1 x.2) + if s.cached.isSome then 1 else 0 := by
  induction h with
  | nil => exact Nat.zero_le _
  | @snoc tr m e s hr he ih =>
    obtain ⟨before, e⟩ := e
    obtain ⟨rfl, he⟩ := he
    have hfound {e : Option (Label T S C)} (he : loses before e = before.cached.isSome) :
        before.entries.length ≤ tr.countP (fun x => loses x.1 x.2) + if loses before e then 1 else 0 := by
      rw [he]
      exact ih
    rw [List.countP_append, List.countP_singleton]
    cases he with
    | env hev =>
      subst hev
      exact hfound rfl
    | @step l _ hl =>
      rcases (exec_move hl).cached with ⟨hc, hlen⟩ | ⟨hc, hlen, i, x, seen, hli, -⟩ | ⟨hc, hlen, i, -, hi⟩
      · rw [hc, hlen]
        exact ih.trans (Nat.add_le_add_right (Nat.le_add_right _ _) _)
      · subst hli
        rw [hc, hlen]
        exact hfound rfl
      · -- the initializer has run while the map was empty
        rw [(run_kept hr.unstamped).single.empty i hi] at ih
        rw [hc, hlen]
        exact Nat.succ_le_succ (ih.trans (Nat.le_add_right _ _))

end

/-! ## A run -/

/-- A lookup initializes an entry of two addresses, with answers in its turn. -/
def initializing (i seeds : ℕ) (v4 : List (Option (Fin (2 ^ 32)))) : List (Label ℕ ℕ (EndpointController ℕ ℚ ℕ)) :=
  [.lookup, .task i .get, .task i .tryGetWith] ++ resolving i seeds v4 ++ [.task i .store]

/-- The hostname is looked up, evicted, and looked up again. -/
theorem run_evicted : ∃ s, Run (EvictingStep sampleCache) (State.empty 0)
    ((initializing 0 2 [some 1, some 2]).map some ++ [none] ++ (initializing 1 2 [some 1, some 3]).map some) s ∧
    s.current 0 = some ⟨[⟨.v4 1, 0⟩, ⟨.v4 2, 1⟩], 0⟩ ∧ s.current 1 = some ⟨[⟨.v4 1, 2⟩, ⟨.v4 3, 3⟩], 0⟩ := by
  obtain ⟨m, hm⟩ : ∃ m,
      Systems.play (State.exec sampleCache) (State.empty 0) (initializing 0 2 [some 1, some 2]) = some m :=
    ⟨_, (Option.some_get (show _ by decide +kernel)).symm⟩
  have hplay : ((Systems.play (State.exec sampleCache) (State.empty 0) (initializing 0 2 [some 1, some 2])).bind fun m =>
      (Systems.play (State.exec sampleCache) { m with cached := none } (initializing 1 2 [some 1, some 3])).map
        fun s => (s.current 0, s.current 1)) =
      some (some ⟨[⟨.v4 1, 0⟩, ⟨.v4 2, 1⟩], 0⟩, some ⟨[⟨.v4 1, 2⟩, ⟨.v4 3, 3⟩], 0⟩) := by decide +kernel
  rw [hm, Option.bind_some] at hplay
  obtain ⟨s, hs, hcur⟩ := Option.map_eq_some_iff.mp hplay
  have hbefore : Run (EvictingStep sampleCache) (State.empty 0) _ m := (Systems.play_run hm).undisturbed
  have hafter : Run (EvictingStep sampleCache) { m with cached := none } _ s := (Systems.play_run hs).undisturbed
  exact ⟨s, (hbefore.snoc (.env rfl)).append hafter, congrArg Prod.fst hcur, congrArg Prod.snd hcur⟩

/-! ## Identity -/

section

variable [LinearOrder T] [Sub T] {d : DnsCache T S C} {clock : T} {s : State T C}
  {tr : List (State T C × Option (Label T S C))}

/-- **Evictions keep the identity of endpoints.** -/
theorem evictions_keep_identity (h : Run (stampedStep (EvictingStep d)) (State.empty clock) tr s) :
    (∀ i j, s.Initializes i → s.Initializes j → i = j) ∧
    (∀ i j e, s.refreshes i = some e → s.refreshes j = some e → i = j) ∧
    s.entries.length ≤ tr.countP (fun x => loses x.1 x.2) + 1 ∧
    (∀ e snapshot, s.current e = some snapshot → snapshot.ips ≠ [] ∧ snapshot.ips.Pairwise (· < ·) ∧
      ∃ i answers, some (.task i (.answer answers)) ∈ tr.map Prod.snd ∧ ∀ ip, ip ∈ snapshot.ips ↔ answers.Resolved d.mode ip) ∧
    (∀ e e' snapshot snapshot', s.current e = some snapshot → s.current e' = some snapshot' →
      ∀ a ∈ snapshot.endpoints, ∀ a' ∈ snapshot'.endpoints, a.state = a'.state → e = e' ∧ a = a') ∧
    (∀ l s', Step d s l s' →
      (∀ e, s'.current e = s.current e ∨ ∃ i snapshot, l = .task i .store ∧ s'.current e = some snapshot ∧
        Publishes d ((tr.map Prod.snd).filterMap id) s s' i e snapshot) ∧
      ∀ x c, s.states[x]? = some c → s'.states[x]? = some c ∨
        ∃ i operation, l = .task i (.withController x operation) ∧ s'.states[x]? = operation c) ∧
    LetsGo d s := by
  have hk := run_kept h.unstamped
  have hok {e : ℕ} {snapshot : ResolvedSnapshot T} (he : s.current e = some snapshot) : snapshot.Ok s.states.length := by
    obtain ⟨entry, hentry, rfl⟩ := Option.map_eq_some_iff.mp he
    exact (hk.inv.sound.entry hentry).2
  refine ⟨hk.single.one, hk.inv.exclusive.one, ?_, fun e snapshot he => ?_, fun e e' snapshot snapshot' he he' a hm a' hm' hs => ?_,
    fun l s' hstep => ⟨hk.inv.publishes hstep, fun x c hx => ?_⟩, hk.inv.letsGo⟩
  · refine (run_entries h).trans ?_
    split <;> omega
  · obtain ⟨i, answers, hmem, hres⟩ := hk.resolved e snapshot he
    obtain ⟨o, ho, heq⟩ := List.mem_filterMap.mp hmem
    exact ⟨fun hnil => (hok he).nonempty (List.map_eq_nil_iff.mp hnil), (hok he).ascending, i, answers, heq ▸ ho, hres⟩
  · obtain rfl := hk.apart e e' snapshot snapshot' he he' a hm a' hm' hs
    cases he.symm.trans he'
    exact ⟨rfl, (hok he).state_inj hm hm' hs⟩
  · rcases (exec_move hstep).states hx with hx | ⟨i, operation, hl, -, ho⟩
    · exact .inl hx
    · exact .inr ⟨i, operation, hl, ho⟩

end

theorem evictions_keep_identity_sample : ∃ tr s, Run (stampedStep (EvictingStep sampleCache)) (State.empty 0) tr s ∧
    s.current 0 = some ⟨[⟨.v4 1, 0⟩, ⟨.v4 2, 1⟩], 0⟩ ∧ s.current 1 = some ⟨[⟨.v4 1, 2⟩, ⟨.v4 3, 3⟩], 0⟩ ∧
    s.entries.length ≤ tr.countP (fun x => loses x.1 x.2) + 1 ∧ LetsGo sampleCache s := by
  obtain ⟨s, hs, h0, h1⟩ := run_evicted
  obtain ⟨tr, -, hrun⟩ := hs.stamped
  obtain ⟨-, -, hlen, -, -, -, hgo⟩ := evictions_keep_identity hrun
  exact ⟨tr, s, hrun, h0, h1, hlen, hgo⟩

end Loadpace.Dns
