import Loadpace.Dns.Invariants
import Loadpace.Machine

/-!
# Refreshes of a host entry (`loadpace-rama/src/dns.rs`)

`refresh_keeps_identity`: at any moment of any run of the cache at one hostname and port, an entry has one refresh in
progress at most, and what it publishes is well formed; a step that publishes a snapshot publishes exactly the addresses
that were resolved for it, keeps the endpoint of every address that stays, and gives a new one to every other address
(`Publishes`); and a refresh that fails or is aborted leaves the snapshot and lets go of the entry (`LetsGo`).
-/

namespace Loadpace.Dns

open Systems Guard

variable {T S C : Type}

/-! ## Answers in the history -/

/-- What the resolver has answered a task. -/
def answersOf (i : ℕ) (tr : List (Label T S C)) : List Answers :=
  tr.filterMap fun l => match l with
    | .task j (.answer answers) => if j = i then some answers else none
    | _ => none

/-- A resolution has one answer of the resolver, and works on its addresses. -/
structure Answered (d : DnsCache T S C) (tr : List (Label T S C)) (s : State T C) : Prop where
  none : ∀ i, (∀ p, s.tasks[i]? = some p → p.unanswered = true) → answersOf i tr = []
  one : ∀ i (p : Place T) ips endpoints, s.tasks[i]? = some p → p.work = some (ips, endpoints) →
    ∃ answers, answersOf i tr = [answers] ∧ endpoints.map (·.ip) ++ ips = addressesOf d.mode answers

theorem answersOf_append (i : ℕ) (tr tr' : List (Label T S C)) :
    answersOf i (tr ++ tr') = answersOf i tr ++ answersOf i tr' := List.filterMap_append

theorem answersOf_self (i : ℕ) (answers : Answers) :
    answersOf i [(.task i (.answer answers) : Label T S C)] = [answers] := by simp [answersOf]

theorem answersOf_other {i : ℕ} {l : Label T S C} (h : ∀ answers, l ≠ .task i (.answer answers)) :
    answersOf i [l] = [] := by
  unfold answersOf
  rw [List.filterMap_cons_none]
  · rfl
  · split
    · rename_i j answers
      rw [if_neg]
      rintro rfl
      exact h answers rfl
    · rfl

theorem mem_answersOf {i : ℕ} {tr : List (Label T S C)} {answers : Answers} (h : answers ∈ answersOf i tr) :
    .task i (.answer answers) ∈ tr := by
  obtain ⟨l, hl, h⟩ := List.mem_filterMap.mp h
  split at h
  · rename_i j answers'
    split at h
    · rename_i hj
      cases h
      exact hj ▸ hl
    · cases h
  · cases h

section

variable [LinearOrder T] [Sub T] {d : DnsCache T S C} {s s' : State T C} {l : Label T S C} {tr : List (Label T S C)}

theorem Move.tasks_length (h : Move d s l s') : s.tasks.length ≤ s'.tasks.length := by
  cases h <;> simp [State.turn, State.wake]

theorem Move.task_mem (h : Move d s l s') {i : ℕ} {action : Action S C} (hl : l = .task i action) :
    ∃ p, s.tasks[i]? = some p := by
  cases h with
  | tick => cases hl
  | join hj =>
    subst hl
    cases hj
  | turn hp | acquire hp | invalidate hp | make hp | insert hp | update hp | release hp | wake hp | operate hp =>
    cases hl
    exact ⟨_, hp⟩

/-- Only a task that waits for answers gets one. -/
theorem Move.asked (h : Move d s l s') {i : ℕ} {answers : Answers} (hl : l = .task i (.answer answers)) :
    ∃ q, s'.tasks[i]? = some q ∧ q.unanswered = false := by
  obtain ⟨p, hp⟩ := h.task_mem hl
  have hlt := (List.getElem?_eq_some_iff.mp hp).1.trans_le h.tasks_length
  refine ⟨_, List.getElem?_eq_getElem hlt, ?_⟩
  by_contra hu
  rw [Bool.not_eq_false] at hu
  subst hl
  have ho := h.origin (List.getElem?_eq_getElem hlt)
  generalize s'.tasks[i] = q at ho hu
  cases ho with
  | stay _ hl => exact hl.ne_answer answers rfl
  | turn hl _ ht =>
    cases hl
    cases ht <;> cases hu
  | make hl => cases hl
  | idle _ hi => exact (hi hu).1 answers rfl

theorem Move.answered (ha : Answered d tr s) (h : Move d s l s') : Answered d (tr ++ [l]) s' := by
  constructor
  · intro i hi
    have hne : ∀ answers, l ≠ .task i (.answer answers) := fun answers hl => by
      obtain ⟨q, hq, hu⟩ := h.asked hl
      rw [hi q hq] at hu
      cases hu
    rw [answersOf_append, answersOf_other hne, List.append_nil]
    refine ha.none i fun p hp => ?_
    have hlt := (List.getElem?_eq_some_iff.mp hp).1.trans_le h.tasks_length
    have hq := List.getElem?_eq_getElem hlt
    have hu := hi _ hq
    have ho := h.origin hq
    generalize s'.tasks[i] = q at ho hu
    cases ho with
    | stay hq _ =>
      cases hp.symm.trans hq
      exact hu
    | turn hl hq ht =>
      cases hp.symm.trans hq
      cases ht <;> first | rfl | cases hu
    | make => cases hu
    | idle _ hn => exact (hn hu).2 p hp
  · intro i q ips endpoints hq hw
    cases h.origin hq with
    | stay hq hl =>
      obtain ⟨answers, h1, h2⟩ := ha.one i q ips endpoints hq hw
      exact ⟨answers, by rw [answersOf_append, answersOf_other hl.ne_answer, List.append_nil, h1], h2⟩
    | @turn action p q hl hp ht =>
      subst hl
      cases ht with
      | answer he =>
        cases hw
        exact ⟨_, by rw [answersOf_append, ha.none i fun p' hp' => (by cases hp.symm.trans hp'; rfl), answersOf_self]; rfl,
          he.symm⟩
      | reuse hr =>
        cases hw
        obtain ⟨answers, h1, h2⟩ := ha.one i _ _ _ hp rfl
        obtain ⟨_, _, _, hip⟩ := reuse_mem hr
        refine ⟨answers, by rw [answersOf_append, answersOf_other (by simp), List.append_nil, h1], ?_⟩
        rw [← h2, List.map_append, List.map_singleton, hip, List.append_assoc]
        rfl
      | stamp =>
        cases hw
        obtain ⟨answers, h1, h2⟩ := ha.one i _ _ _ hp rfl
        exact ⟨answers, by rw [answersOf_append, answersOf_other (by simp), List.append_nil, h1], h2⟩
      | _ => cases hw
    | make hl hp hr hn hst =>
      cases hw
      obtain ⟨answers, h1, h2⟩ := ha.one i _ _ _ hp rfl
      refine ⟨answers, by rw [answersOf_append, answersOf_other (by simp [hl]), List.append_nil, h1], ?_⟩
      rw [← h2, List.map_append, List.map_singleton, List.append_assoc]
      rfl
    | idle hi =>
      rw [hi.work] at hw
      cases hw

end

/-! ## The invariants of a run -/

section

variable [LinearOrder T] [Sub T]

structure Inv (d : DnsCache T S C) (tr : List (Label T S C)) (s : State T C) : Prop where
  sound : Sound s
  exclusive : Exclusive s
  currents : Current s
  priv : Private d s
  answered : Answered d tr s

variable {d : DnsCache T S C} {clock : T} {s s' : State T C} {l : Label T S C} {tr : List (Label T S C)}

omit [Sub T] in
theorem inv_empty : Inv d [] (State.empty clock) where
  sound := ⟨fun x h => (by cases h), fun e h => (by cases h), fun p h => (by cases h)⟩
  exclusive := ⟨fun i j e h => (by cases h), fun e => ⟨fun h => (by cases h), fun ⟨i, h⟩ => (by cases h)⟩⟩
  currents i p e h := by cases h
  priv := ⟨fun i x ⟨p, h, _⟩ => (by cases h), fun i j x ⟨p, h, _⟩ => (by cases h), fun i x ⟨p, h, _⟩ => (by cases h)⟩
  answered := ⟨fun i h => rfl, fun i p ips endpoints h => (by cases h)⟩

theorem Inv.step (hi : Inv d tr s) (h : Step d s l s') : Inv d (tr ++ [l]) s' :=
  have hm := exec_move h
  ⟨hm.sound hi.sound, hm.exclusive hi.exclusive, hm.currents hi.sound hi.exclusive hi.currents,
    hm.private hi.sound hi.priv, hm.answered hi.answered⟩

theorem run_inv (h : Run (Step d) (State.empty clock) tr s) : Inv d tr s := by
  induction h with
  | nil => exact inv_empty
  | snoc _ he ih => exact ih.step he

end

/-! ## The chain of snapshots -/

/-- The addresses of a snapshot. -/
def ResolvedSnapshot.ips (snapshot : ResolvedSnapshot T) : List IpAddr := snapshot.endpoints.map (·.ip)

section

variable [LinearOrder T] [Sub T] {d : DnsCache T S C} {clock : T} {s s' : State T C} {l : Label T S C}
  {tr : List (Label T S C)}

/-- **What a task publishes** in an entry, after the history `tr`. -/
structure Publishes (d : DnsCache T S C) (tr : List (Label T S C)) (s s' : State T C) (i e : ℕ)
    (snapshot : ResolvedSnapshot T) : Prop where
  /-- Exactly the addresses that were resolved for it. -/
  resolved : ∃ answers, answersOf i tr = [answers] ∧ ∀ ip, ip ∈ snapshot.ips ↔ answers.Resolved d.mode ip
  /-- An address that stays keeps its endpoint. -/
  kept : ∀ old, s.current e = some old → ∀ a ∈ old.endpoints, a.ip ∈ snapshot.ips → a ∈ snapshot.endpoints
  /-- Every other address has an endpoint state that is new, and that nothing referred to. -/
  fresh : ∀ a ∈ snapshot.endpoints, (∀ old, s.current e = some old → a.ip ∉ old.ips) →
    ¬ s.Referenced a.state ∧ ∃ t ≤ s.clock, ∃ seed c, d.newState t seed = some c ∧ s'.states[a.state]? = some c
  states : s'.states = s.states

/-- **A refresh that fails or is aborted** leaves the snapshot and lets go of the entry. -/
structure LetsGo (d : DnsCache T S C) (s : State T C) : Prop where
  /-- Dropped or in a panic, wherever it is. -/
  abort : ∀ i e, s.refreshes i = some e → s.tasks[i]? ≠ some (.releasing e) →
    ∃ s', Step d s (.task i .drop) s' ∧ s'.tasks[i]? = some (.releasing e) ∧ s'.current = s.current
  /-- Without a resolved address. -/
  fail : ∀ i e previous answers, s.tasks[i]? = some (.collecting (.refresh e) previous) →
    (∀ ip, ¬ answers.Resolved d.mode ip) →
    ∃ s', Step d s (.task i (.answer answers)) s' ∧ s'.tasks[i]? = some (.releasing e) ∧ s'.current = s.current
  release : ∀ i e, s.tasks[i]? = some (.releasing e) →
    ∃ s', Step d s (.task i .release) s' ∧ s'.current = s.current ∧ ∀ j, s'.refreshes j ≠ some e
  /-- A later lookup refreshes the entry again. -/
  again : ∀ i e, s.tasks[i]? = some (.due e) → (∀ j, s.refreshes j ≠ some e) →
    ∃ s', Step d s (.task i .spawnRefresh) s' ∧ s'.refreshes s.tasks.length = some e

theorem Move.states_of_store {i : ℕ} (h : Move d s (.task i .store) s') : s'.states = s.states := by
  cases h <;> rfl

theorem Inv.publishes (hi : Inv d tr s) (h : Step d s l s') (e : ℕ) :
    s'.current e = s.current e ∨
      ∃ i snapshot, l = .task i .store ∧ s'.current e = some snapshot ∧ Publishes d tr s s' i e snapshot := by
  have hm := exec_move h
  rcases hm.current e with hsame | ⟨i, goal, previous, snapshot, rfl, hp, he, hgoal⟩
  · exact .inl hsame
  have hok := hi.sound.tasks _ (List.mem_of_getElem? hp)
  have hbuilt := hok.work _ _ rfl
  -- the resolution has read the snapshot that the entry still publishes
  have hprev : previous = s.current e := by
    rcases hgoal with ⟨rfl, hnone⟩ | rfl
    · rw [hnone]
      exact hok.initial rfl
    · exact hi.currents i _ e hp rfl
  refine .inr ⟨i, snapshot, rfl, he, ?_, ?_, ?_, ?_⟩
  · obtain ⟨answers, ha, hips⟩ := hi.answered.one i _ _ _ hp rfl
    refine ⟨answers, ha, fun ip => ?_⟩
    rw [ResolvedSnapshot.ips, ← List.append_nil (snapshot.endpoints.map _), hips]
    exact mem_addressesOf
  · intro old hold a ha hip
    obtain ⟨b, hb, hba⟩ := List.mem_map.mp hip
    have hbip : b.ip = a.ip := hba
    rw [← hprev] at hold
    cases hr : reuse previous b.ip with
    | none => exact absurd hbip.symm (reuse_eq_none.mp hr old hold a ha)
    | some c =>
      obtain rfl := hbuilt.reused b hb c hr
      obtain ⟨old', hold', hc, -⟩ := reuse_mem hr
      obtain rfl := Option.some.inj (hold.symm.trans hold')
      obtain rfl := (hok.previous hold).ip_inj ha hc hbip.symm
      exact hb
  · intro a ha hnot
    have hr : reuse previous a.ip = none := by
      refine reuse_eq_none.mpr fun old hold b hb hba => ?_
      exact hnot old (hprev ▸ hold) (hba ▸ List.mem_map_of_mem hb)
    have ho : s.Owns i a.state := ⟨_, hp, [], _, rfl, a, ha, rfl, hr⟩
    obtain ⟨t, ht, seed, c, hn, hc⟩ := hi.priv.new i a.state ho
    refine ⟨hi.priv.unknown i a.state ho, t, ht, seed, c, hn, ?_⟩
    rcases hm.states hc with hc | ⟨_, _, hl, _⟩
    · exact hc
    · cases hl
  · exact hm.states_of_store

/-- What an entry publishes was resolved. -/
theorem run_resolved (h : Run (Step d) (State.empty clock) tr s) (e : ℕ) (snapshot : ResolvedSnapshot T)
    (he : s.current e = some snapshot) :
    ∃ i answers, .task i (.answer answers) ∈ tr ∧ ∀ ip, ip ∈ snapshot.ips ↔ answers.Resolved d.mode ip := by
  induction h with
  | nil => cases he
  | snoc hr hl ih =>
    rcases (run_inv hr).publishes hl e with hsame | ⟨i, new, -, hnew, hp⟩
    · obtain ⟨i, answers, hmem, hres⟩ := ih (hsame ▸ he)
      exact ⟨i, answers, List.mem_append_left _ hmem, hres⟩
    · obtain rfl := Option.some.inj (he.symm.trans hnew)
      obtain ⟨answers, ha, hres⟩ := hp.resolved
      exact ⟨i, answers, List.mem_append_left _ (mem_answersOf (ha ▸ List.mem_singleton_self _)), hres⟩

theorem Inv.letsGo (hi : Inv d tr s) : LetsGo d s := by
  have hentry (e : ℕ) (i : ℕ) (p : Place T) (hp : s.tasks[i]? = some p) (he : p.entry? = some e) :
      ∃ entry, s.entries[e]? = some entry :=
    ⟨_, List.getElem?_eq_getElem ((hi.sound.tasks p (List.mem_of_getElem? hp)).entry e he)⟩
  refine ⟨fun i e hr hne => ?_, fun i e previous answers hp hno => ?_, fun i e hp => ?_, fun i e hp hfree => ?_⟩
  · obtain ⟨p, hp, hpe⟩ := Option.bind_eq_some_iff.mp hr
    refine ⟨s.turn i (.releasing e), ?_, by rw [getElem?_turn hp, if_pos rfl], rfl⟩
    rw [Step, State.exec, hp]
    show s.abort i p = _
    unfold State.abort
    split
    · cases hpe
    · cases hpe
      exact absurd hp hne
    · rw [hpe]
  · have hnil : addressesOf d.mode answers = [] :=
      List.eq_nil_iff_forall_not_mem.mpr fun ip hip => hno ip (mem_addressesOf.mp hip)
    refine ⟨s.turn i (.releasing e), ?_, by rw [getElem?_turn hp, if_pos rfl], rfl⟩
    rw [Step, State.exec, hp, Option.bind_some, State.act, hnil]
    rfl
  · obtain ⟨entry, he⟩ := hentry e i _ hp rfl
    have hstep : Step d s (.task i .release)
        ({ s with entries := s.entries.set e { entry with refreshing := false } }.turn i .gone) := by
      rw [Step, State.exec, hp]
      show (s.entries[e]?.bind fun entry => _) = _
      rw [he]
      rfl
    have hm := exec_move hstep
    refine ⟨_, hstep, funext fun x => ?_, fun j hj => ?_⟩
    · rcases hm.current x with hsame | ⟨_, _, _, _, hl, _⟩
      · exact hsame
      · cases hl
    · have hup := ((hm.exclusive hi.exclusive).flag e).mpr ⟨j, hj⟩
      have hdown := congrFun (flag_set { entry with refreshing := false } he) e
      rw [Function.update_self] at hdown
      cases hup.symm.trans hdown
  · obtain ⟨entry, he⟩ := hentry e i _ hp rfl
    have hdown : entry.refreshing = false := by
      by_contra hup
      obtain ⟨j, hj⟩ := (hi.exclusive.flag e).mp (by rw [State.flag, he]; simpa using hup)
      exact hfree j hj
    refine ⟨{ s with
      entries := s.entries.set e { entry with refreshing := true }
      tasks := s.tasks.set i (.served e []) ++ [.acquired e] }, ?_, ?_⟩
    · rw [Step, State.exec, hp]
      show (s.entries[e]?.bind fun entry => _) = _
      rw [he]
      show some (if entry.refreshing = true then _ else _) = _
      rw [hdown]
      rfl
    · rw [State.refreshes, getElem?_join, if_pos List.length_set.symm]
      rfl

end

/-! ## A run -/

/-- The default ages, in nanoseconds, and controllers that are numbered by their seeds. -/
def sampleCache : DnsCache ℕ ℕ (EndpointController ℕ ℚ ℕ) where
  newState now seed := EndpointController.newWithRng sampleConfig now seed seed
  refreshAfter := 30000000000
  evictAfterStale := 300000000000
  mode := .dual

/-- A task in `resolve`, with answers of version 4 for so many addresses. -/
def resolving (i n : ℕ) (v4 : List (Option (Fin (2 ^ 32)))) : List (Label ℕ ℕ (EndpointController ℕ ℚ ℕ)) :=
  .task i (.answer ⟨v4, [none]⟩) :: ((List.range n).map fun seed => .task i (.endpoint seed)) ++ [.task i .stamp]

/-- A lookup initializes the entry, and another, later, has it refreshed, up to the end of `resolve`. -/
def refreshing : List (Label ℕ ℕ (EndpointController ℕ ℚ ℕ)) :=
  [.lookup, .task 0 .get, .task 0 .tryGetWith] ++ resolving 0 2 [some 2, none, some 1, some 2] ++ [.task 0 .store] ++
  [.tick 40000000000, .lookup, .task 1 .get, .task 1 .load, .task 1 .measure, .task 1 .spawnRefresh,
    .task 2 .loadPrevious] ++ resolving 2 2 [some 3, some 2]

theorem play_refreshing : ∃ s, Systems.play (State.exec sampleCache) (State.empty 0) refreshing = some s ∧
    s.current 0 = some ⟨[⟨.v4 1, 0⟩, ⟨.v4 2, 1⟩], 0⟩ ∧
    (s.exec sampleCache (.task 2 .store)).map (·.current 0) =
      some (some ⟨[⟨.v4 2, 1⟩, ⟨.v4 3, 2⟩], 40000000000⟩) := by
  refine ⟨(Systems.play (State.exec sampleCache) (State.empty 0) refreshing).get (by decide +kernel), (Option.some_get _).symm, ?_, ?_⟩
  all_goals decide +kernel

/-! ## Identity -/

section

variable [LinearOrder T] [Sub T] {d : DnsCache T S C} {clock : T} {s : State T C} {tr : List (Label T S C)}

/-- **Refreshes keep the identity of endpoints.** -/
theorem refresh_keeps_identity (h : Run (Step d) (State.empty clock) tr s) :
    (∀ i j e, s.refreshes i = some e → s.refreshes j = some e → i = j) ∧
    (∀ e snapshot, s.current e = some snapshot → snapshot.ips ≠ [] ∧ snapshot.ips.Pairwise (· < ·) ∧
      ∃ i answers, .task i (.answer answers) ∈ tr ∧ ∀ ip, ip ∈ snapshot.ips ↔ answers.Resolved d.mode ip) ∧
    (∀ l s', Step d s l s' →
      (∀ e, s'.current e = s.current e ∨
        ∃ i snapshot, l = .task i .store ∧ s'.current e = some snapshot ∧ Publishes d tr s s' i e snapshot) ∧
      ∀ x c, s.states[x]? = some c → s'.states[x]? = some c ∨
        ∃ i operation, l = .task i (.withController x operation) ∧ s'.states[x]? = operation c) ∧
    LetsGo d s := by
  have hi := run_inv h
  refine ⟨hi.exclusive.one, fun e snapshot he => ?_, fun l s' hstep => ⟨hi.publishes hstep, fun x c hx => ?_⟩, hi.letsGo⟩
  · obtain ⟨entry, hentry, rfl⟩ := Option.map_eq_some_iff.mp he
    have hok := (hi.sound.entry hentry).2
    exact ⟨fun hnil => hok.nonempty (List.map_eq_nil_iff.mp hnil), hok.ascending, run_resolved h e _ he⟩
  · rcases (exec_move hstep).states hx with hx | ⟨i, operation, hl, -, ho⟩
    · exact .inl hx
    · exact .inr ⟨i, operation, hl, ho⟩

end

theorem refresh_keeps_identity_sample : ∃ s s' snapshot, Run (Step sampleCache) (State.empty 0) refreshing s ∧
    s.current 0 = some ⟨[⟨.v4 1, 0⟩, ⟨.v4 2, 1⟩], 0⟩ ∧ Step sampleCache s (.task 2 .store) s' ∧
    s'.current 0 = some snapshot ∧ snapshot.endpoints = [⟨.v4 2, 1⟩, ⟨.v4 3, 2⟩] ∧
    Publishes sampleCache refreshing s s' 2 0 snapshot := by
  obtain ⟨s, hs, hold, hstore⟩ := play_refreshing
  obtain ⟨s', hs', hnew⟩ := Option.map_eq_some_iff.mp hstore
  have hrun := Systems.play_run hs
  refine ⟨s, s', _, hrun, hold, hs', hnew, rfl, ?_⟩
  rcases ((refresh_keeps_identity hrun).2.2.1 _ s' hs').1 0 with hsame | ⟨i, snapshot, hl, he, hp⟩
  · rw [hold, hnew] at hsame
    exact absurd hsame (by decide)
  · cases hl
    obtain rfl := Option.some.inj (hnew.symm.trans he)
    exact hp

end Loadpace.Dns
