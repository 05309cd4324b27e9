import Loadpace.Dns.Refresh

/-!
# Expiry of a host entry (`loadpace-rama/src/dns.rs`)

`lookup` decides on the age of a snapshot that it has loaded, and then removes whatever the map holds. Nothing keeps another
lookup from putting a new entry there in between, or a refresh from publishing: `fresh_entry_discarded` is a run in which two
lookups cross one expiry and the second removes the entry that the first has just made.

`undisturbed_discards_stale`: where every lookup still finds what it measured (`Undisturbed`), only an entry without a
successful refresh for `evict_after_stale` is removed, and lookups that end on different entries are separated by such a
removal.
-/

namespace Loadpace.Dns

open Systems

variable {T S C : Type}

/-! ## One entry at a time -/

namespace State

/-- The task runs the initializer of `try_get_with`. -/
def Initializes (s : State T C) (i : ℕ) : Prop := ∃ p, s.tasks[i]? = some p ∧ p.initializes = true

end State

/-- One initializer runs at a time, and while the map is empty; the map holds the last entry that was made. -/
structure Single (s : State T C) : Prop where
  one : ∀ i j, s.Initializes i → s.Initializes j → i = j
  empty : ∀ i, s.Initializes i → s.cached = none
  last : ∀ e, s.cached = some e → e + 1 = s.entries.length

section

variable [LinearOrder T] [Sub T] {d : DnsCache T S C} {s s' : State T C} {l : Label T S C} {j : ℕ}

/-- A task runs an initializer, or begins one when there is none. -/
theorem Move.initializes (h : Move d s l s') (hj : s'.Initializes j) :
    (s.Initializes j ∧ l ≠ .task j .store) ∨
      (l = .task j .tryGetWith ∧ s.cached = none ∧ ∀ i, ¬ s.Initializes i) := by
  obtain ⟨q, hq, hinit⟩ := hj
  cases h.origin hq with
  | stay hq' hl => exact .inl ⟨⟨q, hq', hinit⟩, hl.ne_store⟩
  | @turn action p q hl hp ht =>
    subst hl
    cases ht with
    | initial hn hno =>
      refine .inr ⟨rfl, hn, fun i ⟨p, hp, hpi⟩ => ?_⟩
      have hany := List.any_eq_true.mpr ⟨p, List.mem_of_getElem? hp, hpi⟩
      rw [hno] at hany
      cases hany
    | answer | reuse | stamp => exact .inl ⟨⟨_, hp, hinit⟩, by simp⟩
    | _ => cases hinit
  | make hl hp => exact .inl ⟨⟨_, hp, hinit⟩, by simp [hl]⟩
  | idle hi =>
    have hg := hi.goal
    cases q <;> first | cases hinit | cases hg

/-- The map loses its entry to a lookup, and gains one from an initializer. -/
theorem Move.cached (h : Move d s l s') :
    (s'.cached = s.cached ∧ s'.entries.length = s.entries.length) ∨
    (s'.cached = none ∧ s'.entries.length = s.entries.length ∧
      ∃ i e seen, l = .task i .invalidate ∧ s.tasks[i]? = some (.expired e seen)) ∨
    (s'.cached = some s.entries.length ∧ s'.entries.length = s.entries.length + 1 ∧
      ∃ i, l = .task i .store ∧ s.Initializes i) := by
  cases h with
  | acquire | update | release => exact .inl ⟨rfl, by simp [State.turn]⟩
  | invalidate hp => exact .inr (.inl ⟨rfl, rfl, _, _, _, rfl, hp⟩)
  | insert hp => exact .inr (.inr ⟨rfl, by simp [State.wake], _, rfl, _, hp, rfl⟩)
  | _ => exact .inl ⟨rfl, rfl⟩

theorem Move.single (hs : Single s) (h : Move d s l s') : Single s' := by
  refine ⟨fun i j hi hj => ?_, fun i hi => ?_, fun e he => ?_⟩
  · rcases h.initializes hi with ⟨hi, -⟩ | ⟨hl, -, hno⟩
    · rcases h.initializes hj with ⟨hj, -⟩ | ⟨-, -, hno⟩
      · exact hs.one i j hi hj
      · exact absurd hi (hno i)
    · rcases h.initializes hj with ⟨hj, -⟩ | ⟨hl', -, -⟩
      · exact absurd hj (hno j)
      · rw [hl] at hl'
        cases hl'
        rfl
  · rcases h.initializes hi with ⟨hi, hl⟩ | ⟨hl, hn, -⟩
    · rcases h.cached with ⟨hc, -⟩ | ⟨hc, -⟩ | ⟨-, -, k, hk, hki⟩
      · exact hc.trans (hs.empty i hi)
      · exact hc
      · exact absurd (hs.one k i hki hi ▸ hk) hl
    · rcases h.cached with ⟨hc, -⟩ | ⟨hc, -⟩ | ⟨-, -, k, hk, -⟩
      · exact hc.trans hn
      · exact hc
      · rw [hl] at hk
        cases hk
  · rcases h.cached with ⟨hc, hlen⟩ | ⟨hc, -⟩ | ⟨hc, hlen, -⟩
    · rw [hlen]
      exact hs.last e (hc ▸ he)
    · rw [hc] at he
      cases he
    · rw [hc] at he
      cases he
      exact hlen.symm

omit [LinearOrder T] [Sub T] in
theorem single_empty {clock : T} : Single (State.empty clock : State T C) :=
  ⟨fun i j ⟨p, h, _⟩ => (by cases h), fun i ⟨p, h, _⟩ => (by cases h), fun e h => (by cases h)⟩

end

/-! ## What a lookup has measured -/

section

variable [AddCommMonoid T] [LinearOrder T] [Sub T]

/-- A lookup that is about to remove an entry has measured a snapshot of the age for that. -/
def Measured (d : DnsCache T S C) (s : State T C) : Prop :=
  ∀ (i e : ℕ) (seen : ResolvedSnapshot T), s.tasks[i]? = some (.expired e seen) → d.evictAfterStale ≤ s.clock - seen.fetchedAt

variable [Time T] {d : DnsCache T S C} {s s' : State T C} {l : Label T S C}

theorem Move.measured (hs : Measured d s) (h : Move d s l s') : Measured d s' := by
  intro i e seen hq
  refine le_trans ?_ (tsub_le_tsub_right h.clock_le _)
  cases h.origin hq with
  | stay hq _ => exact hs i e seen hq
  | turn hl hp ht =>
    cases ht with
    | expire hle => exact hle
  | idle hi => cases hi.snapshots

/-- The last successful result of an entry is at least `evict_after_stale` old. -/
def Stale (d : DnsCache T S C) (s : State T C) (e : ℕ) : Prop :=
  ∃ snapshot, s.current e = some snapshot ∧ d.evictAfterStale ≤ s.clock - snapshot.fetchedAt

/-- A lookup that is about to remove an entry finds the map empty, or finds the entry with the snapshot it has measured: no
other lookup has put an entry there since, and no refresh has published. -/
def Undisturbed (s : State T C) (l : Label T S C) : Prop :=
  ∀ (i e : ℕ) (seen : ResolvedSnapshot T), l = .task i .invalidate → s.tasks[i]? = some (.expired e seen) →
    s.cached = none ∨ s.cached = some e ∧ s.current e = some seen

/-- The steps where no lookup is disturbed. -/
def UndisturbedStep (d : DnsCache T S C) (s : State T C) (l : Label T S C) (s' : State T C) : Prop :=
  Step d s l s' ∧ Undisturbed s l

/-- The history `tr` has the removal of an entry that was stale. -/
def Discarded (d : DnsCache T S C) (clock : T) (tr : List (Label T S C)) (e : ℕ) : Prop :=
  ∃ before i after m, tr = before ++ .task i .invalidate :: after ∧ Run (Step d) (State.empty clock) before m ∧
    m.cached = some e ∧ Stale d m e

variable {clock : T} {tr : List (Label T S C)}

omit [AddCommMonoid T] [Time T] in
/-- An undisturbed lookup removes a stale entry. -/
theorem Measured.stale (hs : Measured d s) (h : UndisturbedStep d s l s') {i e : ℕ} (hl : l = .task i .invalidate)
    (he : s.cached = some e) : Stale d s e := by
  subst hl
  obtain ⟨hstep, hu⟩ := h
  cases exec_move hstep with
  | join hj => cases hj
  | turn _ ht => cases ht
  | wake _ hends => cases hends
  | @invalidate _ x seen hp =>
    rcases hu i x seen rfl hp with hnone | ⟨hx, hcur⟩
    · rw [hnone] at he
      cases he
    · obtain rfl := Option.some.inj (hx.symm.trans he)
      exact ⟨seen, hcur, hs i x seen hp⟩

/-- An entry that the map does not hold was discarded. -/
theorem discarded_or_cached (h : Run (UndisturbedStep d) (State.empty clock) tr s) :
    Run (Step d) (State.empty clock) tr s ∧ Single s ∧ Measured d s ∧
      ∀ e < s.entries.length, s.cached = some e ∨ Discarded d clock tr e := by
  induction h with
  | nil => exact ⟨.nil, single_empty, fun i e seen h => (by cases h), fun e h => (by cases h)⟩
  | @snoc tr m l s hrun hstep ih =>
    obtain ⟨hr, hs, hm, hd⟩ := ih
    have hmove := exec_move hstep.1
    refine ⟨hr.snoc hstep.1, hmove.single hs, hmove.measured hm, fun e he => ?_⟩
    have hkeep (h' : Discarded d clock tr e) : Discarded d clock (tr ++ [l]) e := by
      obtain ⟨before, i, after, k, rfl, hk, hc, hst⟩ := h'
      exact ⟨before, i, after ++ [l], k, by simp, hk, hc, hst⟩
    rcases hmove.cached with ⟨hc, hlen⟩ | ⟨hc, hlen, i, x, seen, hl, hp⟩ | ⟨hc, hlen, i, hl, hi⟩
    · exact (hd e (hlen ▸ he)).imp (fun h' => hc.trans h') hkeep
    · -- the removal
      rcases hd e (hlen ▸ he) with h' | h'
      · exact .inr ⟨tr, i, [], m, by rw [hl], hr, h', hm.stale hstep hl h'⟩
      · exact .inr (hkeep h')
    · -- a new entry, put into an empty map
      rcases Nat.lt_succ_iff_lt_or_eq.mp (hlen ▸ he) with hlt | rfl
      · rcases hd e hlt with h' | h'
        · rw [hs.empty i hi] at h'
          cases h'
        · exact .inr (hkeep h')
      · exact .inl hc

omit [AddCommMonoid T] [Time T] in
/-- A run in which no lookup removes anything. -/
theorem run_undisturbed (h : Run (Step d) (State.empty clock) tr s) (hl : ∀ i, .task i .invalidate ∉ tr) :
    Run (UndisturbedStep d) (State.empty clock) tr s := by
  induction h with
  | nil => exact .nil
  | snoc hr he ih =>
    refine (ih fun i hi => hl i (List.mem_append_left _ hi)).snoc ⟨he, fun i e seen h _ => ?_⟩
    exact absurd (h ▸ List.mem_append_right _ (List.mem_singleton_self _)) (hl i)

end

/-! ## Two lookups cross an expiry -/

/-- An entry is made, it expires, and two lookups find it so. -/
def crossing : List (Label ℕ ℕ (EndpointController ℕ ℚ ℕ)) :=
  [.lookup, .task 0 .get, .task 0 .tryGetWith] ++ resolving 0 1 [some 1] ++ [.task 0 .store] ++
  [.tick 300000000000, .lookup, .lookup, .task 1 .get, .task 2 .get, .task 1 .load, .task 2 .load, .task 1 .measure,
    .task 2 .measure]

/-- A lookup that has found the entry expired makes a new one. -/
def replacing (i : ℕ) : List (Label ℕ ℕ (EndpointController ℕ ℚ ℕ)) :=
  [.task i .invalidate, .task i .tryGetWith] ++ resolving i 1 [some 1] ++ [.task i .store]

theorem play_crossing : ∃ s, Systems.play (State.exec sampleCache) (State.empty 0) crossing = some s ∧ s.clock = 300000000000 ∧
    s.cached = some 0 ∧ s.current 0 = some ⟨[⟨.v4 1, 0⟩], 0⟩ ∧
    s.tasks = [.served 0 [], .expired 0 ⟨[⟨.v4 1, 0⟩], 0⟩, .expired 0 ⟨[⟨.v4 1, 0⟩], 0⟩] := by
  refine ⟨(Systems.play (State.exec sampleCache) (State.empty 0) crossing).get (by decide +kernel), (Option.some_get _).symm, ?_⟩
  decide +kernel

/-! ## Which entries are discarded -/

section

variable [AddCommMonoid T] [LinearOrder T] [Sub T] [Time T] {d : DnsCache T S C} {clock : T} {s : State T C}
  {tr : List (Label T S C)}

/-- **Only a stale entry is discarded**, where no lookup is disturbed; lookups that end on different entries are separated by
the expiry of one, and an address has one endpoint state in the entries that have not expired. -/
theorem undisturbed_discards_stale (h : Run (UndisturbedStep d) (State.empty clock) tr s) :
    (∀ i s' e, UndisturbedStep d s (.task i .invalidate) s' → s.cached = some e → Stale d s e) ∧
    (∀ (i j e e' : ℕ) (loaded loaded' : List (ResolvedSnapshot T)), s.tasks[i]? = some (.served e loaded) → s.tasks[j]? = some (.served e' loaded') →
      e < e' → Discarded d clock tr e) ∧
    ∀ e e' snapshot snapshot' a b, s.current e = some snapshot → s.current e' = some snapshot' →
      ¬ Discarded d clock tr e → ¬ Discarded d clock tr e' → a ∈ snapshot.endpoints → b ∈ snapshot'.endpoints →
      a.ip = b.ip → a.state = b.state := by
  obtain ⟨hr, hs, hm, hd⟩ := discarded_or_cached h
  have hi := run_inv hr
  refine ⟨fun i s' e hstep he => hm.stale hstep rfl he, fun i j e e' loaded loaded' hei hej hlt => ?_, ?_⟩
  · have he' : e' < s.entries.length := (hi.sound.tasks _ (List.mem_of_getElem? hej)).entry e' rfl
    rcases hd e (hlt.trans he') with hc | hdisc
    · have hlast := hs.last e hc
      omega
    · exact hdisc
  · intro e e' snapshot snapshot' a b he he' hn hn' ha hb hip
    have hlive (x : ℕ) (sn : ResolvedSnapshot T) (hx : s.current x = some sn) (hnx : ¬ Discarded d clock tr x) :
        s.cached = some x ∧ sn.Ok s.states.length := by
      obtain ⟨entry, hentry, rfl⟩ := Option.map_eq_some_iff.mp hx
      obtain ⟨hlt, hok⟩ := hi.sound.entry hentry
      exact ⟨(hd x hlt).resolve_right hnx, hok⟩
    obtain ⟨hc, hok⟩ := hlive e snapshot he hn
    obtain ⟨hc', -⟩ := hlive e' snapshot' he' hn'
    obtain rfl := Option.some.inj (hc.symm.trans hc')
    obtain rfl := Option.some.inj (he.symm.trans he')
    rw [hok.ip_inj ha hb hip]

end

theorem undisturbed_discards_stale_crossing : ∃ s s', Run (UndisturbedStep sampleCache) (State.empty 0) crossing s ∧
    s.cached = some 0 ∧ UndisturbedStep sampleCache s (.task 1 .invalidate) s' ∧ Stale sampleCache s 0 := by
  obtain ⟨s, hs, -, hc, hcur, htasks⟩ := play_crossing
  have hrun : Run (UndisturbedStep sampleCache) (State.empty 0) crossing s := by
    refine run_undisturbed (Systems.play_run hs) fun i hi => ?_
    simp [crossing, resolving, List.range_succ] at hi
  have hp : s.tasks[1]? = some (.expired 0 ⟨[⟨.v4 1, 0⟩], 0⟩) := by rw [htasks]; rfl
  have hstep : UndisturbedStep sampleCache s (.task 1 .invalidate) ({ s with cached := none }.turn 1 .trying) := by
    refine ⟨by rw [Step, State.exec, hp]; rfl, fun i e seen hl hseen => .inr ?_⟩
    cases hl
    cases hp.symm.trans hseen
    exact ⟨hc, hcur⟩
  exact ⟨s, _, hrun, hc, hstep, (undisturbed_discards_stale hrun).1 1 _ 0 hstep hc⟩

/-- **The second of two lookups discards the entry that the first has just made**, at age zero; the address then has two
endpoint states, one for each. -/
theorem fresh_entry_discarded : ∃ s s', Run (Step sampleCache) (State.empty 0) (crossing ++ replacing 1) s ∧
    s.cached = some 1 ∧ s.current 1 = some ⟨[⟨.v4 1, 1⟩], s.clock⟩ ∧ ¬ Stale sampleCache s 1 ∧
    (s.exec sampleCache (.task 2 .invalidate)).map (·.cached) = some none ∧
    Run (Step sampleCache) s (replacing 2) s' ∧ s'.tasks = [.served 0 [], .served 1 [], .served 2 []] ∧
    s'.current 1 = some ⟨[⟨.v4 1, 1⟩], s.clock⟩ ∧ s'.current 2 = some ⟨[⟨.v4 1, 2⟩], s.clock⟩ := by
  have h : (Systems.play (State.exec sampleCache) (State.empty 0) (crossing ++ replacing 1)).any (fun s =>
      (Systems.play (State.exec sampleCache) s (replacing 2)).any fun s' => decide (
        s.cached = some 1 ∧ s.clock = 300000000000 ∧ s.current 1 = some ⟨[⟨.v4 1, 1⟩], 300000000000⟩ ∧
        (s.exec sampleCache (.task 2 .invalidate)).map (·.cached) = some none ∧
        s'.tasks = [.served 0 [], .served 1 [], .served 2 []] ∧ s'.current 1 = some ⟨[⟨.v4 1, 1⟩], 300000000000⟩ ∧
        s'.current 2 = some ⟨[⟨.v4 1, 2⟩], 300000000000⟩)) = true := by decide +kernel
  obtain ⟨s, hs, h⟩ := (Option.any_eq_true _ _).mp h
  obtain ⟨s', hs', h⟩ := (Option.any_eq_true _ _).mp h
  obtain ⟨hc, hclock, hcur, hinv, htasks, h1, h2⟩ := of_decide_eq_true h
  rw [← hclock] at hcur h1 h2
  refine ⟨s, s', Systems.play_run hs, hc, hcur, ?_, hinv, Systems.play_run hs', htasks, h1, h2⟩
  rintro ⟨snapshot, hsn, hle⟩
  cases hsn.symm.trans hcur
  rw [show s.clock - s.clock = 0 from Nat.sub_self _] at hle
  exact absurd hle (by decide)

end Loadpace.Dns
