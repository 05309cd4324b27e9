import Loadpace.Dns.Cache
import Loadpace.Lib.Guard
import Mathlib.Data.List.Nodup

/-!
# Invariants of the DNS cache (`loadpace-rama/src/dns.rs`)

What holds of the cache at one hostname and port, whatever its tasks do and however they end.

* `Sound`: every snapshot that an entry publishes or that a task holds is strictly ascending, with an endpoint state of its
  own for each address.
* `Exclusive`: the flag of an entry is up exactly while one task refreshes it; that task holds the current snapshot
  (`Current`).
* `Private`: the endpoint states that a resolution makes are unknown outside of it, and new, until they are published.
-/

namespace Loadpace.Dns

open Systems Guard

variable {T S C : Type}

/-! ## What a task holds -/

namespace Place

/-- The entry that a task refers to. -/
def entry? : Place T → Option ℕ
  | .found e | .loaded e _ | .due e | .expired e _ | .served e _ => some e
  | p => p.refreshes

/-- The snapshot from which a resolution takes its endpoints. -/
def previous : Place T → Option (ResolvedSnapshot T)
  | .collecting _ previous | .building _ previous _ _ | .resolved _ previous _ => previous
  | _ => none

/-- What the result of a resolution is for. -/
def goal? : Place T → Option Goal
  | .collecting goal _ | .building goal _ _ _ | .resolved goal _ _ => some goal
  | _ => none

/-- A task that can still come to a resolution, or waits for its answers. -/
def unanswered : Place T → Bool
  | .start | .found _ | .loaded _ _ | .expired _ _ | .trying | .waiting | .acquired _ | .collecting _ _ => true
  | _ => false

/-- The snapshots that a task has loaded. -/
def snapshots : Place T → List (ResolvedSnapshot T)
  | .loaded _ seen | .expired _ seen => [seen]
  | .served _ held => held
  | p => p.previous.toList

/-- The addresses that are left to a resolution, and its endpoints. -/
def work : Place T → Option (List IpAddr × List Endpoint)
  | .building _ _ ips endpoints => some (ips, endpoints)
  | .resolved _ _ snapshot => some ([], snapshot.endpoints)
  | _ => none

end Place

/-- **A well-formed snapshot**, when so many endpoint states have been made. -/
structure ResolvedSnapshot.Ok (states : ℕ) (snapshot : ResolvedSnapshot T) : Prop where
  nonempty : snapshot.endpoints ≠ []
  ascending : (snapshot.endpoints.map (·.ip)).Pairwise (· < ·)
  distinct : (snapshot.endpoints.map (·.state)).Nodup
  made : ∀ a ∈ snapshot.endpoints, a.state < states

/-- The endpoints of a resolution so far. -/
structure Built (states : ℕ) (previous : Option (ResolvedSnapshot T)) (ips : List IpAddr) (endpoints : List Endpoint) :
    Prop where
  nonempty : endpoints.map (·.ip) ++ ips ≠ []
  ascending : (endpoints.map (·.ip) ++ ips).Pairwise (· < ·)
  distinct : (endpoints.map (·.state)).Nodup
  made : ∀ a ∈ endpoints, a.state < states
  reused : ∀ a ∈ endpoints, ∀ b, reuse previous a.ip = some b → b = a
  new : ∀ a ∈ endpoints, reuse previous a.ip = none →
    ∀ snapshot, previous = some snapshot → ∀ b ∈ snapshot.endpoints, b.state ≠ a.state

structure Place.Ok (entries states : ℕ) (p : Place T) : Prop where
  entry : ∀ e, p.entry? = some e → e < entries
  snapshots : ∀ snapshot ∈ p.snapshots, snapshot.Ok states
  work : ∀ ips endpoints, p.work = some (ips, endpoints) → Built states p.previous ips endpoints
  initial : p.initializes = true → p.previous = none

structure Sound (s : State T C) : Prop where
  entries : ∀ entry ∈ s.entries, entry.current.Ok s.states.length
  cached : ∀ e, s.cached = some e → e < s.entries.length
  tasks : ∀ p ∈ s.tasks, p.Ok s.entries.length s.states.length

theorem reuse_mem {previous : Option (ResolvedSnapshot T)} {ip : IpAddr} {a : Endpoint}
    (h : reuse previous ip = some a) : ∃ snapshot, previous = some snapshot ∧ a ∈ snapshot.endpoints ∧ a.ip = ip := by
  obtain ⟨snapshot, hs, ha⟩ := Option.bind_eq_some_iff.mp h
  exact ⟨snapshot, hs, List.mem_of_find?_eq_some ha, by simpa using List.find?_some ha⟩

theorem reuse_eq_none {previous : Option (ResolvedSnapshot T)} {ip : IpAddr} :
    reuse previous ip = none ↔ ∀ snapshot, previous = some snapshot → ∀ a ∈ snapshot.endpoints, a.ip ≠ ip := by
  cases previous with
  | none => simp [reuse]
  | some snapshot => simp [reuse, List.find?_eq_none]

/-- In a well-formed snapshot an address has one endpoint. -/
theorem ResolvedSnapshot.Ok.ip_inj {states : ℕ} {snapshot : ResolvedSnapshot T} (h : snapshot.Ok states) {a b : Endpoint}
    (ha : a ∈ snapshot.endpoints) (hb : b ∈ snapshot.endpoints) (hip : a.ip = b.ip) : a = b :=
  List.inj_on_of_nodup_map (h.ascending.imp fun hlt => hlt.ne) ha hb hip

theorem ResolvedSnapshot.Ok.state_inj {states : ℕ} {snapshot : ResolvedSnapshot T} (h : snapshot.Ok states)
    {a b : Endpoint} (ha : a ∈ snapshot.endpoints) (hb : b ∈ snapshot.endpoints) (hs : a.state = b.state) : a = b :=
  List.inj_on_of_nodup_map h.distinct ha hb hs

theorem ResolvedSnapshot.Ok.mono {n m : ℕ} {snapshot : ResolvedSnapshot T} (h : snapshot.Ok n) (hle : n ≤ m) :
    snapshot.Ok m := ⟨h.nonempty, h.ascending, h.distinct, fun a ha => (h.made a ha).trans_le hle⟩

theorem Place.Ok.mono {e e' n m : ℕ} {p : Place T} (h : p.Ok e n) (he : e ≤ e') (hn : n ≤ m) : p.Ok e' m := by
  refine ⟨fun x hx => (h.entry x hx).trans_le he, fun x hx => (h.snapshots x hx).mono hn, fun ips endpoints hw => ?_,
    h.initial⟩
  obtain ⟨h1, h2, h3, h4, h5, h6⟩ := h.work ips endpoints hw
  exact ⟨h1, h2, h3, fun a ha => (h4 a ha).trans_le hn, h5, h6⟩

/-- A finished resolution. -/
theorem Built.ok {states : ℕ} {previous : Option (ResolvedSnapshot T)} {snapshot : ResolvedSnapshot T}
    (h : Built states previous [] snapshot.endpoints) : snapshot.Ok states := by
  have hnil := List.append_nil (snapshot.endpoints.map (·.ip))
  refine ⟨fun h' => h.nonempty ?_, hnil ▸ h.ascending, h.distinct, h.made⟩
  rw [hnil, h']
  rfl

/-- One more endpoint, with an endpoint state that the others do not have. -/
theorem distinct_append {endpoints : List Endpoint} {a : Endpoint} (h : (endpoints.map (·.state)).Nodup)
    (hne : ∀ b ∈ endpoints, b.state ≠ a.state) : ((endpoints ++ [a]).map (·.state)).Nodup := by
  rw [List.map_append, List.map_singleton, List.nodup_append]
  refine ⟨h, List.nodup_singleton _, ?_⟩
  rintro x hx y hy rfl
  obtain ⟨b, hb, hst⟩ := List.mem_map.mp hx
  exact hne b hb (hst.trans (List.mem_singleton.mp hy))

/-- The next endpoint comes from the previous snapshot. -/
theorem Built.reuse {states : ℕ} {previous : Option (ResolvedSnapshot T)} {ip : IpAddr} {ips : List IpAddr}
    {endpoints : List Endpoint} {a : Endpoint} (h : Built states previous (ip :: ips) endpoints)
    (hp : ∀ snapshot, previous = some snapshot → snapshot.Ok states) (ha : reuse previous ip = some a) :
    Built states previous ips (endpoints ++ [a]) := by
  obtain ⟨snapshot, hs, hmem, rfl⟩ := reuse_mem ha
  have hok := hp snapshot hs
  have hips : (endpoints ++ [a]).map (·.ip) ++ ips = endpoints.map (·.ip) ++ a.ip :: ips := by simp
  -- the addresses of the endpoints so far are below the next one
  have hlt : ∀ b ∈ endpoints, b.ip < a.ip := fun b hb =>
    (List.pairwise_append.mp h.ascending).2.2 b.ip (List.mem_map_of_mem hb) a.ip List.mem_cons_self
  refine ⟨by rw [hips]; simp, by rw [hips]; exact h.ascending, distinct_append h.distinct fun b hb hst => ?_, ?_, ?_, ?_⟩
  · cases hr : Dns.reuse previous b.ip with
    | none => exact h.new b hb hr snapshot hs a hmem hst.symm
    | some c =>
      obtain rfl := h.reused b hb c hr
      obtain ⟨_, hs', hmem', _⟩ := reuse_mem hr
      obtain rfl := Option.some.inj (hs.symm.trans hs')
      obtain rfl := hok.state_inj hmem' hmem hst
      exact lt_irrefl _ (hlt c hb)
  · intro b hb
    rcases List.mem_append.mp hb with hb | hb
    · exact h.made b hb
    · obtain rfl := List.mem_singleton.mp hb
      exact hok.made b hmem
  · intro b hb c hc
    rcases List.mem_append.mp hb with hb | hb
    · exact h.reused b hb c hc
    · obtain rfl := List.mem_singleton.mp hb
      exact Option.some.inj (hc.symm.trans ha)
  · intro b hb hn
    rcases List.mem_append.mp hb with hb | hb
    · exact h.new b hb hn
    · obtain rfl := List.mem_singleton.mp hb
      rw [ha] at hn
      cases hn

/-- The next endpoint is new. -/
theorem Built.make {states : ℕ} {previous : Option (ResolvedSnapshot T)} {ip : IpAddr} {ips : List IpAddr}
    {endpoints : List Endpoint} (h : Built states previous (ip :: ips) endpoints)
    (hp : ∀ snapshot, previous = some snapshot → snapshot.Ok states) (hn : Dns.reuse previous ip = none) :
    Built (states + 1) previous ips (endpoints ++ [⟨ip, states⟩]) := by
  have hips : (endpoints ++ [(⟨ip, states⟩ : Endpoint)]).map (·.ip) ++ ips = endpoints.map (·.ip) ++ ip :: ips := by simp
  refine ⟨by rw [hips]; simp, by rw [hips]; exact h.ascending, distinct_append h.distinct fun b hb => (h.made b hb).ne,
    ?_, ?_, ?_⟩
  · intro b hb
    rcases List.mem_append.mp hb with hb | hb
    · exact (h.made b hb).trans (Nat.lt_succ_self _)
    · obtain rfl := List.mem_singleton.mp hb
      exact Nat.lt_succ_self _
  · intro b hb c hc
    rcases List.mem_append.mp hb with hb | hb
    · exact h.reused b hb c hc
    · obtain rfl := List.mem_singleton.mp hb
      rw [hn] at hc
      cases hc
  · intro b hb hnb snapshot hs c hc
    rcases List.mem_append.mp hb with hb | hb
    · exact h.new b hb hnb snapshot hs c hc
    · obtain rfl := List.mem_singleton.mp hb
      exact ((hp snapshot hs).made c hc).ne

/-! ## Every snapshot is well formed -/

section

variable {s : State T C} {i entries states : ℕ} {p p' : Place T}

/-- A place that holds nothing but an entry. -/
theorem Place.ok_of_entry (he : ∀ e, p.entry? = some e → e < entries) (hs : p.snapshots = []) (hw : p.work = none)
    (hp : p.previous = none) : p.Ok entries states := by
  refine ⟨he, fun snapshot h => ?_, fun ips endpoints h => ?_, fun _ => hp⟩
  · rw [hs] at h
    cases h
  · rw [hw] at h
    cases h

/-- A resolution goes on. -/
theorem Place.Ok.goOn (h : p.Ok entries states) (he : p'.entry? = p.entry?) (hs : p'.snapshots = p.snapshots)
    (hi : p'.initializes = p.initializes) (hp : p'.previous = p.previous)
    (hw : ∀ ips endpoints, p'.work = some (ips, endpoints) → Built states p.previous ips endpoints) :
    p'.Ok entries states := by
  refine ⟨fun e h' => h.entry e (he ▸ h'), fun x hx => h.snapshots x (hs ▸ hx), fun ips endpoints h' => ?_, fun h' => ?_⟩
  · rw [hp]
    exact hw ips endpoints h'
  · rw [hp]
    exact h.initial (hi ▸ h')

theorem Place.entry?_of_refreshes {e : ℕ} (h : p.refreshes = some e) : p.entry? = some e := by
  cases p <;> first | exact h | cases h

theorem Place.Ok.previous (h : p.Ok entries states) {snapshot : ResolvedSnapshot T} (hp : p.previous = some snapshot) :
    snapshot.Ok states := by
  refine h.snapshots snapshot ?_
  cases p <;> first | exact Option.mem_toList.mpr hp | cases hp

theorem Sound.entry (h : Sound s) {e : ℕ} {entry : HostEntry T} (he : s.entries[e]? = some entry) :
    e < s.entries.length ∧ entry.current.Ok s.states.length :=
  ⟨(List.getElem?_eq_some_iff.mp he).1, h.entries entry (List.mem_of_getElem? he)⟩

/-- The tasks after one has moved. -/
theorem forall_turn {P : Place T → Prop} (h : ∀ q ∈ s.tasks, P q) (hp : P p') : ∀ q ∈ (s.turn i p').tasks, P q := by
  intro q hq
  rcases List.mem_or_eq_of_mem_set hq with hq | rfl
  · exact h q hq
  · exact hp

/-- The tasks after the waiters of an initializer have woken. -/
theorem forall_wake {P : Place T → Prop} {next : Place T} (h : ∀ q ∈ s.tasks, P q) (hp : P p') (hn : P next) :
    ∀ q ∈ (s.wake i p' next).tasks, P q := by
  intro q hq
  rcases List.mem_or_eq_of_mem_set hq with hq | rfl
  · obtain ⟨r, hr, rfl⟩ := List.mem_map.mp hq
    unfold Place.wake
    split
    · exact hn
    · exact h r hr
  · exact hp

theorem forall_join {P : Place T → Prop} {tasks : List (Place T)} (h : ∀ q ∈ tasks, P q) (hp : P p) :
    ∀ q ∈ tasks ++ [p], P q := by
  intro q hq
  rcases List.mem_append.mp hq with hq | hq
  · exact h q hq
  · exact List.mem_singleton.mp hq ▸ hp

end

section

variable [LinearOrder T] [Sub T] {d : DnsCache T S C} {s s' : State T C} {l : Label T S C} {i : ℕ} {p p' : Place T}

theorem Turn.ok {action : Action S C} (hs : Sound s) (hp : p.Ok s.entries.length s.states.length)
    (h : Turn d s action p p') : p'.Ok s.entries.length s.states.length := by
  cases h with
  | found he => exact Place.ok_of_entry (fun e h => Option.some.inj h ▸ hs.cached _ he) rfl rfl rfl
  | missing | wait => exact Place.ok_of_entry (fun e h => (by cases h)) rfl rfl rfl
  | initial => exact Place.ok_of_entry (fun e h => (by cases h)) rfl rfl rfl
  | load he =>
    obtain ⟨hlt, hok⟩ := hs.entry he
    exact ⟨fun e h => Option.some.inj h ▸ hlt, fun x hx => List.mem_singleton.mp hx ▸ hok, fun _ _ h => (by cases h),
      fun _ => rfl⟩
  | fresh | due | busy =>
    exact Place.ok_of_entry (fun e h => Option.some.inj h ▸ hp.entry _ rfl) rfl rfl rfl
  | expire => exact ⟨hp.entry, hp.snapshots, fun _ _ h => (by cases h), fun _ => rfl⟩
  | hit he => exact Place.ok_of_entry (fun e h => Option.some.inj h ▸ hs.cached _ he) rfl rfl rfl
  | loadPrevious he =>
    obtain ⟨hlt, hok⟩ := hs.entry he
    exact ⟨fun e h => Option.some.inj h ▸ hlt, fun x hx => List.mem_singleton.mp hx ▸ hok, fun _ _ h => (by cases h),
      fun h => (by cases h)⟩
  | @answer goal previous answers ip ips ha =>
    refine hp.goOn rfl rfl rfl rfl fun _ _ h => ?_
    cases h
    refine ⟨by simp, ?_, .nil, fun _ h => (by cases h), fun _ h => (by cases h), fun _ h => (by cases h)⟩
    exact ha ▸ pairwise_addressesOf d.mode answers
  | refuse => exact Place.ok_of_entry (fun e h => Option.some.inj h ▸ hp.entry _ rfl) rfl rfl rfl
  | @reuse goal previous ip ips endpoints seed endpoint ha =>
    refine hp.goOn rfl rfl rfl rfl fun _ _ h => ?_
    cases h
    exact (hp.work _ _ rfl).reuse (fun _ hx => hp.previous hx) ha
  | @stamp goal previous endpoints =>
    refine hp.goOn rfl rfl rfl rfl fun _ _ h => ?_
    cases h
    exact hp.work _ _ rfl
  | abandon he =>
    exact Place.ok_of_entry (fun e h => Option.some.inj h ▸ hp.entry _ (Place.entry?_of_refreshes he)) rfl rfl rfl
  | drop => exact Place.ok_of_entry (fun e h => (by cases h)) rfl rfl rfl
  | read he =>
    refine ⟨hp.entry, fun x hx => ?_, fun _ _ h => (by cases h), fun _ => rfl⟩
    rcases List.mem_append.mp hx with hx | hx
    · exact hp.snapshots x hx
    · exact List.mem_singleton.mp hx ▸ (hs.entry he).2

theorem Move.sound (hs : Sound s) (h : Move d s l s') : Sound s' := by
  cases h with
  | tick => exact ⟨hs.entries, hs.cached, hs.tasks⟩
  | join hj =>
    refine ⟨hs.entries, hs.cached, forall_join hs.tasks ?_⟩
    cases hj with
    | lookup | nothing => exact Place.ok_of_entry (fun e h => (by cases h)) rfl rfl rfl
    | snapshots he =>
      exact ⟨fun e h => Option.some.inj h ▸ hs.cached _ he, fun x hx => (by cases hx), fun _ _ h => (by cases h),
        fun _ => rfl⟩
  | turn hp ht =>
    have hok := ht.ok hs (hs.tasks _ (List.mem_of_getElem? hp))
    exact ⟨hs.entries, hs.cached, forall_turn hs.tasks hok⟩
  | @acquire i e entry hp he hb =>
    obtain ⟨hlt, hok⟩ := hs.entry he
    have hlen : (s.entries.set e { entry with refreshing := true }).length = s.entries.length := List.length_set
    refine ⟨fun x hx => ?_, fun x hx => hlen ▸ hs.cached x hx, ?_⟩
    · rcases List.mem_or_eq_of_mem_set hx with hx | rfl
      · exact hs.entries x hx
      · exact hok
    · rw [hlen]
      refine forall_join (forall_turn hs.tasks ?_) (Place.ok_of_entry (fun x h => Option.some.inj h ▸ hlt) rfl rfl rfl)
      exact Place.ok_of_entry (fun x h => Option.some.inj h ▸ hlt) rfl rfl rfl
  | invalidate hp =>
    exact ⟨hs.entries, fun e h => (by cases h),
      forall_turn hs.tasks (Place.ok_of_entry (fun e h => (by cases h)) rfl rfl rfl)⟩
  | @make i goal previous ip ips endpoints seed state hp hr hn =>
    have hok := hs.tasks _ (List.mem_of_getElem? hp)
    have hle : s.states.length ≤ (s.states ++ [state]).length := by simp
    refine ⟨fun x hx => (hs.entries x hx).mono hle, hs.cached,
      forall_turn (fun q hq => (hs.tasks q hq).mono le_rfl hle) ?_⟩
    refine (hok.mono le_rfl hle).goOn rfl rfl rfl rfl fun _ _ h => ?_
    cases h
    rw [show (s.states ++ [state]).length = s.states.length + 1 by simp]
    exact (hok.work _ _ rfl).make (fun _ hx => hok.previous hx) hr
  | @insert i previous snapshot hp =>
    have hok := hs.tasks _ (List.mem_of_getElem? hp)
    have hle : s.entries.length ≤ (s.entries ++ [(⟨snapshot, false⟩ : HostEntry T)]).length := by simp
    have hserved : (Place.served s.entries.length [] : Place T).Ok (s.entries ++ [(⟨snapshot, false⟩ : HostEntry T)]).length
        s.states.length := by
      refine Place.ok_of_entry (fun e h => ?_) rfl rfl rfl
      obtain rfl := Option.some.inj h
      simp
    refine ⟨fun x hx => ?_, fun e h => ?_, forall_wake (fun q hq => (hs.tasks q hq).mono hle le_rfl) hserved hserved⟩
    · rcases List.mem_append.mp hx with hx | hx
      · exact hs.entries x hx
      · obtain rfl := List.mem_singleton.mp hx
        exact (hok.work _ _ rfl).ok
    · obtain rfl := Option.some.inj h
      simp [State.wake]
  | @update i e previous snapshot entry hp he =>
    obtain ⟨hlt, -⟩ := hs.entry he
    have hok := hs.tasks _ (List.mem_of_getElem? hp)
    have hlen : (s.entries.set e { entry with current := snapshot }).length = s.entries.length := List.length_set
    refine ⟨fun x hx => ?_, fun x hx => ?_, ?_⟩
    · rcases List.mem_or_eq_of_mem_set hx with hx | rfl
      · exact hs.entries x hx
      · exact (hok.work _ _ rfl).ok
    · exact hlen ▸ hs.cached x hx
    · refine forall_turn (fun q hq => hlen ▸ hs.tasks q hq) ?_
      exact Place.ok_of_entry (fun x h => Option.some.inj h ▸ hlt.trans_eq hlen.symm) rfl rfl rfl
  | @release i e entry hp he =>
    obtain ⟨hlt, hok⟩ := hs.entry he
    have hlen : (s.entries.set e { entry with refreshing := false }).length = s.entries.length := List.length_set
    refine ⟨fun x hx => ?_, fun x hx => hlen ▸ hs.cached x hx, ?_⟩
    · rcases List.mem_or_eq_of_mem_set hx with hx | rfl
      · exact hs.entries x hx
      · exact hok
    · exact forall_turn (fun q hq => hlen ▸ hs.tasks q hq) (Place.ok_of_entry (fun e h => (by cases h)) rfl rfl rfl)
  | wake hp he =>
    refine ⟨hs.entries, hs.cached, ?_⟩
    cases he with
    | refuse | drop =>
      exact forall_wake hs.tasks (Place.ok_of_entry (fun e h => (by cases h)) rfl rfl rfl)
        (Place.ok_of_entry (fun e h => (by cases h)) rfl rfl rfl)
  | operate hp hx hb ha =>
    have hlen (x : ℕ) (c : C) : (s.states.set x c).length = s.states.length := List.length_set
    exact ⟨fun x hx => by rw [hlen]; exact hs.entries x hx, hs.cached, fun q hq => by rw [hlen]; exact hs.tasks q hq⟩

end

/-! ## One refresh at a time -/

namespace State

/-- The entry that a task refreshes. -/
def refreshes (s : State T C) (i : ℕ) : Option ℕ := s.tasks[i]?.bind Place.refreshes

/-- The flag of an entry. -/
def flag (s : State T C) (e : ℕ) : Bool := s.entries[e]?.any (·.refreshing)

/-- What an entry publishes. -/
def current (s : State T C) (e : ℕ) : Option (ResolvedSnapshot T) := s.entries[e]?.map (·.current)

end State

/-- The flag of an entry is up exactly while a task refreshes it, and one task does. -/
abbrev Exclusive (s : State T C) : Prop := Guarded s.refreshes s.flag

section

variable {s : State T C} {i j : ℕ} {p p' : Place T}

theorem getElem?_turn (hp : s.tasks[i]? = some p) :
    (s.turn i p').tasks[j]? = if j = i then some p' else s.tasks[j]? := by
  have hi : i < s.tasks.length := (List.getElem?_eq_some_iff.mp hp).1
  by_cases hj : j = i
  · subst hj
    simp [State.turn, hi]
  · simp [State.turn, hj, List.getElem?_set_ne (Ne.symm hj)]

theorem getElem?_wake {next : Place T} (hp : s.tasks[i]? = some p) :
    (s.wake i p' next).tasks[j]? = if j = i then some p' else s.tasks[j]?.map (Place.wake next) := by
  have hi : i < s.tasks.length := (List.getElem?_eq_some_iff.mp hp).1
  by_cases hj : j = i
  · subst hj
    simp [State.wake, hi]
  · simp [State.wake, hj, List.getElem?_set_ne (Ne.symm hj)]

theorem getElem?_join {tasks : List (Place T)} :
    (tasks ++ [p])[j]? = if j = tasks.length then some p else tasks[j]? := by
  by_cases hj : j = tasks.length
  · subst hj
    simp
  · rw [if_neg hj]
    rcases Nat.lt_or_gt_of_ne hj with hlt | hgt
    · exact List.getElem?_append_left hlt
    · rw [List.getElem?_eq_none (by simp; omega), List.getElem?_eq_none (by omega)]

theorem refreshes_turn (hp : s.tasks[i]? = some p) :
    (s.turn i p').refreshes = Function.update s.refreshes i p'.refreshes := by
  funext j
  rw [State.refreshes, getElem?_turn hp, Function.update_apply]
  split
  · rfl
  · rfl

theorem refreshes_wake {next : Place T} (hp : s.tasks[i]? = some p) (hn : next.refreshes = none) :
    (s.wake i p' next).refreshes = Function.update s.refreshes i p'.refreshes := by
  funext j
  rw [State.refreshes, getElem?_wake hp, Function.update_apply]
  split
  · rfl
  · unfold State.refreshes
    cases s.tasks[j]? with
    | none => rfl
    | some q => cases q <;> first | exact hn | rfl

theorem refreshes_of_initializes (h : p.initializes = true) : p.refreshes = none := by
  cases p with
  | collecting goal | building goal | resolved goal =>
    cases goal with
    | initial => rfl
    | refresh => cases h
  | _ => cases h

theorem update_refreshes (hp : s.tasks[i]? = some p) (h : p'.refreshes = p.refreshes) :
    Function.update s.refreshes i p'.refreshes = s.refreshes := by
  rw [h, Function.update_eq_self_iff, State.refreshes, hp]
  rfl

theorem refreshes_join :
    { s with tasks := s.tasks ++ [p] }.refreshes = Function.update s.refreshes s.tasks.length p.refreshes := by
  funext j
  rw [State.refreshes, getElem?_join, Function.update_apply]
  split
  · rfl
  · rfl

theorem refreshes_length : s.refreshes s.tasks.length = none := by simp [State.refreshes]

theorem flag_set {e : ℕ} {entry : HostEntry T} (entry' : HostEntry T) (he : s.entries[e]? = some entry) :
    { s with entries := s.entries.set e entry' }.flag = Function.update s.flag e entry'.refreshing := by
  have hlt : e < s.entries.length := (List.getElem?_eq_some_iff.mp he).1
  funext x
  rw [State.flag, Function.update_apply]
  split
  · rename_i hx
    subst hx
    simp [hlt]
  · rename_i hx
    simp [State.flag, List.getElem?_set_ne (Ne.symm hx)]

end

section

variable [LinearOrder T] [Sub T] {d : DnsCache T S C} {s s' : State T C} {l : Label T S C} {i : ℕ} {p p' : Place T}

theorem Turn.refreshes {action : Action S C} (h : Turn d s action p p') : p'.refreshes = p.refreshes := by
  cases h with
  | abandon he => exact he.symm
  | drop he => exact he.symm
  | _ => rfl

/-- A step begins a refresh of an entry whose flag is down, or ends one, or does neither. -/
theorem Move.refreshes (h : Move d s l s') :
    (s'.refreshes = s.refreshes ∧ s'.flag = s.flag) ∨
    (∃ i e, l = .task i .spawnRefresh ∧ s.flag e = false ∧
      s'.refreshes = Function.update s.refreshes s.tasks.length (some e) ∧ s'.flag = Function.update s.flag e true) ∨
    ∃ i e, l = .task i .release ∧ s.refreshes i = some e ∧
      s'.refreshes = Function.update s.refreshes i none ∧ s'.flag = Function.update s.flag e false := by
  cases h with
  | tick | operate => exact .inl ⟨rfl, rfl⟩
  | @join l p hj =>
    refine .inl ⟨?_, rfl⟩
    rw [refreshes_join, Function.update_eq_self_iff, refreshes_length]
    cases hj <;> rfl
  | turn hp ht => exact .inl ⟨(refreshes_turn hp).trans (update_refreshes hp ht.refreshes), rfl⟩
  | @acquire i e entry hp he hb =>
    have hset : (s.turn i (.served e [])).refreshes = s.refreshes :=
      (refreshes_turn hp).trans (update_refreshes hp rfl)
    have hlen : (s.turn i (.served e [])).tasks.length = s.tasks.length := List.length_set
    refine .inr (.inl ⟨i, e, rfl, ?_, ?_, flag_set _ he⟩)
    · rw [State.flag, he]
      exact hb
    · have hjoin := refreshes_join (s := s.turn i (.served e [])) (p := .acquired e)
      rwa [hset, hlen] at hjoin
  | invalidate hp => exact .inl ⟨(refreshes_turn hp).trans (update_refreshes hp rfl), rfl⟩
  | make hp hr hn => exact .inl ⟨(refreshes_turn hp).trans (update_refreshes hp rfl), rfl⟩
  | @insert i previous snapshot hp =>
    refine .inl ⟨(refreshes_wake hp rfl).trans (update_refreshes hp rfl), funext fun e => ?_⟩
    -- the new entry, whose flag is down, was not there before
    rw [State.flag, State.flag]
    rcases lt_trichotomy e s.entries.length with hlt | rfl | hgt
    · rw [show (State.wake _ _ _ _).entries[e]? = _ from List.getElem?_append_left hlt]
    · simp [State.wake]
    · rw [show (State.wake _ _ _ _).entries[e]? = none from List.getElem?_eq_none (by simp [State.wake]; omega),
        List.getElem?_eq_none hgt.le]
  | @update i e previous snapshot entry hp he =>
    refine .inl ⟨(refreshes_turn hp).trans (update_refreshes hp rfl), (flag_set _ he).trans ?_⟩
    rw [Function.update_eq_self_iff, State.flag, he]
    rfl
  | release hp he =>
    refine .inr (.inr ⟨_, _, rfl, ?_, refreshes_turn hp, flag_set _ he⟩)
    rw [State.refreshes, hp]
    rfl
  | wake hp he =>
    cases he with
    | refuse => exact .inl ⟨(refreshes_wake hp rfl).trans (update_refreshes hp rfl), rfl⟩
    | drop hi =>
      refine .inl ⟨(refreshes_wake hp rfl).trans (update_refreshes hp ?_), rfl⟩
      exact (refreshes_of_initializes hi).symm

theorem Move.exclusive (hx : Exclusive s) (h : Move d s l s') : Exclusive s' := by
  unfold Exclusive
  rcases h.refreshes with ⟨hr, hf⟩ | ⟨i, e, -, he, hr, hf⟩ | ⟨i, e, -, he, hr, hf⟩
  · rwa [hr, hf]
  · rw [hr, hf]
    exact hx.acquire refreshes_length he
  · rw [hr, hf]
    exact hx.release he

end

/-! ## Where a place comes from -/

/-- A task that refreshes an entry holds its current snapshot. -/
def Current (s : State T C) : Prop :=
  ∀ (i : ℕ) (p : Place T) (e : ℕ), s.tasks[i]? = some p → p.goal? = some (.refresh e) → p.previous = s.current e

theorem Place.refreshes_of_goal {p : Place T} {e : ℕ} (h : p.goal? = some (.refresh e)) : p.refreshes = some e := by
  cases p with
  | collecting goal | building goal | resolved goal =>
    obtain rfl : goal = .refresh e := Option.some.inj h
    rfl
  | _ => cases h

theorem Sound.current {s : State T C} (h : Sound s) {i e : ℕ} (hr : s.refreshes i = some e) :
    ∃ snapshot, s.current e = some snapshot := by
  obtain ⟨p, hp, hpe⟩ := Option.bind_eq_some_iff.mp hr
  have hlt := (h.tasks p (List.mem_of_getElem? hp)).entry e (Place.entry?_of_refreshes hpe)
  exact ⟨_, by rw [State.current, List.getElem?_eq_getElem hlt]; rfl⟩

/-- A place without a snapshot. -/
structure Place.Idle (p : Place T) : Prop where
  snapshots : p.snapshots = []
  work : p.work = none
  goal : p.goal? = none

section

variable [LinearOrder T] [Sub T] {d : DnsCache T S C} {s s' : State T C} {l : Label T S C} {i j : ℕ} {p p' : Place T}

/-- A task that has no answers before the step, and gets none by it. -/
def Unasked (s : State T C) (l : Label T S C) (j : ℕ) : Prop :=
  (∀ answers, l ≠ .task j (.answer answers)) ∧ ∀ p, s.tasks[j]? = some p → p.unanswered = true

/-- A step that leaves the place of a task. -/
def Untouched (l : Label T S C) (j : ℕ) : Prop :=
  ∀ action, l = .task j action → ∃ x operation, action = .withController x operation

/-- How a task came to its place. -/
inductive Origin (d : DnsCache T S C) (s : State T C) (l : Label T S C) (s' : State T C) (j : ℕ) : Place T → Prop
  | stay {q : Place T} : s.tasks[j]? = some q → Untouched l j → Origin d s l s' j q
  | turn {action : Action S C} {p q : Place T} : l = .task j action → s.tasks[j]? = some p → Turn d s action p q →
      Origin d s l s' j q
  | make {goal : Goal} {previous : Option (ResolvedSnapshot T)} {ip : IpAddr} {ips : List IpAddr}
      {endpoints : List Endpoint} {seed : S} {state : C} : l = .task j (.endpoint seed) →
      s.tasks[j]? = some (.building goal previous (ip :: ips) endpoints) → reuse previous ip = none →
      d.newState s.clock seed = some state → s'.states = s.states ++ [state] →
      Origin d s l s' j (.building goal previous ips (endpoints ++ [⟨ip, s.states.length⟩]))
  | idle {q : Place T} : q.Idle → (q.unanswered = true → Unasked s l j) → Origin d s l s' j q

omit [LinearOrder T] [Sub T] in
theorem Untouched.ne_store (h : Untouched l j) : l ≠ .task j .store := by
  intro hl
  obtain ⟨_, _, h⟩ := h _ hl
  cases h

omit [LinearOrder T] [Sub T] in
theorem Untouched.ne_answer (h : Untouched l j) (answers : Answers) : l ≠ .task j (.answer answers) := by
  intro hl
  obtain ⟨_, _, h⟩ := h _ hl
  cases h

theorem origin_turn {action : Action S C} (hl : l = .task i action) (hp : s.tasks[i]? = some p)
    (h : Origin d s l s' i p') {q : Place T} (hq : (s.turn i p').tasks[j]? = some q) : Origin d s l s' j q := by
  rw [getElem?_turn hp] at hq
  split at hq
  · rename_i hj
    cases hq
    exact hj ▸ h
  · rename_i hj
    refine .stay hq fun action' h' => absurd ?_ hj
    rw [hl] at h'
    cases h'
    rfl

theorem origin_wake {action : Action S C} (hl : l = .task i action) (hp : s.tasks[i]? = some p) {next : Place T}
    (h : p'.Idle) (hu : p'.unanswered = false) (hn : next.Idle) {q : Place T}
    (hq : (s.wake i p' next).tasks[j]? = some q) : Origin d s l s' j q := by
  rw [getElem?_wake hp] at hq
  split at hq
  · cases hq
    exact .idle h fun h' => (by rw [hu] at h'; cases h')
  · rename_i hj
    have hne (action' : Action S C) : l ≠ .task j action' := by
      intro h'
      rw [hl] at h'
      cases h'
      exact hj rfl
    obtain ⟨r, hr, rfl⟩ := Option.map_eq_some_iff.mp hq
    unfold Place.wake
    split
    · refine .idle hn fun _ => ⟨fun answers => hne _, fun p hp => ?_⟩
      cases hr.symm.trans hp
      rfl
    · exact .stay hr fun action' h' => absurd h' (hne action')

theorem Move.origin (h : Move d s l s') {q : Place T} (hq : s'.tasks[j]? = some q) : Origin d s l s' j q := by
  -- a task that joins was not there before
  have hnew (n : ℕ) (hn : n = s.tasks.length) (p : Place T) (hp : s.tasks[n]? = some p) : p.unanswered = true := by
    rw [hn, List.getElem?_eq_none le_rfl] at hp
    cases hp
  cases h with
  | tick => exact .stay hq fun action h' => (by cases h')
  | @join l p hj =>
    rw [getElem?_join] at hq
    split at hq
    · rename_i hlen
      cases hq
      cases hj with
      | lookup | snapshots | nothing => exact .idle ⟨rfl, rfl, rfl⟩ fun _ => ⟨by simp, hnew j hlen⟩
    · refine .stay hq fun action h' => ?_
      subst h'
      cases hj
  | turn hp ht => exact origin_turn rfl hp (.turn rfl hp ht) hq
  | @acquire i e entry hp he hb =>
    rw [getElem?_join] at hq
    split at hq
    · rename_i hlen
      cases hq
      exact .idle ⟨rfl, rfl, rfl⟩ fun _ => ⟨by simp, hnew j (by simpa using hlen)⟩
    · exact origin_turn rfl hp (.idle ⟨rfl, rfl, rfl⟩ fun h => (by cases h)) hq
  | invalidate hp =>
    refine origin_turn rfl hp (.idle ⟨rfl, rfl, rfl⟩ fun _ => ⟨by simp, fun p hp' => ?_⟩) hq
    cases hp.symm.trans hp'
    rfl
  | update hp | release hp => exact origin_turn rfl hp (.idle ⟨rfl, rfl, rfl⟩ fun h => (by cases h)) hq
  | make hp hr hn => exact origin_turn rfl hp (.make rfl hp hr hn rfl) hq
  | insert hp => exact origin_wake rfl hp ⟨rfl, rfl, rfl⟩ rfl ⟨rfl, rfl, rfl⟩ hq
  | wake hp he =>
    cases he with
    | refuse | drop => exact origin_wake rfl hp ⟨rfl, rfl, rfl⟩ rfl ⟨rfl, rfl, rfl⟩ hq
  | operate =>
    refine .stay hq fun action h' => ?_
    cases h'
    exact ⟨_, _, rfl⟩

/-! ## The published snapshots -/

/-- **A snapshot is replaced by a refresh alone**, and every other step leaves it. -/
theorem Move.current (h : Move d s l s') (e : ℕ) :
    s'.current e = s.current e ∨ ∃ i goal previous snapshot, l = .task i .store ∧
      s.tasks[i]? = some (.resolved goal previous snapshot) ∧ s'.current e = some snapshot ∧
      (goal = .initial ∧ s.current e = none ∨ goal = .refresh e) := by
  have hset (x : ℕ) (entry entry' : HostEntry T) (hx : s.entries[x]? = some entry) :
      ((s.entries.set x entry')[e]?).map (·.current) = if e = x then some entry'.current else s.current e := by
    have hlt : x < s.entries.length := (List.getElem?_eq_some_iff.mp hx).1
    split
    · rename_i hex
      subst hex
      simp [hlt]
    · rename_i hex
      rw [List.getElem?_set_ne (Ne.symm hex)]
      rfl
  have hsame (x : ℕ) (entry : HostEntry T) (b : Bool) (hx : s.entries[x]? = some entry) :
      ((s.entries.set x { entry with refreshing := b })[e]?).map (·.current) = s.current e := by
    rw [hset x entry _ hx]
    split
    · rename_i hex
      rw [State.current, hex, hx]
      rfl
    · rfl
  cases h with
  | tick | join | turn | invalidate | make | wake | operate => exact .inl rfl
  | acquire hp he hb => exact .inl (hsame _ _ true he)
  | release hp he => exact .inl (hsame _ _ false he)
  | @insert i previous snapshot hp =>
    rcases lt_trichotomy e s.entries.length with hlt | rfl | hgt
    · exact .inl (congrArg _ (List.getElem?_append_left hlt))
    · exact .inr ⟨i, .initial, previous, snapshot, rfl, hp, by simp [State.current, State.wake],
        .inl ⟨rfl, by simp [State.current]⟩⟩
    · refine .inl ?_
      rw [State.current, State.current, List.getElem?_eq_none hgt.le,
        show (State.wake _ _ _ _).entries[e]? = none from List.getElem?_eq_none (by simp [State.wake]; omega)]
  | @update i x previous snapshot entry hp he =>
    have h' := hset x entry { entry with current := snapshot } he
    split at h'
    · rename_i hex
      subst hex
      exact .inr ⟨i, .refresh e, previous, snapshot, rfl, hp, h', .inr rfl⟩
    · exact .inl h'

/-- Where a refresh has its previous snapshot from. -/
theorem Origin.previous {q : Place T} (h : Origin d s l s' j q) {e : ℕ} (hg : q.goal? = some (.refresh e)) :
    l ≠ .task j .store ∧ ((∃ p, s.tasks[j]? = some p ∧ p.goal? = some (.refresh e) ∧ p.previous = q.previous) ∨
      s.tasks[j]? = some (.acquired e) ∧ q.previous = s.current e) := by
  cases h with
  | stay hq hl => exact ⟨hl.ne_store, .inl ⟨q, hq, hg, rfl⟩⟩
  | @turn action p q hl hp ht =>
    subst hl
    cases ht with
    | loadPrevious he =>
      cases hg
      exact ⟨by simp, .inr ⟨hp, by rw [State.current, he]; rfl⟩⟩
    | answer | reuse | stamp => exact ⟨by simp, .inl ⟨_, hp, hg, rfl⟩⟩
    | _ => cases hg
  | make hl hp => exact ⟨by simp [hl], .inl ⟨_, hp, hg, rfl⟩⟩
  | idle hi =>
    rw [hi.goal] at hg
    cases hg

theorem Move.currents (hs : Sound s) (hx : Exclusive s) (hc : Current s) (h : Move d s l s') : Current s' := by
  intro j q e hq hg
  obtain ⟨hl, ho⟩ := (h.origin hq).previous hg
  have hr : s.refreshes j = some e ∧ q.previous = s.current e := by
    rcases ho with ⟨p, hp, hpg, hpq⟩ | ⟨hp, hqe⟩
    · refine ⟨?_, hpq ▸ hc j p e hp hpg⟩
      rw [State.refreshes, hp]
      exact Place.refreshes_of_goal hpg
    · exact ⟨by rw [State.refreshes, hp]; rfl, hqe⟩
  rcases h.current e with hsame | ⟨i, goal, previous, snapshot, rfl, hi, -, ⟨-, hnone⟩ | rfl⟩
  · rw [hsame]
    exact hr.2
  · obtain ⟨x, hx⟩ := hs.current hr.1
    rw [hnone] at hx
    cases hx
  · -- another task that stores into the entry would hold its guard too
    have hij : i = j := hx.one i j e (by rw [State.refreshes, hi]; rfl) hr.1
    exact absurd (by rw [hij]) hl

end

/-! ## The endpoint states of a resolution -/

namespace State

/-- An endpoint state that a published snapshot or a loaded one refers to. -/
def Referenced (s : State T C) (x : ℕ) : Prop :=
  (∃ e snapshot, s.current e = some snapshot ∧ ∃ a ∈ snapshot.endpoints, a.state = x) ∨
    ∃ (j : ℕ) (p : Place T), s.tasks[j]? = some p ∧ ∃ snapshot ∈ p.snapshots, ∃ a ∈ snapshot.endpoints, a.state = x

/-- An endpoint state that the resolution of a task has made. -/
def Owns (s : State T C) (i x : ℕ) : Prop :=
  ∃ p : Place T, s.tasks[i]? = some p ∧ ∃ ips endpoints, p.work = some (ips, endpoints) ∧
    ∃ a ∈ endpoints, a.state = x ∧ reuse p.previous a.ip = none

end State

theorem Sound.referenced {s : State T C} {x : ℕ} (h : Sound s) (hx : s.Referenced x) : x < s.states.length := by
  rcases hx with ⟨e, snapshot, he, a, ha, rfl⟩ | ⟨j, p, hp, snapshot, hsn, a, ha, rfl⟩
  · obtain ⟨entry, hentry, rfl⟩ := Option.map_eq_some_iff.mp he
    exact (h.entry hentry).2.made a ha
  · exact ((h.tasks p (List.mem_of_getElem? hp)).snapshots snapshot hsn).made a ha

theorem Sound.owns {s : State T C} {i x : ℕ} (h : Sound s) (hx : s.Owns i x) : x < s.states.length := by
  obtain ⟨p, hp, ips, endpoints, hw, a, ha, rfl, -⟩ := hx
  exact ((h.tasks p (List.mem_of_getElem? hp)).work ips endpoints hw).made a ha

/-- The endpoint states that a resolution makes are its own, and new. -/
structure Private (d : DnsCache T S C) [LE T] (s : State T C) : Prop where
  unknown : ∀ i x, s.Owns i x → ¬ s.Referenced x
  one : ∀ i j x, s.Owns i x → s.Owns j x → i = j
  new : ∀ i x, s.Owns i x → ∃ t ≤ s.clock, ∃ seed c, d.newState t seed = some c ∧ s.states[x]? = some c

section

variable [LinearOrder T] [Sub T] {d : DnsCache T S C} {s s' : State T C} {l : Label T S C} {i j x : ℕ} {p p' : Place T}

theorem Origin.snapshots {q : Place T} (h : Origin d s l s' j q) {snapshot : ResolvedSnapshot T}
    (hx : snapshot ∈ q.snapshots) :
    (∃ p, s.tasks[j]? = some p ∧ snapshot ∈ p.snapshots) ∨ ∃ e, s.current e = some snapshot := by
  have hcur {e : ℕ} {entry : HostEntry T} (he : s.entries[e]? = some entry) : s.current e = some entry.current := by
    rw [State.current, he]
    rfl
  cases h with
  | stay hq hl => exact .inl ⟨q, hq, hx⟩
  | @turn action p q hl hp ht =>
    cases ht with
    | load he | loadPrevious he => exact .inr ⟨_, List.mem_singleton.mp hx ▸ hcur he⟩
    | expire | answer | reuse | stamp => exact .inl ⟨_, hp, hx⟩
    | read he =>
      rcases List.mem_append.mp hx with hx | hx
      · exact .inl ⟨_, hp, hx⟩
      · exact .inr ⟨_, List.mem_singleton.mp hx ▸ hcur he⟩
    | _ => cases hx
  | make hl hp => exact .inl ⟨_, hp, hx⟩
  | idle hi =>
    rw [hi.snapshots] at hx
    cases hx

/-- **A resolution's own endpoint states become known when it stores its snapshot**, and not before. -/
theorem Move.referenced (hs : Sound s) (h : Move d s l s') (hx : s'.Referenced x) :
    s.Referenced x ∨ ∃ i, l = .task i .store ∧ s.Owns i x := by
  rcases hx with ⟨e, snapshot, he, a, ha, hax⟩ | ⟨j, q, hq, snapshot, hsn, a, ha, hax⟩
  · rcases h.current e with hsame | ⟨i, goal, previous, snapshot', hl, hi, he', -⟩
    · exact .inl (.inl ⟨e, snapshot, hsame ▸ he, a, ha, hax⟩)
    · obtain rfl := Option.some.inj (he.symm.trans he')
      cases hr : reuse previous a.ip with
      | none => exact .inr ⟨i, hl, _, hi, [], _, rfl, a, ha, hax, hr⟩
      | some b =>
        obtain rfl := ((hs.tasks _ (List.mem_of_getElem? hi)).work _ _ rfl).reused a ha b hr
        obtain ⟨old, hold, hb, -⟩ := reuse_mem hr
        exact .inl (.inr ⟨i, _, hi, old, Option.mem_toList.mpr hold, b, hb, hax⟩)
  · rcases (h.origin hq).snapshots hsn with ⟨p, hp, hps⟩ | ⟨e, he⟩
    · exact .inl (.inr ⟨j, p, hp, snapshot, hps, a, ha, hax⟩)
    · exact .inl (.inl ⟨e, snapshot, he, a, ha, hax⟩)

/-- The endpoint states of a resolution: those it had, and the one it makes. -/
theorem Move.owns (h : Move d s l s') (hx : s'.Owns j x) :
    (s.Owns j x ∧ l ≠ .task j .store) ∨ ∃ seed c, l = .task j (.endpoint seed) ∧ x = s.states.length ∧
      d.newState s.clock seed = some c ∧ s'.states = s.states ++ [c] := by
  obtain ⟨q, hq, ips, endpoints, hw, a, ha, hax, hn⟩ := hx
  cases h.origin hq with
  | stay hq' hl => exact .inl ⟨⟨q, hq', ips, endpoints, hw, a, ha, hax, hn⟩, hl.ne_store⟩
  | @turn action p q hl hp ht =>
    subst hl
    cases ht with
    | answer =>
      cases hw
      cases ha
    | reuse hr =>
      cases hw
      rcases List.mem_append.mp ha with ha | ha
      · exact .inl ⟨⟨_, hp, _, _, rfl, a, ha, hax, hn⟩, by simp⟩
      · obtain rfl := List.mem_singleton.mp ha
        obtain ⟨_, _, _, hip⟩ := reuse_mem hr
        rw [hip] at hn
        exact absurd (hr.symm.trans hn) (by simp)
    | stamp =>
      cases hw
      exact .inl ⟨⟨_, hp, _, _, rfl, a, ha, hax, hn⟩, by simp⟩
    | _ => cases hw
  | make hl hp hr hnew hst =>
    cases hw
    rcases List.mem_append.mp ha with ha | ha
    · exact .inl ⟨⟨_, hp, _, _, rfl, a, ha, hax, hn⟩, by simp [hl]⟩
    · obtain rfl := List.mem_singleton.mp ha
      exact .inr ⟨_, _, hl, hax.symm, hnew, hst⟩
  | idle hi =>
    rw [hi.work] at hw
    cases hw

/-- **An endpoint state changes by an operation on it alone.** -/
theorem Move.states (h : Move d s l s') {c : C} (hx : s.states[x]? = some c) :
    s'.states[x]? = some c ∨ ∃ i operation, l = .task i (.withController x operation) ∧ s.Referenced x ∧
      s'.states[x]? = operation c := by
  cases h with
  | make => exact .inl (List.getElem?_append_left (List.getElem?_eq_some_iff.mp hx).1 ▸ hx)
  | @operate i e y loaded operation before after hp hy hb ha =>
    obtain ⟨snapshot, hsn, a, hm, hay⟩ := hy
    by_cases hxy : y = x
    · subst hxy
      obtain rfl := Option.some.inj (hx.symm.trans hb)
      refine .inr ⟨i, operation, rfl, .inr ⟨i, _, hp, snapshot, hsn, a, hm, hay⟩, ?_⟩
      rw [ha]
      exact List.getElem?_set_self (List.getElem?_eq_some_iff.mp hb).1
    · exact .inl ((List.getElem?_set_ne hxy).trans hx)
  | _ => exact .inl hx

theorem Move.clock_le (h : Move d s l s') : s.clock ≤ s'.clock := by
  cases h with
  | tick hle => exact hle
  | _ => exact le_rfl

theorem Move.private (hs : Sound s) (hp : Private d s) (h : Move d s l s') : Private d s' := by
  refine ⟨fun i x ho hr => ?_, fun i j x hi hj => ?_, fun i x ho => ?_⟩
  · rcases h.owns ho with ⟨ho, hl⟩ | ⟨seed, c, rfl, rfl, -, -⟩
    · rcases h.referenced hs hr with hr | ⟨j, rfl, hj⟩
      · exact hp.unknown i x ho hr
      · exact hl (by rw [hp.one i j x ho hj])
    · rcases h.referenced hs hr with hr | ⟨j, hl, -⟩
      · exact lt_irrefl _ (hs.referenced hr)
      · cases hl
  · rcases h.owns hi with ⟨hi, -⟩ | ⟨seed, c, hl, rfl, -, -⟩
    · rcases h.owns hj with ⟨hj, -⟩ | ⟨seed, c, -, rfl, -, -⟩
      · exact hp.one i j x hi hj
      · exact absurd (hs.owns hi) (lt_irrefl _)
    · rcases h.owns hj with ⟨hj, -⟩ | ⟨seed', c', hl', -, -, -⟩
      · exact absurd (hs.owns hj) (lt_irrefl _)
      · rw [hl] at hl'
        cases hl'
        rfl
  · rcases h.owns ho with ⟨ho, -⟩ | ⟨seed, c, -, rfl, hn, hst⟩
    · obtain ⟨t, ht, seed, c, hn, hc⟩ := hp.new i x ho
      refine ⟨t, ht.trans h.clock_le, seed, c, hn, ?_⟩
      rcases h.states hc with hc | ⟨_, _, _, hr, _⟩
      · exact hc
      · exact absurd hr (hp.unknown i x ho)
    · exact ⟨s.clock, h.clock_le, seed, c, hn, by rw [hst]; simp⟩

end

/-! ## One address for each endpoint state -/

/-- An endpoint that a snapshot or a resolution has. -/
def State.Known (s : State T C) (a : Endpoint) : Prop :=
  (∃ e snapshot, s.current e = some snapshot ∧ a ∈ snapshot.endpoints) ∨
    ∃ (j : ℕ) (p : Place T), s.tasks[j]? = some p ∧ ((∃ snapshot ∈ p.snapshots, a ∈ snapshot.endpoints) ∨
      ∃ ips endpoints, p.work = some (ips, endpoints) ∧ a ∈ endpoints)

theorem Sound.known {s : State T C} {a : Endpoint} (h : Sound s) (ha : s.Known a) : a.state < s.states.length := by
  rcases ha with ⟨e, snapshot, he, ha⟩ | ⟨j, p, hp, ⟨snapshot, hsn, ha⟩ | ⟨ips, endpoints, hw, ha⟩⟩
  · obtain ⟨entry, hentry, rfl⟩ := Option.map_eq_some_iff.mp he
    exact (h.entry hentry).2.made a ha
  · exact ((h.tasks p (List.mem_of_getElem? hp)).snapshots snapshot hsn).made a ha
  · exact ((h.tasks p (List.mem_of_getElem? hp)).work ips endpoints hw).made a ha

section

variable [LinearOrder T] [Sub T] {d : DnsCache T S C} {s s' : State T C} {l : Label T S C}

theorem Move.states_length (h : Move d s l s') : s.states.length ≤ s'.states.length := by
  cases h <;> simp [State.turn, State.wake]

/-- The endpoint that a step makes. -/
def Makes (s : State T C) (l : Label T S C) (a : Endpoint) : Prop :=
  a.state = s.states.length ∧ ∃ j seed goal previous ips endpoints, l = .task j (.endpoint seed) ∧
    s.tasks[j]? = some (.building goal previous (a.ip :: ips) endpoints)

omit [LinearOrder T] [Sub T] in
theorem Makes.unique {a b : Endpoint} (ha : Makes s l a) (hb : Makes s l b) : a = b := by
  obtain ⟨hs, j, _, _, _, _, _, hl, hj⟩ := ha
  obtain ⟨hs', j', _, _, _, _, _, hl', hj'⟩ := hb
  rw [hl] at hl'
  cases hl'
  have hip := hj.symm.trans hj'
  simp only [Option.some.injEq, Place.building.injEq, List.cons.injEq] at hip
  cases a
  cases b
  simp_all

theorem Move.known_or_makes (h : Move d s l s') {a : Endpoint} (ha : s'.Known a) : s.Known a ∨ Makes s l a := by
  rcases ha with ⟨e, snapshot, he, ha⟩ | ⟨j, q, hq, ⟨snapshot, hsn, ha⟩ | ⟨ips, endpoints, hw, ha⟩⟩
  · rcases h.current e with hsame | ⟨i, goal, previous, snapshot', hl, hi, he', -⟩
    · exact .inl (.inl ⟨e, snapshot, hsame ▸ he, ha⟩)
    · obtain rfl := Option.some.inj (he.symm.trans he')
      exact .inl (.inr ⟨i, _, hi, .inr ⟨_, _, rfl, ha⟩⟩)
  · rcases (h.origin hq).snapshots hsn with ⟨p, hp, hps⟩ | ⟨e, he⟩
    · exact .inl (.inr ⟨j, p, hp, .inl ⟨snapshot, hps, ha⟩⟩)
    · exact .inl (.inl ⟨e, snapshot, he, ha⟩)
  · cases h.origin hq with
    | stay hq' _ => exact .inl (.inr ⟨j, q, hq', .inr ⟨ips, endpoints, hw, ha⟩⟩)
    | turn hl hp ht =>
      cases ht with
      | answer =>
        cases hw
        cases ha
      | reuse hr =>
        cases hw
        rcases List.mem_append.mp ha with ha | ha
        · exact .inl (.inr ⟨j, _, hp, .inr ⟨_, _, rfl, ha⟩⟩)
        · obtain rfl := List.mem_singleton.mp ha
          obtain ⟨snapshot, hold, hmem, -⟩ := reuse_mem hr
          exact .inl (.inr ⟨j, _, hp, .inl ⟨snapshot, Option.mem_toList.mpr hold, hmem⟩⟩)
      | stamp =>
        cases hw
        exact .inl (.inr ⟨j, _, hp, .inr ⟨_, _, rfl, ha⟩⟩)
      | _ => cases hw
    | make hl hp =>
      cases hw
      rcases List.mem_append.mp ha with ha | ha
      · exact .inl (.inr ⟨j, _, hp, .inr ⟨_, _, rfl, ha⟩⟩)
      · obtain rfl := List.mem_singleton.mp ha
        exact .inr ⟨rfl, j, _, _, _, _, _, hl, hp⟩
    | idle hi =>
      rw [hi.work] at hw
      cases hw

/-- **A step makes one endpoint at most**, with an endpoint state of its own. -/
theorem Move.known (h : Move d s l s') :
    ∃ ip, ∀ a, s'.Known a → s.Known a ∨ a = ⟨ip, s.states.length⟩ := by
  by_cases hm : ∃ b, Makes s l b
  · obtain ⟨b, hb⟩ := hm
    refine ⟨b.ip, fun a ha => (h.known_or_makes ha).imp_right fun ha => ?_⟩
    rw [ha.unique hb, ← hb.1]
  · refine ⟨.v4 0, fun a ha => (h.known_or_makes ha).imp_right fun ha => absurd ⟨a, ha⟩ hm⟩

end

end Loadpace.Dns
