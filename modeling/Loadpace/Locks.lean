import Loadpace.Dns.Refresh
import Loadpace.Lib.LockOrder
import Mathlib.Data.Sum.Order

/-!
# The locks of the controllers (`loadpace-tokio/src/lib.rs`, `loadpace-rama/src/dns.rs`)

Any number of tasks take the locks of controllers: one at a time in `with_controller`, two in `Endpoint::try_reserve_pair`,
which orders them by the address of their allocation, and in `reserve_p2c`, which orders the endpoints of a snapshot by their
IP address. The snapshots are those of the DNS caches, which go on refreshing.

`no_lock_deadlock`: no tasks wait for each other's locks in a circle, and none waits for a lock it holds. What carries it is
that an endpoint state keeps its IP address from one snapshot to the next (`Ranks`), so that one rank orders the locks of all
snapshots.
-/

namespace Loadpace.Locks

open Systems LockOrder Dns

/-! ## The state -/

/-- The lock of a controller. -/
inductive Lock (K : Type)
  /-- A `loadpace-tokio` endpoint, by the address of its allocation. -/
  | tokio (address : ℕ)
  /-- An endpoint state of the DNS cache at a hostname and port. -/
  | dns (key : K) (state : ℕ)
  /-- An `AdaptiveEndpoint`. -/
  | adaptive (n : ℕ)
  deriving DecidableEq

/-- Where a task is. -/
inductive Place (K : Type)
  /-- At the only lock it takes. -/
  | wants (lock : Lock K)
  /-- At the first of two locks. -/
  | wantsLower (lower upper : Lock K)
  /-- At the second of two locks, with the first. -/
  | wantsUpper (lower upper : Lock K)
  /-- With these locks, and no other to take. -/
  | holds (locks : List (Lock K))
  deriving DecidableEq

structure State (K T C : Type) where
  caches : K → Dns.State T C
  tasks : List (Place K)

inductive Label (K T S C : Type)
  | cache (key : K) (label : Dns.Label T S C)
  | withController (lock : Lock K)
  | tryReservePair (self other : ℕ)
  /-- `reserve_p2c` on a snapshot that a task of the cache has loaded, with what the random generator draws. -/
  | reserveP2c (key : K) (task : ℕ) (snapshot : ResolvedSnapshot T) (first second : ℕ)
  | lock (i : ℕ)
  | unlock (i : ℕ) (lock : Lock K)
  /-- A lock is poisoned. -/
  | panic (i : ℕ)

/-! ## The steps -/

variable {K T S C : Type}

/-- `Endpoint::try_reserve_pair`, up to its first lock. -/
def tryReservePair (self other : ℕ) : Place K :=
  if self = other then .wants (.tokio self)
  else if self < other then .wantsLower (.tokio self) (.tokio other)
  else .wantsLower (.tokio other) (.tokio self)

/-- `reserve_p2c`, up to its first lock. -/
def reserveP2c (key : K) (endpoints : List Endpoint) (first second : ℕ) : Option (Place K) :=
  match endpoints with
  | [endpoint] => some (.wants (.dns key endpoint.state))
  | endpoints => do
    let a ← endpoints[first]?
    guard (second < endpoints.length - 1)
    let b ← endpoints[if first ≤ second then second + 1 else second]?
    some (if a.ip < b.ip then .wantsLower (.dns key a.state) (.dns key b.state)
      else .wantsLower (.dns key b.state) (.dns key a.state))

namespace Place

/-- The lock that a task wants next. -/
def wanted : Place K → Option (Lock K)
  | .wants lock => some lock
  | .wantsLower lower _ => some lower
  | .wantsUpper _ upper => some upper
  | .holds _ => none

def held : Place K → List (Lock K)
  | .wantsUpper lower _ => [lower]
  | .holds locks => locks
  | _ => []

/-- The task takes the lock that it wants. -/
def take : Place K → Place K
  | .wants lock => .holds [lock]
  | .wantsLower lower upper => .wantsUpper lower upper
  | .wantsUpper lower upper => .holds [lower, upper]
  | .holds locks => .holds locks

end Place

namespace State

/-- The snapshot has been loaded from an entry of the cache. -/
def loaded [DecidableEq T] (s : State K T C) (key : K) (task : ℕ) (snapshot : ResolvedSnapshot T) : Bool :=
  (s.caches key).tasks[task]?.any fun p => match p with
    | .served _ loaded => loaded.contains snapshot
    | _ => false

section

variable [DecidableEq K] [LinearOrder T] [Sub T]

def exec (d : K → DnsCache T S C) (s : State K T C) : Label K T S C → Option (State K T C)
  | .cache key label => do
    let cache ← (s.caches key).exec (d key) label
    some { s with caches := Function.update s.caches key cache }
  | .withController lock => some { s with tasks := s.tasks ++ [.wants lock] }
  | .tryReservePair self other => some { s with tasks := s.tasks ++ [tryReservePair self other] }
  | .reserveP2c key task snapshot first second =>
    if s.loaded key task snapshot then do
      let p ← reserveP2c key snapshot.endpoints first second
      some { s with tasks := s.tasks ++ [p] }
    else none
  | .lock i => do
    let p ← s.tasks[i]?
    let lock ← p.wanted
    if s.tasks.any fun q => q.held.contains lock then none else some { s with tasks := s.tasks.set i p.take }
  | .unlock i lock =>
    match s.tasks[i]? with
    | some (.holds locks) =>
      if locks.contains lock then some { s with tasks := s.tasks.set i (.holds (locks.erase lock)) } else none
    | _ => none
  | .panic i => do
    let p ← s.tasks[i]?
    some { s with tasks := s.tasks.set i (.holds p.held) }

end

/-- Empty caches, and no task. -/
def empty (clock : T) : State K T C := { caches := fun _ => Dns.State.empty clock, tasks := [] }

/-- A task holds a lock. -/
def Holds (s : State K T C) (i : ℕ) (lock : Lock K) : Prop := ∃ p, s.tasks[i]? = some p ∧ lock ∈ p.held

/-- The lock that a task wants. -/
def wanted (s : State K T C) (i : ℕ) : Option (Lock K) := s.tasks[i]?.bind Place.wanted

end State

def Step [DecidableEq K] [LinearOrder T] [Sub T] (d : K → DnsCache T S C) (s : State K T C) (l : Label K T S C)
    (s' : State K T C) : Prop := s.exec d l = some s'

/-! ## One rank for all locks -/

/-- The two locks that a task takes in order. -/
def Place.pair : Place K → Option (Lock K × Lock K)
  | .wantsLower lower upper | .wantsUpper lower upper => some (lower, upper)
  | _ => none

/-- A lock by the address of its allocation, or by the IP address of its endpoint. -/
def Lock.rank (ipOf : K → ℕ → IpAddr) : Lock K → ℕ ⊕ₗ IpAddr
  | .tokio address => toLex (.inl address)
  | .dns key state => toLex (.inr (ipOf key state))
  | .adaptive n => toLex (.inl n)

/-- The endpoint state of a lock has been made. -/
def Lock.Made (s : State K T C) : Lock K → Prop
  | .dns key state => state < (s.caches key).states.length
  | _ => True

/-- Every endpoint state has one IP address, and the locks that are taken in pairs are taken in the order of their rank. -/
structure Ranks (ipOf : K → ℕ → IpAddr) (s : State K T C) : Prop where
  known : ∀ key a, (s.caches key).Known a → ipOf key a.state = a.ip
  pairs : ∀ p ∈ s.tasks, ∀ lower upper, p.pair = some (lower, upper) →
    lower.rank ipOf < upper.rank ipOf ∧ lower.Made s ∧ upper.Made s

structure Inv (s : State K T C) : Prop where
  sound : ∀ key, Sound (s.caches key)
  ranks : ∃ ipOf, Ranks ipOf s

theorem Lock.rank_congr {ipOf ipOf' : K → ℕ → IpAddr} {s : State K T C} {lock : Lock K} (h : lock.Made s)
    (heq : ∀ key x, x < (s.caches key).states.length → ipOf' key x = ipOf key x) :
    lock.rank ipOf' = lock.rank ipOf := by
  cases lock with
  | dns key state => exact congrArg (fun ip => toLex (Sum.inr ip)) (heq key state h)
  | tokio | adaptive => rfl

theorem tryReservePair_ordered {ipOf : K → ℕ → IpAddr} {s : State K T C} {self other : ℕ} {lower upper : Lock K}
    (h : (tryReservePair self other : Place K).pair = some (lower, upper)) :
    lower.rank ipOf < upper.rank ipOf ∧ lower.Made s ∧ upper.Made s := by
  unfold tryReservePair at h
  split at h
  · cases h
  · rename_i hne
    split at h
    · rename_i hlt
      cases h
      exact ⟨Sum.Lex.inl_lt_inl_iff.mpr hlt, trivial, trivial⟩
    · rename_i hge
      cases h
      exact ⟨Sum.Lex.inl_lt_inl_iff.mpr (by omega), trivial, trivial⟩

/-- Two endpoints of a snapshot have different IP addresses. -/
theorem ip_ne {states i j : ℕ} {snapshot : ResolvedSnapshot T} (hok : snapshot.Ok states) {a b : Endpoint}
    (ha : snapshot.endpoints[i]? = some a) (hb : snapshot.endpoints[j]? = some b) (hij : i ≠ j) : a.ip ≠ b.ip := by
  intro hip
  have hnodup : (snapshot.endpoints.map (·.ip)).Nodup := hok.ascending.imp fun hlt => hlt.ne
  have hai : (snapshot.endpoints.map (·.ip))[i]? = some a.ip := by rw [List.getElem?_map, ha]; rfl
  have hbj : (snapshot.endpoints.map (·.ip))[j]? = some b.ip := by rw [List.getElem?_map, hb]; rfl
  exact hij ((List.getElem?_inj (List.getElem?_eq_some_iff.mp hai).1 hnodup).mp (by rw [hai, hbj, hip]))

theorem reserveP2c_ordered {ipOf : K → ℕ → IpAddr} {s : State K T C} {key : K} {snapshot : ResolvedSnapshot T}
    {first second : ℕ} {p : Place K} (hok : snapshot.Ok (s.caches key).states.length)
    (hip : ∀ a ∈ snapshot.endpoints, ipOf key a.state = a.ip)
    (hp : reserveP2c key snapshot.endpoints first second = some p) {lower upper : Lock K}
    (h : p.pair = some (lower, upper)) : lower.rank ipOf < upper.rank ipOf ∧ lower.Made s ∧ upper.Made s := by
  unfold reserveP2c at hp
  split at hp
  · cases hp
    cases h
  · simp only [Option.bind_eq_bind, Option.bind_eq_some_iff] at hp
    obtain ⟨a, ha, -, -, b, hb, hp⟩ := hp
    have hne : a.ip ≠ b.ip := ip_ne hok ha hb (by split <;> omega)
    have hma := List.mem_of_getElem? ha
    have hmb := List.mem_of_getElem? hb
    have hrank (c : Endpoint) (hc : c ∈ snapshot.endpoints) : (Lock.dns key c.state).rank ipOf = toLex (.inr c.ip) :=
      congrArg (fun ip => toLex (Sum.inr ip)) (hip c hc)
    cases hp
    split at h
    · rename_i hlt
      cases h
      rw [hrank a hma, hrank b hmb]
      exact ⟨Sum.Lex.inr_lt_inr_iff.mpr hlt, hok.made a hma, hok.made b hmb⟩
    · rename_i hge
      cases h
      rw [hrank a hma, hrank b hmb]
      exact ⟨Sum.Lex.inr_lt_inr_iff.mpr (lt_of_le_of_ne (not_lt.mp hge) hne.symm), hok.made b hmb, hok.made a hma⟩

section

variable {s : State K T C}

theorem loaded_mem [DecidableEq T] {key : K} {task : ℕ} {snapshot : ResolvedSnapshot T} (h : s.loaded key task snapshot = true) :
    ∃ p, (s.caches key).tasks[task]? = some p ∧ snapshot ∈ p.snapshots := by
  unfold State.loaded at h
  obtain ⟨p, hp, h⟩ := (Option.any_eq_true _ _).mp h
  refine ⟨p, hp, ?_⟩
  split at h
  · exact List.contains_iff_mem.mp h
  · cases h

/-- A step that leaves the caches. -/
theorem Inv.tasks {tasks : List (Place K)} (hi : Inv s)
    (h : ∀ ipOf, Ranks ipOf s → ∀ q ∈ tasks, q ∈ s.tasks ∨ ∀ lower upper, q.pair = some (lower, upper) →
      lower.rank ipOf < upper.rank ipOf ∧ lower.Made s ∧ upper.Made s) : Inv { s with tasks } := by
  obtain ⟨hs, ipOf, hr⟩ := hi
  refine ⟨hs, ipOf, hr.known, fun q hq lower upper hp => ?_⟩
  rcases h ipOf hr q hq with hmem | hpair
  · exact hr.pairs q hmem lower upper hp
  · exact hpair lower upper hp

/-- A task that joins takes its two locks, if any, in order. -/
theorem Inv.join {p : Place K} (hi : Inv s)
    (h : ∀ ipOf, Ranks ipOf s → ∀ lower upper, p.pair = some (lower, upper) →
      lower.rank ipOf < upper.rank ipOf ∧ lower.Made s ∧ upper.Made s) : Inv { s with tasks := s.tasks ++ [p] } := by
  refine hi.tasks fun ipOf hr q hq => ?_
  rcases List.mem_append.mp hq with hq | hq
  · exact .inl hq
  · obtain rfl := List.mem_singleton.mp hq
    exact .inr (h ipOf hr)

/-- A task that moves on has the two locks that it had, or none. -/
theorem Inv.move {i : ℕ} {p p' : Place K} (hi : Inv s) (hp : s.tasks[i]? = some p)
    (h : p'.pair = none ∨ p'.pair = p.pair) : Inv { s with tasks := s.tasks.set i p' } := by
  refine hi.tasks fun ipOf hr q hq => ?_
  rcases List.mem_or_eq_of_mem_set hq with hq | rfl
  · exact .inl hq
  · refine .inr fun lower upper hpair => ?_
    rcases h with hnone | hsame
    · rw [hnone] at hpair
      cases hpair
    · exact hr.pairs p (List.mem_of_getElem? hp) lower upper (hsame ▸ hpair)

/-- Every lock that a task holds ranks below the one it wants. -/
theorem Inv.ordered (hi : Inv s) : ∃ ipOf, LockOrder.Ordered (Lock.rank ipOf) s.Holds s.wanted := by
  obtain ⟨-, ipOf, hr⟩ := hi
  refine ⟨ipOf, fun i lock lock' ⟨p, hp, hheld⟩ hw => ?_⟩
  rw [State.wanted, hp] at hw
  cases p with
  | wantsUpper lower upper =>
    obtain rfl := List.mem_singleton.mp hheld
    cases hw
    exact (hr.pairs _ (List.mem_of_getElem? hp) _ _ rfl).1
  | wants | wantsLower => cases hheld
  | holds => cases hw

end

section

variable [DecidableEq K] [LinearOrder T] [Sub T] {d : K → DnsCache T S C} {s s' : State K T C} {l : Label K T S C}
  {clock : T} {tr : List (Label K T S C)}

/-- **A refresh does not change the rank of a lock.** -/
theorem Inv.cache {key : K} {label : Dns.Label T S C} {cache : Dns.State T C} (hi : Inv s)
    (h : Dns.Step (d key) (s.caches key) label cache) : Inv { s with caches := Function.update s.caches key cache } := by
  obtain ⟨hs, ipOf, hr⟩ := hi
  have hm := exec_move h
  obtain ⟨ip, hknown⟩ := hm.known
  let ipOf' (k : K) (x : ℕ) : IpAddr := if k = key ∧ x = (s.caches key).states.length then ip else ipOf k x
  have hold (k : K) (x : ℕ) (hx : x < (s.caches k).states.length) : ipOf' k x = ipOf k x := by
    refine if_neg ?_
    rintro ⟨rfl, rfl⟩
    exact lt_irrefl _ hx
  refine ⟨fun k => ?_, ipOf', fun k a ha => ?_, fun p hp lower upper hpair => ?_⟩
  · rcases eq_or_ne k key with rfl | hk
    · simpa using hm.sound (hs k)
    · simpa [hk] using hs k
  · have hkeep (ha : (s.caches k).Known a) : ipOf' k a.state = a.ip :=
      (hold k a.state ((hs k).known ha)).trans (hr.known k a ha)
    rcases eq_or_ne k key with rfl | hk
    · rcases hknown a (by simpa using ha) with ha | rfl
      · exact hkeep ha
      · exact if_pos ⟨rfl, rfl⟩
    · exact hkeep (by simpa [hk] using ha)
  · obtain ⟨hlt, hl, hu⟩ := hr.pairs p hp lower upper hpair
    have hmade (lock : Lock K) (hx : lock.Made s) :
        lock.Made { s with caches := Function.update s.caches key cache } := by
      cases lock with
      | dns k x =>
        have hx : x < (s.caches k).states.length := hx
        rcases eq_or_ne k key with rfl | hk
        · simpa [Lock.Made] using hx.trans_le hm.states_length
        · simpa [Lock.Made, hk] using hx
      | tokio | adaptive => trivial
    exact ⟨by rwa [Lock.rank_congr hl hold, Lock.rank_congr hu hold], hmade lower hl, hmade upper hu⟩

theorem Inv.step (hi : Inv s) (h : Step d s l s') : Inv s' := by
  unfold Step State.exec at h
  split at h
  · simp only [Option.bind_eq_bind, Option.bind_eq_some_iff] at h
    obtain ⟨cache, hc, h⟩ := h
    cases h
    exact hi.cache hc
  · cases h
    exact hi.join fun ipOf hr lower upper hp => (by cases hp)
  · cases h
    exact hi.join fun ipOf hr lower upper hp => tryReservePair_ordered hp
  · split at h
    · rename_i hloaded
      simp only [Option.bind_eq_bind, Option.bind_eq_some_iff] at h
      obtain ⟨p, hp, h⟩ := h
      cases h
      obtain ⟨q, hq, hmem⟩ := loaded_mem hloaded
      refine hi.join fun ipOf hr lower upper hpair => reserveP2c_ordered ?_ (fun a ha => ?_) hp hpair
      · exact ((hi.sound _).tasks q (List.mem_of_getElem? hq)).snapshots _ hmem
      · exact hr.known _ a (.inr ⟨_, q, hq, .inl ⟨_, hmem, ha⟩⟩)
    · cases h
  · simp only [Option.bind_eq_bind, Option.bind_eq_some_iff] at h
    obtain ⟨p, hp, lock, -, h⟩ := h
    split at h
    · cases h
    · cases h
      refine hi.move hp ?_
      cases p with
      | wantsLower => exact .inr rfl
      | wants | wantsUpper | holds => exact .inl rfl
  · split at h
    · rename_i hp
      split at h
      · cases h
        exact hi.move hp (.inl rfl)
      · cases h
    · cases h
  · simp only [Option.bind_eq_bind, Option.bind_eq_some_iff] at h
    obtain ⟨p, hp, h⟩ := h
    cases h
    exact hi.move hp (.inl rfl)

theorem run_inv (h : Run (Step d) (State.empty clock) tr s) : Inv s := by
  refine h.invariant (P := Inv) ⟨fun key => ?_, fun _ _ => .v4 0, fun key a ha => ?_, fun p hp => (by cases hp)⟩
    fun _ _ _ he hi => hi.step he
  · exact ⟨fun x h => (by cases h), fun e h => (by cases h), fun p h => (by cases h)⟩
  · rcases ha with ⟨e, snapshot, he, -⟩ | ⟨j, p, hp, -⟩
    · cases he
    · cases hp

/-- **The locks of the controllers do not deadlock.** -/
theorem no_lock_deadlock (h : Run (Step d) (State.empty clock) tr s) :
    (∀ tasks, ¬ Deadlock s.Holds s.wanted tasks) ∧ ∀ i lock, s.wanted i = some lock → ¬ s.Holds i lock := by
  obtain ⟨ipOf, ho⟩ := (run_inv h).ordered
  refine ⟨fun tasks => ho.no_deadlock ?_, fun i lock hw => ho.not_held hw⟩
  refine (Set.finite_lt_nat s.tasks.length).subset fun i hi => ?_
  obtain ⟨lock, hw⟩ := Option.isSome_iff_exists.mp hi
  obtain ⟨p, hp, -⟩ := Option.bind_eq_some_iff.mp hw
  exact (List.getElem?_eq_some_iff.mp hp).1

end

/-- A hostname is resolved, and its snapshot is loaded. -/
def loading : List (Dns.Label ℕ ℕ (EndpointController ℕ ℚ ℕ)) :=
  [.lookup, .task 0 .get, .task 0 .tryGetWith] ++ resolving 0 2 [some 2, some 1] ++ [.task 0 .store, .task 0 .read]

/-- Two hostnames have the same addresses, and pairs of locks are taken in opposite argument orders. -/
def contending : List (Label ℕ ℕ ℕ (EndpointController ℕ ℚ ℕ)) :=
  let snapshot : ResolvedSnapshot ℕ := ⟨[⟨.v4 1, 0⟩, ⟨.v4 2, 1⟩], 0⟩
  loading.map (.cache 0) ++ loading.map (.cache 1) ++ [.reserveP2c 0 0 snapshot 0 0, .reserveP2c 1 0 snapshot 1 0,
    .lock 0, .lock 1, .tryReservePair 7 8, .tryReservePair 8 7, .lock 2, .withController (.tokio 7)]

theorem no_lock_deadlock_contending : ∃ s, Run (Step fun _ => sampleCache) (State.empty 0) contending s ∧
    s.tasks = [.wantsUpper (.dns 0 0) (.dns 0 1), .wantsUpper (.dns 1 0) (.dns 1 1), .wantsUpper (.tokio 7) (.tokio 8),
      .wantsLower (.tokio 7) (.tokio 8), .wants (.tokio 7)] ∧
    ∀ tasks, ¬ Deadlock s.Holds s.wanted tasks := by
  have h : (Systems.play (State.exec fun _ => sampleCache) (State.empty 0) contending).any (fun s => decide (s.tasks =
      [.wantsUpper (.dns 0 0) (.dns 0 1), .wantsUpper (.dns 1 0) (.dns 1 1), .wantsUpper (.tokio 7) (.tokio 8),
        .wantsLower (.tokio 7) (.tokio 8), .wants (.tokio 7)])) = true := by decide +kernel
  obtain ⟨s, hs, h⟩ := (Option.any_eq_true _ _).mp h
  have hrun := Systems.play_run hs
  exact ⟨s, hrun, of_decide_eq_true h, (no_lock_deadlock hrun).1⟩

end Loadpace.Locks
