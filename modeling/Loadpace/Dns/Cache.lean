import Loadpace.Dns.Addresses
import Loadpace.Platform
import Loadpace.Lib.Run

/-!
# The DNS cache (`loadpace-rama/src/dns.rs`)

The cache at one hostname and port: its host entries, the endpoint states they refer to, and any number of tasks, each
somewhere in `DnsCache::lookup`, in the task of `DnsCache::spawn_refresh`, or at work with the endpoints of an entry that a
lookup gave it. Each step is one access to what the tasks share. `get`, `invalidate` and `try_get_with` of the entry map are
atomic, and `try_get_with` runs one initializer at a time. `exec_move` says once what a step can do.
-/

namespace Loadpace.Dns

open Systems

/-! ## The state -/

/-- An `Endpoint`: its address, and which `EndpointState` is its own. -/
structure Endpoint where
  ip : IpAddr
  state : ℕ
  deriving DecidableEq

structure ResolvedSnapshot (T : Type) where
  endpoints : List Endpoint
  fetchedAt : T
  deriving DecidableEq

structure HostEntry (T : Type) where
  current : ResolvedSnapshot T
  refreshing : Bool

/-- The configuration of a cache: `newState` makes an `EndpointState` at an instant from what the random generator and the
counter of the controllers give; `none` is its panic. -/
structure DnsCache (T S C : Type) where
  newState : T → S → Option C
  refreshAfter : T
  evictAfterStale : T
  mode : DnsResolveIpMode

/-- What a result of `resolve` is for. -/
inductive Goal
  /-- The initializer of `try_get_with`. -/
  | initial
  /-- The refresh of an entry. -/
  | refresh (entry : ℕ)
  deriving DecidableEq

/-- Where a task is. -/
inductive Place (T : Type)
  /-- `lookup` is called. -/
  | start
  /-- `get` has returned an entry. -/
  | found (entry : ℕ)
  /-- The current snapshot of the entry is loaded. -/
  | loaded (entry : ℕ) (seen : ResolvedSnapshot T)
  /-- About to call `spawn_refresh`. -/
  | due (entry : ℕ)
  /-- About to call `invalidate`, for the age of what was seen. -/
  | expired (entry : ℕ) (seen : ResolvedSnapshot T)
  /-- About to call `try_get_with`. -/
  | trying
  /-- Waiting for the initializer of another task. -/
  | waiting
  /-- `lookup` has returned the error of an initializer. -/
  | failed
  /-- `lookup` has returned an entry, from which these snapshots have been loaded since. -/
  | served (entry : ℕ) (loaded : List (ResolvedSnapshot T))
  /-- `try_acquire_refresh` has succeeded. -/
  | acquired (entry : ℕ)
  /-- In `resolve`, waiting for the answers. -/
  | collecting (goal : Goal) (previous : Option (ResolvedSnapshot T))
  /-- In `resolve`, with the addresses that have no endpoint yet. -/
  | building (goal : Goal) (previous : Option (ResolvedSnapshot T)) (ips : List IpAddr) (endpoints : List Endpoint)
  /-- `resolve` has returned. -/
  | resolved (goal : Goal) (previous : Option (ResolvedSnapshot T)) (snapshot : ResolvedSnapshot T)
  /-- The `RefreshGuard` is being dropped. -/
  | releasing (entry : ℕ)
  | gone
  deriving DecidableEq

/-- The state at one hostname and port. -/
structure State (T C : Type) where
  clock : T
  /-- The endpoint states that have been made. -/
  states : List C
  /-- The host entries that have been made. -/
  entries : List (HostEntry T)
  /-- The entry of the map. -/
  cached : Option ℕ
  tasks : List (Place T)

/-- One step of a task. -/
inductive Action (S C : Type)
  | get
  | load
  | measure
  | spawnRefresh
  | invalidate
  | tryGetWith
  | loadPrevious
  | answer (answers : Answers)
  /-- One turn of the loop over the addresses. -/
  | endpoint (seed : S)
  | stamp
  /-- `update`, or the end of the initializer. -/
  | store
  | release
  /-- The task is dropped or panics. -/
  | drop
  /-- `load_full` of the current snapshot, for a selection. -/
  | read
  /-- An operation on the state of an endpoint of a loaded snapshot. -/
  | withController (state : ℕ) (operation : C → Option C)

inductive Label (T S C : Type)
  | tick (now : T)
  | lookup
  | snapshots
  | task (i : ℕ) (action : Action S C)

/-! ## The steps -/

variable {T S C : Type}

def Goal.isInitial : Goal → Bool
  | .initial => true
  | .refresh _ => false

def Goal.entry? : Goal → Option ℕ
  | .initial => none
  | .refresh e => some e

/-- The initializer of `try_get_with` is running in the task. -/
def Place.initializes : Place T → Bool
  | .collecting goal _ | .building goal _ _ _ | .resolved goal _ _ => goal.isInitial
  | _ => false

/-- The entry whose refresh the task holds. -/
def Place.refreshes : Place T → Option ℕ
  | .acquired e | .releasing e => some e
  | .collecting goal _ | .building goal _ _ _ | .resolved goal _ _ => goal.entry?
  | _ => none

/-- The initializer is over, and its waiters go to `next`. -/
def Place.wake (next : Place T) : Place T → Place T
  | .waiting => next
  | p => p

/-- `previous.endpoints.iter().find(|endpoint| endpoint.ip == ip)`. -/
def reuse (previous : Option (ResolvedSnapshot T)) (ip : IpAddr) : Option Endpoint :=
  previous.bind fun snapshot => snapshot.endpoints.find? fun endpoint => decide (endpoint.ip = ip)

namespace State

/-- A task moves. -/
def turn (s : State T C) (i : ℕ) (p : Place T) : State T C := { s with tasks := s.tasks.set i p }

/-- An initializer ends without an entry: its waiters go to `next`. -/
def wake (s : State T C) (i : ℕ) (p next : Place T) : State T C :=
  { s with tasks := (s.tasks.map (Place.wake next)).set i p }

/-- `resolve` returns no endpoints. -/
def fail (s : State T C) (i : ℕ) : Goal → State T C
  | .initial => s.wake i .failed .failed
  | .refresh e => s.turn i (.releasing e)

/-- A task is dropped. -/
def abort (s : State T C) (i : ℕ) (p : Place T) : Option (State T C) :=
  match p with
  | .gone | .releasing _ => none
  | p =>
    match p.refreshes with
    | some e => some (s.turn i (.releasing e))
    | none => some (if p.initializes then s.wake i .gone .trying else s.turn i .gone)

section

variable [LinearOrder T] [Sub T]

/-- `DnsCache::lookup` and what follows it, from one access to the next. -/
def act (d : DnsCache T S C) (s : State T C) (i : ℕ) : Action S C → Place T → Option (State T C)
  | .get, .start =>
    some (s.turn i (match s.cached with
      | some e => .found e
      | none => .trying))
  | .load, .found e => do
    let entry ← s.entries[e]?
    some (s.turn i (.loaded e entry.current))
  | .measure, .loaded e seen =>
    let elapsed := s.clock - seen.fetchedAt
    some (s.turn i
      (if elapsed < d.refreshAfter then .served e []
      else if elapsed < d.evictAfterStale then .due e
      else .expired e seen))
  | .spawnRefresh, .due e => do
    let entry ← s.entries[e]?
    let s := s.turn i (.served e [])
    some (if entry.refreshing then s
      else { s with entries := s.entries.set e { entry with refreshing := true }, tasks := s.tasks ++ [.acquired e] })
  | .invalidate, .expired _ _ => some ({ s with cached := none }.turn i .trying)
  | .tryGetWith, .trying =>
    some (s.turn i (match s.cached with
      | some e => .served e []
      | none => if s.tasks.any Place.initializes then .waiting else .collecting .initial none))
  | .loadPrevious, .acquired e => do
    let entry ← s.entries[e]?
    some (s.turn i (.collecting (.refresh e) (some entry.current)))
  | .answer answers, .collecting goal previous =>
    match addressesOf d.mode answers with
    | [] => some (s.fail i goal)
    | ip :: ips => some (s.turn i (.building goal previous (ip :: ips) []))
  | .endpoint seed, .building goal previous (ip :: ips) endpoints =>
    match reuse previous ip with
    | some endpoint => some (s.turn i (.building goal previous ips (endpoints ++ [endpoint])))
    | none => do
      let state ← d.newState s.clock seed
      some ({ s with states := s.states ++ [state] }.turn i
        (.building goal previous ips (endpoints ++ [(⟨ip, s.states.length⟩ : Endpoint)])))
  | .stamp, .building goal previous [] endpoints => some (s.turn i (.resolved goal previous ⟨endpoints, s.clock⟩))
  | .store, .resolved .initial _ snapshot =>
    let e := s.entries.length
    some ({ s with entries := s.entries ++ [(⟨snapshot, false⟩ : HostEntry T)], cached := some e }.wake i (.served e []) (.served e []))
  | .store, .resolved (.refresh e) _ snapshot => do
    let entry ← s.entries[e]?
    some ({ s with entries := s.entries.set e { entry with current := snapshot } }.turn i (.releasing e))
  | .release, .releasing e => do
    let entry ← s.entries[e]?
    some ({ s with entries := s.entries.set e { entry with refreshing := false } }.turn i .gone)
  | .drop, p => s.abort i p
  | .read, .served e loaded => do
    let entry ← s.entries[e]?
    some (s.turn i (.served e (loaded ++ [entry.current])))
  | .withController state operation, .served _ loaded =>
    if loaded.any (·.endpoints.any (·.state == state)) then do
      let before ← s.states[state]?
      let after ← operation before
      some { s with states := s.states.set state after }
    else none
  | _, _ => none

def exec (d : DnsCache T S C) (s : State T C) : Label T S C → Option (State T C)
  | .tick now => if s.clock ≤ now then some { s with clock := now } else none
  | .lookup => some { s with tasks := s.tasks ++ [.start] }
  | .snapshots =>
    some { s with tasks := s.tasks ++ [match s.cached with
      | some e => .served e []
      | none => .gone] }
  | .task i action => s.tasks[i]?.bind (s.act d i action)

end

/-- A cache without entries. -/
def empty (clock : T) : State T C := { clock, states := [], entries := [], cached := none, tasks := [] }

end State

def Step [LinearOrder T] [Sub T] (d : DnsCache T S C) (s : State T C) (l : Label T S C) (s' : State T C) : Prop :=
  s.exec d l = some s'

/-! ## Moves -/

section

variable [LinearOrder T] [Sub T]

/-- The steps that only move the task. -/
inductive Turn (d : DnsCache T S C) (s : State T C) : Action S C → Place T → Place T → Prop
  | found {e : ℕ} : s.cached = some e → Turn d s .get .start (.found e)
  | missing : s.cached = none → Turn d s .get .start .trying
  | load {e : ℕ} {entry : HostEntry T} : s.entries[e]? = some entry →
      Turn d s .load (.found e) (.loaded e entry.current)
  | fresh {e : ℕ} {seen : ResolvedSnapshot T} : s.clock - seen.fetchedAt < d.refreshAfter →
      Turn d s .measure (.loaded e seen) (.served e [])
  | due {e : ℕ} {seen : ResolvedSnapshot T} : d.refreshAfter ≤ s.clock - seen.fetchedAt →
      s.clock - seen.fetchedAt < d.evictAfterStale → Turn d s .measure (.loaded e seen) (.due e)
  | expire {e : ℕ} {seen : ResolvedSnapshot T} : d.evictAfterStale ≤ s.clock - seen.fetchedAt →
      Turn d s .measure (.loaded e seen) (.expired e seen)
  | busy {e : ℕ} {entry : HostEntry T} : s.entries[e]? = some entry → entry.refreshing = true →
      Turn d s .spawnRefresh (.due e) (.served e [])
  | hit {e : ℕ} : s.cached = some e → Turn d s .tryGetWith .trying (.served e [])
  | wait : s.cached = none → s.tasks.any Place.initializes = true → Turn d s .tryGetWith .trying .waiting
  | initial : s.cached = none → s.tasks.any Place.initializes = false →
      Turn d s .tryGetWith .trying (.collecting .initial none)
  | loadPrevious {e : ℕ} {entry : HostEntry T} : s.entries[e]? = some entry →
      Turn d s .loadPrevious (.acquired e) (.collecting (.refresh e) (some entry.current))
  | answer {goal : Goal} {previous : Option (ResolvedSnapshot T)} {answers : Answers} {ip : IpAddr} {ips : List IpAddr} :
      addressesOf d.mode answers = ip :: ips →
      Turn d s (.answer answers) (.collecting goal previous) (.building goal previous (ip :: ips) [])
  | refuse {e : ℕ} {previous : Option (ResolvedSnapshot T)} {answers : Answers} : addressesOf d.mode answers = [] →
      Turn d s (.answer answers) (.collecting (.refresh e) previous) (.releasing e)
  | reuse {goal : Goal} {previous : Option (ResolvedSnapshot T)} {ip : IpAddr} {ips : List IpAddr}
      {endpoints : List Endpoint} {seed : S} {endpoint : Endpoint} : reuse previous ip = some endpoint →
      Turn d s (.endpoint seed) (.building goal previous (ip :: ips) endpoints)
        (.building goal previous ips (endpoints ++ [endpoint]))
  | stamp {goal : Goal} {previous : Option (ResolvedSnapshot T)} {endpoints : List Endpoint} :
      Turn d s .stamp (.building goal previous [] endpoints) (.resolved goal previous ⟨endpoints, s.clock⟩)
  | abandon {p : Place T} {e : ℕ} : p.refreshes = some e → Turn d s .drop p (.releasing e)
  | drop {p : Place T} : p.refreshes = none → p.initializes = false → Turn d s .drop p .gone
  | read {e : ℕ} {loaded : List (ResolvedSnapshot T)} {entry : HostEntry T} : s.entries[e]? = some entry →
      Turn d s .read (.served e loaded) (.served e (loaded ++ [entry.current]))

/-- A task that joins: a call of `lookup`, or one of `snapshots` with the entry of the map. -/
inductive Joins (s : State T C) : Label T S C → Place T → Prop
  | lookup : Joins s .lookup .start
  | snapshots {e : ℕ} : s.cached = some e → Joins s .snapshots (.served e [])
  | nothing : s.cached = none → Joins s .snapshots .gone

/-- An initializer that ends without an entry, and where its waiters go. -/
inductive Ends (d : DnsCache T S C) : Action S C → Place T → Place T → Place T → Prop
  | refuse {previous : Option (ResolvedSnapshot T)} {answers : Answers} : addressesOf d.mode answers = [] →
      Ends d (.answer answers) (.collecting .initial previous) .failed .failed
  | drop {p : Place T} : p.initializes = true → Ends d .drop p .gone .trying

/-- **What a step can do.** -/
inductive Move (d : DnsCache T S C) (s : State T C) : Label T S C → State T C → Prop
  | tick {now : T} : s.clock ≤ now → Move d s (.tick now) { s with clock := now }
  | join {l : Label T S C} {p : Place T} : Joins s l p → Move d s l { s with tasks := s.tasks ++ [p] }
  | turn {i : ℕ} {action : Action S C} {p p' : Place T} : s.tasks[i]? = some p → Turn d s action p p' →
      Move d s (.task i action) (s.turn i p')
  | acquire {i e : ℕ} {entry : HostEntry T} : s.tasks[i]? = some (.due e) → s.entries[e]? = some entry →
      entry.refreshing = false → Move d s (.task i .spawnRefresh) { s with
        entries := s.entries.set e { entry with refreshing := true }
        tasks := s.tasks.set i (.served e []) ++ [.acquired e] }
  | invalidate {i e : ℕ} {seen : ResolvedSnapshot T} : s.tasks[i]? = some (.expired e seen) →
      Move d s (.task i .invalidate) ({ s with cached := none }.turn i .trying)
  | make {i : ℕ} {goal : Goal} {previous : Option (ResolvedSnapshot T)} {ip : IpAddr} {ips : List IpAddr}
      {endpoints : List Endpoint} {seed : S} {state : C} :
      s.tasks[i]? = some (.building goal previous (ip :: ips) endpoints) → Dns.reuse previous ip = none →
      d.newState s.clock seed = some state → Move d s (.task i (.endpoint seed))
        ({ s with states := s.states ++ [state] }.turn i
          (.building goal previous ips (endpoints ++ [(⟨ip, s.states.length⟩ : Endpoint)])))
  | insert {i : ℕ} {previous : Option (ResolvedSnapshot T)} {snapshot : ResolvedSnapshot T} :
      s.tasks[i]? = some (.resolved .initial previous snapshot) → Move d s (.task i .store)
        ({ s with entries := s.entries ++ [(⟨snapshot, false⟩ : HostEntry T)], cached := some s.entries.length }.wake i
          (.served s.entries.length []) (.served s.entries.length []))
  | update {i e : ℕ} {previous : Option (ResolvedSnapshot T)} {snapshot : ResolvedSnapshot T} {entry : HostEntry T} :
      s.tasks[i]? = some (.resolved (.refresh e) previous snapshot) → s.entries[e]? = some entry →
      Move d s (.task i .store)
        ({ s with entries := s.entries.set e { entry with current := snapshot } }.turn i (.releasing e))
  | release {i e : ℕ} {entry : HostEntry T} : s.tasks[i]? = some (.releasing e) → s.entries[e]? = some entry →
      Move d s (.task i .release)
        ({ s with entries := s.entries.set e { entry with refreshing := false } }.turn i .gone)
  | wake {i : ℕ} {action : Action S C} {p p' next : Place T} : s.tasks[i]? = some p → Ends d action p p' next →
      Move d s (.task i action) (s.wake i p' next)
  | operate {i e x : ℕ} {loaded : List (ResolvedSnapshot T)} {operation : C → Option C} {before after : C} :
      s.tasks[i]? = some (.served e loaded) → (∃ snapshot ∈ loaded, ∃ a ∈ snapshot.endpoints, a.state = x) →
      s.states[x]? = some before → operation before = some after →
      Move d s (.task i (.withController x operation)) { s with states := s.states.set x after }

variable {d : DnsCache T S C} {s s' : State T C} {l : Label T S C} {i : ℕ} {p : Place T}

theorem abort_move (hp : s.tasks[i]? = some p) (h : s.abort i p = some s') : Move d s (.task i .drop) s' := by
  unfold State.abort at h
  split at h
  · cases h
  · cases h
  · split at h
    · rename_i e he
      cases h
      exact .turn hp (.abandon he)
    · rename_i he
      cases h
      split
      · rename_i hinit
        exact .wake hp (.drop hinit)
      · rename_i hinit
        exact .turn hp (.drop he (by simpa using hinit))

theorem act_move {action : Action S C} (hp : s.tasks[i]? = some p) (h : s.act d i action p = some s') :
    Move d s (.task i action) s' := by
  unfold State.act at h
  split at h
  · cases h
    split
    · rename_i e he
      exact .turn hp (.found he)
    · rename_i he
      exact .turn hp (.missing he)
  · obtain ⟨entry, he, h⟩ := Option.bind_eq_some_iff.mp h
    cases h
    exact .turn hp (.load he)
  · cases h
    split
    · rename_i hlt
      exact .turn hp (.fresh hlt)
    · rename_i hge
      split
      · rename_i hlt
        exact .turn hp (.due (not_lt.mp hge) hlt)
      · rename_i hge'
        exact .turn hp (.expire (not_lt.mp hge'))
  · obtain ⟨entry, he, h⟩ := Option.bind_eq_some_iff.mp h
    cases h
    split
    · rename_i hb
      exact .turn hp (.busy he hb)
    · rename_i hb
      exact .acquire hp he (by simpa using hb)
  · cases h
    exact .invalidate hp
  · cases h
    split
    · rename_i e he
      exact .turn hp (.hit he)
    · rename_i he
      split
      · rename_i hb
        exact .turn hp (.wait he hb)
      · rename_i hb
        exact .turn hp (.initial he (by simpa using hb))
  · obtain ⟨entry, he, h⟩ := Option.bind_eq_some_iff.mp h
    cases h
    exact .turn hp (.loadPrevious he)
  · rename_i goal previous
    split at h
    · rename_i he
      cases h
      cases goal with
      | initial => exact .wake hp (.refuse he)
      | refresh e => exact .turn hp (.refuse he)
    · rename_i he
      cases h
      exact .turn hp (.answer he)
  · split at h
    · rename_i he
      cases h
      exact .turn hp (.reuse he)
    · rename_i he
      obtain ⟨state, hs, h⟩ := Option.bind_eq_some_iff.mp h
      cases h
      exact .make hp he hs
  · cases h
    exact .turn hp .stamp
  · cases h
    exact .insert hp
  · obtain ⟨entry, he, h⟩ := Option.bind_eq_some_iff.mp h
    cases h
    exact .update hp he
  · obtain ⟨entry, he, h⟩ := Option.bind_eq_some_iff.mp h
    cases h
    exact .release hp he
  · exact abort_move hp h
  · obtain ⟨entry, he, h⟩ := Option.bind_eq_some_iff.mp h
    cases h
    exact .turn hp (.read he)
  · split at h
    · rename_i hx
      obtain ⟨before, hb, h⟩ := Option.bind_eq_some_iff.mp h
      obtain ⟨after, ha, h⟩ := Option.bind_eq_some_iff.mp h
      cases h
      refine .operate hp ?_ hb ha
      simpa using hx
    · cases h
  · cases h

/-- **Every step is a move.** -/
theorem exec_move (h : Step d s l s') : Move d s l s' := by
  unfold Step State.exec at h
  split at h
  · split at h
    · rename_i hle
      cases h
      exact .tick hle
    · cases h
  · cases h
    exact .join .lookup
  · cases h
    split
    · rename_i e he
      exact .join (.snapshots he)
    · rename_i he
      exact .join (.nothing he)
  · obtain ⟨p, hp, h⟩ := Option.bind_eq_some_iff.mp h
    exact act_move hp h

end

end Loadpace.Dns
