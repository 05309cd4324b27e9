import Loadpace.Cases

/-!
# Calls and the ledger

Most of a controller changes only when a caller asks for it. The `Ledger` is that part: the identities and waits of the
queued reservations, the counters, the estimates and the feedback epoch. The rest (slots, pacer, probe, the dispatch
flag) also moves with time, through `refresh` and `updateRate`, which keep the ledger (`refresh_ledger`,
`updateRate_ledger`).

`Call` and `Reply` are the operations and their results, and `exec` runs one. `LedgerStep` is what the controller is for
without its pacing: a bounded first-in-first-out queue of tickets with an inflight count. `exec_ledger` says that every
call is one of its steps.
-/

namespace Loadpace

/-! ## Calls -/

inductive Call (T : Type)
  | reserve (now : T)
  | cancel (reservation : DispatchReservation) (now : T)
  | dispatchState (reservation : DispatchReservation) (now : T)
  | onDispatched (reservation : DispatchReservation) (now : T)
  | finish (request : InFlightRequest T) (completion : Completion) (now : T)
  | onComplete (request : InFlightRequest T) (outcome : Outcome) (latency now : T)
  | onAbandoned (request : InFlightRequest T) (now : T)
  | onAdmissionFailure (now : T)
  | refresh (now : T)
  | load (now : T)
  | predictedCompletion (now : T)
  | snapshot (now : T)
  | takeChanges

inductive Reply (T F : Type)
  | reserved (result : Except ScheduleError DispatchReservation)
  | cancelled (removed : Bool)
  | state (state : DispatchState T)
  | dispatched (result : Except (DispatchState T) (InFlightRequest T))
  | finished (consumed : Bool)
  | done
  | load (seconds : F)
  | completion (instant : T)
  | snapshot (view : ControllerSnapshot T F)
  | changes (flags : ControllerChanges)

namespace Call

variable {T : Type}

/-- The instant of a call. -/
def now? : Call T → Option T
  | .reserve now | .cancel _ now | .dispatchState _ now | .onDispatched _ now | .finish _ _ now | .onComplete _ _ _ now
  | .onAbandoned _ now | .onAdmissionFailure now | .refresh now | .load now | .predictedCompletion now
  | .snapshot now => some now
  | .takeChanges => none

/-- The reservation that a call checks for dispatch. -/
def check? : Call T → Option (DispatchReservation × T)
  | .dispatchState r now | .onDispatched r now => some (r, now)
  | _ => none

/-- The request that a call releases, how it ended, its latency, and the instant. -/
def release? [Sub T] : Call T → Option (InFlightRequest T × Completion × T × T)
  | .finish q completion now => some (q, completion, now - q.dispatchedAt, now)
  | .onComplete q outcome latency now => some (q, EndpointController.Outcome.completion outcome, latency, now)
  | .onAbandoned q now => some (q, .abandoned, now - q.dispatchedAt, now)
  | _ => none

/-- The calls that read a metric. -/
def IsRead : Call T → Prop
  | .refresh _ | .load _ | .predictedCompletion _ | .snapshot _ => True
  | _ => False

end Call

/-- The dispatch state that a reply reports, when nothing was dispatched. -/
def Reply.state? {T F : Type} : Reply T F → Option (DispatchState T)
  | .state s | .dispatched (.error s) => some s
  | _ => none

/-- The reservation that a call dispatched, and its request. -/
def dispatchedOf {T F : Type} : Call T → Reply T F → Option (DispatchReservation × InFlightRequest T)
  | .onDispatched r _, .dispatched (.ok q) => some (r, q)
  | _, _ => none

/-- How the request of a call ended, when it is the controller's own. -/
def ownReleaseOf {T : Type} [Sub T] (controllerId : ℕ) (call : Call T) : Option Completion :=
  call.release?.bind fun (q, completion, _, _) => if q.controllerId = controllerId then some completion else none

def Call.isAdmissionFailure {T : Type} : Call T → Bool
  | .onAdmissionFailure _ => true
  | _ => false

theorem dispatchedOf_state {T F : Type} (call : Call T) {reply : Reply T F} {s : DispatchState T}
    (h : reply.state? = some s) : dispatchedOf call reply = none := by
  cases reply with
  | dispatched res =>
    cases res with
    | ok q => cases h
    | error s => cases call <;> rfl
  | _ => cases call <;> rfl

theorem dispatchedOf_finished {T F : Type} (call : Call T) (b : Bool) :
    dispatchedOf call (.finished b : Reply T F) = none := by
  cases call <;> rfl

namespace Call

variable {T : Type}

/-- A check for dispatch releases nothing. -/
theorem of_check [Sub T] {call : Call T} {x : DispatchReservation × T} (h : call.check? = some x) :
    call.release? = none ∧ call.isAdmissionFailure = false := by
  cases call <;> first | exact ⟨rfl, rfl⟩ | cases h

theorem of_read [Sub T] {F : Type} {call : Call T} (reply : Reply T F) (h : call.IsRead) :
    dispatchedOf call reply = none ∧ call.release? = none ∧ call.isAdmissionFailure = false := by
  cases call <;> first | exact h.elim | exact ⟨rfl, rfl, rfl⟩

theorem of_release [Sub T] {call : Call T} {x : InFlightRequest T × Completion × T × T} (h : call.release? = some x) :
    call.isAdmissionFailure = false := by
  cases call <;> first | rfl | cases h

theorem check_of_release [Sub T] {call : Call T} {x : InFlightRequest T × Completion × T × T}
    (h : call.release? = some x) : call.check? = none := by
  cases call <;> first | rfl | cases h

theorem check_of_read {call : Call T} (h : call.IsRead) : call.check? = none := by
  cases call <;> first | rfl | exact h.elim

theorem now_of_release [Sub T] {call : Call T} {q : InFlightRequest T} {completion : Completion} {latency now : T}
    (h : call.release? = some (q, completion, latency, now)) : call.now? = some now := by
  cases call <;> first | (cases h; rfl) | cases h

theorem now_of_check {call : Call T} {r : DispatchReservation} {now : T} (h : call.check? = some (r, now)) :
    call.now? = some now := by
  cases call <;> first | (cases h; rfl) | cases h

end Call

/-! ## The ledger -/

/-- The part of a controller that time alone does not change. -/
structure Ledger (T F : Type) where
  controllerId : ℕ
  config : EndpointConfig T
  latency : LatencyEstimator T F
  gradient : Gradient2 T F
  /-- The identity of each queued reservation, and whether it was seen to wait. -/
  entries : List (ℕ × Bool)
  nextId : ℕ
  inflight : ℕ
  completed : ℕ
  failures : ℕ
  feedbackEpoch : Option (FeedbackEpoch T)
  admission : Bool

def PendingReservation.entry {T : Type} (p : PendingReservation T) : ℕ × Bool := (p.id, p.wasPaced)

namespace Ledger

variable {T F : Type}

def ids (l : Ledger T F) : List ℕ := l.entries.map Prod.fst

def Holds (l : Ledger T F) (r : DispatchReservation) : Prop := r.controllerId = l.controllerId ∧ r.id ∈ l.ids

def Heads (l : Ledger T F) (r : DispatchReservation) : Prop :=
  r.controllerId = l.controllerId ∧ l.ids.head? = some r.id

/-- A dispatch of the queue head at `now`. -/
def dispatch [AddCommMonoid T] [LinearOrder T] [Sub T] [Time T] [F64 F] [Secs T F] (l : Ledger T F)
    (rest : List (ℕ × Bool)) (now : T) : Ledger T F :=
  { l with
    entries := rest
    feedbackEpoch :=
      if l.inflight = 0 then some { lastFeedbackAt := now, expectedRtt := l.latency.expectedRtt } else l.feedbackEpoch
    inflight := l.inflight + 1
    admission := true }

variable [AddCommMonoid T] [LinearOrder T] [Sub T] [Time T] [F64 F] [Secs T F]

/-- The epoch after feedback at `now` that leaves `inflight` requests. -/
def epochAfter (estimator : LatencyEstimator T F) (inflight : ℕ) (now : T) : Option (FeedbackEpoch T) :=
  if 0 < inflight then some { lastFeedbackAt := now, expectedRtt := estimator.expectedRtt } else none

/-- The release of a request of this controller. -/
def release (l : Ledger T F) (q : InFlightRequest T) (latency now : T) : Completion → Ledger T F
  | .success =>
    let estimator := l.latency.observeAt latency now
    { l with
      completed := l.completed + 1
      latency := estimator
      gradient := (l.gradient.onRttWithBaselineAt estimator.shortRtt estimator.baselineRtt l.inflight q.wasPaced now).2
      inflight := l.inflight - 1
      feedbackEpoch := epochAfter estimator (l.inflight - 1) now }
  | .failure =>
    { l with
      completed := l.completed + 1
      failures := l.failures + 1
      gradient := l.gradient.onFailureAt now
      inflight := l.inflight - 1
      feedbackEpoch := epochAfter l.latency (l.inflight - 1) now }
  | .abandoned =>
    { l with
      failures := l.failures + 1
      gradient := l.gradient.onFailureAt now
      inflight := l.inflight - 1
      feedbackEpoch := if l.inflight - 1 = 0 then none else l.feedbackEpoch }

end Ledger

/-- **The controller without its pacing**: whether a queue head must wait is left open. -/
inductive LedgerStep {T F : Type} [AddCommMonoid T] [LinearOrder T] [Sub T] [Time T] [F64 F] [Secs T F]
    (l : Ledger T F) : Call T → Reply T F → Ledger T F → Prop
  | reserved {now : T} : l.entries.length < l.config.queueCapacity → l.nextId ≠ u64Max →
      LedgerStep l (.reserve now) (.reserved (.ok { controllerId := l.controllerId, id := l.nextId }))
        { l with nextId := l.nextId + 1, entries := l.entries ++ [(l.nextId, false)] }
  | queueFull {now : T} : l.config.queueCapacity ≤ l.entries.length →
      LedgerStep l (.reserve now) (.reserved (.error .queueFull)) l
  | idExhausted {now : T} : l.entries.length < l.config.queueCapacity → l.nextId = u64Max →
      LedgerStep l (.reserve now) (.reserved (.error .idExhausted)) l
  | cancelled {r : DispatchReservation} {now : T} : l.Holds r →
      LedgerStep l (.cancel r now) (.cancelled true)
        { l with entries := l.entries.eraseP (fun e => e.1 = r.id), admission := true }
  | notCancelled {r : DispatchReservation} {now : T} : ¬l.Holds r → LedgerStep l (.cancel r now) (.cancelled false) l
  | unknown {call : Call T} {reply : Reply T F} {r : DispatchReservation} {now : T} :
      call.check? = some (r, now) → reply.state? = some .cancelled → ¬l.Holds r → LedgerStep l call reply l
  | waitForPrevious {call : Call T} {reply : Reply T F} {r : DispatchReservation} {now : T} :
      call.check? = some (r, now) → reply.state? = some .waitForPrevious → l.Holds r → ¬l.Heads r →
      LedgerStep l call reply l
  | inflightLimit {call : Call T} {reply : Reply T F} {r : DispatchReservation} {now : T} :
      call.check? = some (r, now) → reply.state? = some .inflightLimit → l.Heads r → l.config.maxInflight ≤ l.inflight →
      LedgerStep l call reply l
  | waitUntil {call : Call T} {reply : Reply T F} {r : DispatchReservation} {now t : T} {waited : Bool}
      {rest : List (ℕ × Bool)} :
      call.check? = some (r, now) → reply.state? = some (.waitUntil t) → r.controllerId = l.controllerId →
      l.entries = (r.id, waited) :: rest → l.inflight < l.config.maxInflight →
      LedgerStep l call reply { l with entries := (r.id, true) :: rest }
  | ready {r : DispatchReservation} {now : T} : l.Heads r → l.inflight < l.config.maxInflight →
      LedgerStep l (.dispatchState r now) (.state .ready) l
  | dispatched {r : DispatchReservation} {now : T} {waited : Bool} {rest : List (ℕ × Bool)} :
      r.controllerId = l.controllerId → l.entries = (r.id, waited) :: rest → l.inflight < l.config.maxInflight →
      LedgerStep l (.onDispatched r now)
        (.dispatched (.ok { controllerId := l.controllerId, dispatchedAt := now, wasPaced := waited }))
        (l.dispatch rest now)
  | foreign {call : Call T} {q : InFlightRequest T} {completion : Completion} {latency now : T} :
      call.release? = some (q, completion, latency, now) → q.controllerId ≠ l.controllerId →
      LedgerStep l call (.finished false) l
  | finished {call : Call T} {q : InFlightRequest T} {completion : Completion} {latency now : T} :
      call.release? = some (q, completion, latency, now) → q.controllerId = l.controllerId → 0 < l.inflight →
      LedgerStep l call (.finished true) (l.release q latency now completion)
  | admissionFailure {now : T} : LedgerStep l (.onAdmissionFailure now) .done
      { l with failures := l.failures + 1, gradient := l.gradient.onFailureAt now }
  | read {call : Call T} {reply : Reply T F} : call.IsRead → LedgerStep l call reply l
  | takeChanges {flags : ControllerChanges} : flags.admission = l.admission →
      LedgerStep l .takeChanges (.changes flags) { l with admission := false }

/-- The counters, the estimates and the epoch are the same. -/
structure Ledger.SameWork {T F : Type} (l l' : Ledger T F) : Prop where
  inflight : l'.inflight = l.inflight
  completed : l'.completed = l.completed
  failures : l'.failures = l.failures
  latency : l'.latency = l.latency
  gradient : l'.gradient = l.gradient
  feedbackEpoch : l'.feedbackEpoch = l.feedbackEpoch

/-- A call dispatches a request, releases one of the controller's own, reports an admission failure, or leaves the work
as it is. -/
theorem LedgerStep.kinds {T F : Type} [AddCommMonoid T] [LinearOrder T] [Sub T] [Time T] [F64 F] [Secs T F]
    {l l' : Ledger T F} {call : Call T} {reply : Reply T F} (h : LedgerStep l call reply l') :
    (∃ r q waited rest now, call = .onDispatched r now ∧ dispatchedOf call reply = some (r, q) ∧
      q = { controllerId := l.controllerId, dispatchedAt := now, wasPaced := waited } ∧
      r.controllerId = l.controllerId ∧ l.entries = (r.id, waited) :: rest ∧ l.inflight < l.config.maxInflight ∧
      l' = l.dispatch rest now) ∨
    (∃ q completion latency now, call.release? = some (q, completion, latency, now) ∧
      q.controllerId = l.controllerId ∧ 0 < l.inflight ∧ dispatchedOf call reply = none ∧
      l' = l.release q latency now completion) ∨
    (∃ now, call = .onAdmissionFailure now ∧ dispatchedOf call reply = none ∧
      l' = { l with failures := l.failures + 1, gradient := l.gradient.onFailureAt now }) ∨
    (dispatchedOf call reply = none ∧ ownReleaseOf l.controllerId call = none ∧ call.isAdmissionFailure = false ∧
      l.SameWork l') := by
  have same : l.SameWork l := ⟨rfl, rfl, rfl, rfl, rfl, rfl⟩
  cases h with
  | dispatched hc he hi => exact Or.inl ⟨_, _, _, _, _, rfl, rfl, rfl, hc, he, hi, rfl⟩
  | finished hr hc hi => exact Or.inr (Or.inl ⟨_, _, _, _, hr, hc, hi, dispatchedOf_finished .., rfl⟩)
  | admissionFailure => exact Or.inr (Or.inr (Or.inl ⟨_, rfl, rfl, rfl⟩))
  | unknown hc hs _ | waitForPrevious hc hs _ _ | inflightLimit hc hs _ _ =>
    obtain ⟨hr, ha⟩ := Call.of_check hc
    exact Or.inr (Or.inr (Or.inr ⟨dispatchedOf_state _ hs, by rw [ownReleaseOf, hr]; rfl, ha, same⟩))
  | waitUntil hc hs _ _ _ =>
    obtain ⟨hr, ha⟩ := Call.of_check hc
    exact Or.inr (Or.inr (Or.inr ⟨dispatchedOf_state _ hs, by rw [ownReleaseOf, hr]; rfl, ha,
      ⟨rfl, rfl, rfl, rfl, rfl, rfl⟩⟩))
  | foreign hr hc =>
    refine Or.inr (Or.inr (Or.inr ⟨dispatchedOf_finished .., ?_, Call.of_release hr, same⟩))
    simp only [ownReleaseOf, hr, Option.bind_some, if_neg hc]
  | read hr =>
    obtain ⟨hd, hn, ha⟩ := Call.of_read reply hr
    exact Or.inr (Or.inr (Or.inr ⟨hd, by rw [ownReleaseOf, hn]; rfl, ha, same⟩))
  | _ => exact Or.inr (Or.inr (Or.inr ⟨rfl, rfl, rfl, ⟨rfl, rfl, rfl, rfl, rfl, rfl⟩⟩))

/-! ## The controller refines the ledger -/

namespace EndpointController

variable {T F R : Type}

def ledger (c : EndpointController T F R) : Ledger T F where
  controllerId := c.controllerId
  config := c.config
  latency := c.latency
  gradient := c.gradient
  entries := c.pending.map PendingReservation.entry
  nextId := c.nextId
  inflight := c.inflight
  completed := c.completed
  failures := c.failures
  feedbackEpoch := c.feedbackEpoch
  admission := c.changes.admission

theorem ledger_ids (c : EndpointController T F R) : c.ledger.ids = ids c.pending := by
  simp [ledger, Ledger.ids, ids, PendingReservation.entry, Function.comp_def]

theorem ledger_holds {c : EndpointController T F R} {r : DispatchReservation} : c.ledger.Holds r ↔ c.Holds r := by
  unfold Ledger.Holds Holds
  rw [ledger_ids]; rfl

theorem ledger_heads {c : EndpointController T F R} {r : DispatchReservation} : c.ledger.Heads r ↔ c.Heads r := by
  unfold Ledger.Heads Heads
  rw [ledger_ids]; rfl

theorem Heads.of_ledger {c m : EndpointController T F R} {r : DispatchReservation} (hh : c.Heads r) (h : m.ledger = c.ledger) :
    m.Heads r := by
  rw [← ledger_heads, h]
  exact ledger_heads.mpr hh

theorem room_of_ledger {c m : EndpointController T F R} (h : m.ledger = c.ledger) :
    m.inflight < m.config.maxInflight ↔ c.inflight < c.config.maxInflight := by
  have hinflight : m.inflight = c.inflight := congrArg Ledger.inflight h
  have hconfig : m.config = c.config := congrArg Ledger.config h
  rw [hinflight, hconfig]

theorem eraseP_entries (ps : List (PendingReservation T)) (n : ℕ) :
    (ps.eraseP (fun entry => entry.id = n)).map PendingReservation.entry =
      (ps.map PendingReservation.entry).eraseP (fun e => e.1 = n) := by
  rw [List.eraseP_map]; rfl

variable [AddCommMonoid T] [LinearOrder T] [Sub T] [Time T]

theorem rebuild_ledger (c : EndpointController T F R) (now : T) : (c.rebuildVirtualQueue now).ledger = c.ledger := by
  simp only [rebuildVirtualQueue, ledger, reschedule_map PendingReservation.entry fun _ _ => rfl]

variable [F64 F] [Secs T F]

theorem updateRate_ledger {c c' : EndpointController T F R} {now : T} (h : c.updateRate now = some c') :
    c'.ledger = c.ledger := by
  obtain ⟨pacer, _, ⟨_, rfl⟩ | ⟨_, _, rfl⟩⟩ := updateRate_cases h
  · simp only [ledger, reschedule_map PendingReservation.entry fun _ _ => rfl]
  · rfl

theorem released_ledger (c : EndpointController T F R) (q : InFlightRequest T) (latency now : T)
    (completion : Completion) : (c.released q latency now completion).ledger = c.ledger.release q latency now completion := by
  cases completion <;> rfl

section

variable {c c' : EndpointController T F R} {call : Call T} {reply : Reply T F} {r : DispatchReservation} {now : T}

theorem reserve_ledger (c : EndpointController T F R) (now : T) :
    LedgerStep c.ledger (.reserve now) (.reserved (c.reserve now).1) (c.reserve now).2.ledger := by
  have hl : c.ledger.entries.length = c.pending.length := List.length_map ..
  rcases Nat.lt_or_ge c.pending.length c.config.queueCapacity with hroom | hfull
  · by_cases hid : c.nextId = u64Max
    · rw [reserve_exhausted c now hroom hid]
      exact .idExhausted (hl ▸ hroom) hid
    · have hs := @LedgerStep.reserved T F _ _ _ _ _ _ c.ledger now (hl ▸ hroom) hid
      rw [reserve_ok c now hroom hid]
      simpa only [ledger, List.map_append, List.map_cons, List.map_nil, PendingReservation.entry] using hs
  · rw [reserve_full c now hfull]
    exact .queueFull (hl ▸ hfull)

theorem cancel_ledger (c : EndpointController T F R) (r : DispatchReservation) (now : T) :
    LedgerStep c.ledger (.cancel r now) (.cancelled (c.cancel r now).1) (c.cancel r now).2.ledger := by
  by_cases hh : c.Holds r
  · have hs := @LedgerStep.cancelled T F _ _ _ _ _ _ c.ledger r now (ledger_holds.mpr hh)
    rw [cancel_held c now hh]
    dsimp only
    rw [rebuild_ledger]
    simpa only [ledger, eraseP_entries] using hs
  · rw [cancel_unknown c now hh]
    exact .notCancelled (mt ledger_holds.mp hh)

theorem release_ledger {q : InFlightRequest T} {completion : Completion} {latency : T} {b : Bool}
    (hcall : call.release? = some (q, completion, latency, now))
    (h : (q.controllerId ≠ c.controllerId ∧ b = false ∧ c' = c) ∨
      (q.controllerId = c.controllerId ∧ 0 < c.inflight ∧ b = true ∧
        (c.released q latency now completion).updateRate now = some c')) :
    LedgerStep c.ledger call (.finished b) c'.ledger := by
  rcases h with ⟨hc, rfl, rfl⟩ | ⟨hc, hi, rfl, hu⟩
  · exact .foreign hcall hc
  · rw [updateRate_ledger hu, released_ledger]
    exact .finished hcall hc hi

variable [Rng R F]

theorem refresh_ledger (h : c.refresh now = some c') :
    c'.ledger = c.ledger := by
  obtain ⟨probe, rng, m, _, hm, rfl⟩ := refresh_cases h
  exact (updateRate_ledger hm).trans rfl

/-- Runs one call; `none` is a panic. -/
def exec (c : EndpointController T F R) : Call T → Option (Reply T F × EndpointController T F R)
  | .reserve now => some ((c.reserve now).map .reserved id)
  | .cancel r now => some ((c.cancel r now).map .cancelled id)
  | .dispatchState r now => (c.dispatchState r now).map (Prod.map .state id)
  | .onDispatched r now => (c.onDispatched r now).map (Prod.map .dispatched id)
  | .finish q completion now => (c.finish q completion now).map (Prod.map .finished id)
  | .onComplete q outcome latency now => (c.onComplete q outcome latency now).map (Prod.map .finished id)
  | .onAbandoned q now => (c.onAbandoned q now).map (Prod.map .finished id)
  | .onAdmissionFailure now => (c.onAdmissionFailure now).map (.done, ·)
  | .refresh now => (c.refresh now).map (.done, ·)
  | .load now => (c.load now).map (Prod.map .load id)
  | .predictedCompletion now => (c.predictedCompletion now).map (Prod.map .completion id)
  | .snapshot now => (c.snapshot now).map (Prod.map .snapshot id)
  | .takeChanges => some (c.takeChanges.map .changes id)

/-- The head of a refreshed queue is the head of the ledger. -/
theorem entries_of_refresh {m : EndpointController T F R} {front : PendingReservation T}
    {rest : List (PendingReservation T)} (hm : c.refresh now = some m) (hp : m.pending = front :: rest) :
    c.ledger.entries = front.entry :: rest.map PendingReservation.entry := by
  rw [← refresh_ledger hm]
  simp only [ledger, hp, List.map_cons]

/-- A check for dispatch, when it dispatches nothing. -/
theorem check_ledger {s : DispatchState T} (hs : c.dispatchState r now = some (s, c'))
    (hcall : call.check? = some (r, now)) (hreply : reply.state? = some s)
    (hready : s = .ready → call = .dispatchState r now ∧ reply = .state .ready) :
    LedgerStep c.ledger call reply c'.ledger := by
  rcases dispatchState_cases hs with ⟨hn, rfl, rfl⟩ | ⟨hh, hn, rfl, rfl⟩ | ⟨hh, m, front, rest, hm, hp, hid, hc⟩
  · exact .unknown hcall hreply (mt ledger_holds.mp hn)
  · exact .waitForPrevious hcall hreply (ledger_holds.mpr hh) (mt ledger_heads.mp hn)
  · have hl := refresh_ledger hm
    cases hc with
    | inflightLimit hmax =>
      rw [hl]
      exact .inflightLimit hcall hreply (ledger_heads.mpr hh) (by rw [← hl]; exact hmax)
    | ready hmax _ =>
      obtain ⟨rfl, rfl⟩ := hready rfl
      rw [hl]
      exact .ready (ledger_heads.mpr hh) (by rw [← hl]; exact hmax)
    | waitUntil hmax _ =>
      have he : c.ledger.entries = (r.id, front.wasPaced) :: rest.map PendingReservation.entry := by
        rw [entries_of_refresh hm hp, PendingReservation.entry, hid]
      have hs := LedgerStep.waitUntil hcall hreply hh.1 he (by rw [← hl]; exact hmax)
      rw [← hl] at hs ⊢
      simpa only [ledger, waited, List.map_cons, PendingReservation.entry, hid] using hs

theorem onDispatched_ledger {res : Except (DispatchState T) (InFlightRequest T)}
    (h : c.onDispatched r now = some (res, c')) :
    LedgerStep c.ledger (.onDispatched r now) (.dispatched res) c'.ledger := by
  rcases onDispatched_cases h with ⟨s, hs, rfl, hd⟩ | ⟨hh, m, front, rest, hm, hp, hid, hmax, _, rfl, rfl⟩
  · exact check_ledger hd rfl rfl (fun he => absurd he hs)
  · have hl := refresh_ledger hm
    have he : c.ledger.entries = (r.id, front.wasPaced) :: rest.map PendingReservation.entry := by
      rw [entries_of_refresh hm hp, PendingReservation.entry, hid]
    have hs := @LedgerStep.dispatched T F _ _ _ _ _ _ c.ledger r now _ _ hh.1 he (by rw [← hl]; exact hmax)
    rw [rebuild_ledger]
    rw [← hl] at hs ⊢
    exact hs

/-- **Refinement**: every call is a step of the ledger. -/
theorem exec_ledger (h : c.exec call = some (reply, c')) : LedgerStep c.ledger call reply c'.ledger := by
  cases call with
  | reserve now => cases h; exact reserve_ledger c now
  | cancel r now => cases h; exact cancel_ledger c r now
  | dispatchState r now =>
    obtain ⟨⟨s, m⟩, hs, he⟩ := Option.map_eq_some_iff.mp h
    cases he
    exact check_ledger hs rfl rfl fun hr => ⟨rfl, by rw [hr]⟩
  | onDispatched r now =>
    obtain ⟨⟨s, m⟩, hs, he⟩ := Option.map_eq_some_iff.mp h
    cases he
    exact onDispatched_ledger hs
  | finish q completion now =>
    obtain ⟨⟨b, m⟩, hb, he⟩ := Option.map_eq_some_iff.mp h
    cases he
    exact release_ledger rfl (finish_cases hb)
  | onComplete q outcome latency now =>
    obtain ⟨⟨b, m⟩, hb, he⟩ := Option.map_eq_some_iff.mp h
    cases he
    exact release_ledger rfl (onComplete_cases hb)
  | onAbandoned q now =>
    obtain ⟨⟨b, m⟩, hb, he⟩ := Option.map_eq_some_iff.mp h
    cases he
    exact release_ledger rfl (onAbandoned_cases _ hb)
  | onAdmissionFailure now =>
    obtain ⟨m, hm, he⟩ := Option.map_eq_some_iff.mp h
    cases he
    rw [updateRate_ledger hm]
    exact .admissionFailure
  | refresh now =>
    obtain ⟨m, hm, he⟩ := Option.map_eq_some_iff.mp h
    cases he
    rw [refresh_ledger hm]
    exact .read trivial
  | load now =>
    obtain ⟨⟨x, m⟩, hm, he⟩ := Option.map_eq_some_iff.mp h
    cases he
    rw [← refresh_ledger (load_cases hm).1]
    exact .read trivial
  | predictedCompletion now =>
    obtain ⟨⟨x, m⟩, hm, he⟩ := Option.map_eq_some_iff.mp h
    cases he
    rw [← refresh_ledger (predictedCompletion_cases hm).1]
    exact .read trivial
  | snapshot now =>
    obtain ⟨⟨x, m⟩, hm, he⟩ := Option.map_eq_some_iff.mp h
    cases he
    obtain ⟨m', hr, rfl, _⟩ := snapshot_cases hm
    rw [← refresh_ledger hr]
    exact .read trivial
  | takeChanges => cases h; exact .takeChanges rfl

end

end EndpointController

end Loadpace
