import Loadpace.Controller
import Loadpace.Lib.Loop
import Mathlib.Data.List.MinMax

/-!
# The simulator (`simulator.rs`)

`simulate` runs a fixed offered rate through a set of endpoints, each with a controller, a queue of reservations that
mirrors the controller's own, and a pool of workers with a fixed service time. `pass` is the body of its event loop: it
moves to the next event, completes what has finished (`completeReady`), dispatches what is due (`driveAll`), lets the
request of an arrival choose between two endpoints (`chooseP2c`), and dispatches again.

The start instant, the identities that the global counter gives to the controllers, and the fuel of the loop are
arguments. A panic is `none`, also the overflow of `offered` and the failure of the debug assertion.
-/

namespace Loadpace.Simulator

open Systems

/-- `SeedableRng::seed_from_u64`, and `RngExt::random_range` from zero. -/
class SeededRng (R : Type) where
  seedFromU64 : ℕ → R
  randomRange : R → ℕ → ℕ × R
  randomRange_lt : ∀ rng n, 0 < n → (randomRange rng n).1 < n

export SeededRng (seedFromU64 randomRange)

structure SimulatedEndpoint (T : Type) [AddCommMonoid T] [LinearOrder T] [Sub T] [Time T] where
  config : EndpointConfig T
  workers : ℕ
  serviceTime : T
  /-- It is a `Duration`. -/
  serviceTime_le : serviceTime ≤ durationMax

structure SimulationConfig (T F : Type) [AddCommMonoid T] [LinearOrder T] [Sub T] [Time T] where
  duration : T
  offeredRate : F
  endpoints : List (SimulatedEndpoint T)
  seed : ℕ

structure EndpointReport (T F : Type) where
  dispatched : ℕ
  completed : ℕ
  snapshot : ControllerSnapshot T F

structure SimulationReport (T F : Type) where
  offered : ℕ
  accepted : ℕ
  backpressured : ℕ
  dispatched : ℕ
  completed : ℕ
  maxQueued : ℕ
  endpoints : List (EndpointReport T F)

structure EndpointRuntime (T F R : Type) where
  controller : EndpointController T F R
  pending : List DispatchReservation
  serviceTime : T
  availableAt : List T
  dispatched : ℕ
  completed : ℕ

/-- A request that an endpoint works on; `completionAt` is the field `at`. -/
structure Completion (T : Type) where
  completionAt : T
  endpoint : ℕ
  request : InFlightRequest T

/-- The variables of `simulate` that its loop does not assign: `stop` is `end`. -/
structure Window (T : Type) where
  start : T
  stop : T
  arrivalInterval : T

/-- The variables that it does. -/
structure Simulation (T F R : Type) where
  nextArrival : T
  offered : ℕ
  accepted : ℕ
  backpressured : ℕ
  maxQueued : ℕ
  rng : R
  endpoints : List (EndpointRuntime T F R)
  completions : List (Completion T)
  cursor : T

section

variable {T F R : Type} [AddCommMonoid T] [LinearOrder T] [Sub T] [Time T] [F64 F] [Secs T F] [Rng R F] [SeededRng R]

/-! ## Events -/

/-- The result of `next_dispatch_at`, from the state of the queue head. -/
def wakeAt (now : T) : DispatchState T → Option T
  | .waitUntil t => some t
  | .ready => some now
  | .waitForPrevious => none
  | .inflightLimit => none
  | .cancelled => some now

def nextDispatchAt (e : EndpointRuntime T F R) (now : T) : Option (Option T × EndpointRuntime T F R) :=
  match e.pending with
  | [] => some (none, e)
  | reservation :: _ => do
    let (state, controller) ← e.controller.dispatchState reservation now
    some (wakeAt now state, { e with controller })

/-! ## Completions -/

/-- One completion that is due. -/
def completeOne (now : T) (endpoints : List (EndpointRuntime T F R)) (completion : Completion T) :
    Option (List (EndpointRuntime T F R)) := do
  let e ← endpoints[completion.endpoint]?
  let latency := completion.completionAt - completion.request.dispatchedAt
  let (_, controller) ← e.controller.onComplete completion.request .success latency now
  some (endpoints.set completion.endpoint { e with controller, completed := e.completed + 1 })

/-- `complete_ready`; the second list is `remaining`. -/
def completeReady (now : T) : List (EndpointRuntime T F R) → List (Completion T) →
    Option (List (EndpointRuntime T F R) × List (Completion T))
  | endpoints, [] => some (endpoints, [])
  | endpoints, completion :: rest =>
    if completion.completionAt ≤ now then do
      let endpoints ← completeOne now endpoints completion
      completeReady now endpoints rest
    else do
      let (endpoints, remaining) ← completeReady now endpoints rest
      some (endpoints, completion :: remaining)

/-! ## Dispatches -/

/-- The first worker of those that are available first. -/
def firstWorker (availableAt : List T) : Option (T × ℕ) := availableAt.zipIdx.argmin Prod.fst

/-- The endpoint after its queue head went to a worker. -/
def EndpointRuntime.dispatch (e : EndpointRuntime T F R) (controller : EndpointController T F R) (worker : ℕ)
    (completionAt : T) : EndpointRuntime T F R :=
  { e with
    controller
    pending := e.pending.tail
    availableAt := e.availableAt.set worker completionAt
    dispatched := e.dispatched + 1 }

/-- One round of the inner loop of `drive_all`; `false` is its `break`. -/
def driveOne (index : ℕ) (now : T) (reservation : DispatchReservation) (e : EndpointRuntime T F R)
    (completions : List (Completion T)) : Option (Bool × EndpointRuntime T F R × List (Completion T)) := do
  let (state, controller) ← e.controller.dispatchState reservation now
  let e := { e with controller }
  match state with
  | .ready =>
    match firstWorker e.availableAt with
    | none => some (false, e, completions)
    | some (available, worker) => do
      let (result, controller) ← e.controller.onDispatched reservation now
      match result with
      | .error _ => some (false, { e with controller }, completions)
      | .ok active =>
        let completionAt := saturatingAdd (max available now) e.serviceTime
        some (true, e.dispatch controller worker completionAt,
          completions ++ [{ completionAt, endpoint := index, request := active }])
  | .cancelled => some (true, { e with pending := e.pending.tail }, completions)
  | .waitUntil _ => some (false, e, completions)
  | .waitForPrevious => some (false, e, completions)
  | .inflightLimit => some (false, e, completions)

/-- The inner loop of `drive_all`, over what `pending` holds. -/
def drive (index : ℕ) (now : T) : List DispatchReservation → EndpointRuntime T F R → List (Completion T) →
    Option (EndpointRuntime T F R × List (Completion T))
  | [], e, completions => some (e, completions)
  | reservation :: rest, e, completions => do
    let (more, e, completions) ← driveOne index now reservation e completions
    if more then drive index now rest e completions else some (e, completions)

/-- `drive_all`, for the endpoints from `index` on. -/
def driveAllFrom (now : T) : ℕ → List (EndpointRuntime T F R) → List (Completion T) →
    Option (List (EndpointRuntime T F R) × List (Completion T))
  | _, [], completions => some ([], completions)
  | index, e :: rest, completions => do
    let controller ← e.controller.refresh now
    let (e, completions) ← drive index now e.pending { e with controller } completions
    let (rest, completions) ← driveAllFrom now (index + 1) rest completions
    some (e :: rest, completions)

def driveAll (endpoints : List (EndpointRuntime T F R)) (completions : List (Completion T)) (now : T) :
    Option (List (EndpointRuntime T F R) × List (Completion T)) :=
  driveAllFrom now 0 endpoints completions

/-! ## The choice of an endpoint -/

def EndpointRuntime.refresh (e : EndpointRuntime T F R) (now : T) : Option (EndpointRuntime T F R) := do
  let controller ← e.controller.refresh now
  some { e with controller }

/-- The `ready` indices of `choose_p2c`. -/
def readyFrom (endpoints : List (EndpointRuntime T F R)) : List ℕ :=
  endpoints.zipIdx.filterMap fun (e, index) => if e.controller.maySchedule then some index else none

def loadOf (endpoints : List (EndpointRuntime T F R)) (index : ℕ) (now : T) :
    Option (F × List (EndpointRuntime T F R)) := do
  let e ← endpoints[index]?
  let (load, controller) ← e.controller.load now
  some (load, endpoints.set index { e with controller })

/-- The last arm of `choose_p2c`. -/
def chooseBetween (endpoints : List (EndpointRuntime T F R)) (ready : List ℕ) (rng : R) (now : T) :
    Option (ℕ × List (EndpointRuntime T F R) × R) := do
  let (a, rng) := randomRange rng ready.length
  let (b, rng) := randomRange rng (ready.length - 1)
  let b := if a ≤ b then b + 1 else b
  let aIndex ← ready[a]?
  let bIndex ← ready[b]?
  let (aLoad, endpoints) ← loadOf endpoints aIndex now
  let (bLoad, endpoints) ← loadOf endpoints bIndex now
  some (if aLoad ≤ bLoad then aIndex else bIndex, endpoints, rng)

def chooseP2c (endpoints : List (EndpointRuntime T F R)) (rng : R) (now : T) :
    Option (Option ℕ × List (EndpointRuntime T F R) × R) := do
  let endpoints ← endpoints.mapM fun e => e.refresh now
  match readyFrom endpoints with
  | [] => some (none, endpoints, rng)
  | [only] => some (some only, endpoints, rng)
  | ready => do
    let (index, endpoints, rng) ← chooseBetween endpoints ready rng now
    some (some index, endpoints, rng)

/-! ## The event loop -/

namespace Simulation

/-- The condition of the loop. -/
def goesOn (s : Simulation T F R) (stop : T) : Bool :=
  s.nextArrival ≤ stop || s.completions.any fun completion => completion.completionAt ≤ stop

/-- `next_event`; the endpoints are asked for their next dispatch at the cursor. -/
def nextEvent (s : Simulation T F R) : Option (Option T × Simulation T F R) := do
  let nextCompletion := (s.completions.map Completion.completionAt).min?
  let asked ← s.endpoints.mapM fun e => nextDispatchAt e s.cursor
  let nextDispatch := (asked.filterMap Prod.fst).min?
  some (([some s.nextArrival, nextCompletion, nextDispatch].filterMap id).min?, { s with endpoints := asked.map Prod.snd })

/-- The completions and the dispatches of an event. -/
def settle (s : Simulation T F R) (now : T) : Option (Simulation T F R) := do
  let (endpoints, completions) ← completeReady now s.endpoints s.completions
  let (endpoints, completions) ← driveAll endpoints completions now
  some { s with endpoints, completions, cursor := now }

/-- The request of an arrival is accepted by the endpoint that it chose, or backpressured. -/
def offer (s : Simulation T F R) (now : T) : Option (Simulation T F R) := do
  guard (s.offered < u64Max)
  let (choice, endpoints, rng) ← chooseP2c s.endpoints s.rng now
  let s := { s with offered := s.offered + 1, endpoints, rng }
  match choice with
  | none => some { s with backpressured := s.backpressured + 1 }
  | some index => do
    let e ← s.endpoints[index]?
    let (result, controller) := e.controller.reserve now
    match result with
    | .ok reservation => some { s with
        endpoints := s.endpoints.set index { e with controller, pending := e.pending ++ [reservation] }
        accepted := s.accepted + 1 }
    | .error _ => some { s with
        endpoints := s.endpoints.set index { e with controller }
        backpressured := s.backpressured + 1 }

/-- An arrival; `false` is the `break` of the last instant that the clock can represent. -/
def arrive (s : Simulation T F R) (interval now : T) : Option (Bool × Simulation T F R) := do
  let s ← s.offer now
  match checkedAdd s.nextArrival interval with
  | none => some (false, s)
  | some next => some (true, { s with nextArrival := next })

/-- The dispatches that end a pass, and the queue depth. -/
def finish (s : Simulation T F R) (now : T) : Option (Simulation T F R) := do
  let (endpoints, completions) ← driveAll s.endpoints s.completions now
  let queued := (endpoints.map fun e => e.controller.queued).foldl max 0
  some { s with endpoints, completions, maxQueued := max s.maxQueued queued }

/-- The body of the loop, at an event. -/
def handle (s : Simulation T F R) (interval now : T) : Option (Bool × Simulation T F R) := do
  guard (s.cursor ≤ now)
  let s ← s.settle now
  let (more, s) ← if now = s.nextArrival then s.arrive interval now else some (true, s)
  if more then do
    let s ← s.finish now
    some (true, s)
  else
    some (false, s)

/-- One turn of the loop: `false` leaves it. -/
def pass (window : Window T) (s : Simulation T F R) : Option (Bool × Simulation T F R) :=
  if s.goesOn window.stop then do
    let (event, s) ← s.nextEvent
    match event with
    | none => some (false, s)
    | some now => if window.stop < now then some (false, s) else s.handle window.arrivalInterval now
  else
    some (false, s)

end Simulation

/-! ## A simulation -/

/-- One endpoint before the loop. -/
def EndpointRuntime.new (e : SimulatedEndpoint T) (start : T) (seed controllerId : ℕ) :
    Option (EndpointRuntime T F R) := do
  guard (0 < e.workers)
  guard (e.serviceTime ≠ 0)
  let controller ← EndpointController.newWithRng e.config start (seedFromU64 seed) controllerId
  some {
    controller, pending := [], serviceTime := e.serviceTime, availableAt := List.replicate e.workers start
    dispatched := 0, completed := 0 }

/-- `arrival_interval`. -/
def arrivalInterval (offeredRate : F) : Option T := do
  let interval ← tryFromSecsF64 (1.0 / offeredRate)
  some (max interval (Time.fromNanos 1))

/-- `simulate` up to its loop. -/
def prepare (config : SimulationConfig T F) (start : T) (controllerIds : ℕ → ℕ) :
    Option (Window T × Simulation T F R) := do
  guard (F64.isFinite config.offeredRate ∧ 0.0 < config.offeredRate)
  guard (config.endpoints ≠ [])
  let interval ← arrivalInterval config.offeredRate
  let endpoints ← config.endpoints.zipIdx.mapM fun (e, index) =>
    EndpointRuntime.new e start ((config.seed + index) % 2 ^ 64) (controllerIds index)
  some (
    { start, stop := saturatingAdd start config.duration, arrivalInterval := interval },
    { nextArrival := start, offered := 0, accepted := 0, backpressured := 0, maxQueued := 0
      rng := seedFromU64 config.seed, endpoints, completions := [], cursor := start })

def EndpointRuntime.report (e : EndpointRuntime T F R) (stop : T) : Option (EndpointReport T F) := do
  let (snapshot, _) ← e.controller.snapshot stop
  some { dispatched := e.dispatched, completed := e.completed, snapshot }

/-- `simulate` after its loop. -/
def Simulation.report (s : Simulation T F R) (stop : T) : Option (SimulationReport T F) := do
  let endpoints ← s.endpoints.mapM fun e => e.report stop
  some {
    offered := s.offered, accepted := s.accepted, backpressured := s.backpressured
    dispatched := (s.endpoints.map EndpointRuntime.dispatched).sum
    completed := (s.endpoints.map EndpointRuntime.completed).sum
    maxQueued := s.maxQueued, endpoints }

variable (R) in
/-- `simulate`, with fuel for its loop. -/
def simulate (fuel : ℕ) (config : SimulationConfig T F) (start : T) (controllerIds : ℕ → ℕ) :
    Option (Option (SimulationReport T F)) := do
  let (window, s) : Window T × Simulation T F R ← prepare config start controllerIds
  let left : Option (Simulation T F R) ← loop (Simulation.pass window) fuel s
  match left with
  | none => some none
  | some s => do
    let report ← s.report window.stop
    some (some report)

end

end Loadpace.Simulator
