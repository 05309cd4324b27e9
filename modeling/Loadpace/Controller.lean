import Loadpace.Gradient
import Loadpace.Latency
import Loadpace.Probe
import Mathlib.Data.List.Basic

/-!
# The endpoint controller (`controller.rs`)

`EndpointController` joins the estimator, the operating point, the pacer and the probes of one endpoint with a virtual
queue of reservations. `reserve` appends to the queue, `cancel` removes, and `onDispatched` pops its head when the
head's slot is due and the inflight cap has room. Every time-driven decision goes through `refresh` and `updateRate`.
-/

namespace Loadpace

/-- `usize::MAX` and `u64::MAX`. -/
def u64Max : ℕ := 2 ^ 64 - 1

structure EndpointConfig (T : Type) where
  expectedRtt : T
  initialConcurrency : ℕ
  queueTolerance : T
  queueCapacity : ℕ
  maxInflight : ℕ

namespace EndpointConfig

variable {T F : Type} [AddCommMonoid T] [LinearOrder T] [Sub T] [Time T] [F64 F]

/-- `EndpointConfig::new`; it panics on a zero argument. -/
def new (expectedRtt : T) (initialConcurrency : ℕ) : Option (EndpointConfig T) := do
  guard (expectedRtt ≠ 0)
  guard (0 < initialConcurrency)
  some {
    expectedRtt, initialConcurrency, queueTolerance := Time.divNat expectedRtt 2, queueCapacity := 4
    maxInflight := max (min (initialConcurrency * 4) u64Max) 1024 }

def withQueueTolerance (c : EndpointConfig T) (tolerance : T) : EndpointConfig T := { c with queueTolerance := tolerance }

def withQueueCapacity (c : EndpointConfig T) (capacity : ℕ) : EndpointConfig T := { c with queueCapacity := capacity }

def withMaxInflight (c : EndpointConfig T) (maxInflight : ℕ) : EndpointConfig T := { c with maxInflight }

def shortRttHalfLives : F := 2.0

def longRttHalfLives : F := 20.0

def baselineRttWindows : ℕ := 1200

def ewmaAlpha (samplesPerHalfLife : F) : F := 1.0 - F64.powf 0.5 (recip samplesPerHalfLife)

def latencyConfig (c : EndpointConfig T) : LatencyEstimatorConfig T F :=
  let expectedSamplesPerRtt : F := (c.initialConcurrency : F)
  { initialRtt := c.expectedRtt
    shortAlpha := ewmaAlpha (expectedSamplesPerRtt * shortRttHalfLives)
    longAlpha := ewmaAlpha (expectedSamplesPerRtt * longRttHalfLives)
    minRtt := min (fromMicros 1) c.expectedRtt
    baselineWindow := max (saturatingMul c.expectedRtt baselineRttWindows) (fromSecs 60) }

def gradientConfig (c : EndpointConfig T) : Gradient2Config T F where
  initialConcurrency := (c.initialConcurrency : F)
  minConcurrency := 0.25
  maxConcurrency := (c.maxInflight : F)
  queueTolerance := c.queueTolerance
  gain := 0.1
  smoothing := 0.2
  updateInterval := saturatingMul c.expectedRtt 2
  failureFactor := 0.7

def probeSchedule (_ : EndpointConfig T) : ProbeSchedule T F := ProbeSchedule.default

end EndpointConfig

inductive Outcome
  | success
  | failure
  deriving DecidableEq, Repr

inductive Completion
  | success
  | failure
  | abandoned
  deriving DecidableEq, Repr

/-- The wakeup flags. -/
structure ControllerChanges where
  admission : Bool
  dispatch : Bool
  deriving DecidableEq, Repr

/-- `ControllerChanges::default`. -/
def ControllerChanges.none : ControllerChanges := { admission := false, dispatch := false }

structure DispatchReservation where
  controllerId : ℕ
  id : ℕ
  deriving DecidableEq, Repr

structure InFlightRequest (T : Type) where
  controllerId : ℕ
  dispatchedAt : T
  wasPaced : Bool
  deriving DecidableEq, Repr

inductive DispatchState (T : Type)
  | ready
  | waitUntil (deadline : T)
  | waitForPrevious
  | inflightLimit
  | cancelled
  deriving DecidableEq, Repr

/-- The errors of `reserve`. -/
inductive ScheduleError
  | queueFull
  | idExhausted
  deriving DecidableEq, Repr

structure PendingReservation (T : Type) where
  id : ℕ
  scheduledAt : T
  wasPaced : Bool
  deriving DecidableEq, Repr

structure FeedbackEpoch (T : Type) where
  lastFeedbackAt : T
  expectedRtt : T
  deriving DecidableEq, Repr

structure ControllerSnapshot (T F : Type) where
  expectedRtt : T
  baselineRtt : T
  shortRtt : T
  longRtt : T
  targetConcurrency : F
  effectiveConcurrency : F
  baseRate : F
  probedRate : F
  feedbackSilence : Option T
  feedbackFactor : F
  effectiveRate : F
  committedTat : T
  virtualTailTat : Option T
  queued : ℕ
  inflight : ℕ
  queueCapacity : ℕ
  maxInflight : ℕ
  completed : ℕ
  failures : ℕ
  latencySamples : ℕ
  activeProbe : Option (Probe T F)

/-- The four rates that `rates_at` returns. -/
structure Rates (F : Type) where
  baseRate : F
  probedRate : F
  feedbackFactor : F
  effectiveRate : F

structure EndpointController (T F R : Type) where
  controllerId : ℕ
  config : EndpointConfig T
  latency : LatencyEstimator T F
  gradient : Gradient2 T F
  pacer : Gcra T
  probe : ProbeState T F
  pending : List (PendingReservation T)
  nextId : ℕ
  inflight : ℕ
  completed : ℕ
  failures : ℕ
  feedbackEpoch : Option (FeedbackEpoch T)
  probeRng : R
  changes : ControllerChanges

namespace EndpointController

variable {T F R : Type} [AddCommMonoid T] [LinearOrder T] [Sub T] [Time T] [F64 F] [Secs T F] [Rng R F]

/-- `new_with_rng`; the identity is the value the global counter gave out. -/
def newWithRng (config : EndpointConfig T) (now : T) (probeRng : R) (controllerId : ℕ) :
    Option (EndpointController T F R) := do
  guard (0 < config.queueCapacity)
  guard (0 < config.maxInflight)
  guard (config.initialConcurrency ≤ config.maxInflight)
  (config.probeSchedule : ProbeSchedule T F).validate
  let latency : LatencyEstimator T F ← LatencyEstimator.new config.latencyConfig
  let gradient : Gradient2 T F ← Gradient2.new config.gradientConfig
  let rate := gradient.concurrency / asSecsF64 latency.expectedRtt
  let pacer ← Gcra.new rate now
  some {
    controllerId, config, latency, gradient, pacer, probe := ProbeState.new, pending := [], nextId := 0, inflight := 0
    completed := 0, failures := 0, feedbackEpoch := none, probeRng, changes := ControllerChanges.none }

/-! ## Private functions -/

def nextVirtualSlot (c : EndpointController T F R) (now : T) : T :=
  max ((c.pending.getLast?.map (fun entry => saturatingAdd entry.scheduledAt c.pacer.interval)).getD
    (c.pacer.nextAt now)) now

def probingHasDemand (c : EndpointController T F R) : Bool :=
  0 < c.latency.samples || (0 < c.inflight && !c.pending.isEmpty)

def nextDispatchRefreshAt (c : EndpointController T F R) : Option T :=
  match c.probe.current with
  | some probe => some probe.expiry
  | none => if c.probingHasDemand then c.probe.nextProbeAt else none

/-- The loop of `rebuild_virtual_queue`. -/
def reschedule (interval : T) : T → List (PendingReservation T) → List (PendingReservation T)
  | _, [] => []
  | next, entry :: rest =>
    { entry with scheduledAt := next } :: reschedule interval (saturatingAdd next interval) rest

def rebuildVirtualQueue (c : EndpointController T F R) (now : T) : EndpointController T F R :=
  { c with pending := reschedule c.pacer.interval (c.pacer.nextAt now) c.pending }

def feedbackFactor (c : EndpointController T F R) (now : T) (rate : F) : F :=
  match c.feedbackEpoch with
  | none => 1.0
  | some epoch =>
    let silence := now - epoch.lastFeedbackAt
    let excess := silence - epoch.expectedRtt
    if excess = 0 then 1.0
    else
      let halfLives : F := asSecsF64 excess / asSecsF64 epoch.expectedRtt
      let factor := F64.exp2 (-halfLives)
      let minimumRate : F := recip (asSecsF64 (durationMax : T)) * 2.0
      F64.max factor (F64.min (minimumRate / rate) 1.0)

def ratesAt (c : EndpointController T F R) (now : T) : Rates F × EndpointController T F R :=
  let baseRate := c.gradient.concurrency / asSecsF64 c.latency.expectedRtt
  let (probedRate, probe) := c.probe.effectiveRate baseRate now
  let c := { c with probe }
  let feedbackFactor := c.feedbackFactor now probedRate
  let effectiveRate := probedRate * feedbackFactor
  ({ baseRate, probedRate, feedbackFactor, effectiveRate }, c)

def updateRate (c : EndpointController T F R) (now : T) : Option (EndpointController T F R) := do
  let (rates, c) := c.ratesAt now
  let previousInterval := c.pacer.interval
  let pacer ← c.pacer.setRate rates.effectiveRate now
  let c := { c with pacer }
  let next := c.pacer.nextAt now
  have virtualHeadExpired : Bool := c.pending.head?.any (fun entry => entry.scheduledAt < next)
  if c.pacer.interval ≠ previousInterval ∨ virtualHeadExpired then
    some ({ c with changes := { c.changes with dispatch := true } }.rebuildVirtualQueue now)
  else
    some c

/-! ## Operations -/

def queued (c : EndpointController T F R) : ℕ := c.pending.length

def takeChanges (c : EndpointController T F R) : ControllerChanges × EndpointController T F R :=
  (c.changes, { c with changes := ControllerChanges.none })

def maySchedule (c : EndpointController T F R) : Bool := c.pending.length < c.config.queueCapacity

def reserve (c : EndpointController T F R) (now : T) :
    Except ScheduleError DispatchReservation × EndpointController T F R :=
  if !c.maySchedule then
    (.error .queueFull, c)
  else
    let scheduledAt := c.nextVirtualSlot now
    let id := c.nextId
    if c.nextId = u64Max then
      (.error .idExhausted, c)
    else
      (.ok { controllerId := c.controllerId, id }, { c with
        nextId := c.nextId + 1
        pending := c.pending ++ [{ id, scheduledAt, wasPaced := false }] })

def cancel (c : EndpointController T F R) (reservation : DispatchReservation) (now : T) :
    Bool × EndpointController T F R :=
  if reservation.controllerId ≠ c.controllerId then
    (false, c)
  else if !c.pending.any (fun entry => entry.id = reservation.id) then
    (false, c)
  else
    let c := { c with
      pending := c.pending.eraseP (fun entry => entry.id = reservation.id)
      changes := { admission := true, dispatch := true } }
    (true, c.rebuildVirtualQueue now)

/-- The probe decision of `refresh`. -/
def probeDecision (c : EndpointController T F R) (now : T) : Option (ProbeState T F × R) :=
  if c.probingHasDemand then (c.config.probeSchedule : ProbeSchedule T F).maybeStart c.probe c.probeRng now
  else some (c.probe, c.probeRng)

def refresh (c : EndpointController T F R) (now : T) : Option (EndpointController T F R) := do
  let previousRefresh := c.nextDispatchRefreshAt
  let (probe, probeRng) ← c.probeDecision now
  let c := { c with probe := probe.active now, probeRng }
  let c ← c.updateRate now
  some { c with changes := { c.changes with
    dispatch := c.changes.dispatch || decide (previousRefresh ≠ c.nextDispatchRefreshAt) } }

def dispatchState (c : EndpointController T F R) (reservation : DispatchReservation) (now : T) :
    Option (DispatchState T × EndpointController T F R) :=
  if reservation.controllerId ≠ c.controllerId then
    some (.cancelled, c)
  else
    match c.pending with
    | [] => some (.cancelled, c)
    | front :: _ =>
      if front.id ≠ reservation.id then
        if c.pending.any (fun entry => entry.id = reservation.id) then some (.waitForPrevious, c)
        else some (.cancelled, c)
      else do
        let c ← c.refresh now
        match c.pending with
        | [] => none
        | front :: rest =>
          if c.config.maxInflight ≤ c.inflight then
            some (.inflightLimit, c)
          else if now < front.scheduledAt then
            let c := { c with pending := { front with wasPaced := true } :: rest }
            let wakeAt := (c.nextDispatchRefreshAt.map (fun refreshAt => min front.scheduledAt refreshAt)).getD
              front.scheduledAt
            some (.waitUntil wakeAt, c)
          else
            some (.ready, c)

def onDispatched (c : EndpointController T F R) (reservation : DispatchReservation) (now : T) :
    Option (Except (DispatchState T) (InFlightRequest T) × EndpointController T F R) := do
  let (state, c) ← c.dispatchState reservation now
  if state ≠ .ready then
    some (.error state, c)
  else
    match c.pending with
    | [] => none
    | pending :: rest =>
      let c := { c with
        pending := rest
        feedbackEpoch :=
          if c.inflight = 0 then some { lastFeedbackAt := now, expectedRtt := c.latency.expectedRtt }
          else c.feedbackEpoch
        inflight := c.inflight + 1
        changes := { admission := true, dispatch := true }
        pacer := c.pacer.commit now }
      some (.ok { controllerId := c.controllerId, dispatchedAt := now, wasPaced := pending.wasPaced },
        c.rebuildVirtualQueue now)

/-- `on_complete`; its `debug_assert!` keeps `inflight -= 1` from underflowing. -/
def onComplete (c : EndpointController T F R) (request : InFlightRequest T) (outcome : Outcome) (latency now : T) :
    Option (Bool × EndpointController T F R) :=
  if request.controllerId ≠ c.controllerId then
    some (false, c)
  else do
    guard (0 < c.inflight)
    let c := { c with completed := c.completed + 1 }
    let c :=
      match outcome with
      | .success =>
        let latency := c.latency.observeAt latency now
        let gradient :=
          (c.gradient.onRttWithBaselineAt latency.shortRtt latency.baselineRtt c.inflight request.wasPaced now).2
        { c with latency, gradient }
      | .failure => { c with failures := c.failures + 1, gradient := c.gradient.onFailureAt now }
    let inflight := c.inflight - 1
    let c := { c with
      inflight
      changes := { c.changes with dispatch := true }
      feedbackEpoch :=
        if 0 < inflight then some { lastFeedbackAt := now, expectedRtt := c.latency.expectedRtt } else none }
    let c ← c.updateRate now
    some (true, c)

def onAbandoned (c : EndpointController T F R) (request : InFlightRequest T) (now : T) :
    Option (Bool × EndpointController T F R) :=
  if request.controllerId ≠ c.controllerId then
    some (false, c)
  else do
    guard (0 < c.inflight)
    let inflight := c.inflight - 1
    let c := { c with
      failures := c.failures + 1
      gradient := c.gradient.onFailureAt now
      inflight
      changes := { c.changes with dispatch := true }
      feedbackEpoch := if inflight = 0 then none else c.feedbackEpoch }
    let c ← c.updateRate now
    some (true, c)

def finish (c : EndpointController T F R) (request : InFlightRequest T) (completion : Completion) (now : T) :
    Option (Bool × EndpointController T F R) :=
  let latency := now - request.dispatchedAt
  match completion with
  | .success => c.onComplete request .success latency now
  | .failure => c.onComplete request .failure latency now
  | .abandoned => c.onAbandoned request now

def onAdmissionFailure (c : EndpointController T F R) (now : T) : Option (EndpointController T F R) :=
  { c with failures := c.failures + 1, gradient := c.gradient.onFailureAt now }.updateRate now

def predictedCompletion (c : EndpointController T F R) (now : T) : Option (T × EndpointController T F R) := do
  let c ← c.refresh now
  let dispatch := c.nextVirtualSlot now
  some (saturatingAdd dispatch c.latency.expectedRtt, c)

def load (c : EndpointController T F R) (now : T) : Option (F × EndpointController T F R) := do
  let (completion, c) ← c.predictedCompletion now
  some (asSecsF64 (completion - now), c)

def snapshot (c : EndpointController T F R) (now : T) :
    Option (ControllerSnapshot T F × EndpointController T F R) := do
  let c ← c.refresh now
  let target := c.gradient.concurrency
  let expected : F := asSecsF64 c.latency.expectedRtt
  let (rates, c) := c.ratesAt now
  some ({
    expectedRtt := c.latency.expectedRtt
    baselineRtt := c.latency.baselineRtt
    shortRtt := c.latency.shortRtt
    longRtt := c.latency.longRtt
    targetConcurrency := target
    effectiveConcurrency := rates.effectiveRate * expected
    baseRate := rates.baseRate
    probedRate := rates.probedRate
    feedbackSilence := c.feedbackEpoch.map (fun epoch => now - epoch.lastFeedbackAt)
    feedbackFactor := rates.feedbackFactor
    effectiveRate := rates.effectiveRate
    committedTat := c.pacer.tat
    virtualTailTat := c.pending.getLast?.map (fun entry => saturatingAdd entry.scheduledAt c.pacer.interval)
    queued := c.pending.length
    inflight := c.inflight
    queueCapacity := c.config.queueCapacity
    maxInflight := c.config.maxInflight
    completed := c.completed
    failures := c.failures
    latencySamples := c.latency.samples
    activeProbe := c.probe.current }, c)

end EndpointController

end Loadpace
