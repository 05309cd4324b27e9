import Loadpace.Gcra

/-!
# The operating point (`gradient.rs`)

`Gradient2` keeps a fractional concurrency. A healthy sample moves it by the bounded gradient plus the gain, at most
once per `updateInterval`; a failure multiplies it by `failureFactor`.
-/

namespace Loadpace

structure Gradient2Config (T F : Type) where
  initialConcurrency : F
  minConcurrency : F
  maxConcurrency : F
  queueTolerance : T
  gain : F
  smoothing : F
  updateInterval : T
  failureFactor : F

structure Gradient2 (T F : Type) where
  config : Gradient2Config T F
  concurrency : F
  lastGradient : F
  updates : ℕ
  nextUpdateAt : Option T

namespace Gradient2

variable {T F : Type} [AddCommMonoid T] [LinearOrder T] [Sub T] [Time T] [F64 F] [Secs T F]

/-- `Gradient2::new`; it panics on an invalid configuration. -/
def new (config : Gradient2Config T F) : Option (Gradient2 T F) := do
  guard (F64.isFinite config.minConcurrency ∧ 0.0 < config.minConcurrency ∧ F64.isFinite config.maxConcurrency ∧
    config.minConcurrency ≤ config.maxConcurrency)
  guard (config.minConcurrency ≤ config.initialConcurrency ∧ config.initialConcurrency ≤ config.maxConcurrency)
  guard (F64.isFinite config.gain ∧ 0.0 < config.gain)
  guard (F64.isFinite config.smoothing ∧ (0.0 ≤ config.smoothing ∧ config.smoothing ≤ 1.0) ∧ 0.0 < config.smoothing)
  guard (config.updateInterval ≠ 0)
  guard ((0.0 ≤ config.failureFactor ∧ config.failureFactor ≤ 1.0) ∧ 0.0 < config.failureFactor)
  some { config, concurrency := config.initialConcurrency, lastGradient := 1.0, updates := 0, nextUpdateAt := none }

/-- `on_rtt_with_reference_at`; the flag tells whether the operating point was updated. -/
def onRttWithReferenceAt (g : Gradient2 T F) (currentRtt referenceRtt : T) (inflight : ℕ) (wasPaced : Bool) (now : T) :
    Bool × Gradient2 T F :=
  let currentRtt : F := F64.max (asSecsF64 currentRtt) F64.minPositive
  let referenceRtt : F := F64.max (asSecsF64 referenceRtt) F64.minPositive
  if !wasPaced ∨ (inflight : F) < g.concurrency / 2.0 then
    (false, g)
  else
    let toleratedRtt := referenceRtt + asSecsF64 g.config.queueTolerance
    let gradient := clamp (toleratedRtt / currentRtt) 0.5 1.0
    let g := { g with lastGradient := gradient }
    if g.nextUpdateAt.any (fun nextUpdateAt => now < nextUpdateAt) then
      (false, g)
    else
      let estimate := g.concurrency * gradient + g.config.gain
      (true, { g with
        concurrency := clamp (g.concurrency * (1.0 - g.config.smoothing) + estimate * g.config.smoothing)
          g.config.minConcurrency g.config.maxConcurrency
        updates := g.updates + 1
        nextUpdateAt := some (saturatingAdd now g.config.updateInterval) })

def onRttWithPacingAt (g : Gradient2 T F) (currentRtt longRtt : T) (inflight : ℕ) (wasPaced : Bool) (now : T) :
    Bool × Gradient2 T F :=
  g.onRttWithReferenceAt currentRtt longRtt inflight wasPaced now

def onRttWithBaselineAt (g : Gradient2 T F) (currentRtt baselineRtt : T) (inflight : ℕ) (wasPaced : Bool) (now : T) :
    Bool × Gradient2 T F :=
  g.onRttWithReferenceAt currentRtt baselineRtt inflight wasPaced now

def onFailureAt (g : Gradient2 T F) (now : T) : Gradient2 T F :=
  { g with
    concurrency := clamp (g.concurrency * g.config.failureFactor) g.config.minConcurrency g.config.maxConcurrency
    lastGradient := 0.0
    updates := g.updates + 1
    nextUpdateAt := some (saturatingAdd now g.config.updateInterval) }

end Gradient2

end Loadpace
