import Loadpace.Gcra

/-!
# Round-trip estimates (`latency.rs`)

`LatencyEstimator` smooths the samples twice and keeps the minimum of a rolling window of eight buckets. An empty
bucket (`f64::INFINITY` in the source) is `none`.
-/

namespace Loadpace

/-- `BASELINE_BUCKETS`. -/
abbrev baselineBucketCount : ℕ := 8

structure LatencyEstimatorConfig (T F : Type) where
  initialRtt : T
  shortAlpha : F
  longAlpha : F
  minRtt : T
  baselineWindow : T

structure LatencyEstimator (T F : Type) where
  config : LatencyEstimatorConfig T F
  short : F
  long : F
  baseline : Option F
  baselineBuckets : Fin baselineBucketCount → Option F
  baselineBucket : Fin baselineBucketCount
  baselineBucketStarted : Option T
  samples : ℕ

section

variable {F : Type} [F64 F]

def ewma (previous sample alpha : F) : F := (1.0 - alpha) * previous + alpha * sample

/-- `f64::min` of two buckets. -/
def minBucket : Option F → Option F → Option F
  | none, b => b
  | a, none => a
  | some a, some b => some (F64.min a b)

end

/-- `elapsed_bucket_count`. -/
def elapsedBucketCount {T : Type} [AddCommMonoid T] [LinearOrder T] [Sub T] [Time T] (elapsed bucketDuration : T) : ℕ :=
  Time.asNanos elapsed / Time.asNanos bucketDuration

namespace LatencyEstimator

variable {T F : Type} [AddCommMonoid T] [LinearOrder T] [Sub T] [Time T] [F64 F] [Secs T F]

/-- `LatencyEstimator::new`; it panics on an invalid configuration. -/
def new (config : LatencyEstimatorConfig T F) : Option (LatencyEstimator T F) := do
  guard (config.minRtt ≠ 0)
  guard (config.minRtt ≤ config.initialRtt)
  guard ((0.0 ≤ config.shortAlpha ∧ config.shortAlpha ≤ 1.0) ∧ 0.0 < config.shortAlpha)
  guard ((0.0 ≤ config.longAlpha ∧ config.longAlpha ≤ 1.0) ∧ 0.0 < config.longAlpha)
  guard (Time.fromNanos baselineBucketCount ≤ config.baselineWindow)
  let initial : F := asSecsF64 config.initialRtt
  some {
    config, short := initial, long := initial, baseline := none, baselineBuckets := fun _ => none, baselineBucket := 0
    baselineBucketStarted := none, samples := 0 }

/-- `advance_baseline_window`: the loop rotates `steps` buckets, emptying each one it enters. -/
def rotate (l : LatencyEstimator T F) : ℕ → LatencyEstimator T F
  | 0 => l
  | steps + 1 =>
    rotate { l with
      baselineBucket := l.baselineBucket + 1
      baselineBuckets := Function.update l.baselineBuckets (l.baselineBucket + 1) none } steps

def advanceBaselineWindow (l : LatencyEstimator T F) (now : T) : LatencyEstimator T F :=
  let bucketDuration := Time.divNat l.config.baselineWindow baselineBucketCount
  match l.baselineBucketStarted with
  | none => { l with baselineBucketStarted := some now }
  | some started =>
    let elapsed := now - started
    let steps := elapsedBucketCount elapsed bucketDuration
    if baselineBucketCount ≤ steps then
      { l with
        baselineBuckets := fun _ => none, baselineBucket := 0, baselineBucketStarted := some now, baseline := none }
    else if 0 < steps then
      { l.rotate steps with
        baselineBucketStarted := some (saturatingAdd started (saturatingMul bucketDuration steps)) }
    else l

def observeAt (l : LatencyEstimator T F) (sample now : T) : LatencyEstimator T F :=
  let value : F := asSecsF64 (max sample l.config.minRtt)
  let l := { l with short := ewma l.short value l.config.shortAlpha, long := ewma l.long value l.config.longAlpha }
  let l := l.advanceBaselineWindow now
  let buckets : Fin baselineBucketCount → Option F :=
    Function.update l.baselineBuckets l.baselineBucket (minBucket (l.baselineBuckets l.baselineBucket) (some value))
  let baseline := (List.ofFn buckets).foldl minBucket none
  { l with
    baselineBuckets := buckets
    baseline := baseline.map (fun b => F64.max b (asSecsF64 l.config.minRtt))
    samples := l.samples + 1 }

def expectedRtt (l : LatencyEstimator T F) : T :=
  durationFromSecsSaturating (F64.max l.long (asSecsF64 l.config.minRtt))

def shortRtt (l : LatencyEstimator T F) : T := durationFromSecsSaturating l.short

def longRtt (l : LatencyEstimator T F) : T := durationFromSecsSaturating l.long

def baselineRtt (l : LatencyEstimator T F) : T :=
  durationFromSecsSaturating (F64.max (l.baseline.getD (asSecsF64 l.config.initialRtt)) (asSecsF64 l.config.minRtt))

/-- The buckets aside, the estimators are the same. -/
structure SameAverages (l l' : LatencyEstimator T F) : Prop where
  config : l'.config = l.config
  short : l'.short = l.short
  long : l'.long = l.long
  samples : l'.samples = l.samples

omit [AddCommMonoid T] [LinearOrder T] [Sub T] [Time T] [F64 F] [Secs T F] in
theorem rotate_averages (l : LatencyEstimator T F) (n : ℕ) : l.SameAverages (l.rotate n) := by
  induction n generalizing l with
  | zero => exact ⟨rfl, rfl, rfl, rfl⟩
  | succ n ih =>
    obtain ⟨hconfig, hshort, hlong, hsamples⟩ := ih { l with
      baselineBucket := l.baselineBucket + 1
      baselineBuckets := Function.update l.baselineBuckets (l.baselineBucket + 1) none }
    exact ⟨hconfig, hshort, hlong, hsamples⟩

omit [F64 F] [Secs T F] in
theorem advance_averages (l : LatencyEstimator T F) (now : T) : l.SameAverages (l.advanceBaselineWindow now) := by
  unfold advanceBaselineWindow
  dsimp only
  split
  · exact ⟨rfl, rfl, rfl, rfl⟩
  · split
    · exact ⟨rfl, rfl, rfl, rfl⟩
    · split
      · obtain ⟨hconfig, hshort, hlong, hsamples⟩ := l.rotate_averages _
        exact ⟨hconfig, hshort, hlong, hsamples⟩
      · exact ⟨rfl, rfl, rfl, rfl⟩

/-- What a sample does to the averages. -/
theorem observeAt_averages (l : LatencyEstimator T F) (sample now : T) :
    (l.observeAt sample now).config = l.config ∧ (l.observeAt sample now).samples = l.samples + 1 ∧
      (l.observeAt sample now).long = ewma l.long (asSecsF64 (max sample l.config.minRtt)) l.config.longAlpha := by
  unfold observeAt
  dsimp only
  obtain ⟨hconfig, -, hlong, hsamples⟩ := advance_averages (F := F) { l with
    short := ewma l.short (asSecsF64 (max sample l.config.minRtt)) l.config.shortAlpha
    long := ewma l.long (asSecsF64 (max sample l.config.minRtt)) l.config.longAlpha } now
  exact ⟨hconfig, congrArg (· + 1) hsamples, hlong⟩

theorem observeAt_short (l : LatencyEstimator T F) (sample now : T) :
    (l.observeAt sample now).short = ewma l.short (asSecsF64 (max sample l.config.minRtt)) l.config.shortAlpha := by
  unfold observeAt
  dsimp only
  exact (advance_averages (F := F) { l with
    short := ewma l.short (asSecsF64 (max sample l.config.minRtt)) l.config.shortAlpha
    long := ewma l.long (asSecsF64 (max sample l.config.minRtt)) l.config.longAlpha } now).short

end LatencyEstimator

end Loadpace
