import Loadpace.Lib.Run
import Loadpace.Lib.Window
import Loadpace.Machine
import Mathlib.Algebra.Group.Action.Defs

/-!
# The rolling minimum round-trip time

The eight buckets of the estimator are a ring of stretches of one eighth of the window each, rounded down. A sample moves the
ring on by the stretches that have passed, keeping their phase, or empties it and begins a new phase when eight or more have
(`advance_tracks`). So the baseline is the least sample of the window, up to one stretch (`baseline_is_rolling_minimum`).
-/

namespace Loadpace

open Systems

/-- A sample, and the instant it is observed at. -/
structure Observation (T : Type) where
  sample : T
  instant : T
  deriving DecidableEq, Repr

namespace LatencyEstimator

section

variable {T F : Type} [AddCommMonoid T] [LinearOrder T] [Sub T] [Time T] [F64 F] [Secs T F]

/-- One sample, at an instant that the clock has not passed. -/
def Observes : LatencyEstimator T F × T → Observation T → LatencyEstimator T F × T → Prop :=
  timedStep (fun o => some o.instant) fun l o l' => l' = l.observeAt o.sample o.instant

/-- The length of a bucket. -/
def bucketDuration (l : LatencyEstimator T F) : T := Time.divNat l.config.baselineWindow baselineBucketCount

/-- The buckets to move on by at `now`. -/
def steps (l : LatencyEstimator T F) (started now : T) : ℕ := elapsedBucketCount (now - started) l.bucketDuration

/-- At `now` the bucket advance saturates nowhere, and it does not divide by zero. -/
structure Unsaturated (l : LatencyEstimator T F) (now : T) : Prop where
  divisor : 0 < Time.asNanos l.bucketDuration
  elapsed : ∀ started ∈ l.baselineBucketStarted, started ≤ now
  product : ∀ started ∈ l.baselineBucketStarted, l.steps started now < baselineBucketCount →
    l.steps started now • l.bucketDuration ≤ durationMax
  sum : ∀ started ∈ l.baselineBucketStarted, l.steps started now < baselineBucketCount →
    (checkedAdd started (l.steps started now • l.bucketDuration)).isSome

/-- The buckets as a ring. -/
def ring (l : LatencyEstimator T F) : Window.Ring 7 F where
  buckets := l.baselineBuckets
  current := l.baselineBucket

omit [AddCommMonoid T] [LinearOrder T] [Sub T] [Time T] [F64 F] [Secs T F] in
theorem ring_rotate (l : LatencyEstimator T F) (k : ℕ) : (l.rotate k).ring = l.ring.turns k := by
  induction k generalizing l with
  | zero => rfl
  | succ k ih => exact ih _

end

/-! ## The bucket advance -/

section

variable {F : Type} [LinearOrder F] [Secs ℕ F] {config : LatencyEstimatorConfig ℕ F}
variable {l l' l₀ : LatencyEstimator ℕ F} {o : Observation ℕ} {tr : List (Observation ℕ)} {start clock now : ℕ}

/-- What a sample counts as. -/
def clamped (config : LatencyEstimatorConfig ℕ F) (o : Observation ℕ) : F := asSecsF64 (max o.sample config.minRtt)

/-- The samples of a history, as they count. -/
def seen (config : LatencyEstimatorConfig ℕ F) (tr : List (Observation ℕ)) : List (ℕ × F) :=
  tr.map fun o => (o.instant, clamped config o)

/-- The buckets hold what the window keeps of the history. -/
structure Windowed (config : LatencyEstimatorConfig ℕ F) (tr : List (Observation ℕ)) (l : LatencyEstimator ℕ F)
    (clock : ℕ) : Prop where
  kept : l.config = config
  fresh : l.baselineBucketStarted = none → tr = [] ∧ l.ring = Window.Ring.empty
  tracks : ∀ started, l.baselineBucketStarted = some started →
    Window.Tracks l.bucketDuration started clock (seen config tr) l.ring

omit [LinearOrder F] [Secs ℕ F] in
theorem steps_eq (l : LatencyEstimator ℕ F) (started now : ℕ) :
    l.steps started now = (now - started) / l.bucketDuration := rfl

omit [LinearOrder F] [Secs ℕ F] in
/-- The steps are the whole buckets that have passed. -/
theorem steps_bounds {started : ℕ} (hpos : 0 < l.bucketDuration) (hle : started ≤ now) :
    started + l.steps started now • l.bucketDuration ≤ now ∧
      now < started + l.steps started now • l.bucketDuration + l.bucketDuration := by
  have hdiv : l.steps started now * l.bucketDuration ≤ now - started := Nat.div_mul_le_self _ _
  have hmod : now - started < (l.steps started now + 1) * l.bucketDuration := by
    rw [steps_eq]
    exact (Nat.div_lt_iff_lt_mul hpos).mp (Nat.lt_succ_self _)
  rw [smul_eq_mul]
  rw [Nat.succ_mul] at hmod
  omega

theorem unsaturated (hw : Windowed config tr l clock) (hpos : 0 < l.bucketDuration) (hle : clock ≤ now)
    (hclock : (checkedAdd 0 now).isSome) : l.Unsaturated now := by
  have hend : now ≤ 9223372036854775808 * 1000000000 - 1 - 0 := (checkedAdd_isSome_iff rfl).mp hclock
  have hstart : ∀ started ∈ l.baselineBucketStarted, started ≤ now := fun started hs =>
    (hw.tracks started hs).started_le.trans hle
  refine ⟨hpos, hstart, fun started hs _ => ?_, fun started hs _ => ?_⟩
  · obtain ⟨hlo, -⟩ := steps_bounds hpos (hstart started hs)
    show l.steps started now • l.bucketDuration ≤ 18446744073709551615999999999
    omega
  · obtain ⟨hlo, -⟩ := steps_bounds hpos (hstart started hs)
    refine (checkedAdd_isSome_iff (m := 9223372036854775808 * 1000000000 - 1 - started) rfl).mpr ?_
    omega

/-- **The bucket advance** keeps the window, at the instant it is called at. -/
theorem advance_tracks (hw : Windowed config tr l clock) (hpos : 0 < l.bucketDuration) (hle : clock ≤ now)
    (hu : l.Unsaturated now) : ∃ started, (l.advanceBaselineWindow now).baselineBucketStarted = some started ∧
      Window.Tracks l.bucketDuration started now (seen config tr) (l.advanceBaselineWindow now).ring := by
  cases hs : l.baselineBucketStarted with
  | none =>
    obtain ⟨rfl, hempty⟩ := hw.fresh hs
    have heq : l.advanceBaselineWindow now = { l with baselineBucketStarted := some now } := by
      unfold advanceBaselineWindow
      rw [hs]
    rw [heq]
    refine ⟨now, rfl, ?_⟩
    show Window.Tracks l.bucketDuration now now [] l.ring
    rw [hempty]
    exact Window.Tracks.first hpos now
  | some started =>
    have htracks := hw.tracks started hs
    obtain ⟨hlo, hhi⟩ := steps_bounds (l := l) hpos (hu.elapsed started hs)
    rcases Nat.lt_or_ge (l.steps started now) baselineBucketCount with hfew | hmany
    · -- the phase of the buckets is kept
      have hmul : saturatingMul l.bucketDuration (l.steps started now) = l.steps started now • l.bucketDuration :=
        min_eq_left (hu.product started hs hfew)
      have hadd : saturatingAdd started (l.steps started now • l.bucketDuration) =
          started + l.steps started now • l.bucketDuration := saturatingAdd_exact (hu.sum started hs hfew)
      have hturned := htracks.turns hle (Nat.lt_succ_iff.mp hfew) hlo hhi
      rcases Nat.eq_zero_or_pos (l.steps started now) with hzero | hsome
      · have heq : l.advanceBaselineWindow now = l := by
          unfold advanceBaselineWindow
          rw [hs]
          show (if 8 ≤ l.steps started now then _ else if 0 < l.steps started now then _ else l) = l
          rw [if_neg (not_le.mpr hfew), if_neg (Nat.not_lt.mpr hzero.le)]
        rw [hzero, zero_nsmul, add_zero] at hturned
        rw [heq]
        exact ⟨started, hs, hturned⟩
      · have heq : l.advanceBaselineWindow now = { l.rotate (l.steps started now) with
            baselineBucketStarted := some (started + l.steps started now • l.bucketDuration) } := by
          rw [← hadd, ← hmul]
          unfold advanceBaselineWindow
          rw [hs]
          show (if 8 ≤ l.steps started now then _ else if 0 < l.steps started now then _ else l) = _
          rw [if_neg (not_le.mpr hfew), if_pos hsome]
          rfl
        rw [heq]
        refine ⟨_, rfl, ?_⟩
        show Window.Tracks l.bucketDuration _ now (seen config tr) (l.rotate (l.steps started now)).ring
        rw [ring_rotate]
        exact hturned
    · -- a whole turn has passed: the buckets begin anew
      have heq : l.advanceBaselineWindow now = { l with
          baselineBuckets := fun _ => none, baselineBucket := 0, baselineBucketStarted := some now, baseline := none } := by
        unfold advanceBaselineWindow
        rw [hs]
        show (if 8 ≤ l.steps started now then _ else if 0 < l.steps started now then _ else l) = _
        rw [if_pos hmany]
      rw [heq]
      refine ⟨now, rfl, htracks.restart hle ?_⟩
      have hturn : 8 • l.bucketDuration ≤ l.steps started now • l.bucketDuration := by
        rw [smul_eq_mul, smul_eq_mul]
        exact Nat.mul_le_mul_right _ hmany
      show started + 8 • l.bucketDuration ≤ now
      omega

end

/-! ## The baseline -/

section

variable {F : Type} [Field F] [LinearOrder F] [Powers F]

theorem minBucket_mem {a b : Option F} {m : F} (h : minBucket a b = some m) : a = some m ∨ b = some m := by
  cases a with
  | none => exact Or.inr h
  | some x =>
    cases b with
    | none => exact Or.inl h
    | some y =>
      have hmin : min x y = m := Option.some.inj h
      rcases min_choice x y with hx | hy
      · exact Or.inl (congrArg some (hx.symm.trans hmin))
      · exact Or.inr (congrArg some (hy.symm.trans hmin))

theorem minBucket_le {a b : Option F} {v : F} (h : a = some v ∨ b = some v) : ∃ m, minBucket a b = some m ∧ m ≤ v := by
  cases a with
  | none =>
    rcases h with h | h
    · cases h
    · exact ⟨v, h, le_rfl⟩
  | some x =>
    cases b with
    | none =>
      rcases h with h | h
      · exact ⟨v, h, le_rfl⟩
      · cases h
    | some y =>
      refine ⟨min x y, rfl, ?_⟩
      rcases h with h | h
      · exact Option.some.inj h ▸ min_le_left x y
      · exact Option.some.inj h ▸ min_le_right x y

theorem foldl_minBucket_mem {xs : List (Option F)} {a : Option F} {m : F} (h : xs.foldl minBucket a = some m) :
    a = some m ∨ some m ∈ xs := by
  induction xs generalizing a with
  | nil => exact Or.inl h
  | cons b xs ih =>
    rcases ih h with hab | hmem
    · rcases minBucket_mem hab with ha | hb
      · exact Or.inl ha
      · exact Or.inr (hb ▸ List.mem_cons_self)
    · exact Or.inr (List.mem_cons_of_mem _ hmem)

theorem foldl_minBucket_le {xs : List (Option F)} {a : Option F} {v : F} (h : a = some v ∨ some v ∈ xs) :
    ∃ m, xs.foldl minBucket a = some m ∧ m ≤ v := by
  induction xs generalizing a v with
  | nil =>
    rcases h with ha | hmem
    · exact ⟨v, ha, le_rfl⟩
    · cases hmem
  | cons b xs ih =>
    have hfirst (hab : a = some v ∨ b = some v) : ∃ m, (b :: xs).foldl minBucket a = some m ∧ m ≤ v := by
      obtain ⟨w, hw, hle⟩ := minBucket_le hab
      obtain ⟨m, hm, hmw⟩ := ih (Or.inl hw)
      exact ⟨m, hm, hmw.trans hle⟩
    rcases h with ha | hmem
    · exact hfirst (Or.inl ha)
    · rcases List.mem_cons.mp hmem with hb | hmem
      · exact hfirst (Or.inr hb.symm)
      · exact ih (Or.inr hmem)

/-- **The fold over the buckets** is the least value in them. -/
theorem foldl_minBucket_least {buckets : Fin baselineBucketCount → Option F} {i : Fin baselineBucketCount} {v : F}
    (h : buckets i = some v) : ∃ m, (List.ofFn buckets).foldl minBucket none = some m ∧ (∃ i, buckets i = some m) ∧
      ∀ i v, buckets i = some v → m ≤ v := by
  obtain ⟨m, hm, -⟩ := foldl_minBucket_le (a := none) (Or.inr (List.mem_ofFn.mpr ⟨i, h⟩))
  refine ⟨m, hm, ?_, fun i v hv => ?_⟩
  · rcases foldl_minBucket_mem hm with hnone | hmem
    · cases hnone
    · exact List.mem_ofFn.mp hmem
  · obtain ⟨w, hw, hle⟩ := foldl_minBucket_le (a := none) (Or.inr (List.mem_ofFn.mpr ⟨i, hv⟩))
    rw [hm] at hw
    exact Option.some.inj hw ▸ hle

variable [Secs ℕ F] {config : LatencyEstimatorConfig ℕ F} {l l' l₀ : LatencyEstimator ℕ F} {o : Observation ℕ}
variable {tr : List (Observation ℕ)} {start clock now : ℕ}

/-- The estimator with its averages moved by a sample. -/
def smoothed (l : LatencyEstimator ℕ F) (value : F) : LatencyEstimator ℕ F :=
  { l with short := ewma l.short value l.config.shortAlpha, long := ewma l.long value l.config.longAlpha }

/-- What a sample does: it goes into the bucket that is current after the advance, and the baseline is read off the ring. -/
theorem observeAt_ring (l : LatencyEstimator ℕ F) (sample now : ℕ) (value : F)
    (hvalue : asSecsF64 (max sample l.config.minRtt) = value) :
    (l.observeAt sample now).ring = ((l.smoothed value).advanceBaselineWindow now).ring.lower value ∧
      (l.observeAt sample now).config = ((l.smoothed value).advanceBaselineWindow now).config ∧
      (l.observeAt sample now).baselineBucketStarted =
        ((l.smoothed value).advanceBaselineWindow now).baselineBucketStarted ∧
      (l.observeAt sample now).baseline = ((List.ofFn (l.observeAt sample now).ring.buckets).foldl minBucket none).map
        (fun b => max b (asSecsF64 ((l.smoothed value).advanceBaselineWindow now).config.minRtt)) := by
  subst hvalue
  refine ⟨?_, rfl, rfl, rfl⟩
  have hput (b : Option F) (v : F) : minBucket b (some v) = some (b.elim v (min · v)) := by
    cases b with
    | none => rfl
    | some _ => rfl
  unfold observeAt Window.Ring.lower ring
  dsimp only
  rw [hput]
  rfl

/-- **One sample keeps the window.** -/
theorem Windowed.observe (hw : Windowed config tr l clock) (hpos : 0 < l.bucketDuration)
    (h : Observes (l, clock) o (l', now)) (hclock : (checkedAdd 0 now).isSome) : l.Unsaturated now ∧
      Windowed config (tr ++ [o]) l' now ∧ l'.baselineBucketStarted.isSome := by
  obtain ⟨hobs, hle, hnow⟩ := h
  have hobs : l' = l.observeAt o.sample o.instant := hobs
  have hle : clock ≤ o.instant := hle
  have hnow : now = o.instant := hnow
  subst hnow
  have hu := unsaturated hw hpos hle hclock
  generalize hvalue : (asSecsF64 (max o.sample l.config.minRtt) : F) = value
  -- the averages play no part in the advance
  have hws : Windowed config tr (l.smoothed value) clock := ⟨hw.kept, hw.fresh, hw.tracks⟩
  have hus : (l.smoothed value).Unsaturated o.instant := ⟨hu.divisor, hu.elapsed, hu.product, hu.sum⟩
  obtain ⟨started, hstarted, htracks⟩ := advance_tracks hws hpos hle hus
  have hkept := ((l.smoothed value).advance_averages o.instant).config.trans hw.kept
  obtain ⟨hring, hconfig, hsame, -⟩ := observeAt_ring l o.sample o.instant value hvalue
  rw [← hobs] at hring hconfig hsame
  have hconfig := hconfig.trans hkept
  have hwidth : l'.bucketDuration = (l.smoothed value).bucketDuration := by
    unfold bucketDuration
    rw [hconfig, hws.kept]
  rw [hstarted] at hsame
  refine ⟨hu, ⟨hconfig, fun hnone => ?_, fun s hs => ?_⟩, by rw [hsame]; rfl⟩
  · rw [hsame] at hnone
    cases hnone
  · obtain rfl := Option.some.inj (hsame.symm.trans hs)
    have hseen : seen config (tr ++ [o]) = seen config tr ++ [(o.instant, value)] := by
      unfold seen clamped
      rw [List.map_append, ← hvalue, hw.kept]
      rfl
    rw [hring, hwidth, hseen]
    exact htracks.lower value

/-- An accepted window has buckets of at least one nanosecond. -/
theorem new_windowed (hnew : LatencyEstimator.new config = some l₀) (clock : ℕ) :
    Windowed config [] l₀ clock ∧ 0 < config.baselineWindow / baselineBucketCount := by
  unfold LatencyEstimator.new at hnew
  simp only [Option.bind_eq_bind, Option.bind_eq_some_iff, Option.guard_eq_some'] at hnew
  obtain ⟨_, -, _, -, _, -, _, -, _, hwindow, h⟩ := hnew
  cases h
  have hwindow : baselineBucketCount ≤ config.baselineWindow := hwindow
  refine ⟨⟨rfl, fun _ => ⟨rfl, rfl⟩, fun started hs => ?_⟩, Nat.div_pos hwindow (by decide)⟩
  cases hs

theorem run_windowed (hnew : LatencyEstimator.new config = some l₀) (h : Run Observes (l₀, start) tr (l, clock))
    (hclock : (checkedAdd 0 clock).isSome) : Windowed config tr l clock := by
  obtain ⟨hfresh, hpos⟩ := new_windowed hnew start
  generalize hx : (l, clock) = x at h
  induction h generalizing l clock with
  | nil =>
    obtain ⟨rfl, rfl⟩ := Prod.mk.inj hx
    exact hfresh
  | @snoc tr m o x hr he ih =>
    subst hx
    obtain ⟨m, t⟩ := m
    have hle : t ≤ clock := by
      obtain ⟨-, hle, hnow⟩ := he
      exact hle.trans_eq hnow.symm
    have hearlier : (checkedAdd 0 t).isSome := checkedAdd_mono hle hclock
    have hw := ih hearlier rfl
    have hwidth : 0 < m.bucketDuration := by
      unfold bucketDuration
      rw [hw.kept]
      exact hpos
    exact (hw.observe hwidth he hclock).2.1

/-- **The baseline is a rolling minimum.** Right after a sample at `now`, it is at most every sample up to seven buckets old,
and is itself a sample less than eight buckets old; and the advance to `now` saturates nowhere. -/
theorem baseline_is_rolling_minimum (hsecs : Monotone (asSecsF64 : ℕ → F)) (hnew : LatencyEstimator.new config = some l₀)
    (h : Run Observes (l₀, start) tr (l, clock)) (ho : Observes (l, clock) o (l', now))
    (hclock : (checkedAdd 0 now).isSome) :
    l.Unsaturated now ∧ (l'.baselineBucket : ℕ) < baselineBucketCount ∧
      ∃ baseline, l'.baseline = some baseline ∧ l'.baselineRtt = durationFromSecsSaturating baseline ∧
        (∀ x ∈ tr ++ [o], now - x.instant ≤ 7 * (config.baselineWindow / 8) →
          baseline ≤ asSecsF64 (max x.sample config.minRtt)) ∧
        ∃ x ∈ tr ++ [o], now - x.instant < 8 * (config.baselineWindow / 8) ∧ now - x.instant ≤ config.baselineWindow ∧
          baseline = asSecsF64 (max x.sample config.minRtt) := by
  have hle : clock ≤ now := by
    obtain ⟨-, hle, hnow⟩ := ho
    exact hle.trans_eq hnow.symm
  have hw := run_windowed hnew h (checkedAdd_mono hle hclock)
  obtain ⟨-, hpos⟩ := new_windowed hnew start
  have hwidth : 0 < l.bucketDuration := by
    unfold bucketDuration
    rw [hw.kept]
    exact hpos
  obtain ⟨hu, hw', hstarted⟩ := hw.observe hwidth ho hclock
  refine ⟨hu, l'.baselineBucket.isLt, ?_⟩
  obtain ⟨started, hs⟩ := Option.isSome_iff_exists.mp hstarted
  have htracks := hw'.tracks started hs
  have hbucket : l'.bucketDuration = config.baselineWindow / 8 := by
    unfold bucketDuration
    rw [hw'.kept]
    rfl
  rw [hbucket] at htracks
  obtain ⟨hobs, -, hnow⟩ := ho
  have hobs : l' = l.observeAt o.sample o.instant := hobs
  have hnow : now = o.instant := hnow
  subst hnow
  obtain ⟨hring, hconfig, -, hbaseline⟩ := observeAt_ring l o.sample o.instant _ rfl
  rw [← hobs] at hring hconfig hbaseline
  rw [← hconfig, hw'.kept] at hbaseline
  -- the current bucket holds the last sample, or a lower one
  have hcurrent := Window.Ring.lower_current
    ((l.smoothed (asSecsF64 (max o.sample l.config.minRtt))).advanceBaselineWindow o.instant).ring
    (asSecsF64 (max o.sample l.config.minRtt))
  rw [← hring] at hcurrent
  obtain ⟨m, hm, hmem, hleast⟩ := foldl_minBucket_least hcurrent
  obtain ⟨hall, x, hx, hval, hage⟩ := htracks.least hmem hleast
  obtain ⟨y, hy, rfl⟩ := List.mem_map.mp hx
  have hval : asSecsF64 (max y.sample config.minRtt) = m := hval
  have hage : o.instant < y.instant + 8 • (config.baselineWindow / 8) := hage
  rw [smul_eq_mul] at hage
  have hpos : 0 < config.baselineWindow / 8 := hpos
  have hmin : max m (asSecsF64 config.minRtt) = m := max_eq_left (hval ▸ hsecs (le_max_right _ _))
  rw [hm, Option.map_some, hmin] at hbaseline
  refine ⟨m, hbaseline, ?_, fun z hz hrecent => ?_, y, hy, ?_, ?_, hval.symm⟩
  · unfold baselineRtt
    rw [hbaseline, Option.getD_some, hw'.kept]
    exact congrArg durationFromSecsSaturating hmin
  · refine hall (z.instant, clamped config z) (List.mem_map.mpr ⟨z, hz, rfl⟩) ?_
    show o.instant ≤ z.instant + 7 • (config.baselineWindow / 8)
    rw [smul_eq_mul]
    omega
  · omega
  · omega

end

/-- Buckets of two nanoseconds; the window is no multiple of eight. -/
def windowSample : LatencyEstimatorConfig ℕ ℚ where
  initialRtt := 10
  shortAlpha := 1
  longAlpha := 1
  minRtt := 1
  baselineWindow := 20

theorem asSecs_monotone : Monotone (asSecsF64 : ℕ → ℚ) := by
  intro a b hab
  show (a : ℚ) / 1000000000 ≤ b / 1000000000
  exact div_le_div_of_nonneg_right (Nat.cast_le.mpr hab) (by norm_num)

/-- The sample of 4 is seven buckets old, and that of 3 is older. -/
theorem baseline_is_rolling_minimum_sample : ∃ l₀ l l' : LatencyEstimator ℕ ℚ,
    LatencyEstimator.new windowSample = some l₀ ∧ Run Observes (l₀, 0) [⟨3, 0⟩, ⟨4, 3⟩, ⟨7, 12⟩] (l, 12) ∧
      Observes (l, 12) ⟨9, 17⟩ (l', 17) ∧ ∃ baseline, l'.baseline = some baseline ∧ baseline ≤ 4 / 1000000000 := by
  obtain ⟨l₀, hnew⟩ := Option.isSome_iff_exists.mp
    (show (LatencyEstimator.new windowSample : Option (LatencyEstimator ℕ ℚ)).isSome by decide +kernel)
  have h₁ : Observes (l₀, 0) ⟨3, 0⟩ (l₀.observeAt 3 0, 0) := ⟨rfl, le_rfl, rfl⟩
  have h₂ : Observes (l₀.observeAt 3 0, 0) ⟨4, 3⟩ ((l₀.observeAt 3 0).observeAt 4 3, 3) := ⟨rfl, Nat.zero_le _, rfl⟩
  generalize l₀.observeAt 3 0 = l₁ at h₁ h₂
  have h₃ : Observes (l₁.observeAt 4 3, 3) ⟨7, 12⟩ ((l₁.observeAt 4 3).observeAt 7 12, 12) :=
    ⟨rfl, Nat.le_of_ble_eq_true rfl, rfl⟩
  generalize l₁.observeAt 4 3 = l₂ at h₂ h₃
  have hlast : Observes (l₂.observeAt 7 12, 12) ⟨9, 17⟩ ((l₂.observeAt 7 12).observeAt 9 17, 17) :=
    ⟨rfl, Nat.le_of_ble_eq_true rfl, rfl⟩
  have hrun := Run.cons h₁ (Run.cons h₂ (Run.single h₃))
  obtain ⟨-, -, baseline, hbaseline, -, hall, -⟩ :=
    baseline_is_rolling_minimum asSecs_monotone hnew hrun hlast (by decide +kernel)
  have hle := hall ⟨4, 3⟩ (List.mem_append_left _ (List.mem_cons_of_mem _ List.mem_cons_self)) (by decide)
  refine ⟨l₀, _, _, hnew, hrun, hlast, baseline, hbaseline, hle.trans_eq ?_⟩
  show ((max 4 1 : ℕ) : ℚ) / 1000000000 = 4 / 1000000000
  norm_num

end LatencyEstimator

end Loadpace
