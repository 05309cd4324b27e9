import Loadpace.Evidence
import Loadpace.Machine
import Loadpace.Lib.Spacing
import Mathlib.Algebra.BigOperators.Group.List.Basic

/-!
# The growth of an operating point

Over every history of samples and failures (`GradientCall`), in exact arithmetic, the healthy updates of a `Gradient2` are
`updateInterval` apart, from each other and from the failures before them, and each raises the concurrency by `smoothing`
times `gain` at most: growth is limited by time, however many samples arrive (`gradient_growth`).
-/

namespace Loadpace

open Systems Spacing

/-- The feedback of an operating point. -/
inductive GradientCall (T : Type)
  | onRttWithPacingAt (currentRtt longRtt : T) (inflight : ℕ) (wasPaced : Bool) (now : T)
  | onRttWithBaselineAt (currentRtt baselineRtt : T) (inflight : ℕ) (wasPaced : Bool) (now : T)
  | onFailureAt (now : T)

def GradientCall.now {T : Type} : GradientCall T → T
  | .onRttWithPacingAt _ _ _ _ now | .onRttWithBaselineAt _ _ _ _ now | .onFailureAt now => now

/-- The calls that shrink the concurrency. -/
def GradientCall.IsFailure {T : Type} : GradientCall T → Prop
  | .onFailureAt _ => True
  | .onRttWithPacingAt .. | .onRttWithBaselineAt .. => False

/-- One call, its flag (whether it was a healthy update), and the operating point before and after it. -/
structure GradientEntry (T F : Type) where
  call : GradientCall T
  updated : Bool
  before : Gradient2 T F
  after : Gradient2 T F

/-- The calls that put the next update off: failures and updates. -/
def GradientEntry.Arms {T F : Type} (e : GradientEntry T F) : Prop := e.call.IsFailure ∨ e.updated = true

/-- The instants of the healthy updates of a history. -/
def updateTimes {T F : Type} (tr : List (GradientEntry T F)) : List T :=
  (tr.filter GradientEntry.updated).map fun e => e.call.now

/-- The increase of the concurrency that a call brought. -/
def GradientEntry.increase {T F : Type} [Field F] [LinearOrder F] (e : GradientEntry T F) : F :=
  max 0 (e.after.concurrency - e.before.concurrency)

namespace Gradient2

variable {T F : Type} [AddCommMonoid T] [LinearOrder T] [Sub T] [Time T]

section

variable [F64 F] [Secs T F]

def exec (g : Gradient2 T F) : GradientCall T → Bool × Gradient2 T F
  | .onRttWithPacingAt currentRtt longRtt inflight wasPaced now =>
    g.onRttWithPacingAt currentRtt longRtt inflight wasPaced now
  | .onRttWithBaselineAt currentRtt baselineRtt inflight wasPaced now =>
    g.onRttWithBaselineAt currentRtt baselineRtt inflight wasPaced now
  | .onFailureAt now => (false, g.onFailureAt now)

/-- One call, at an instant that the clock has not passed. -/
def Step : Gradient2 T F × T → GradientEntry T F → Gradient2 T F × T → Prop :=
  timedStep (fun e => some e.call.now) fun g e g' => e.before = g ∧ e.after = g' ∧ g.exec e.call = (e.updated, g')

end

variable [Field F] [LinearOrder F] [IsStrictOrderedRing F] [Powers F]


/-- What an accepted configuration promises of the growth. -/
structure Growing (g : Gradient2 T F) : Prop extends g.Valid where
  gain_pos : 0 < g.config.gain
  smoothing_pos : 0 < g.config.smoothing
  smoothing_le : g.config.smoothing ≤ 1

omit [Sub T] [Time T] in
theorem new_growing {config : Gradient2Config T F} {g : Gradient2 T F} (h : new config = some g) :
    g.Growing ∧ g.config = config ∧ g.nextUpdateAt = none := by
  have hvalid := new_valid h
  unfold new at h
  simp only [Option.bind_eq_bind, Option.bind_eq_some_iff, Option.guard_eq_some'] at h
  obtain ⟨_, -, _, -, _, ⟨-, hgain⟩, _, ⟨-, ⟨-, hle⟩, hpos⟩, _, -, _, -, h⟩ := h
  cases h
  have hgain : (0.0 : F) < config.gain := hgain
  have hle : config.smoothing ≤ (1.0 : F) := hle
  have hpos : (0.0 : F) < config.smoothing := hpos
  norm_num at hgain hle hpos
  exact ⟨⟨hvalid, hgain, hpos, hle⟩, rfl, rfl⟩

variable [Secs T F] {config : Gradient2Config T F} {g g' : Gradient2 T F} {e : GradientEntry T F}
variable {tr : List (GradientEntry T F)} {clock clock' start : T}

/-- What a call does, given its flag. -/
inductive Effect (g g' : Gradient2 T F) (call : GradientCall T) : Bool → Prop
  | skipped (hcall : ¬call.IsFailure) (hc : g'.concurrency = g.concurrency) (hnext : g'.nextUpdateAt = g.nextUpdateAt) :
    Effect g g' call false
  | failed (hcall : call.IsFailure) (hc : g'.concurrency ≤ g.concurrency)
    (hnext : g'.nextUpdateAt = some (saturatingAdd call.now g.config.updateInterval)) : Effect g g' call false
  | grown (hdue : ∀ due, g.nextUpdateAt = some due → due ≤ call.now)
    (hc : g'.concurrency ≤ g.concurrency + g.config.smoothing * g.config.gain)
    (hnext : g'.nextUpdateAt = some (saturatingAdd call.now g.config.updateInterval)) : Effect g g' call true

theorem clamp_gradient_le (x : F) : clamp x 0.5 1.0 ≤ 1 := by
  have hle : (0.5 : F) ≤ 1.0 := by norm_num
  exact (exact_clamp_bounds _ _ _ hle).2.trans (by norm_num)

/-- The smoothed estimate is above the concurrency by the smoothed gain at most. -/
theorem estimate_le {concurrency gradient gain smoothing : F} (hc : 0 ≤ concurrency) (hs : 0 < smoothing)
    (hg : gradient ≤ 1) : concurrency * (1.0 - smoothing) + (concurrency * gradient + gain) * smoothing ≤
      concurrency + smoothing * gain := by
  have hone : (1.0 : F) = 1 := by norm_num
  have hle : concurrency * gradient * smoothing ≤ concurrency * smoothing :=
    mul_le_mul_of_nonneg_right (mul_le_of_le_one_right hc hg) hs.le
  rw [hone]
  linarith

omit [AddCommMonoid T] [LinearOrder T] [Sub T] [Time T] [IsStrictOrderedRing F] [Secs T F] in
theorem Growing.congr (h : g.Growing) (hconfig : g'.config = g.config) (hlo : g.config.minConcurrency ≤ g'.concurrency)
    (hhi : g'.concurrency ≤ g.config.maxConcurrency) : g'.Growing := by
  obtain ⟨config, _⟩ := g'
  subst hconfig
  exact ⟨⟨h.min_pos, hlo, hhi, h.factor_le⟩, h.gain_pos, h.smoothing_pos, h.smoothing_le⟩

/-- **One sample** is an update when it is due and counts, and leaves the concurrency otherwise. -/
theorem onRttWithReferenceAt_cases (h : g.Growing) {call : GradientCall T} (hcall : ¬call.IsFailure)
    {currentRtt referenceRtt : T} {inflight : ℕ} {wasPaced updated : Bool}
    (hx : g.onRttWithReferenceAt currentRtt referenceRtt inflight wasPaced call.now = (updated, g')) :
    g'.Growing ∧ g'.config = g.config ∧ Effect g g' call updated := by
  have hmm : g.config.minConcurrency ≤ g.config.maxConcurrency := h.min_le.trans h.le_max
  unfold onRttWithReferenceAt at hx
  dsimp only at hx
  split at hx
  · cases hx
    exact ⟨h, rfl, .skipped hcall rfl rfl⟩
  split at hx
  · cases hx
    exact ⟨h.congr rfl h.min_le h.le_max, rfl, .skipped hcall rfl rfl⟩
  · rename_i hdue
    cases hx
    refine ⟨h.congr rfl ?_ ?_, rfl, .grown (fun due hd => ?_) ?_ rfl⟩
    · exact (exact_clamp_bounds _ _ _ hmm).1
    · exact (exact_clamp_bounds _ _ _ hmm).2
    · rw [hd] at hdue
      simpa using hdue
    · dsimp only
      rw [exact_clamp _ _ _ hmm]
      have hpos : 0 ≤ g.concurrency := h.min_pos.le.trans h.min_le
      refine max_le (h.min_le.trans (le_add_of_nonneg_right (mul_pos h.smoothing_pos h.gain_pos).le)) ?_
      exact (min_le_left _ _).trans (estimate_le hpos h.smoothing_pos (clamp_gradient_le _))

/-- **One call.** -/
theorem exec_cases (h : g.Growing) {call : GradientCall T} {updated : Bool} (hx : g.exec call = (updated, g')) :
    g'.Growing ∧ g'.config = g.config ∧ Effect g g' call updated := by
  cases call with
  | onRttWithPacingAt _ _ _ _ now => exact onRttWithReferenceAt_cases h id hx
  | onRttWithBaselineAt _ _ _ _ now => exact onRttWithReferenceAt_cases h id hx
  | onFailureAt now =>
    obtain ⟨rfl, rfl⟩ := Prod.mk.inj hx
    obtain ⟨hvalid, hle⟩ := onFailureAt_le h.toValid now
    exact ⟨h.congr rfl hvalid.min_le hvalid.le_max, rfl, .failed trivial hle rfl⟩

/-! ## Histories -/

/-- What a history leaves: the updates are apart from what armed the gate before them, and the next one will be. -/
structure Gated (config : Gradient2Config T F) (tr : List (GradientEntry T F)) (g : Gradient2 T F) (clock : T) :
    Prop where
  growing : g.Growing
  config_eq : g.config = config
  past : ∀ d ∈ tr, d.call.now ≤ clock
  due : ∀ d ∈ tr, d.Arms → ∃ due, g.nextUpdateAt = some due ∧ d.call.now + config.updateInterval ≤ due
  apart : tr.Pairwise fun d e => d.Arms → e.updated = true → d.call.now + config.updateInterval ≤ e.call.now
  increase : ∀ e ∈ tr, e.increase ≤ if e.updated then config.smoothing * config.gain else 0

theorem Step.gated (hroom : (checkedAdd e.call.now config.updateInterval).isSome) (hg : Gated config tr g clock)
    (hx : Step (g, clock) e (g', clock')) : Gated config (tr ++ [e]) g' clock' := by
  obtain ⟨⟨rfl, rfl, hx⟩, hle, rfl⟩ := hx
  obtain ⟨hgrowing, hconfig, heffect⟩ := exec_cases hg.growing hx
  have hnext := saturatingAdd_exact hroom
  have hpast : ∀ d ∈ tr ++ [e], d.call.now ≤ e.call.now := fun d hd => by
    rcases List.mem_append.mp hd with hd | hd
    · exact (hg.past d hd).trans hle
    · exact (congrArg (fun d => d.call.now) (List.mem_singleton.mp hd)).le
  -- a call that arms the gate arms it for all that came before
  have hrearmed (hset : e.after.nextUpdateAt = some (saturatingAdd e.call.now e.before.config.updateInterval)) :
      ∀ d ∈ tr ++ [e], d.Arms →
        ∃ due, e.after.nextUpdateAt = some due ∧ d.call.now + config.updateInterval ≤ due := fun d hd _ => by
    refine ⟨_, hset, ?_⟩
    rw [hg.config_eq, hnext]
    exact add_le_add_left (hpast d hd) _
  have happend (hlast : ∀ d ∈ tr, d.Arms → e.updated = true → d.call.now + config.updateInterval ≤ e.call.now) :
      (tr ++ [e]).Pairwise fun d e => d.Arms → e.updated = true → d.call.now + config.updateInterval ≤ e.call.now := by
    refine List.pairwise_append.mpr ⟨hg.apart, List.pairwise_singleton _ _, fun d hd b hb => ?_⟩
    rw [List.mem_singleton.mp hb]
    exact hlast d hd
  have hincrease (hlast : e.increase ≤ if e.updated then config.smoothing * config.gain else 0) :
      ∀ d ∈ tr ++ [e], d.increase ≤ if d.updated then config.smoothing * config.gain else 0 := fun d hd => by
    rcases List.mem_append.mp hd with hd | hd
    · exact hg.increase d hd
    · rw [List.mem_singleton.mp hd]
      exact hlast
  generalize hup : e.updated = updated at heffect
  cases heffect with
  | skipped hcall hc hkept =>
    have hidle : ¬e.Arms := by
      rintro (hfail | htrue)
      · exact hcall hfail
      · rw [hup] at htrue
        cases htrue
    refine ⟨hgrowing, hconfig.trans hg.config_eq, hpast, fun d hd harms => ?_, happend fun d hd _ htrue => ?_,
      hincrease ?_⟩
    · rcases List.mem_append.mp hd with hd | hd
      · rw [hkept]
        exact hg.due d hd harms
      · rw [List.mem_singleton.mp hd] at harms
        exact absurd harms hidle
    · rw [hup] at htrue
      cases htrue
    · rw [hup, GradientEntry.increase, hc, sub_self, max_self]
      rfl
  | failed hcall hc hset =>
    refine ⟨hgrowing, hconfig.trans hg.config_eq, hpast, hrearmed hset, happend fun d hd _ htrue => ?_, hincrease ?_⟩
    · rw [hup] at htrue
      cases htrue
    · rw [hup, GradientEntry.increase, max_eq_left (sub_nonpos.mpr hc)]
      rfl
  | grown hdue hc hset =>
    refine ⟨hgrowing, hconfig.trans hg.config_eq, hpast, hrearmed hset, happend fun d hd harms _ => ?_, hincrease ?_⟩
    · obtain ⟨due, hd', hle'⟩ := hg.due d hd harms
      exact hle'.trans (hdue due hd')
    · have hgain := mul_pos hg.growing.smoothing_pos hg.growing.gain_pos
      rw [hg.config_eq] at hc hgain
      rw [hup, if_pos rfl, GradientEntry.increase]
      exact max_le hgain.le (sub_le_iff_le_add'.mpr hc)

theorem run_gated {g₀ : Gradient2 T F} (hnew : new config = some g₀)
    (hroom : ∀ e ∈ tr, (checkedAdd e.call.now config.updateInterval).isSome)
    (h : Run Step (g₀, start) tr (g, clock)) : Gated config tr g clock := by
  generalize hy : (g, clock) = y at h
  induction h generalizing g clock with
  | nil =>
    cases hy
    obtain ⟨hgrowing, hconfig, -⟩ := new_growing hnew
    exact ⟨hgrowing, hconfig, List.forall_mem_nil _, List.forall_mem_nil _, .nil, List.forall_mem_nil _⟩
  | @snoc tr m e y hr he ih =>
    subst hy
    exact Step.gated (hroom e (List.mem_append_right _ List.mem_cons_self))
      (ih (fun e he => hroom e (List.mem_append_left _ he)) rfl) he

omit [AddCommMonoid T] [Sub T] [Time T] [Secs T F] in
/-- The increases of a window are those of its updates. -/
theorem sum_increases {c : F} {lo hi : T} (h : ∀ e ∈ tr, e.increase ≤ if e.updated then c else 0) :
    ((tr.filter fun e => lo ≤ e.call.now ∧ e.call.now ≤ hi).map GradientEntry.increase).sum ≤
      c * (updateTimes tr).countP (fun t => lo ≤ t ∧ t ≤ hi) := by
  induction tr with
  | nil => simp [updateTimes]
  | cons e tr ih =>
    obtain ⟨he, hrest⟩ := List.forall_mem_cons.mp h
    have ih := ih hrest
    rw [updateTimes, List.filter_cons, List.filter_cons]
    by_cases hin : lo ≤ e.call.now ∧ e.call.now ≤ hi
    · rw [if_pos (decide_eq_true hin), List.map_cons, List.sum_cons]
      cases hup : e.updated with
      | false =>
        rw [hup] at he
        rw [if_neg Bool.false_ne_true]
        exact (add_le_add he ih).trans (zero_add _).le
      | true =>
        rw [hup] at he
        rw [if_pos rfl, List.map_cons, List.countP_cons, if_pos (decide_eq_true hin), Nat.cast_succ, mul_add_one, add_comm]
        exact add_le_add ih he
    · rw [if_neg (by simpa using hin)]
      refine ih.trans (le_of_eq ?_)
      cases hup : e.updated with
      | false => rw [if_neg Bool.false_ne_true, updateTimes]
      | true => rw [if_pos rfl, List.map_cons, List.countP_cons, if_neg (by simpa using hin), Nat.add_zero, updateTimes]

omit [Sub T] [Time T] [IsStrictOrderedRing F] [Secs T F] in
/-- The updates of a history are apart. -/
theorem Gated.updateTimes_apart (h : Gated config tr g clock) :
    (updateTimes tr).Pairwise fun a b => a + config.updateInterval ≤ b := by
  refine List.pairwise_map.mpr ?_
  refine ((h.apart.filter GradientEntry.updated).imp_of_mem fun hd he hle => ?_)
  exact hle (Or.inr (List.mem_filter.mp hd).2) (List.mem_filter.mp he).2

end Gradient2

section

variable {T F : Type} [AddCommMonoid T] [LinearOrder T] [Sub T] [Time T]
variable [Field F] [LinearOrder F] [IsStrictOrderedRing F] [Powers F] [Secs T F]
variable {config : Gradient2Config T F} {g₀ g : Gradient2 T F} {tr : List (GradientEntry T F)} {start clock : T}

/-- **Growth is limited by time**: over every history of an operating point whose configuration is accepted. -/
theorem gradient_growth (hnew : Gradient2.new config = some g₀)
    (hroom : ∀ e ∈ tr, (checkedAdd e.call.now config.updateInterval).isSome)
    (h : Run Gradient2.Step (g₀, start) tr (g, clock)) :
    (config.minConcurrency ≤ g.concurrency ∧ g.concurrency ≤ config.maxConcurrency) ∧
    -- an update is `updateInterval` later than every update and every failure before it
    (tr.Pairwise fun d e => d.call.IsFailure ∨ d.updated = true → e.updated = true →
      d.call.now + config.updateInterval ≤ e.call.now) ∧
    -- the increases of a window of length `L`
    ∀ (lo L : T) (k : ℕ), L < (k + 1) • config.updateInterval →
      ((tr.filter fun e => lo ≤ e.call.now ∧ e.call.now ≤ lo + L).map GradientEntry.increase).sum ≤
        config.smoothing * config.gain * (k + 1) := by
  have hgated := Gradient2.run_gated hnew hroom h
  obtain ⟨hgrowing, hconfig, -⟩ := Gradient2.new_growing hnew
  refine ⟨⟨hgated.config_eq ▸ hgated.growing.min_le, hgated.config_eq ▸ hgated.growing.le_max⟩, hgated.apart,
    fun lo L k hk => (Gradient2.sum_increases hgated.increase).trans ?_⟩
  have hcount := count_apart hgated.updateTimes_apart (add_lt_add_right hk lo)
  have hgain : 0 ≤ config.smoothing * config.gain := by
    rw [← hconfig]
    exact (mul_pos hgrowing.smoothing_pos hgrowing.gain_pos).le
  refine mul_le_mul_of_nonneg_left ?_ hgain
  exact_mod_cast hcount

end

/-- The default configuration, with a failure between two healthy samples. -/
def growingConfig : Gradient2Config ℕ ℚ where
  initialConcurrency := 1
  minConcurrency := 1 / 4
  maxConcurrency := 1024
  queueTolerance := 25000000
  gain := 1 / 10
  smoothing := 1 / 5
  updateInterval := 100000000
  failureFactor := 7 / 10

def growing : Gradient2 ℕ ℚ := (Gradient2.new growingConfig).get (by decide +kernel)

/-- The call, with what it does to the operating point. -/
def recorded (g : Gradient2 ℕ ℚ) (call : GradientCall ℕ) : GradientEntry ℕ ℚ where
  call
  updated := (g.exec call).1
  before := g
  after := (g.exec call).2

theorem recorded_step {g : Gradient2 ℕ ℚ} {call : GradientCall ℕ} {clock : ℕ} (h : clock ≤ call.now) :
    Gradient2.Step (g, clock) (recorded g call) ((recorded g call).after, call.now) :=
  ⟨⟨rfl, rfl, rfl⟩, h, rfl⟩

/-- The sample after the failure comes an interval later, and is an update again. -/
theorem gradient_growth_three : ∃ tr g, Run Gradient2.Step (growing, 0) tr (g, 100000001) ∧ updateTimes tr = [0, 100000001] ∧
    1 / 4 ≤ g.concurrency ∧
    ((tr.filter fun e => 0 ≤ e.call.now ∧ e.call.now ≤ 0 + 99999999).map GradientEntry.increase).sum ≤ 1 / 50 := by
  let healthy := recorded growing (.onRttWithBaselineAt 10000000 10000000 1 true 0)
  let failed := recorded healthy.after (.onFailureAt 1)
  let again := recorded failed.after (.onRttWithPacingAt 10000000 10000000 1 true 100000001)
  have hrun : Run Gradient2.Step (growing, 0) [healthy, failed, again] (again.after, 100000001) :=
    Run.cons (recorded_step (le_refl 0)) (Run.cons (recorded_step (Nat.zero_le 1))
      (Run.single (recorded_step (by decide))))
  have hroom : ∀ e ∈ [healthy, failed, again], (checkedAdd e.call.now growingConfig.updateInterval).isSome := by
    simp only [List.forall_mem_cons]
    exact ⟨by decide +kernel, by decide +kernel, by decide +kernel, List.forall_mem_nil _⟩
  obtain ⟨⟨hlo, -⟩, -, hgrowth⟩ := gradient_growth (Option.some_get _).symm hroom hrun
  refine ⟨_, _, hrun, by decide +kernel, hlo, (hgrowth 0 99999999 0 (by decide)).trans ?_⟩
  norm_num [growingConfig]

end Loadpace
