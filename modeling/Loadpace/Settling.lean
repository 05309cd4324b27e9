import Loadpace.Growth
import Loadpace.Lib.Contraction

/-!
# Where an operating point settles

In exact arithmetic each call applies to the concurrency a monotone map that contracts (`respond_contracts`): a failure by
`failureFactor`, an update by one less the part of `smoothing` that its gradient misses. So two operating points that get the
same updates keep their order and converge (`operating_points_converge`), and while the gradients stay below one an operating
point settles at the concurrency at which the gain makes up for the gradient (`operating_point_settles`).
-/

namespace Loadpace

open Systems Contraction

section

variable {T F : Type} [AddCommMonoid T] [LinearOrder T] [Sub T] [Time T] [F64 F] [Secs T F]

/-- The gradient of a sample, for operating points of one configuration. -/
def GradientCall.gradient (config : Gradient2Config T F) : GradientCall T → F
  | .onRttWithPacingAt currentRtt referenceRtt _ _ _ | .onRttWithBaselineAt currentRtt referenceRtt _ _ _ =>
    clamp ((F64.max (asSecsF64 referenceRtt) F64.minPositive + asSecsF64 config.queueTolerance) /
      F64.max (asSecsF64 currentRtt) F64.minPositive) 0.5 1.0
  | .onFailureAt _ => 0.0

end

namespace Gradient2

variable {T F : Type} [AddCommMonoid T] [LinearOrder T] [Sub T] [Time T]
variable [Field F] [LinearOrder F] [IsStrictOrderedRing F] [Powers F] [Secs T F]

/-- What an update of the gradient leaves of the concurrency, before the gain. -/
def kept (config : Gradient2Config T F) (gradient : F) : F := 1 - config.smoothing * (1 - gradient)

/-- An update of the gradient. -/
def update (config : Gradient2Config T F) (gradient concurrency : F) : F :=
  clamped config.minConcurrency config.maxConcurrency
    (kept config gradient * concurrency + config.smoothing * config.gain)

/-- What a call does to the concurrency, given its flag. -/
def respond (config : Gradient2Config T F) : GradientCall T → Bool → F → F
  | .onFailureAt _, _ => fun concurrency =>
    clamped config.minConcurrency config.maxConcurrency (config.failureFactor * concurrency + 0)
  | call, true => update config (call.gradient config)
  | _, false => id

/-- The share of the distance of two operating points that a call leaves. -/
def share (config : Gradient2Config T F) : GradientCall T → Bool → F
  | .onFailureAt _, _ => config.failureFactor
  | call, true => kept config (call.gradient config)
  | _, false => 1

/-- The concurrency at which updates of the gradient settle. -/
def equilibrium (config : Gradient2Config T F) (gradient : F) : F :=
  clamped config.minConcurrency config.maxConcurrency (config.gain / (1 - gradient))

variable {config : Gradient2Config T F} {g g' g₀ g₁ g₂ g₁' g₂' : Gradient2 T F} {call : GradientCall T} {flag : Bool}

/-! ## One call -/

omit [AddCommMonoid T] [LinearOrder T] [Sub T] [Time T] in
theorem gradient_bounds (config : Gradient2Config T F) (call : GradientCall T) :
    0 ≤ call.gradient config ∧ call.gradient config ≤ 1 := by
  have hhalf : (0.5 : F) ≤ 1.0 := by norm_num
  have hsample (x : F) : 0 ≤ clamp x 0.5 1.0 ∧ clamp x 0.5 1.0 ≤ 1 := by
    obtain ⟨hlo, hhi⟩ := exact_clamp_bounds x _ _ hhalf
    norm_num at hlo hhi ⊢
    exact ⟨(by norm_num : (0 : F) ≤ 1 / 2).trans hlo, hhi⟩
  cases call with
  | onRttWithPacingAt => exact hsample _
  | onRttWithBaselineAt => exact hsample _
  | onFailureAt =>
    show 0 ≤ (0.0 : F) ∧ (0.0 : F) ≤ 1
    norm_num

theorem onRttWithReferenceAt_respond (h : g.Growing) {currentRtt referenceRtt : T} {inflight : ℕ} {wasPaced : Bool}
    {now : T} (hx : g.onRttWithReferenceAt currentRtt referenceRtt inflight wasPaced now = (flag, g')) :
    g'.concurrency = respond g.config (.onRttWithPacingAt currentRtt referenceRtt inflight wasPaced now) flag
      g.concurrency := by
  have hmm : g.config.minConcurrency ≤ g.config.maxConcurrency := h.min_le.trans h.le_max
  unfold onRttWithReferenceAt at hx
  dsimp only at hx
  split at hx
  · cases hx
    rfl
  split at hx
  · cases hx
    rfl
  · cases hx
    have hone : (1.0 : F) = 1 := by norm_num
    dsimp only [respond]
    rw [exact_clamp _ _ _ hmm, update, clamped, kept, GradientCall.gradient]
    congr 2
    rw [hone]
    ring

theorem exec_respond (h : g.Growing) (hx : g.exec call = (flag, g')) :
    g'.concurrency = respond g.config call flag g.concurrency := by
  cases call with
  | onRttWithPacingAt => exact onRttWithReferenceAt_respond h hx
  | onRttWithBaselineAt =>
    rw [onRttWithReferenceAt_respond h hx]
    cases flag <;> rfl
  | onFailureAt now =>
    obtain ⟨rfl, rfl⟩ := Prod.mk.inj hx
    show clamp (g.concurrency * g.config.failureFactor) g.config.minConcurrency g.config.maxConcurrency = _
    rw [exact_clamp _ _ _ (h.min_le.trans h.le_max), mul_comm]
    dsimp only [respond]
    rw [add_zero, clamped]

omit [AddCommMonoid T] [LinearOrder T] [Sub T] [Time T] [Secs T F] in
theorem update_contracts (h : g.Growing) {gradient : F} (h0 : 0 ≤ gradient) (h1 : gradient ≤ 1) :
    (0 ≤ kept g.config gradient ∧ kept g.config gradient ≤ 1) ∧
      Contracts (kept g.config gradient) (update g.config gradient) := by
  have hpart : 0 ≤ g.config.smoothing * gradient := mul_nonneg h.smoothing_pos.le h0
  have hmissed : 0 ≤ g.config.smoothing * (1 - gradient) := mul_nonneg h.smoothing_pos.le (sub_nonneg.mpr h1)
  have hle := h.smoothing_le
  have hkept : 0 ≤ kept g.config gradient := by
    rw [kept, mul_sub, mul_one]
    linarith
  refine ⟨⟨hkept, sub_le_self 1 hmissed⟩, ?_⟩
  have hcomp := (affine hkept (g.config.smoothing * g.config.gain)).comp
    (clamped_contracts g.config.minConcurrency g.config.maxConcurrency) zero_le_one
  rwa [one_mul] at hcomp

omit [AddCommMonoid T] [LinearOrder T] [Sub T] [Time T] in
/-- **The map of a call contracts.** -/
theorem respond_contracts (h : g.Growing) (hfactor : 0 ≤ g.config.failureFactor) (call : GradientCall T) (flag : Bool) :
    (0 ≤ share g.config call flag ∧ share g.config call flag ≤ 1) ∧
      Contracts (share g.config call flag) (respond g.config call flag) := by
  obtain ⟨h0, h1⟩ := gradient_bounds g.config call
  have hupdate := update_contracts h h0 h1
  have hid : (0 ≤ (1 : F) ∧ (1 : F) ≤ 1) ∧ Contracts 1 (id : F → F) :=
    ⟨⟨zero_le_one, le_rfl⟩, monotone_id, fun x y _ => (one_mul _).ge⟩
  cases call with
  | onRttWithPacingAt =>
    cases flag
    · exact hid
    · exact hupdate
  | onRttWithBaselineAt =>
    cases flag
    · exact hid
    · exact hupdate
  | onFailureAt =>
    have hcomp := (affine hfactor 0).comp
      (clamped_contracts g.config.minConcurrency g.config.maxConcurrency) zero_le_one
    rw [one_mul] at hcomp
    exact ⟨⟨hfactor, h.factor_le⟩, hcomp⟩

/-! ## Histories -/

variable {e : GradientEntry T F} {tr tr₁ tr₂ : List (GradientEntry T F)} {start start₁ start₂ clock clock₁ clock₂ : T}

/-- A history keeps the configuration and what it promises. -/
theorem run_growing (h0 : g₀.Growing) (h : Run Step (g₀, start) tr (g, clock)) : g.Growing ∧ g.config = g₀.config :=
  h.invariant (P := fun s => s.1.Growing ∧ s.1.config = g₀.config) ⟨h0, rfl⟩ fun s e s' hs hP => by
    obtain ⟨⟨-, -, hx⟩, -⟩ := hs
    obtain ⟨hgrowing, hconfig, -⟩ := exec_cases hP.1 hx
    exact ⟨hgrowing, hconfig.trans hP.2⟩

/-- Two histories of the same calls and flags. -/
theorem run_converge (h1 : g₁.Growing) (h2 : g₂.Growing) (hconfig : g₁.config = g₂.config)
    (hfactor : 0 ≤ g₁.config.failureFactor) (hrun₁ : Run Step (g₁, start₁) tr₁ (g₁', clock₁))
    (hrun₂ : Run Step (g₂, start₂) tr₂ (g₂', clock₂))
    (hsame : tr₁.map (fun e => (e.call, e.updated)) = tr₂.map fun e => (e.call, e.updated)) :
    |g₁'.concurrency - g₂'.concurrency| ≤
      (tr₁.map fun e => share g₁.config e.call e.updated).prod * |g₁.concurrency - g₂.concurrency| ∧
    (g₁.concurrency ≤ g₂.concurrency → g₁'.concurrency ≤ g₂'.concurrency) := by
  generalize hx : (g₁', clock₁) = x at hrun₁
  induction hrun₁ generalizing tr₂ g₁' g₂' clock₁ clock₂ with
  | nil =>
    obtain rfl := List.map_eq_nil_iff.mp hsame.symm
    obtain ⟨rfl, -⟩ := Prod.mk.inj hrun₂.nil_inv
    obtain ⟨rfl, -⟩ := Prod.mk.inj hx
    exact ⟨by rw [List.map_nil, List.prod_nil, one_mul], id⟩
  | @snoc tr m e x hr he ih =>
    subst hx
    rw [List.map_append] at hsame
    obtain ⟨rest, last, rfl, hrest, hlast⟩ := List.map_eq_append_iff.mp hsame.symm
    obtain ⟨e₂, rfl, hcall⟩ := List.map_eq_singleton_iff.mp hlast
    obtain ⟨⟨m₂, t₂⟩, hr₂, he₂⟩ := hrun₂.snoc_inv
    obtain ⟨m₁, t₁⟩ := m
    obtain ⟨hdist, horder⟩ := ih hr₂ hrest.symm rfl
    obtain ⟨hg₁, hc₁⟩ := run_growing h1 hr
    obtain ⟨hg₂, hc₂⟩ := run_growing h2 hr₂
    obtain ⟨⟨-, -, hx₁⟩, -⟩ := he
    obtain ⟨⟨-, -, hx₂⟩, -⟩ := he₂
    obtain ⟨hsamecall, hsameflag⟩ := Prod.mk.inj hcall
    have hr₁ := exec_respond hg₁ hx₁
    have hr₂ := exec_respond hg₂ hx₂
    rw [hsamecall, hsameflag, hc₂, ← hconfig] at hr₂
    rw [hc₁] at hr₁
    obtain ⟨⟨hpos, -⟩, hcontract⟩ := respond_contracts h1 hfactor e.call e.updated
    rw [hr₁, hr₂]
    refine ⟨?_, fun hle => hcontract.mono (horder hle)⟩
    calc _ ≤ share g₁.config e.call e.updated * |m₁.concurrency - m₂.concurrency| := hcontract.abs _ _
      _ ≤ share g₁.config e.call e.updated *
          ((tr.map fun e => share g₁.config e.call e.updated).prod * |g₁.concurrency - g₂.concurrency|) :=
        mul_le_mul_of_nonneg_left hdist hpos
      _ = _ := by
        rw [List.map_append, List.prod_append, List.map_singleton, List.prod_singleton]
        ring

/-! ### Towards the equilibrium -/

omit [AddCommMonoid T] [LinearOrder T] [Sub T] [Time T] [Secs T F] in
/-- A steeper gradient leaves less. -/
theorem update_mono (h : g.Growing) {gradient gradient' : F} (hle : gradient ≤ gradient') :
    update g.config gradient g.concurrency ≤ update g.config gradient' g.concurrency := by
  have hpos : 0 ≤ g.concurrency := h.min_pos.le.trans h.min_le
  have hkept : kept g.config gradient ≤ kept g.config gradient' :=
    sub_le_sub_left (mul_le_mul_of_nonneg_left (sub_le_sub_left hle 1) h.smoothing_pos.le) 1
  exact (clamped_contracts _ _).mono (add_le_add_left (mul_le_mul_of_nonneg_right hkept hpos) _)

omit [AddCommMonoid T] [LinearOrder T] [Sub T] [Time T] [Secs T F] in
theorem update_equilibrium (h : g.Growing) {gradient : F} (h1 : gradient < 1) :
    update g.config gradient (equilibrium g.config gradient) = equilibrium g.config gradient := by
  have hmissed : 0 < g.config.smoothing * (1 - gradient) := mul_pos h.smoothing_pos (sub_pos.mpr h1)
  have hfixed : g.config.gain / (1 - gradient) =
      g.config.smoothing * g.config.gain / (1 - kept g.config gradient) := by
    rw [kept, sub_sub_cancel, mul_div_mul_left _ _ h.smoothing_pos.ne']
  rw [update, equilibrium, hfixed]
  exact clamped_affine_fixed (sub_lt_self 1 hmissed) (h.min_le.trans h.le_max)

omit [AddCommMonoid T] [LinearOrder T] [Sub T] [Time T] [Field F] [LinearOrder F] [IsStrictOrderedRing F] [Powers F]
  [Secs T F] in
theorem updateTimes_snoc (tr : List (GradientEntry T F)) (e : GradientEntry T F) :
    (updateTimes (tr ++ [e])).length = (updateTimes tr).length + if e.updated then 1 else 0 := by
  rw [updateTimes, List.filter_append, List.map_append, List.length_append, updateTimes]
  cases hup : e.updated <;> simp [hup]

omit [AddCommMonoid T] [LinearOrder T] [Sub T] [Time T] [IsStrictOrderedRing F] in
/-- A call that is no update leaves the concurrency, or is a failure. -/
theorem respond_idle (config : Gradient2Config T F) (call : GradientCall T) : respond config call false = id ∨ call.IsFailure := by
  cases call with
  | onFailureAt => exact Or.inr trivial
  | _ => exact Or.inl rfl

omit [IsStrictOrderedRing F] in
/-- An update is no failure. -/
theorem respond_update (hx : g.exec call = (true, g')) :
    ¬call.IsFailure ∧ respond config call true = update config (call.gradient config) := by
  cases call with
  | onFailureAt => cases hx
  | _ => exact ⟨id, rfl⟩

variable {γ : F}

theorem run_le_equilibrium (h0 : g₀.Growing) (hγ0 : 0 ≤ γ) (hγ1 : γ < 1) (h : Run Step (g₀, start) tr (g, clock))
    (hgradient : ∀ e ∈ tr, e.updated = true → e.call.gradient g₀.config ≤ γ) :
    g.concurrency ≤ equilibrium g₀.config γ +
      kept g₀.config γ ^ (updateTimes tr).length * max 0 (g₀.concurrency - equilibrium g₀.config γ) := by
  generalize hx : (g, clock) = x at h
  induction h generalizing g clock with
  | nil =>
    obtain ⟨rfl, -⟩ := Prod.mk.inj hx
    have hle := le_max_right 0 (g.concurrency - equilibrium g.config γ)
    simp only [updateTimes, List.filter_nil, List.map_nil, List.length_nil, pow_zero, one_mul]
    linarith
  | @snoc tr m e x hr he ih =>
    subst hx
    obtain ⟨m, t⟩ := m
    have ih := ih (fun e he => hgradient e (List.mem_append_left _ he)) rfl
    obtain ⟨hg, hconfig⟩ := run_growing h0 hr
    obtain ⟨⟨-, -, hx⟩, -⟩ := he
    have hrespond := exec_respond hg hx
    obtain ⟨⟨hkept, -⟩, hcontract⟩ := update_contracts h0 hγ0 hγ1.le
    rw [updateTimes_snoc]
    cases hup : e.updated with
    | false =>
      rw [hup] at hx hrespond
      rw [if_neg Bool.false_ne_true, Nat.add_zero]
      refine le_trans ?_ ih
      rcases respond_idle m.config e.call with hidle | hfail
      · rw [hidle] at hrespond
        exact hrespond.le
      · obtain ⟨-, -, heffect⟩ := exec_cases hg hx
        cases heffect with
        | skipped hcall => exact absurd hfail hcall
        | failed _ hc => exact hc
    | true =>
      rw [hup] at hx hrespond
      rw [if_pos rfl, pow_succ', mul_assoc, hrespond, (respond_update hx).2, hconfig]
      have hle := hgradient e (List.mem_append_right _ List.mem_cons_self) hup
      have hstep := update_mono hg hle
      rw [hconfig] at hstep
      exact hstep.trans (hcontract.le_fixed (update_equilibrium h0 hγ1)
        (mul_nonneg (pow_nonneg hkept _) (le_max_left _ _)) ih)

theorem equilibrium_le_run (h0 : g₀.Growing) (hγ0 : 0 ≤ γ) (hγ1 : γ < 1) (h : Run Step (g₀, start) tr (g, clock))
    (hhealthy : ∀ e ∈ tr, ¬e.call.IsFailure)
    (hgradient : ∀ e ∈ tr, e.updated = true → γ ≤ e.call.gradient g₀.config) :
    equilibrium g₀.config γ - kept g₀.config γ ^ (updateTimes tr).length *
      max 0 (equilibrium g₀.config γ - g₀.concurrency) ≤ g.concurrency := by
  generalize hx : (g, clock) = x at h
  induction h generalizing g clock with
  | nil =>
    obtain ⟨rfl, -⟩ := Prod.mk.inj hx
    have hle := le_max_right 0 (equilibrium g.config γ - g.concurrency)
    simp only [updateTimes, List.filter_nil, List.map_nil, List.length_nil, pow_zero, one_mul]
    linarith
  | @snoc tr m e x hr he ih =>
    subst hx
    obtain ⟨m, t⟩ := m
    have ih := ih (fun e he => hhealthy e (List.mem_append_left _ he))
      (fun e he => hgradient e (List.mem_append_left _ he)) rfl
    obtain ⟨hg, hconfig⟩ := run_growing h0 hr
    obtain ⟨⟨-, -, hx⟩, -⟩ := he
    have hrespond := exec_respond hg hx
    obtain ⟨⟨hkept, -⟩, hcontract⟩ := update_contracts h0 hγ0 hγ1.le
    rw [updateTimes_snoc]
    cases hup : e.updated with
    | false =>
      rw [hup] at hrespond
      have hidle := (respond_idle m.config e.call).resolve_right
        (hhealthy e (List.mem_append_right _ List.mem_cons_self))
      rw [hidle] at hrespond
      rw [if_neg Bool.false_ne_true, Nat.add_zero, hrespond]
      exact ih
    | true =>
      rw [hup] at hx hrespond
      rw [if_pos rfl, pow_succ', mul_assoc, hrespond, (respond_update hx).2, hconfig]
      have hle := hgradient e (List.mem_append_right _ List.mem_cons_self) hup
      have hstep := update_mono hg hle
      rw [hconfig] at hstep
      exact (hcontract.fixed_le (update_equilibrium h0 hγ1)
        (mul_nonneg (pow_nonneg hkept _) (le_max_left _ _)) ih).trans hstep

/-- Without congestion each update adds the smoothed gain, up to the bound. -/
theorem run_linear (h0 : g₀.Growing) (h : Run Step (g₀, start) tr (g, clock)) (hhealthy : ∀ e ∈ tr, ¬e.call.IsFailure)
    (hgradient : ∀ e ∈ tr, e.updated = true → e.call.gradient g₀.config = 1) :
    g.concurrency = min (g₀.concurrency + (updateTimes tr).length * (g₀.config.smoothing * g₀.config.gain))
      g₀.config.maxConcurrency := by
  have hgain : 0 ≤ g₀.config.smoothing * g₀.config.gain := (mul_pos h0.smoothing_pos h0.gain_pos).le
  generalize hx : (g, clock) = x at h
  induction h generalizing g clock with
  | nil =>
    obtain ⟨rfl, -⟩ := Prod.mk.inj hx
    simp only [updateTimes, List.filter_nil, List.map_nil, List.length_nil, Nat.cast_zero, zero_mul, add_zero]
    exact (min_eq_left h0.le_max).symm
  | @snoc tr m e x hr he ih =>
    subst hx
    obtain ⟨m, t⟩ := m
    have ih := ih (fun e he => hhealthy e (List.mem_append_left _ he))
      (fun e he => hgradient e (List.mem_append_left _ he)) rfl
    obtain ⟨hg, hconfig⟩ := run_growing h0 hr
    obtain ⟨⟨-, -, hx⟩, -⟩ := he
    have hrespond := exec_respond hg hx
    rw [updateTimes_snoc]
    cases hup : e.updated with
    | false =>
      rw [hup] at hrespond
      have hidle := (respond_idle m.config e.call).resolve_right
        (hhealthy e (List.mem_append_right _ List.mem_cons_self))
      rw [hidle] at hrespond
      rw [if_neg Bool.false_ne_true, Nat.add_zero, hrespond]
      exact ih
    | true =>
      rw [hup] at hx hrespond
      have hone := hgradient e (List.mem_append_right _ List.mem_cons_self) hup
      have hkept : kept g₀.config 1 = 1 := by rw [kept, sub_self, mul_zero, sub_zero]
      have hlo : g₀.config.minConcurrency ≤ m.concurrency := hconfig ▸ hg.min_le
      rw [if_pos rfl, hrespond, (respond_update hx).2, hconfig, hone, update, hkept, one_mul, clamped,
        max_eq_right (le_min (hlo.trans (le_add_of_nonneg_right hgain)) (h0.min_le.trans h0.le_max)), ih, min_add,
        min_assoc, min_eq_right (le_add_of_nonneg_right hgain)]
      push_cast
      ring_nf

omit [Sub T] [Time T] [Secs T F] [IsStrictOrderedRing F] in
theorem new_concurrency (h : new config = some g) : g.concurrency = config.initialConcurrency := by
  unfold new at h
  simp only [Option.bind_eq_bind, Option.bind_eq_some_iff, Option.guard_eq_some'] at h
  obtain ⟨_, -, _, -, _, -, _, -, _, -, _, -, h⟩ := h
  cases h
  rfl

omit [Sub T] [Time T] [Secs T F] in
theorem new_factor (h : new config = some g) : 0 ≤ config.failureFactor := by
  unfold new at h
  simp only [Option.bind_eq_bind, Option.bind_eq_some_iff, Option.guard_eq_some'] at h
  obtain ⟨_, -, _, -, _, -, _, -, _, -, _, ⟨⟨hf, -⟩, -⟩, -⟩ := h
  have hf : (0.0 : F) ≤ config.failureFactor := hf
  norm_num at hf
  exact hf

end Gradient2

section

variable {T F : Type} [AddCommMonoid T] [LinearOrder T] [Sub T] [Time T]
variable [Field F] [LinearOrder F] [IsStrictOrderedRing F] [Powers F] [Secs T F]
variable {config : Gradient2Config T F} {g₀ g g₁ g₂ g₁' g₂' : Gradient2 T F}
variable {tr before₁ before₂ tr₁ tr₂ : List (GradientEntry T F)} {start start₁ start₂ t₁ t₂ clock clock₁ clock₂ : T}

/-- **Operating points converge.** Two operating points of one configuration, whatever happened to them before, that get the
same calls and are updated by the same ones, keep their order, and their distance shrinks by the product of the shares of the
calls, each at most one. -/
theorem operating_points_converge (hnew : Gradient2.new config = some g₀)
    (hbefore₁ : Run Gradient2.Step (g₀, start₁) before₁ (g₁, t₁))
    (hbefore₂ : Run Gradient2.Step (g₀, start₂) before₂ (g₂, t₂))
    (h₁ : Run Gradient2.Step (g₁, t₁) tr₁ (g₁', clock₁)) (h₂ : Run Gradient2.Step (g₂, t₂) tr₂ (g₂', clock₂))
    (hsame : tr₁.map (fun e => (e.call, e.updated)) = tr₂.map fun e => (e.call, e.updated)) :
    |g₁'.concurrency - g₂'.concurrency| ≤
      (tr₁.map fun e => Gradient2.share config e.call e.updated).prod * |g₁.concurrency - g₂.concurrency| ∧
    (g₁.concurrency ≤ g₂.concurrency → g₁'.concurrency ≤ g₂'.concurrency) ∧
    ∀ e ∈ tr₁, 0 ≤ Gradient2.share config e.call e.updated ∧ Gradient2.share config e.call e.updated ≤ 1 := by
  obtain ⟨hgrowing, hconfig, -⟩ := Gradient2.new_growing hnew
  have hfactor := Gradient2.new_factor hnew
  obtain ⟨hg₁, hc₁⟩ := Gradient2.run_growing hgrowing hbefore₁
  obtain ⟨hg₂, hc₂⟩ := Gradient2.run_growing hgrowing hbefore₂
  rw [hconfig] at hc₁ hc₂
  obtain ⟨hdist, horder⟩ := Gradient2.run_converge hg₁ hg₂ (hc₁.trans hc₂.symm) (hc₁ ▸ hfactor) h₁ h₂ hsame
  rw [hc₁] at hdist
  refine ⟨hdist, horder, fun e _ => ?_⟩
  have hshare := (Gradient2.respond_contracts hgrowing (hconfig ▸ hfactor) e.call e.updated).1
  rwa [hconfig] at hshare

/-- **Where an operating point settles.** While no update's gradient is above `γ`, the concurrency comes down towards the
equilibrium of `γ`, by the factor `kept config γ` with each update, whatever fails meanwhile; while none is below `γ` and
nothing fails, it comes up towards it as fast. While every gradient is one and nothing fails, it grows by the smoothed gain
with each update, up to its bound. -/
theorem operating_point_settles (hnew : Gradient2.new config = some g₀)
    (h : Run Gradient2.Step (g₀, start) tr (g, clock)) :
    (∀ γ, 0 ≤ γ → γ < 1 →
      ((∀ e ∈ tr, e.updated = true → e.call.gradient config ≤ γ) → g.concurrency ≤ Gradient2.equilibrium config γ +
        Gradient2.kept config γ ^ (updateTimes tr).length *
          max 0 (config.initialConcurrency - Gradient2.equilibrium config γ)) ∧
      ((∀ e ∈ tr, ¬e.call.IsFailure) → (∀ e ∈ tr, e.updated = true → γ ≤ e.call.gradient config) →
        Gradient2.equilibrium config γ - Gradient2.kept config γ ^ (updateTimes tr).length *
          max 0 (Gradient2.equilibrium config γ - config.initialConcurrency) ≤ g.concurrency)) ∧
    ((∀ e ∈ tr, ¬e.call.IsFailure) → (∀ e ∈ tr, e.updated = true → e.call.gradient config = 1) →
      g.concurrency = min (config.initialConcurrency + (updateTimes tr).length * (config.smoothing * config.gain))
        config.maxConcurrency) := by
  obtain ⟨hgrowing, hconfig, -⟩ := Gradient2.new_growing hnew
  have hinitial := Gradient2.new_concurrency hnew
  subst hconfig
  rw [← hinitial]
  refine ⟨fun γ h0 h1 => ⟨?_, ?_⟩, ?_⟩
  · exact Gradient2.run_le_equilibrium hgrowing h0 h1 h
  · exact Gradient2.equilibrium_le_run hgrowing h0 h1 h
  · exact Gradient2.run_linear hgrowing h

end

/-- A sample of six times the baseline, an interval after the start. -/
def congested : GradientCall ℕ := .onRttWithBaselineAt 60000000 10000000 1 true 200000000

/-- One of the two operating points grew before the congestion that both see. -/
theorem operating_points_converge_two : ∃ tr₁ tr₂ g₁ g₂, Run Gradient2.Step ((recorded growing
      (.onRttWithBaselineAt 10000000 10000000 1 true 0)).after, 0) tr₁ (g₁, 200000000) ∧
    Run Gradient2.Step (growing, 0) tr₂ (g₂, 200000000) ∧ (updateTimes tr₁).length = 1 ∧
    |g₁.concurrency - g₂.concurrency| ≤
      (tr₁.map fun e => Gradient2.share growingConfig e.call e.updated).prod * |51 / 50 - 1| := by
  let healthy := recorded growing (.onRttWithBaselineAt 10000000 10000000 1 true 0)
  let first := recorded healthy.after congested
  let second := recorded growing congested
  have hbefore : Run Gradient2.Step (growing, 0) [healthy] (healthy.after, 0) := .single (recorded_step le_rfl)
  have h₁ : Run Gradient2.Step (healthy.after, 0) [first] (first.after, 200000000) := .single (recorded_step (by decide))
  have h₂ : Run Gradient2.Step (growing, 0) [second] (second.after, 200000000) := .single (recorded_step (by decide))
  have hflags : first.updated = second.updated := by decide +kernel
  have hsame : [first].map (fun e => (e.call, e.updated)) = [second].map fun e => (e.call, e.updated) := by
    show [(congested, first.updated)] = [(congested, second.updated)]
    rw [hflags]
  have hgap : healthy.after.concurrency = 51 / 50 ∧ growing.concurrency = 1 := by decide +kernel
  have hnew : Gradient2.new growingConfig = some growing := (Option.some_get _).symm
  have hdist := (operating_points_converge hnew hbefore .nil h₁ h₂ hsame).1
  rw [hgap.1, hgap.2] at hdist
  exact ⟨_, _, _, _, h₁, h₂, by decide +kernel, hdist⟩

theorem operating_point_settles_once : ∃ tr g, Run Gradient2.Step (growing, 0) tr (g, 200000000) ∧
    (updateTimes tr).length = 1 ∧ g.concurrency ≤ Gradient2.equilibrium growingConfig (7 / 12) +
      Gradient2.kept growingConfig (7 / 12) ^ (updateTimes tr).length *
        max 0 (1 - Gradient2.equilibrium growingConfig (7 / 12)) := by
  let update := recorded growing congested
  have hrun : Run Gradient2.Step (growing, 0) [update] (update.after, 200000000) := .single (recorded_step (by decide))
  have hgradient : ∀ e ∈ [update], e.updated = true → e.call.gradient growingConfig ≤ 7 / 12 := by
    intro e he _
    rw [List.mem_singleton.mp he]
    decide +kernel
  obtain ⟨hsettle, -⟩ := operating_point_settles (Option.some_get _).symm hrun
  exact ⟨_, _, hrun, by decide +kernel, (hsettle (7 / 12) (by norm_num) (by norm_num)).1 hgradient⟩

end Loadpace
