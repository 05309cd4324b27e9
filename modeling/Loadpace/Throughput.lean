import Loadpace.Accounting
import Loadpace.Exposure
import Loadpace.Lib.Bucket

/-!
# Throughput

In exact time the pacer is a leaky bucket: a commit pours in one unit, and the bucket leaks at the rate in force. That holds
for every use of `Gcra`, with commits that run into debt (`gcra_is_leaky_bucket`). The controller dispatches only when the
bucket is empty, so within any window it dispatches at most one request more than the rate in force allows
(`run_conforms`), and as many are in flight at most as the rate of the last response time allows
(`inflight_conforms`).
-/

namespace Loadpace

open Systems EndpointController

/-! ## Histories of a pacer -/

inductive PacerCall (T F : Type)
  | setRate (ratePerSecond : F) (now : T)
  | commit (dispatchedAt : T)

def PacerCall.now {T F : Type} : PacerCall T F → T
  | .setRate _ now => now
  | .commit dispatchedAt => dispatchedAt

def PacerCall.isCommit {T F : Type} : PacerCall T F → Bool
  | .setRate _ _ => false
  | .commit _ => true

structure PacerEntry (T F : Type) where
  call : PacerCall T F
  before : Gcra T
  after : Gcra T

namespace Gcra

section

variable {T F : Type} [AddCommMonoid T] [LinearOrder T] [Sub T] [Time T] [F64 F] [Secs T F]

def exec (g : Gcra T) : PacerCall T F → Option (Gcra T)
  | .setRate ratePerSecond now => g.setRate ratePerSecond now
  | .commit dispatchedAt => some (g.commit dispatchedAt)

/-- One call on a pacer whose clock does not move back. -/
def Step : Gcra T × T → PacerEntry T F → Gcra T × T → Prop :=
  timedStep (fun e => some e.call.now) fun g e g' => e.before = g ∧ e.after = g' ∧ g.exec e.call = some g'

end

/-- The interval in force at each instant of a pacer's history. -/
def inForce {T F : Type} [LinearOrder T] (g₀ : Gcra T) (tr : List (PacerEntry T F)) : T → T :=
  tr.foldl (fun f e s => if e.call.now ≤ s then e.after.interval else f s) fun _ => g₀.interval

end Gcra

section

open scoped NNReal
open MeasureTheory Set

namespace Gcra

variable {g₀ g g' : Gcra ℝ≥0} {e : PacerEntry ℝ≥0 ℝ} {tr : List (PacerEntry ℝ≥0 ℝ)} {start clock now : ℝ≥0}

/-- A commit adds one interval to what is left, due or not. -/
theorem commit_phase_succ (g : Gcra ℝ≥0) (now : ℝ≥0) (hI : 0 < g.interval) :
    (g.commit now).phase now = g.phase now + 1 := by
  have hI : (0 : ℝ) < g.interval := hI
  have hle : now ≤ g.nextAt now := le_max_right _ _
  have htat : (g.commit now).tat = g.nextAt now + g.interval := saturatingAdd_exactTime _ _
  have hleft : (0 : ℝ) ≤ g.nextAt now + g.interval - now := by
    have hle := NNReal.coe_le_coe.mpr hle
    linarith
  have hint : (g.commit now).interval = g.interval := rfl
  rw [phase_eq, htat, hint, NNReal.coe_add, max_eq_right (div_nonneg hleft hI.le), phase, NNReal.coe_sub hle]
  field_simp
  ring

/-- The pacer as a bucket. -/
noncomputable def bucket (s : Gcra ℝ≥0 × ℝ≥0) : Bucket.State where
  clock := s.2
  level := s.1.phase s.2
  rate := (s.1.interval : ℝ)⁻¹

theorem bucket_levelAt (g : Gcra ℝ≥0) (h : clock ≤ now) : (bucket (g, clock)).levelAt now = g.phase now :=
  (g.phase_later h).symm

end Gcra

/-- What a call pours. -/
noncomputable def PacerEntry.event (e : PacerEntry ℝ≥0 ℝ) : Bucket.Event where
  instant := e.call.now
  poured := if e.call.isCommit then 1 else 0
  rate := (e.after.interval : ℝ)⁻¹

/-- The debt that a change of rate scales is a duration. -/
def PacerEntry.Fits (e : PacerEntry ℝ≥0 ℝ) : Prop :=
  e.call.isCommit = false → e.before.phase e.call.now * e.after.interval ≤ (durationMax : ℝ≥0)

namespace Gcra

variable {g₀ g g' : Gcra ℝ≥0} {e : PacerEntry ℝ≥0 ℝ} {tr : List (PacerEntry ℝ≥0 ℝ)} {rate : ℝ} {start clock now : ℝ≥0}

/-- A call keeps the phase, or adds one to it. -/
theorem exec_phase (h : g.exec e.call = some g') (hb : e.before = g) (ha : e.after = g') (hI : 0 < g.interval)
    (hfits : e.Fits) :
    0 < g'.interval ∧ g'.phase e.call.now = g.phase e.call.now + if e.call.isCommit then 1 else 0 := by
  unfold PacerEntry.Fits at hfits
  subst hb ha
  cases hc : e.call with
  | commit t =>
    rw [hc] at h
    have hcommit : e.before.commit t = e.after := Option.some.inj h
    rw [← hcommit]
    exact ⟨hI, e.before.commit_phase_succ t hI⟩
  | setRate rate t =>
    rw [hc] at h hfits
    obtain ⟨hpos, -, hsame | hscaled⟩ := setRate_scaled h
    · rw [hsame]
      exact ⟨hI, (add_zero _).symm⟩
    · refine ⟨hpos, ?_⟩
      have hle : e.before.phase t ≤ ((durationMax : ℝ≥0) : ℝ) / e.after.interval :=
        (le_div_iff₀ (NNReal.coe_pos.mpr hpos)).mpr (hfits rfl)
      exact (hscaled.trans (min_eq_left hle)).trans (add_zero _).symm

theorem new_cases {g : Gcra ℝ≥0} (h : Gcra.new rate start = some g) : 0 < g.interval ∧ g.tat = start := by
  unfold Gcra.new at h
  simp only [Option.bind_eq_bind, Option.bind_eq_some_iff] at h
  obtain ⟨interval, hi, h⟩ := h
  obtain rfl := Option.some.inj h
  exact ⟨rateToInterval_pos hi, rfl⟩

/-- **The pacer refines a leaky bucket.** -/
theorem run_bucket (h : Run Step (g₀, start) tr (g, clock)) (hI : 0 < g₀.interval) (hfits : ∀ e ∈ tr, e.Fits) :
    0 < g.interval ∧ Run Bucket.Step (bucket (g₀, start)) (tr.map PacerEntry.event) (bucket (g, clock)) := by
  have hrun := h.simulation (P := fun s => 0 < s.1.interval) (f := bucket) (A := Bucket.Step)
    (g := fun e => some e.event) hI fun s e he s' hs hpos => by
      obtain ⟨⟨hb, ha, hx⟩, hle, hclock⟩ := hs
      obtain ⟨hI', hphase⟩ := exec_phase hx hb ha hpos (hfits e he)
      refine ⟨hI', NNReal.coe_le_coe.mpr hle, inv_nonneg.mpr (NNReal.coe_nonneg _), ?_⟩
      rw [bucket, hclock, hphase, ← bucket_levelAt s.1 hle, ← ha]
      rfl
  rwa [List.filterMap_eq_map'] at hrun

/-- The rate of the bucket is that of the pacer. -/
theorem leak_inForce (g₀ : Gcra ℝ≥0) (tr : List (PacerEntry ℝ≥0 ℝ)) {s : ℝ} (hs : 0 ≤ s) :
    Bucket.leak (g₀.interval : ℝ)⁻¹ (tr.map PacerEntry.event) s = 1 / ((g₀.inForce tr s.toNNReal : ℝ≥0) : ℝ) := by
  rw [one_div]
  induction tr using List.reverseRecOn with
  | nil => rfl
  | append_singleton tr e ih =>
    have hfold : g₀.inForce (tr ++ [e]) s.toNNReal =
        if e.call.now ≤ s.toNNReal then e.after.interval else g₀.inForce tr s.toNNReal := by
      rw [inForce, List.foldl_append]
      rfl
    rw [List.map_append, List.map_singleton, Bucket.leak_snoc, hfold, Bucket.Event.overlay, ih]
    have hiff : e.event.instant ≤ s ↔ e.call.now ≤ s.toNNReal := (Real.le_toNNReal_iff_coe_le hs).symm
    simp only [hiff]
    split <;> rfl

/-- What is poured from `a` on are the commits. -/
theorem poured_commits (h : Run Step (g₀, start) tr (g, clock)) (hnow : clock ≤ now) (a : ℝ≥0) :
    Bucket.poured (tr.map PacerEntry.event) a now = tr.countP (fun e => e.call.isCommit ∧ a ≤ e.call.now) := by
  have hall : ∀ e ∈ tr, e.call.now ≤ clock := by
    generalize hx : (g, clock) = x at h
    clear hnow
    induction h generalizing g clock with
    | nil => exact fun e he => by cases he
    | @snoc tr m e x hr he ih =>
      subst hx
      obtain ⟨-, hle, heq⟩ := he
      intro x hx
      rcases List.mem_append.mp hx with hx | hx
      · exact (ih rfl x hx).trans (hle.trans heq.ge)
      · rw [List.mem_singleton.mp hx]
        exact heq.ge
  clear h
  induction tr with
  | nil => simp [Bucket.poured]
  | cons e tr ih =>
    have hlast : (e.call.now : ℝ) ≤ now := NNReal.coe_le_coe.mpr ((hall e List.mem_cons_self).trans hnow)
    have hrest := ih fun x hx => hall x (List.mem_cons_of_mem _ hx)
    have hin : ((a : ℝ) ≤ e.event.instant ∧ e.event.instant ≤ now) ↔ a ≤ e.call.now :=
      ⟨fun h => NNReal.coe_le_coe.mp h.1, fun h => ⟨NNReal.coe_le_coe.mpr h, hlast⟩⟩
    rw [Bucket.poured] at hrest ⊢
    rw [List.map_cons, List.filter_cons, List.countP_cons]
    simp only [hin]
    by_cases ha : a ≤ e.call.now
    · rw [if_pos (decide_eq_true ha), List.map_cons, List.sum_cons, hrest]
      cases hc : e.call.isCommit <;> simp [PacerEntry.event, hc, ha, add_comm]
    · rw [if_neg (by simpa using ha), hrest]
      simp [ha]

end Gcra

/-- **GCRA is a leaky bucket.** After any changes of rate and any commits at instants that do not move back, due or not, in
which no debt outgrows the durations, what is left before the next slot, in intervals, is the greatest excess of the commits
of a window that ends now over the integral of the rate in force. -/
theorem gcra_is_leaky_bucket {g₀ g : Gcra ℝ≥0} {tr : List (PacerEntry ℝ≥0 ℝ)} {rate : ℝ} {start clock now : ℝ≥0}
    (h0 : Gcra.new rate start = some g₀) (h : Run Gcra.Step (g₀, start) tr (g, clock)) (hfits : ∀ e ∈ tr, e.Fits)
    (hnow : clock ≤ now) :
    IsGreatest {x : ℝ | ∃ a : ℝ≥0, start ≤ a ∧ a ≤ now ∧
      x = tr.countP (fun e => e.call.isCommit ∧ a ≤ e.call.now) -
        ∫ s in (a : ℝ)..now, 1 / ((g₀.inForce tr s.toNNReal : ℝ≥0) : ℝ)}
      (((g.nextAt now : ℝ) - now) / g.interval) := by
  obtain ⟨hI, htat⟩ := Gcra.new_cases h0
  obtain ⟨-, hrun⟩ := Gcra.run_bucket h hI hfits
  have hempty : (Gcra.bucket (g₀, start)).level = 0 := (Gcra.phase_eq_zero hI).mpr htat.le
  have hpoured : ∀ e ∈ tr.map PacerEntry.event, 0 ≤ e.poured := by
    intro e he
    obtain ⟨e, -, rfl⟩ := List.mem_map.mp he
    unfold PacerEntry.event
    dsimp only
    split <;> norm_num
  have hlevel := Bucket.run_level hrun hempty (inv_nonneg.mpr (NNReal.coe_nonneg _)) hpoured
    (NNReal.coe_le_coe.mpr hnow)
  have hphase : (Gcra.bucket (g, clock)).levelAt now = ((g.nextAt now : ℝ) - now) / g.interval := by
    rw [Gcra.bucket_levelAt g hnow, Gcra.phase, NNReal.coe_sub (show now ≤ g.nextAt now from le_max_right _ _)]
  rw [hphase] at hlevel
  have hinflow (a : ℝ≥0) (ha : a ≤ now) : Bucket.inflow (g₀.interval : ℝ)⁻¹ (tr.map PacerEntry.event) a now =
      tr.countP (fun e => e.call.isCommit ∧ a ≤ e.call.now) -
        ∫ s in (a : ℝ)..now, 1 / ((g₀.inForce tr s.toNNReal : ℝ≥0) : ℝ) := by
    rw [Bucket.inflow, Gcra.poured_commits h hnow]
    congr 1
    refine intervalIntegral.integral_congr_Ioo_of_le (NNReal.coe_le_coe.mpr ha) fun s hs => ?_
    exact Gcra.leak_inForce g₀ tr (a.coe_nonneg.trans hs.1.le)
  convert hlevel using 1
  ext x
  constructor
  · rintro ⟨a, hstart, ha, rfl⟩
    exact ⟨a, ⟨NNReal.coe_le_coe.mpr hstart, NNReal.coe_le_coe.mpr ha⟩, (hinflow a ha).symm⟩
  · rintro ⟨a, ⟨hstart, ha⟩, rfl⟩
    lift a to ℝ≥0 using start.coe_nonneg.trans hstart
    exact ⟨a, NNReal.coe_le_coe.mp hstart, NNReal.coe_le_coe.mp ha, hinflow a (NNReal.coe_le_coe.mp ha)⟩

/-- Two commits at once, of which the second runs into debt, and half the rate after a second. -/
theorem gcra_is_leaky_bucket_debt : ∃ (g₀ g : Gcra ℝ≥0) (tr : List (PacerEntry ℝ≥0 ℝ)),
    Gcra.new (1 : ℝ) 0 = some g₀ ∧ Run Gcra.Step (g₀, 0) tr (g, 1) ∧ tr.length = 3 ∧ (∀ e ∈ tr, e.Fits) ∧
    IsGreatest {x : ℝ | ∃ a : ℝ≥0, 0 ≤ a ∧ a ≤ 1 ∧
      x = tr.countP (fun e => e.call.isCommit ∧ a ≤ e.call.now) -
        ∫ s in (a : ℝ)..(1 : ℝ≥0), 1 / ((g₀.inForce tr s.toNNReal : ℝ≥0) : ℝ)}
      (((g.nextAt 1 : ℝ) - (1 : ℝ≥0)) / g.interval) := by
  have hfirst : rateToInterval (1 : ℝ) = some (1 : ℝ≥0) := by
    have h := exactInterval nano_le_one one_le_durationMax
    rwa [NNReal.coe_one, one_div_one] at h
  have htwo : (2 : ℝ≥0) ≤ durationMax := le_durationMax (by norm_num)
  let g₀ : Gcra ℝ≥0 := { interval := 1, tat := 0 }
  let g₁ := g₀.commit 0
  let g₂ := g₁.commit 0
  have hnew : Gcra.new (1 : ℝ) (0 : ℝ≥0) = some g₀ := by
    unfold Gcra.new
    rw [hfirst]
    rfl
  obtain ⟨g₃, hset⟩ := g₂.setRate_isSome 1 (exactInterval (nano_le_one.trans one_le_two) htwo)
  have hinterval : g₃.interval = 2 := by
    have h := (Gcra.setRate_cases hset).1
    rw [exactInterval (nano_le_one.trans one_le_two) htwo] at h
    exact (Option.some.inj h).symm
  -- one second after the two commits one unit is left
  have hphase : g₂.phase 1 = 1 := by
    have hzero : g₀.phase 0 = 0 := (Gcra.phase_eq_zero (show (0 : ℝ≥0) < 1 from one_pos)).mpr le_rfl
    have hfull : g₂.phase 0 = 1 + 1 := by
      rw [g₁.commit_phase_succ 0 one_pos, g₀.commit_phase_succ 0 one_pos, hzero, zero_add]
    have hunit : (g₂.interval : ℝ) = 1 := rfl
    rw [g₂.phase_later zero_le_one, hfull, hunit]
    norm_num
  let tr : List (PacerEntry ℝ≥0 ℝ) := [{ call := .commit 0, before := g₀, after := g₁ },
    { call := .commit 0, before := g₁, after := g₂ },
    { call := .setRate (1 / ((2 : ℝ≥0) : ℝ)) 1, before := g₂, after := g₃ }]
  have hrun : Run Gcra.Step (g₀, 0) tr (g₃, 1) := by
    refine .cons (s := (g₁, 0)) ⟨⟨rfl, rfl, rfl⟩, le_rfl, rfl⟩ ?_
    refine .cons (s := (g₂, 0)) ⟨⟨rfl, rfl, rfl⟩, le_rfl, rfl⟩ ?_
    exact .single ⟨⟨rfl, rfl, hset⟩, zero_le_one, rfl⟩
  have hfits : ∀ e ∈ tr, e.Fits := by
    intro e he hcall
    simp only [tr, List.mem_cons, List.not_mem_nil, or_false] at he
    rcases he with rfl | rfl | rfl
    · cases hcall
    · cases hcall
    · show g₂.phase 1 * g₃.interval ≤ _
      rw [hphase, hinterval, one_mul]
      exact NNReal.coe_le_coe.mpr htwo
  exact ⟨g₀, g₃, tr, hnew, hrun, rfl, hfits, gcra_is_leaky_bucket hnew hrun hfits le_rfl⟩

end

/-! ## The dispatches of a controller -/

section

open scoped NNReal
open MeasureTheory Set

variable {R : Type} [Rng R ℝ] {c₀ c : EndpointController ℝ≥0 ℝ R} {e : Entry ℝ≥0 ℝ R} {tr rest : List (Entry ℝ≥0 ℝ R)}
variable {start clock now a b : ℝ≥0}

/-- What a call pours into the pacer. -/
noncomputable def Entry.event? (e : Entry ℝ≥0 ℝ R) : Option Bucket.Event :=
  e.call.now?.map fun now : ℝ≥0 => {
    instant := now, poured := if e.dispatched?.isSome then 1 else 0, rate := (e.after.pacer.interval : ℝ)⁻¹ }

/-- **The controller's pacer refines a leaky bucket** of one unit. -/
theorem run_events (h0 : FreshAt c₀ start) (h : Run TimedStep (c₀, start) tr (c, clock)) :
    Run Bucket.Step (Gcra.bucket (c₀.pacer, start)) (tr.filterMap Entry.event?) (Gcra.bucket (c.pacer, clock)) := by
  obtain ⟨hI, hp⟩ := run_bounded h0 (.nil : Run TimedStep (c₀, start) [] (c₀, start))
  refine (h.simulation (P := fun s => 0 < s.1.pacer.interval ∧ s.1.pacer.phase s.2 ≤ 1)
    (f := fun s => Gcra.bucket (s.1.pacer, s.2)) (A := Bucket.Step) (g := Entry.event?) ⟨hI, hp start le_rfl⟩ ?_).2
  intro s e _ s' hs hP
  obtain ⟨hI, hp⟩ := hP
  obtain ⟨hstep, ⟨t, hnow, hle, hclock⟩ | ⟨hcall, hsame, hclock⟩⟩ := TimedStep.cases hs
  · have hp := s.1.pacer.phase_le_one_later hle hp
    have hpac : Pacing s.1 e s'.1 := hstep.pacing
    have hlevel := Gcra.bucket_levelAt s.1.pacer hle
    have hafter : e.after.pacer = s'.1.pacer := congrArg EndpointController.pacer hstep.2.1
    have hevent : e.event? = some {
        instant := t, poured := if e.dispatched?.isSome then 1 else 0, rate := (s'.1.pacer.interval : ℝ)⁻¹ } := by
      rw [Entry.event?, hnow, hafter]
      rfl
    rw [hevent, hclock]
    obtain ⟨hI', ⟨hd, hphase⟩ | ⟨hd, hzero, hphase⟩⟩ := hpac.phase hnow hI hp
    · refine ⟨⟨hI', hphase.trans_le hp⟩, NNReal.coe_le_coe.mpr hle, inv_nonneg.mpr (NNReal.coe_nonneg _), ?_⟩
      rw [hlevel, hd, Gcra.bucket, hphase]
      simp
    · refine ⟨⟨hI', hphase.le⟩, NNReal.coe_le_coe.mpr hle, inv_nonneg.mpr (NNReal.coe_nonneg _), ?_⟩
      rw [hlevel, hd, hzero, Gcra.bucket, hphase]
      simp
  · have hevent : e.event? = none := by
      rw [Entry.event?, hcall]
      rfl
    rw [hevent, hsame, hclock]
    exact ⟨⟨hI, hp⟩, rfl⟩

omit [Rng R ℝ] in
theorem leak_rateInForce (c₀ : EndpointController ℝ≥0 ℝ R) (tr : List (Entry ℝ≥0 ℝ R)) {s : ℝ} (hs : 0 ≤ s) :
    Bucket.leak (c₀.pacer.interval : ℝ)⁻¹ (tr.filterMap Entry.event?) s =
      1 / ((inForce c₀ tr s.toNNReal : ℝ≥0) : ℝ) := by
  rw [one_div]
  induction tr using List.reverseRecOn with
  | nil => rfl
  | append_singleton tr e ih =>
    rw [List.filterMap_append, List.filterMap_cons, List.filterMap_nil, inForce_snoc, Entry.event?, Entry.overlay]
    cases e.call.now? with
    | none =>
      dsimp only [Option.map_none]
      rw [List.append_nil]
      exact ih
    | some t =>
      have hiff : (t : ℝ) ≤ s ↔ t ≤ s.toNNReal := (Real.le_toNNReal_iff_coe_le hs).symm
      dsimp only [Option.map_some]
      rw [Bucket.leak_snoc, Bucket.Event.overlay, ih]
      simp only [hiff]
      split <;> rfl

omit [Rng R ℝ] in
/-- What is poured are the dispatches. -/
theorem poured_dispatches (tr : List (Entry ℝ≥0 ℝ R)) (a b : ℝ≥0) :
    Bucket.poured (tr.filterMap Entry.event?) a b = (dispatchInstants tr).countP (fun t => a ≤ t ∧ t ≤ b) := by
  induction tr using List.reverseRecOn with
  | nil => simp [Bucket.poured, dispatchInstants]
  | append_singleton tr e ih =>
    rw [List.filterMap_append, List.filterMap_cons, List.filterMap_nil, dispatchInstants_snoc, List.countP_append,
      Nat.cast_add, ← ih, Entry.event?]
    cases e.call.now? with
    | none =>
      dsimp only [Option.map_none]
      rw [List.append_nil, ite_self, Option.toList_none, List.countP_nil, Nat.cast_zero, add_zero]
    | some t =>
      dsimp only [Option.map_some]
      rw [Bucket.poured_snoc]
      simp only [NNReal.coe_le_coe]
      cases e.dispatched?.isSome with
      | false =>
        rw [if_neg Bool.false_ne_true, if_neg Bool.false_ne_true, ite_self, Option.toList_none, List.countP_nil,
          Nat.cast_zero]
      | true =>
        rw [if_pos rfl, if_pos rfl, Option.toList_some, List.countP_singleton]
        by_cases hin : a ≤ t ∧ t ≤ b <;> simp [hin]

/-- **The dispatches of a window conform to the rate in force.** In every history with a clock that does not move back, the
dispatches of any window, their number less one, are at most the integral over the window of the rate in force. -/
theorem run_conforms (h0 : FreshAt c₀ start) (h : Run TimedStep (c₀, start) tr (c, clock)) (ha : start ≤ a)
    (hab : a ≤ b) : ((dispatchInstants tr).countP (fun t => a ≤ t ∧ t ≤ b) : ℝ) ≤
      1 + ∫ s in (a : ℝ)..b, 1 / ((inForce c₀ tr s.toNNReal : ℝ≥0) : ℝ) := by
  obtain ⟨before, after, ⟨m, t₁⟩, rfl, hbefore, hle, -, -, hlater⟩ := h.upTo (ha.trans hab)
  have hle : t₁ ≤ b := hle
  -- nothing of what came after counts
  have hafter : (dispatchInstants after).countP (fun t => a ≤ t ∧ t ≤ b) = 0 := by
    rw [List.countP_eq_zero]
    intro t ht hin
    obtain ⟨e, he, hsome⟩ := List.mem_filterMap.mp ht
    split at hsome
    · exact absurd (of_decide_eq_true hin).2 (not_le.mpr (hlater e he t hsome))
    · cases hsome
  have hcount : (dispatchInstants (before ++ after)).countP (fun t => a ≤ t ∧ t ≤ b) =
      (dispatchInstants before).countP (fun t => a ≤ t ∧ t ≤ b) := by
    rw [dispatchInstants, List.filterMap_append, List.countP_append]
    exact congrArg (_ + ·) hafter
  obtain ⟨hI, hp⟩ := run_bounded h0 (.nil : Run TimedStep (c₀, start) [] (c₀, start))
  have hempty : (Gcra.bucket (c₀.pacer, start)).level = 0 := by
    obtain ⟨config, rng, controllerId, hn⟩ := h0
    obtain ⟨_, _, _, _, _, _, _, _, hpacer, rfl⟩ := newWithRng_cases hn
    exact (Gcra.phase_eq_zero hI).mpr (Gcra.new_cases hpacer).2.le
  have hpoured : ∀ x ∈ before.filterMap Entry.event?, 0 ≤ x.poured := by
    intro x hx
    obtain ⟨e, -, hsome⟩ := List.mem_filterMap.mp hx
    obtain ⟨t, -, rfl⟩ := Option.map_eq_some_iff.mp hsome
    dsimp only
    split <;> norm_num
  have hwindow := Bucket.run_poured_le (run_events h0 hbefore) hempty (inv_nonneg.mpr (NNReal.coe_nonneg _)) hpoured
    (NNReal.coe_le_coe.mpr hle) (NNReal.coe_le_coe.mpr ha) (NNReal.coe_le_coe.mpr hab)
  have hphase := (run_bounded h0 hbefore).2 b hle
  rw [poured_dispatches, Gcra.bucket_levelAt _ hle] at hwindow
  rw [hcount]
  refine hwindow.trans (add_le_add hphase (intervalIntegral.integral_congr_Ioo_of_le (NNReal.coe_le_coe.mpr hab)
    fun s hs => ?_).le)
  have hs0 : 0 ≤ s := a.coe_nonneg.trans hs.1.le
  have hsb : s.toNNReal < b := (Real.toNNReal_lt_iff_lt_coe hs0).mpr hs.2
  have hrate : Bucket.leak (Gcra.bucket (c₀.pacer, start)).rate (before.filterMap Entry.event?) s = _ :=
    leak_rateInForce c₀ before hs0
  rw [hrate, inForce_later fun e he t ht => hsb.trans (hlater e he t ht)]

end

/-! ## The requests in flight -/

section

variable {T F R : Type} [AddCommMonoid T] [LinearOrder T] [Sub T] [Time T] [F64 F] [Secs T F] [Rng R F]
variable {c₀ c c' : EndpointController T F R} {e : Entry T F R} {tr : List (Entry T F R)} {q : InFlightRequest T}

/-- A dispatch issues a request of its controller and of its instant. -/
theorem Step.issued_request (h : Step c e c') (hq : e.dispatched?.map Prod.snd = some q) :
    q.controllerId = c.controllerId ∧ e.call.now? = some q.dispatchedAt := by
  rcases h.ledger.kinds with ⟨_, _, _, _, now, hc, hd, rfl, _⟩ | ⟨_, _, _, _, _, _, _, hd, _⟩ | ⟨_, _, hd, _⟩ | ⟨hd, _⟩
  · rw [Entry.dispatched?, hd] at hq
    obtain rfl := Option.some.inj hq
    exact ⟨rfl, by rw [hc]; rfl⟩
  all_goals rw [Entry.dispatched?, hd] at hq; cases hq

/-- The requests of a history are the controller's own, one for each dispatch. -/
theorem run_requests (h : Run Step c₀ tr c) : (requestsIssued tr).map InFlightRequest.dispatchedAt = dispatchInstants tr ∧
    ∀ q ∈ requestsIssued tr, q.controllerId = c₀.controllerId := by
  induction h with
  | nil => exact ⟨rfl, fun q hq => by cases hq⟩
  | @snoc tr m e c hr he ih =>
    obtain ⟨htimes, hown⟩ := ih
    rw [dispatchInstants_snoc, ← htimes, requestsIssued, List.filterMap_append, List.map_append]
    have hid := (run_fixed hr).1
    cases hd : e.dispatched? with
    | none =>
      simp only [List.filterMap_cons, hd, Option.map_none, List.filterMap_nil, List.append_nil, Option.isSome_none,
        Bool.false_eq_true, if_false, Option.toList_none, List.map_nil]
      exact ⟨rfl, hown⟩
    | some x =>
      obtain ⟨hq, hnow⟩ := he.issued_request (q := x.2) (by rw [hd]; rfl)
      simp only [List.filterMap_cons, hd, Option.map_some, List.filterMap_nil, Option.isSome_some, if_true, hnow,
        Option.toList_some, List.map_cons, List.map_nil, List.mem_append, List.mem_singleton]
      refine ⟨rfl, fun q h => ?_⟩
      rcases h with h | rfl
      · exact hown q h
      · exact hq.trans hid

/-- Each of the controller's own requests that is used up is released. -/
theorem run_releases (h : Run Step c₀ tr c) :
    (releases tr).length = (requestsUsed tr).countP (fun q => q.controllerId = c₀.controllerId) := by
  induction h with
  | nil => rfl
  | @snoc tr m e c hr he ih =>
    rw [releases, List.filterMap_append, List.length_append, requestsUsed, List.filterMap_append, List.countP_append]
    refine congrArg₂ (· + ·) ih ?_
    have hid : e.before.controllerId = c₀.controllerId := he.1 ▸ (run_fixed hr).1
    unfold Entry.ownRelease? Entry.used? ownReleaseOf
    rw [List.filterMap_cons, List.filterMap_cons, hid]
    cases e.call.release? with
    | none => rfl
    | some x =>
      by_cases hx : x.1.controllerId = c₀.controllerId <;> simp [hx]

/-- What is in flight was dispatched lately, when everything older has been used up. -/
theorem inflight_le_recent (h0 : Fresh c₀) (h : Run Step c₀ tr c) {old : InFlightRequest T → Bool}
    (hanswered : ((requestsIssued tr).filter old : Multiset (InFlightRequest T)) ≤ requestsUsed tr) :
    c.inflight ≤ (requestsIssued tr).countP (fun q => !old q) := by
  have hinflight := (run_accounts h0 h).inflight
  have hown := (run_requests h).2
  have hdispatched : (dispatched tr).length = (requestsIssued tr).length := by
    simp [requestsIssued, dispatched, List.length_filterMap_eq_countP]
  have hused : ((requestsIssued tr).filter old).length ≤ (releases tr).length := by
    have hfilter := Multiset.card_le_card
      (Multiset.filter_le_filter (fun q => q.controllerId = c₀.controllerId) hanswered)
    rw [Multiset.filter_coe, Multiset.filter_coe, Multiset.coe_card, Multiset.coe_card] at hfilter
    rw [run_releases h, List.countP_eq_length_filter]
    rwa [List.filter_eq_self.mpr] at hfilter
    exact fun q hq => decide_eq_true (hown q (List.mem_of_mem_filter hq))
  have hsplit := List.length_eq_countP_add_countP old (l := requestsIssued tr)
  rw [List.countP_eq_length_filter (p := old)] at hsplit
  have hrest : (requestsIssued tr).countP (fun q => decide ¬old q = true) = (requestsIssued tr).countP (fun q => !old q) := by
    refine List.countP_congr fun q _ => ?_
    simp
  omega

end

section

open scoped NNReal
open MeasureTheory

variable {R : Type} [Rng R ℝ] {c₀ c : EndpointController ℝ≥0 ℝ R} {tr : List (Entry ℝ≥0 ℝ R)} {start clock now D : ℝ≥0}

/-- **The requests in flight conform to the rate in force.** When every request dispatched more than `D` ago has been
released, the requests in flight, less one, are at most the integral of the rate in force over the last `D`. -/
theorem inflight_conforms (h0 : FreshAt c₀ start) (h : Run TimedStep (c₀, start) tr (c, clock)) (hnow : clock ≤ now)
    (hanswered : ((requestsIssued tr).filter (fun q => q.dispatchedAt + D < now) : Multiset (InFlightRequest ℝ≥0)) ≤
      requestsUsed tr) :
    (c.inflight : ℝ) ≤
      1 + ∫ s in ((max start (now - D) : ℝ≥0) : ℝ)..now, 1 / ((inForce c₀ tr s.toNNReal : ℝ≥0) : ℝ) := by
  have hstart := run_clock_le h
  have hwindow := run_conforms h0 h (le_max_left start (now - D)) (max_le (hstart.trans hnow) tsub_le_self)
  refine le_trans (Nat.cast_le.mpr ?_) hwindow
  rw [← (run_requests h.untimed).1, List.countP_map]
  refine (inflight_le_recent h0.fresh h.untimed hanswered).trans (List.countP_mono_left fun q hq hrecent => ?_)
  have hrecent : now ≤ q.dispatchedAt + D := by simpa using hrecent
  -- a request of the history was dispatched between its start and its clock
  have hlife : start ≤ q.dispatchedAt ∧ q.dispatchedAt ≤ clock := by
    obtain ⟨e, he, hissued⟩ := List.mem_filterMap.mp hq
    obtain ⟨before, after, m, m', rfl, hbefore, hstep, hafter⟩ := h.of_mem he
    have hqnow := (hstep.1.issued_request hissued).2
    obtain ⟨-, ⟨t, ht, hle, hclock⟩ | ⟨hcall, -, -⟩⟩ := hstep.cases
    · obtain rfl := Option.some.inj (hqnow.symm.trans ht)
      obtain ⟨m, t₁⟩ := m
      obtain ⟨m', t₂⟩ := m'
      obtain rfl : t₂ = q.dispatchedAt := hclock
      exact ⟨(run_clock_le hbefore).trans hle, run_clock_le hafter⟩
    · rw [hcall] at hqnow
      cases hqnow
  exact decide_eq_true ⟨max_le hlife.1 (tsub_le_iff_right.mpr hrecent), hlife.2.trans hnow⟩

/-- The first request was given up, and the second one is in flight. -/
theorem inflight_conforms_two : ∃ (c₀ c : EndpointController ℝ≥0 ℝ Unit) (tr : List (Entry ℝ≥0 ℝ Unit)),
    FreshAt c₀ 0 ∧ Run TimedStep (c₀, 0) tr (c, 2) ∧ requestsIssued tr = [⟨7, 0, false⟩, ⟨7, 2, false⟩] ∧
    requestsUsed tr = [⟨7, 0, false⟩] ∧ c.inflight = 1 ∧
    (c.inflight : ℝ) ≤ 1 + ∫ s in ((max 0 (3 - 1) : ℝ≥0) : ℝ)..(3 : ℝ≥0),
      1 / ((inForce c₀ tr s.toNNReal : ℝ≥0) : ℝ) := by
  obtain ⟨c₀, m, h0, hrun, hid₀, hid, -, -, hidle⟩ := exactSample_abandoned ()
  let given : Entry ℝ≥0 ℝ Unit := ⟨.finish ⟨7, 0, false⟩ .abandoned 0, .finished true, c₀.begun 0, m⟩
  have hissued : requestsIssued [c₀.reserving 0, c₀.dispatching 0, given, m.reserving 2, m.dispatching 2] =
      [⟨7, 0, false⟩, ⟨7, 2, false⟩] := by
    rw [← hid₀]
    nth_rewrite 2 [hid₀]
    rw [← hid]
    rfl
  have hlate : (2 : ℝ≥0) ≤ 3 := by norm_num
  refine ⟨c₀, m.begun 2, _, h0, hrun, hissued, rfl, begun_inflight hidle, inflight_conforms h0 hrun hlate ?_⟩
  -- only the first request is older than one second
  have hold : (0 : ℝ≥0) + 1 < 3 := by norm_num
  have hrecent : ¬(2 : ℝ≥0) + 1 < 3 := by norm_num
  have hfilter : (requestsIssued [c₀.reserving 0, c₀.dispatching 0, given, m.reserving 2, m.dispatching 2]).filter
      (fun q => q.dispatchedAt + 1 < 3) = [⟨7, 0, false⟩] := by
    rw [hissued]
    simp only [List.filter_cons, List.filter_nil, hold, hrecent, decide_true, decide_false, if_true, Bool.false_eq_true, if_false]
  rw [hfilter]
  exact le_rfl

end

end Loadpace
