import Loadpace.Lib.Run
import Mathlib.MeasureTheory.Integral.IntervalIntegral.Basic

/-!
# Leaky buckets

A bucket leaks at a rate that changes with time, and not below empty; what is poured into it adds up. A run of `Step` is the
history of one bucket. What is in it at the end is the greatest inflow of the windows that end there (`run_level`): the
reflection of the cumulated inflow at zero. So what was poured within a window is at most what has leaked since, and what
is left (`run_poured_le`).
-/

namespace Bucket

open MeasureTheory Set Systems

/-- Something is poured in, and from then on the bucket leaks at the rate. -/
structure Event where
  instant : ℝ
  poured : ℝ
  rate : ℝ

structure State where
  clock : ℝ
  level : ℝ
  rate : ℝ

/-- What is left at an instant from the clock on. -/
noncomputable def State.levelAt (s : State) (now : ℝ) : ℝ := max 0 (s.level - (now - s.clock) * s.rate)

def Step (s : State) (e : Event) (s' : State) : Prop :=
  s.clock ≤ e.instant ∧ 0 ≤ e.rate ∧
    s' = { clock := e.instant, level := s.levelAt e.instant + e.poured, rate := e.rate }

/-- What a history pours in from `a` to `b`. -/
noncomputable def poured (tr : List Event) (a b : ℝ) : ℝ :=
  ((tr.filter fun e => a ≤ e.instant ∧ e.instant ≤ b).map Event.poured).sum

/-- From its instant on, the rate is that of the event. -/
noncomputable def Event.overlay (f : ℝ → ℝ) (e : Event) (t : ℝ) : ℝ := if e.instant ≤ t then e.rate else f t

/-- The rate at each instant of a history. -/
noncomputable def leak (rate : ℝ) (tr : List Event) : ℝ → ℝ := tr.foldl Event.overlay fun _ => rate

/-- What is poured from `a` to `b`, less what can leak meanwhile. -/
noncomputable def inflow (rate : ℝ) (tr : List Event) (a b : ℝ) : ℝ := poured tr a b - ∫ t in a..b, leak rate tr t

variable {s₀ s s' : State} {e : Event} {tr : List Event} {rate a b now t : ℝ}

/-! ## The history -/

theorem poured_snoc : poured (tr ++ [e]) a b = poured tr a b + if a ≤ e.instant ∧ e.instant ≤ b then e.poured else 0 := by
  unfold poured
  rw [List.filter_append, List.map_append, List.sum_append]
  split <;> simp_all

theorem leak_snoc : leak rate (tr ++ [e]) = e.overlay (leak rate tr) := by
  rw [leak, List.foldl_append]
  rfl

theorem leak_snoc_before (h : t < e.instant) : leak rate (tr ++ [e]) t = leak rate tr t := by
  rw [leak_snoc]
  exact if_neg (not_le.mpr h)

/-- A rate that changes finitely often is integrable. -/
theorem leak_integrable (rate : ℝ) (tr : List Event) (a b : ℝ) : IntervalIntegrable (leak rate tr) volume a b := by
  classical
  induction tr using List.reverseRecOn with
  | nil => exact intervalIntegrable_const
  | append_singleton tr e ih =>
    have hover : leak rate (tr ++ [e]) = (Ici e.instant).piecewise (fun _ => e.rate) (leak rate tr) := by
      rw [leak_snoc]
      funext t
      by_cases ht : e.instant ≤ t
      · rw [piecewise_eq_of_mem (Ici e.instant) _ _ ht]
        exact if_pos ht
      · rw [piecewise_eq_of_notMem (Ici e.instant) _ _ ht]
        exact if_neg ht
    have hconst : IntervalIntegrable (fun _ => e.rate) volume a b := intervalIntegrable_const
    rw [hover]
    rw [intervalIntegrable_iff] at ih hconst ⊢
    exact Integrable.piecewise measurableSet_Ici hconst.integrableOn ih.integrableOn

theorem run_clock_le (h : Run Step s₀ tr s) : s₀.clock ≤ s.clock :=
  h.invariant (P := fun s => s₀.clock ≤ s.clock) le_rfl fun _ _ _ hs hle => by
    obtain ⟨hinstant, -, rfl⟩ := hs
    exact hle.trans hinstant

theorem run_rate_nonneg (h : Run Step s₀ tr s) (h0 : 0 ≤ s₀.rate) : 0 ≤ s.rate :=
  h.invariant (P := fun s => 0 ≤ s.rate) h0 fun _ _ _ hs _ => by
    obtain ⟨-, hrate, rfl⟩ := hs
    exact hrate

theorem run_instant_le (h : Run Step s₀ tr s) : ∀ e ∈ tr, e.instant ≤ s.clock := by
  induction h with
  | nil => exact fun e he => by cases he
  | @snoc tr m e s hr he ih =>
    obtain ⟨hinstant, -, rfl⟩ := he
    intro x hx
    rcases List.mem_append.mp hx with hx | hx
    · exact (ih x hx).trans hinstant
    · rw [List.mem_singleton.mp hx]

/-- From the clock on, the bucket leaks at the last rate. -/
theorem run_leak (h : Run Step s₀ tr s) (ht : s.clock ≤ t) : leak s₀.rate tr t = s.rate := by
  induction h with
  | nil => rfl
  | snoc hr he ih =>
    obtain ⟨-, -, rfl⟩ := he
    rw [leak_snoc]
    exact if_pos ht

/-! ## The level -/

/-- Nothing is poured after the clock. -/
theorem run_poured_later (h : Run Step s₀ tr s) (hnow : s.clock ≤ now) : poured tr a now = poured tr a s.clock := by
  unfold poured
  congr 2
  refine List.filter_congr fun e he => ?_
  have hle := run_instant_le h e he
  simp only [hle, hle.trans hnow]

theorem run_poured_after (h : Run Step s₀ tr s) (ha : s.clock < a) : poured tr a now = 0 := by
  unfold poured
  rw [List.filter_eq_nil_iff.mpr]
  · rfl
  · intro e he hin
    have hle := run_instant_le h e he
    exact absurd (of_decide_eq_true hin).1 (not_le.mpr (hle.trans_lt ha))

/-- What leaks after the clock. -/
theorem run_leaked (h : Run Step s₀ tr s) (ha : s.clock ≤ a) (hb : a ≤ b) :
    ∫ t in a..b, leak s₀.rate tr t = (b - a) * s.rate := by
  have hconst : ∀ t ∈ Ioo a b, leak s₀.rate tr t = s.rate := fun t ht => run_leak h (ha.trans ht.1.le)
  rw [intervalIntegral.integral_congr_Ioo_of_le hb hconst, intervalIntegral.integral_const, smul_eq_mul]

/-- After the clock the inflow of a window that began before it only falls. -/
theorem run_inflow_later (h : Run Step s₀ tr s) (hnow : s.clock ≤ now) :
    inflow s₀.rate tr a now = inflow s₀.rate tr a s.clock - (now - s.clock) * s.rate := by
  have hadd := intervalIntegral.integral_add_adjacent_intervals (leak_integrable s₀.rate tr a s.clock)
    (leak_integrable s₀.rate tr s.clock now)
  rw [inflow, inflow, run_poured_later h hnow, ← hadd, run_leaked h le_rfl hnow]
  ring

/-- The inflow of a window that began after it is what has leaked. -/
theorem run_inflow_after (h : Run Step s₀ tr s) (ha : s.clock < a) (hnow : a ≤ now) :
    inflow s₀.rate tr a now = -((now - a) * s.rate) := by
  rw [inflow, run_poured_after h ha, run_leaked h ha.le hnow, zero_sub]

/-- What is poured adds to every window that ends with it. -/
theorem inflow_snoc (ha : a ≤ e.instant) :
    inflow rate (tr ++ [e]) a e.instant = inflow rate tr a e.instant + e.poured := by
  have hleak : ∫ t in a..e.instant, leak rate (tr ++ [e]) t = ∫ t in a..e.instant, leak rate tr t :=
    intervalIntegral.integral_congr_Ioo_of_le ha fun t ht => leak_snoc_before ht.2
  rw [inflow, inflow, poured_snoc, if_pos ⟨ha, le_rfl⟩, hleak]
  ring

/-- The inflows of the windows that end at `now`. -/
def inflows (rate : ℝ) (tr : List Event) (start now : ℝ) : Set ℝ := {x | ∃ a ∈ Icc start now, x = inflow rate tr a now}

/-- The greatest inflow leaks like a bucket. -/
theorem isGreatest_later (h : Run Step s₀ tr s) (h0 : 0 ≤ s₀.rate) (hpos : 0 ≤ s.level)
    (hlevel : IsGreatest (inflows s₀.rate tr s₀.clock s.clock) s.level) (hnow : s.clock ≤ now) :
    IsGreatest (inflows s₀.rate tr s₀.clock now) (s.levelAt now) := by
  have hstart := run_clock_le h
  have hrate := run_rate_nonneg h h0
  rcases hnow.eq_or_lt with rfl | hlt
  · have hsame : s.levelAt s.clock = s.level := by
      rw [State.levelAt, sub_self, zero_mul, sub_zero, max_eq_right hpos]
    rwa [hsame]
  · obtain ⟨⟨a, ha, hval⟩, hmax⟩ := hlevel
    constructor
    · rcases le_total (s.level - (now - s.clock) * s.rate) 0 with hx | hx
      · -- the bucket is empty, as is the window that begins now
        refine ⟨now, ⟨hstart.trans hnow, le_rfl⟩, ?_⟩
        rw [State.levelAt, max_eq_left hx, run_inflow_after h hlt le_rfl, sub_self, zero_mul, neg_zero]
      · refine ⟨a, ⟨ha.1, ha.2.trans hnow⟩, ?_⟩
        rw [State.levelAt, max_eq_right hx, run_inflow_later h hnow, hval]
    · rintro x ⟨a, ha, rfl⟩
      rcases le_or_gt a s.clock with hle | hgt
      · have hbound : inflow s₀.rate tr a s.clock ≤ s.level := hmax ⟨a, ⟨ha.1, hle⟩, rfl⟩
        rw [run_inflow_later h hnow]
        exact le_max_of_le_right (by linarith)
      · rw [run_inflow_after h hgt ha.2]
        refine le_max_of_le_left (neg_nonpos.mpr ?_)
        exact mul_nonneg (sub_nonneg.mpr ha.2) hrate

/-- **What is in a bucket that was empty at first is the greatest inflow of the windows that end now.** -/
theorem run_level (h : Run Step s₀ tr s) (h0 : s₀.level = 0) (hr : 0 ≤ s₀.rate) (hpoured : ∀ e ∈ tr, 0 ≤ e.poured)
    (hnow : s.clock ≤ now) : IsGreatest (inflows s₀.rate tr s₀.clock now) (s.levelAt now) := by
  suffices hs : 0 ≤ s.level ∧ IsGreatest (inflows s₀.rate tr s₀.clock s.clock) s.level from
    isGreatest_later h hr hs.1 hs.2 hnow
  clear hnow
  induction h with
  | nil =>
    refine ⟨h0.ge, ⟨s₀.clock, ⟨le_rfl, le_rfl⟩, ?_⟩, ?_⟩
    · rw [h0, inflow, intervalIntegral.integral_same]
      exact (sub_zero 0).symm
    · rintro x ⟨a, ha, rfl⟩
      obtain rfl := le_antisymm ha.1 ha.2
      rw [h0, inflow, intervalIntegral.integral_same]
      exact (sub_zero 0).le
  | @snoc tr m e s hr' he ih =>
    obtain ⟨hpos, hlevel⟩ := ih fun e he => hpoured e (List.mem_append_left _ he)
    obtain ⟨hinstant, -, rfl⟩ := he
    obtain ⟨⟨a, ha, hval⟩, hmax⟩ := isGreatest_later hr' hr hpos hlevel hinstant
    refine ⟨add_nonneg (le_max_left _ _) (hpoured e (List.mem_append_right _ List.mem_cons_self)), ⟨a, ha, ?_⟩, ?_⟩
    · rw [inflow_snoc ha.2, ← hval]
    · rintro x ⟨a, ha, rfl⟩
      rw [inflow_snoc ha.2]
      exact add_le_add_left (hmax ⟨a, ha, rfl⟩) _

/-- What was poured within a window is at most what can have leaked since, and what is left. -/
theorem run_poured_le (h : Run Step s₀ tr s) (h0 : s₀.level = 0) (hr : 0 ≤ s₀.rate) (hpoured : ∀ e ∈ tr, 0 ≤ e.poured)
    (hnow : s.clock ≤ now) (ha : s₀.clock ≤ a) (hle : a ≤ now) :
    poured tr a now ≤ s.levelAt now + ∫ t in a..now, leak s₀.rate tr t := by
  have hmax : inflow s₀.rate tr a now ≤ s.levelAt now := (run_level h h0 hr hpoured hnow).2 ⟨a, ⟨ha, hle⟩, rfl⟩
  rw [inflow] at hmax
  linarith

end Bucket
