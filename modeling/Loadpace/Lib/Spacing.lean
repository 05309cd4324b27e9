import Mathlib.Algebra.Order.Ring.Defs
import Mathlib.Data.List.Chain
import Mathlib.Data.Real.Basic
import Mathlib.Tactic.Linarith
import Mathlib.Tactic.Ring

/-!
# Counting spaced instants

Instants that follow each other at a bounded rate: after an instant `a` the next one is at least `1 / rate a` later, and the
rate never rises. A window then holds fewer instants than one more than its length times the rate at its start
(`Spaced.count_window`). Where the instants are a fixed distance apart, it holds at most one more than its length divided by
the distance (`count_apart`).
-/

namespace Spacing

/-- The instants are in order, and each leaves a unit of its rate before the next. -/
def Spaced (rate : ℝ → ℝ) (ts : List ℝ) : Prop := ts.IsChain fun a b => a ≤ b ∧ 1 ≤ (b - a) * rate a

variable {rate : ℝ → ℝ} {ts : List ℝ} {lo hi a : ℝ}

/-- No instant of an ordered list is before its first. -/
theorem Spaced.head_le (h : Spaced rate (a :: ts)) : ∀ t ∈ ts, a ≤ t := by
  have hsorted : (a :: ts).IsChain (· ≤ ·) := h.imp fun _ _ hab => hab.1
  exact fun t ht => List.rel_of_pairwise_cons hsorted.pairwise ht

/-- The instants up to `hi`, from one in the window on. -/
theorem Spaced.count_le (hrate : Antitone rate) (h0 : 0 ≤ rate lo) (h : Spaced rate (a :: ts)) (hlo : lo ≤ a)
    (hhi : a ≤ hi) : ((a :: ts).countP (· ≤ hi) : ℝ) ≤ 1 + (hi - a) * rate lo := by
  induction ts generalizing a with
  | nil =>
    have hpos : 0 ≤ (hi - a) * rate lo := mul_nonneg (sub_nonneg.mpr hhi) h0
    simp only [List.countP_cons, List.countP_nil, hhi, decide_true, if_true, zero_add, Nat.cast_one]
    linarith
  | cons b ts ih =>
    obtain ⟨⟨hab, hunit⟩, hrest⟩ := List.isChain_cons_cons.mp h
    have hcount : (a :: b :: ts).countP (· ≤ hi) = (b :: ts).countP (· ≤ hi) + 1 := by
      rw [List.countP_cons]
      simp only [hhi, decide_true, if_true]
    rw [hcount, Nat.cast_add, Nat.cast_one]
    by_cases hb : b ≤ hi
    · have hle := ih hrest (hlo.trans hab) hb
      -- the unit between the two is also drained at the rate of the window's start
      have hunit' : 1 ≤ (b - a) * rate lo :=
        hunit.trans (mul_le_mul_of_nonneg_left (hrate hlo) (sub_nonneg.mpr hab))
      have hsplit : (hi - a) * rate lo = (b - a) * rate lo + (hi - b) * rate lo := by ring
      linarith
    · -- nothing from `b` on counts
      have hnone : (b :: ts).countP (· ≤ hi) = 0 := by
        rw [List.countP_eq_zero]
        intro t ht hle
        have hbt : b ≤ t := by
          rcases List.mem_cons.mp ht with rfl | ht
          · exact le_rfl
          · exact Spaced.head_le hrest t ht
        exact hb (hbt.trans (of_decide_eq_true hle))
      have hpos : 0 ≤ (hi - a) * rate lo := mul_nonneg (sub_nonneg.mpr hhi) h0
      rw [hnone, Nat.cast_zero]
      linarith

/-- **A window holds at most one instant more than its length at the rate of its start.** -/
theorem Spaced.count_window (hrate : Antitone rate) (h0 : 0 < rate lo) (h : Spaced rate ts) (hlt : lo < hi) :
    (ts.countP (fun t => lo < t ∧ t ≤ hi) : ℝ) < 1 + (hi - lo) * rate lo := by
  have hpos : 0 < (hi - lo) * rate lo := mul_pos (sub_pos.mpr hlt) h0
  induction ts with
  | nil =>
    rw [List.countP_nil, Nat.cast_zero]
    linarith
  | cons a ts ih =>
    by_cases ha : lo < a
    · by_cases hb : a ≤ hi
      · have hle := h.count_le hrate h0.le ha.le hb
        have hmono : (a :: ts).countP (fun t => lo < t ∧ t ≤ hi) ≤ (a :: ts).countP (· ≤ hi) :=
          List.countP_mono_left fun t _ ht => decide_eq_true (of_decide_eq_true ht).2
        have hcast : ((a :: ts).countP (fun t => lo < t ∧ t ≤ hi) : ℝ) ≤ ((a :: ts).countP (· ≤ hi) : ℝ) :=
          Nat.cast_le.mpr hmono
        have hgap : (hi - a) * rate lo < (hi - lo) * rate lo := mul_lt_mul_of_pos_right (by linarith) h0
        linarith
      · have hnone : (a :: ts).countP (fun t => lo < t ∧ t ≤ hi) = 0 := by
          rw [List.countP_eq_zero]
          intro t ht hle
          have hat : a ≤ t := by
            rcases List.mem_cons.mp ht with rfl | ht
            · exact le_rfl
            · exact h.head_le t ht
          exact hb (hat.trans (of_decide_eq_true hle).2)
        rw [hnone, Nat.cast_zero]
        linarith
    · have hskip : (a :: ts).countP (fun t => lo < t ∧ t ≤ hi) = ts.countP (fun t => lo < t ∧ t ≤ hi) := by
        rw [List.countP_cons]
        simp only [ha, false_and, decide_false, Bool.false_eq_true, if_false, add_zero]
      rw [hskip]
      cases ts with
      | nil =>
        rw [List.countP_nil, Nat.cast_zero]
        linarith
      | cons b ts => exact ih (List.isChain_cons_cons.mp h).2

/-- Two windows side by side. -/
theorem count_split {mid : ℝ} (hlo : lo ≤ mid) (hhi : mid ≤ hi) (ts : List ℝ) :
    ts.countP (fun t => lo < t ∧ t ≤ hi) =
      ts.countP (fun t => lo < t ∧ t ≤ mid) + ts.countP (fun t => mid < t ∧ t ≤ hi) := by
  induction ts with
  | nil => rfl
  | cons t ts ih =>
    rw [List.countP_cons, List.countP_cons, List.countP_cons, ih]
    rcases le_or_gt t mid with ht | ht
    · have hno : ¬(mid < t ∧ t ≤ hi) := fun h => absurd h.1 (not_lt.mpr ht)
      have hiff : (lo < t ∧ t ≤ hi) ↔ (lo < t ∧ t ≤ mid) :=
        ⟨fun h => ⟨h.1, ht⟩, fun h => ⟨h.1, ht.trans hhi⟩⟩
      simp only [hno, hiff, decide_false, Bool.false_eq_true, if_false, add_zero]
      omega
    · have hno : ¬(lo < t ∧ t ≤ mid) := fun h => absurd h.2 (not_le.mpr ht)
      have hiff : (lo < t ∧ t ≤ hi) ↔ (mid < t ∧ t ≤ hi) :=
        ⟨fun h => ⟨ht, h.2⟩, fun h => ⟨hlo.trans_lt ht, h.2⟩⟩
      simp only [hno, hiff, decide_false, Bool.false_eq_true, if_false, add_zero]
      omega

/-! ## A fixed distance -/

section Apart

variable {T : Type*} [AddCommMonoid T] [LinearOrder T] [IsOrderedAddMonoid T]

/-- **A window shorter than `k + 1` distances** holds at most `k + 1` instants that are a distance apart. -/
theorem count_apart {ts : List T} {D lo hi : T} {k : ℕ} (h : ts.Pairwise fun a b => a + D ≤ b)
    (hk : hi < lo + (k + 1) • D) : ts.countP (fun t => lo ≤ t ∧ t ≤ hi) ≤ k + 1 := by
  induction ts generalizing lo k with
  | nil => exact Nat.zero_le _
  | cons a ts ih =>
    obtain ⟨hfirst, hrest⟩ := List.pairwise_cons.mp h
    rw [List.countP_cons]
    by_cases ha : lo ≤ a ∧ a ≤ hi
    · -- the others are a distance later
      have hlater : ∀ b ∈ ts, lo + D ≤ b := fun b hb => (add_le_add_left ha.1 D).trans (hfirst b hb)
      have hshift : ts.countP (fun t => lo ≤ t ∧ t ≤ hi) ≤ ts.countP (fun t => lo + D ≤ t ∧ t ≤ hi) :=
        List.countP_mono_left fun b hb hin => decide_eq_true ⟨hlater b hb, (of_decide_eq_true hin).2⟩
      rw [if_pos (decide_eq_true ha)]
      refine Nat.succ_le_succ (hshift.trans ?_)
      cases k with
      | zero =>
        rw [Nat.zero_add, one_nsmul] at hk
        refine (List.countP_eq_zero.mpr fun b hb hin => ?_).le
        exact absurd ((of_decide_eq_true hin).2.trans_lt hk) (not_lt.mpr (hlater b hb))
      | succ k =>
        refine ih hrest ?_
        rw [add_assoc, ← succ_nsmul']
        exact hk
    · rw [if_neg (by simpa using ha), Nat.add_zero]
      exact ih hrest hk

end Apart

end Spacing
