import Loadpace.Lib.Contraction
import Mathlib.Algebra.BigOperators.Intervals
import Mathlib.Algebra.BigOperators.Ring.Finset

/-!
# Exponential averages

An `average` moves to each sample by a fixed share of the way. What it was decays geometrically, and every sample keeps the
weight of its age (`average_eq`, `average_zero`); samples on one side of a bound bring it there geometrically (`average_le`,
`le_average`).
-/

namespace Smoothing

open Contraction

variable {F : Type*} [Field F] [LinearOrder F] [IsStrictOrderedRing F] {α x s bound B : F} {samples : List F}

/-- One sample. -/
def smooth (α x s : F) : F := (1 - α) * x + α * s

/-- The exponential average of samples, oldest first, of an estimate that was `x`. -/
def average (α x : F) (samples : List F) : F := samples.foldl (smooth α) x

omit [LinearOrder F] [IsStrictOrderedRing F] in
theorem average_append (α x : F) (samples samples' : List F) :
    average α x (samples ++ samples') = average α (average α x samples) samples' := List.foldl_append

omit [LinearOrder F] [IsStrictOrderedRing F] in
/-- What the estimate was decays with each sample. -/
theorem average_eq (α x : F) (samples : List F) :
    average α x samples = (1 - α) ^ samples.length * x + average α 0 samples := by
  induction samples using List.reverseRecOn with
  | nil => simp [average]
  | append_singleton samples s ih =>
    rw [average_append, average_append, ih, List.length_append, List.length_singleton]
    show (1 - α) * _ + α * s = _ + ((1 - α) * _ + α * s)
    ring

omit [LinearOrder F] [IsStrictOrderedRing F] in
/-- A sample has the weight of its age. -/
theorem average_zero (α : F) (samples : List F) :
    average α 0 samples =
      α * ∑ i ∈ Finset.range samples.length, (1 - α) ^ (samples.length - 1 - i) * samples.getD i 0 := by
  induction samples with
  | nil => simp [average]
  | cons s samples ih =>
    have hfirst : average α 0 (s :: samples) = average α (α * s) samples := by
      show average α (smooth α 0 s) samples = _
      rw [smooth, mul_zero, zero_add]
    have hrest : ∀ i ∈ Finset.range samples.length,
        (1 - α) ^ (samples.length - (i + 1)) * (s :: samples).getD (i + 1) 0 =
          (1 - α) ^ (samples.length - 1 - i) * samples.getD i 0 := by
      intro i _
      rw [List.getD_cons_succ, Nat.sub_sub, Nat.add_comm 1 i]
    rw [hfirst, average_eq, ih, List.length_cons, Nat.add_sub_cancel, Finset.sum_range_succ', Finset.sum_congr rfl hrest,
      List.getD_cons_zero, Nat.sub_zero]
    ring

omit [LinearOrder F] [IsStrictOrderedRing F] in
/-- The bound is a fixed point. -/
theorem smooth_self (α bound : F) : smooth α bound bound = bound := by
  unfold smooth
  ring

theorem smooth_contracts (h1 : α ≤ 1) (s : F) : Contracts (1 - α) fun x => smooth α x s :=
  affine (sub_nonneg.mpr h1) (α * s)

/-- Samples up to a bound bring the average there. -/
theorem average_le (h0 : 0 ≤ α) (h1 : α ≤ 1) (hs : ∀ s ∈ samples, s ≤ bound) (hB : 0 ≤ B) (hx : x ≤ bound + B) :
    average α x samples ≤ bound + (1 - α) ^ samples.length * B := by
  induction samples generalizing x B with
  | nil => simpa [average] using hx
  | cons s samples ih =>
    obtain ⟨hs, hrest⟩ := List.forall_mem_cons.mp hs
    have hshare : 0 ≤ 1 - α := sub_nonneg.mpr h1
    have hstep : smooth α x s ≤ bound + (1 - α) * B :=
      calc smooth α x s ≤ smooth α x bound := by
            unfold smooth
            gcongr
        _ ≤ bound + (1 - α) * B := (smooth_contracts h1 bound).le_fixed (smooth_self α bound) hB hx
    have hlater := ih hrest (mul_nonneg hshare hB) hstep
    rwa [← mul_assoc, ← pow_succ] at hlater

/-- Samples from a bound on bring the average there. -/
theorem le_average (h0 : 0 ≤ α) (h1 : α ≤ 1) (hs : ∀ s ∈ samples, bound ≤ s) (hB : 0 ≤ B) (hx : bound - B ≤ x) :
    bound - (1 - α) ^ samples.length * B ≤ average α x samples := by
  induction samples generalizing x B with
  | nil => simpa [average] using hx
  | cons s samples ih =>
    obtain ⟨hs, hrest⟩ := List.forall_mem_cons.mp hs
    have hshare : 0 ≤ 1 - α := sub_nonneg.mpr h1
    have hstep : bound - (1 - α) * B ≤ smooth α x s :=
      calc bound - (1 - α) * B ≤ smooth α x bound :=
            (smooth_contracts h1 bound).fixed_le (smooth_self α bound) hB hx
        _ ≤ smooth α x s := by
            unfold smooth
            gcongr
    have hlater := ih hrest (mul_nonneg hshare hB) hstep
    rwa [← mul_assoc, ← pow_succ] at hlater

end Smoothing
