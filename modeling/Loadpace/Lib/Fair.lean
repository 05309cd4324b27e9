import Loadpace.Lib.Run
import Mathlib.Algebra.Order.Group.Nat

/-!
# Fair runs

An `Endless` run of a transition system, and weak fairness to a class of labels: when one of them could be taken from some
moment on, one of them is taken (`Endless.Fair`). `Endless.eventually` is the rule for what fairness brings about: no step raises
a rank, a helpful class of labels can be taken, lowers the rank, and stays helpful until it does.
-/

namespace Systems

variable {σ ε ι : Type*} {step : σ → ε → σ → Prop}

/-- A rank that does not grow settles. -/
theorem settles {rank : ℕ → ℕ} {n : ℕ} (h : ∀ k, n ≤ k → rank (k + 1) ≤ rank k) :
    ∃ m, n ≤ m ∧ ∀ k, m ≤ k → rank k = rank m := by
  induction hr : rank n using Nat.strong_induction_on generalizing n with
  | _ r ih =>
    subst hr
    by_cases hlow : ∃ k, n ≤ k ∧ rank k < rank n
    · obtain ⟨k, hk, hlt⟩ := hlow
      obtain ⟨m, hm, hsame⟩ := ih _ hlt (fun j hj => h j (hk.trans hj)) rfl
      exact ⟨m, hk.trans hm, hsame⟩
    · push Not at hlow
      refine ⟨n, le_rfl, fun k hk => le_antisymm ?_ (hlow k hk)⟩
      induction k, hk using Nat.le_induction with
      | base => exact le_rfl
      | succ k hk ih => exact (h k hk).trans ih

/-- What ends, ends at a step. -/
theorem ends_at {P : ℕ → Prop} {n : ℕ} (hn : P n) (h : ∃ k, n ≤ k ∧ ¬P k) : ∃ k, n ≤ k ∧ P k ∧ ¬P (k + 1) := by
  by_contra hnever
  push Not at hnever
  have hall (k : ℕ) (hk : n ≤ k) : P k := by
    induction k, hk using Nat.le_induction with
    | base => exact hn
    | succ k hk ih => exact hnever k hk ih
  obtain ⟨k, hk, hend⟩ := h
  exact hend (hall k hk)

/-- A run without an end. -/
structure Endless (step : σ → ε → σ → Prop) where
  state : ℕ → σ
  label : ℕ → ε
  steps : ∀ k, step (state k) (label k) (state (k + 1))

/-- A label of the class can be taken. -/
def Enabled (step : σ → ε → σ → Prop) (s : σ) (L : ε → Prop) : Prop := ∃ e s', L e ∧ step s e s'

namespace Endless

variable (ρ : Endless step)

/-- **Weak fairness** to a class of labels. -/
def Fair (L : ε → Prop) : Prop :=
  ∀ n, (∀ k, n ≤ k → Enabled step (ρ.state k) L) → ∃ k, n ≤ k ∧ L (ρ.label k)

/-- What has happened so far is a run. -/
theorem run (k : ℕ) : Run step (ρ.state 0) ((List.range k).map ρ.label) (ρ.state k) := by
  induction k with
  | zero => exact .nil
  | succ k ih =>
    rw [List.range_succ, List.map_append]
    exact ih.snoc (ρ.steps k)

/-- **What fairness brings about.** Until `Q` holds each step keeps `P`, and lowers the rank, or leaves the rank and the helper
and is no step of the helper, which can take one. -/
theorem eventually (L : ι → ε → Prop) (P Q : ℕ → Prop) (rank : ℕ → ℕ) (helper : ℕ → ι) {n : ℕ}
    (hfair : ∀ i, ρ.Fair (L i)) (hn : P n) (hen : ∀ k, n ≤ k → P k → Enabled step (ρ.state k) (L (helper k)))
    (hstep : ∀ k, n ≤ k → P k → ¬Q (k + 1) → P (k + 1) ∧ (rank (k + 1) < rank k ∨
      rank (k + 1) = rank k ∧ helper (k + 1) = helper k ∧ ¬L (helper k) (ρ.label k))) : ∃ k, n ≤ k ∧ Q (k + 1) := by
  by_contra hnever
  push Not at hnever
  have hP (k : ℕ) (hk : n ≤ k) : P k := by
    induction k, hk using Nat.le_induction with
    | base => exact hn
    | succ k hk ih => exact (hstep k hk ih (hnever k hk)).1
  have hrank (k : ℕ) (hk : n ≤ k) := (hstep k hk (hP k hk) (hnever k hk)).2
  obtain ⟨m, hm, hsettled⟩ := settles fun k hk => by
    rcases hrank k hk with hlt | ⟨hsame, -⟩
    · exact hlt.le
    · exact hsame.le
  -- from then on no step is one of the helper
  have hstuck (k : ℕ) (hk : m ≤ k) : helper (k + 1) = helper k ∧ ¬L (helper k) (ρ.label k) := by
    rcases hrank k (hm.trans hk) with hlt | ⟨-, hstuck⟩
    · have hsame := hsettled k hk
      have hsame' := hsettled (k + 1) (Nat.le_succ_of_le hk)
      omega
    · exact hstuck
  have hhelper (k : ℕ) (hk : m ≤ k) : helper k = helper m := by
    induction k, hk using Nat.le_induction with
    | base => rfl
    | succ k hk ih => exact (hstuck k hk).1.trans ih
  obtain ⟨k, hk, hl⟩ := hfair (helper m) m fun k hk => hhelper k hk ▸ hen k (hm.trans hk) (hP k (hm.trans hk))
  exact (hstuck k hk).2 (hhelper k hk ▸ hl)

/-- A step before an endless run. -/
def cons {s : σ} {e : ε} (h : step s e (ρ.state 0)) : Endless step where
  state
    | 0 => s
    | k + 1 => ρ.state k
  label
    | 0 => e
    | k + 1 => ρ.label k
  steps
    | 0 => h
    | k + 1 => ρ.steps k

variable {ρ}

theorem Fair.cons {L : ε → Prop} {s : σ} {e : ε} (hf : ρ.Fair L) (h : step s e (ρ.state 0)) : (ρ.cons h).Fair L := by
  intro n hen
  obtain ⟨k, hk, hl⟩ := hf n fun k hk => hen (k + 1) (Nat.le_succ_of_le hk)
  exact ⟨k + 1, Nat.le_succ_of_le hk, hl⟩

end Endless

end Systems
