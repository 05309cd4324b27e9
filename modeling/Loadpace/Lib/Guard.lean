import Mathlib.Logic.Function.Basic

/-!
# Guards on flags

A holder takes the guard of a key by raising the flag of the key from down to up, and lowers the flag when it lets the guard
go. `Guarded`: a flag is up exactly while the key has a holder, and it has one at most. The rules: nobody held the key of a
flag that was down (`Guarded.acquire`), and nobody else held the key that is let go (`Guarded.release`).
-/

namespace Guard

variable {ι κ : Type*} [DecidableEq ι] [DecidableEq κ]

/-- Which key each holder has, and the flags. -/
structure Guarded (holds : ι → Option κ) (flag : κ → Bool) : Prop where
  one : ∀ i j k, holds i = some k → holds j = some k → i = j
  flag : ∀ k, flag k = true ↔ ∃ i, holds i = some k

variable {holds : ι → Option κ} {flag : κ → Bool} {i : ι} {k : κ}

omit [DecidableEq ι] [DecidableEq κ] in
theorem Guarded.free (h : Guarded holds flag) (hk : flag k = false) (j : ι) : holds j ≠ some k := by
  intro hj
  have hup := (h.flag k).mpr ⟨j, hj⟩
  rw [hk] at hup
  cases hup

/-- The flag goes up. -/
theorem Guarded.acquire (h : Guarded holds flag) (hi : holds i = none) (hk : flag k = false) :
    Guarded (Function.update holds i (some k)) (Function.update flag k true) := by
  constructor
  · intro a b x ha hb
    rw [Function.update_apply] at ha hb
    split at ha <;> split at hb
    · rename_i hai hbi
      exact hai.trans hbi.symm
    · cases ha
      exact absurd hb (h.free hk b)
    · cases hb
      exact absurd ha (h.free hk a)
    · exact h.one a b x ha hb
  · intro x
    rw [Function.update_apply]
    split
    · rename_i hx
      exact ⟨fun _ => ⟨i, by rw [Function.update_self, hx]⟩, fun _ => rfl⟩
    · rename_i hx
      refine (h.flag x).trans ⟨fun ⟨j, hj⟩ => ⟨j, ?_⟩, fun ⟨j, hj⟩ => ⟨j, ?_⟩⟩
      · have hji : j ≠ i := by
          rintro rfl
          rw [hi] at hj
          cases hj
        rwa [Function.update_of_ne hji]
      · rw [Function.update_apply] at hj
        split at hj
        · exact absurd (Option.some.inj hj).symm hx
        · exact hj

/-- The flag goes down. -/
theorem Guarded.release (h : Guarded holds flag) (hi : holds i = some k) :
    Guarded (Function.update holds i none) (Function.update flag k false) := by
  constructor
  · intro a b x ha hb
    rw [Function.update_apply] at ha hb
    split at ha
    · cases ha
    · split at hb
      · cases hb
      · exact h.one a b x ha hb
  · intro x
    rw [Function.update_apply]
    split
    · rename_i hx
      refine ⟨fun h => (by cases h), fun ⟨j, hj⟩ => ?_⟩
      rw [Function.update_apply] at hj
      split at hj
      · cases hj
      · rename_i hji
        exact absurd (h.one j i k (hx ▸ hj) hi) hji
    · rename_i hx
      refine (h.flag x).trans ⟨fun ⟨j, hj⟩ => ⟨j, ?_⟩, fun ⟨j, hj⟩ => ⟨j, ?_⟩⟩
      · have hji : j ≠ i := by
          rintro rfl
          exact hx (Option.some.inj (hj.symm.trans hi))
        rwa [Function.update_of_ne hji]
      · rw [Function.update_apply] at hj
        split at hj
        · cases hj
        · exact hj

end Guard
