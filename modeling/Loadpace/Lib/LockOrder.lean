import Mathlib.Data.Set.Finite.Lattice
import Mathlib.Order.Preorder.Finite

/-!
# Locks that are taken in order

Tasks hold locks and want one more. `Ordered`: every lock that a task holds ranks below the one it wants. Then no task wants
a lock that it holds (`Ordered.not_held`), and no tasks wait for each other in a circle (`Ordered.no_deadlock`): the highest
lock that any of them wants would be held by a task that wants a higher one.
-/

namespace LockOrder

variable {ι L R : Type*} [Preorder R]

/-- Every lock that a task holds ranks below the one it wants. -/
def Ordered (rank : L → R) (held : ι → L → Prop) (wanted : ι → Option L) : Prop :=
  ∀ i l l', held i l → wanted i = some l' → rank l < rank l'

/-- A set of tasks, each of which wants a lock that a task of the set holds. -/
structure Deadlock (held : ι → L → Prop) (wanted : ι → Option L) (tasks : Set ι) : Prop where
  nonempty : tasks.Nonempty
  stuck : ∀ i ∈ tasks, ∃ l, wanted i = some l ∧ ∃ j ∈ tasks, held j l

variable {rank : L → R} {held : ι → L → Prop} {wanted : ι → Option L} {tasks : Set ι}

theorem Ordered.not_held (h : Ordered rank held wanted) {i : ι} {l : L} (hw : wanted i = some l) : ¬ held i l :=
  fun hh => lt_irrefl _ (h i l l hh hw)

/-- **Locks that are taken in order do not deadlock.** -/
theorem Ordered.no_deadlock (h : Ordered rank held wanted) (hf : {i | (wanted i).isSome}.Finite) :
    ¬ Deadlock held wanted tasks := by
  rintro ⟨⟨i, hi⟩, hstuck⟩
  -- the locks that the tasks want
  let locks : Set L := {l | ∃ j ∈ tasks, wanted j = some l}
  have hfin : locks.Finite := by
    refine Set.Finite.of_finite_image (f := some) ((hf.image wanted).subset ?_) (Option.some_injective L).injOn
    rintro _ ⟨l, ⟨j, -, hj⟩, rfl⟩
    exact ⟨j, by simp [hj], hj⟩
  obtain ⟨l₀, hl₀, -⟩ := hstuck i hi
  obtain ⟨l, ⟨j, hj, hjl⟩, hmax⟩ := hfin.exists_maximalFor rank locks ⟨l₀, i, hi, hl₀⟩
  -- the holder of the highest one wants a higher one
  obtain ⟨l', hl', k, hk, hheld⟩ := hstuck j hj
  obtain rfl := Option.some.inj (hjl.symm.trans hl')
  obtain ⟨m, hm, -⟩ := hstuck k hk
  have hlt := h k l m hheld hm
  exact lt_irrefl _ (hlt.trans_le (hmax ⟨k, hk, hm⟩ hlt.le))

end LockOrder
