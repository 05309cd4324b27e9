import Mathlib.Data.List.Chain
import Mathlib.Data.List.Iterate
import Mathlib.Order.Lattice
import Mathlib.Order.Basic
import Mathlib.Order.MinMax

/-!
# Lines of slots that are kept lazily

A line of slots is regular when each slot is one advance after the one before it: `List.iterate advance first n`. A line
that is only appended to loses that form as the clock moves, since a slot appended late starts at the clock
(`Spread`). The form is not lost for good: a line whose first slot has not passed is still regular
(`Spread.unexpired`), so that a line needs to be rebuilt only when its first slot has passed.
-/

namespace Slots

variable {T : Type*} [LinearOrder T] {advance : T → T} {base clock now : T} {slots : List T}

/-- The slot that an append at `t` takes. -/
def nextSlot (advance : T → T) (base : T) (slots : List T) (t : T) : T :=
  max ((slots.getLast?.map advance).getD (max base t)) t

/-- A line of slots on `base`, appended to at instants up to `clock`. -/
structure Spread (advance : T → T) (base clock : T) (slots : List T) : Prop where
  head : ∀ s ∈ slots.head?, ∃ t ≤ clock, s = max base t
  next : slots.IsChain fun s s' => ∃ t ≤ clock, s' = max (advance s) t

theorem Spread.nil : Spread advance base clock [] := ⟨fun _ h => (by cases h), .nil⟩

theorem Spread.mono (h : Spread advance base clock slots) (hc : clock ≤ now) : Spread advance base now slots := by
  constructor
  · intro s hs
    obtain ⟨t, ht, rfl⟩ := h.head s hs
    exact ⟨t, ht.trans hc, rfl⟩
  · exact h.next.imp fun s s' ⟨t, ht, hs⟩ => ⟨t, ht.trans hc, hs⟩

theorem Spread.append (h : Spread advance base clock slots) (hc : clock ≤ now) :
    Spread advance base now (slots ++ [nextSlot advance base slots now]) := by
  have h' := h.mono hc
  constructor
  · intro s hs
    cases slots with
    | nil =>
      obtain rfl : s = max (max base now) now := (Option.some.inj hs).symm
      exact ⟨now, le_rfl, max_eq_left (le_max_right _ _)⟩
    | cons a rest => exact h'.head s hs
  · refine List.isChain_append.mpr ⟨h'.next, .singleton _, fun x hx y hy => ?_⟩
    obtain rfl : y = nextSlot advance base slots now := (Option.some.inj hy).symm
    refine ⟨now, le_rfl, ?_⟩
    rw [nextSlot, hx]
    rfl

/-- A regular line has been appended to at one instant. -/
theorem spread_iterate (n : ℕ) : Spread advance base clock (List.iterate advance (max base clock) n) := by
  have hchain (first : T) (n : ℕ) : (List.iterate advance first n).IsChain
      fun s s' => ∃ t ≤ clock, s' = max (advance s) t := by
    induction n generalizing first with
    | zero => exact .nil
    | succ n ih =>
      cases n with
      | zero => exact .singleton _
      | succ n =>
        exact .cons_cons ⟨min clock (advance first), min_le_left _ _, (max_eq_left (min_le_right _ _)).symm⟩ (ih _)
  refine ⟨fun s hs => ?_, hchain _ n⟩
  cases n with
  | zero => cases hs
  | succ n => exact ⟨clock, le_rfl, (Option.some.inj hs).symm⟩

/-- Past the clock, each slot of a line is one advance after the one before it. -/
theorem regular_of_chain (hadv : ∀ t, t ≤ advance t) (hc : clock ≤ now) {first : T} {rest : List T} (hf : now ≤ first)
    (h : (first :: rest).IsChain fun s s' => ∃ t ≤ clock, s' = max (advance s) t) :
    first :: rest = List.iterate advance first (rest.length + 1) := by
  induction rest generalizing first with
  | nil => rfl
  | cons second rest ih =>
    obtain ⟨⟨t, ht, hs⟩, h⟩ := List.isChain_cons_cons.mp h
    -- the append was no later than the first slot, so it left no gap
    have hle : t ≤ advance first := (ht.trans (hc.trans hf)).trans (hadv first)
    obtain rfl : second = advance first := hs.trans (max_eq_left hle)
    have hrest := ih (hf.trans (hadv first)) h
    exact congrArg (first :: ·) hrest

/-- **A line whose first slot has not passed is regular.** -/
theorem Spread.unexpired (h : Spread advance base clock slots) (hadv : ∀ t, t ≤ advance t) (hc : clock ≤ now)
    (hhead : ∀ s ∈ slots.head?, max base now ≤ s) :
    slots = List.iterate advance (max base now) slots.length := by
  cases slots with
  | nil => rfl
  | cons first rest =>
    obtain ⟨t, ht, hs⟩ := h.head first rfl
    have hle : max base now ≤ first := hhead first rfl
    have hge : first ≤ max base now := hs ▸ max_le_max le_rfl (ht.trans hc)
    obtain rfl : first = max base now := le_antisymm hge hle
    exact regular_of_chain hadv hc (le_max_right _ _) h.next

omit [LinearOrder T] in
/-- The end of a regular line. -/
theorem getLast?_iterate (first : T) (n : ℕ) :
    (List.iterate advance first (n + 1)).getLast? = some (advance^[n] first) := by
  rw [List.iterate_add, List.iterate, List.iterate, List.getLast?_concat]

/-- The next slot of a regular line. -/
theorem nextSlot_iterate (hadv : ∀ t, t ≤ advance t) (n : ℕ) :
    nextSlot advance base (List.iterate advance (max base now) n) now = advance^[n] (max base now) := by
  have hge (first : T) (n : ℕ) (h : now ≤ first) : now ≤ advance^[n] first := by
    induction n generalizing first with
    | zero => exact h
    | succ n ih => exact ih (advance first) (h.trans (hadv first))
  cases n with
  | zero => exact max_eq_left (le_max_right _ _)
  | succ n =>
    rw [nextSlot, getLast?_iterate, Option.map_some, Option.getD_some, Function.iterate_succ_apply']
    exact max_eq_left ((hge _ n (le_max_right _ _)).trans (hadv _))

end Slots
