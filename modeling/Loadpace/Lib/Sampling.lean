import Mathlib.Data.Finset.Prod
import Mathlib.Data.Finset.Range
import Mathlib.Data.Nat.Basic

/-!
# Two draws without replacement

The first of two draws is below `n`; the second is below `n - 1`, and counts what the first has left. So the draws are the
pairs of different numbers below `n`, each drawn once (`draws_pair`).

* `card_picks`: a choice between the two that were drawn takes a number as often as it takes it against the others, as the
  first and as the second.
* `choose`: the cheaper one, or the other where that is closed. An open number is chosen twice for each other one that is
  closed or dearer and once for each that is as dear (`card_choose`), and nothing is chosen where both are closed
  (`card_choose_none`).
-/

namespace Systems.Sampling

open Finset

/-- The number that the second draw means. -/
def second (i j : ℕ) : ℕ := if i ≤ j then j + 1 else j

/-- What is drawn of `n`. -/
def draws (n : ℕ) : Finset (ℕ × ℕ) := range n ×ˢ range (n - 1)

/-- The numbers that are drawn. -/
def pair (d : ℕ × ℕ) : ℕ × ℕ := (d.1, second d.1 d.2)

/-- The numbers below `n` but one. -/
def others (n k : ℕ) : Finset ℕ := (range n).erase k

section

variable {n i j k : ℕ}

theorem second_ne (i j : ℕ) : i ≠ second i j := by
  unfold second
  split <;> omega

theorem second_lt (hi : i < n) (hj : j < n - 1) : second i j < n := by
  unfold second
  split <;> omega

theorem second_injective (i : ℕ) : Function.Injective (second i) := by
  intro j j' h
  unfold second at h
  split at h <;> split at h <;> omega

/-- Each number but the first is the second of a draw. -/
theorem second_surjective (hi : i < n) (hk : k < n) (hne : i ≠ k) : ∃ j < n - 1, second i j = k := by
  rcases Nat.lt_or_gt_of_ne hne with hlt | hgt
  · refine ⟨k - 1, by omega, ?_⟩
    unfold second
    rw [if_pos (by omega)]
    omega
  · refine ⟨k, by omega, ?_⟩
    unfold second
    rw [if_neg (by omega)]

/-- **Each pair is drawn once.** -/
theorem draws_pair (n : ℕ) : Set.BijOn pair (draws n) (range n).offDiag := by
  refine ⟨?_, ?_, ?_⟩
  · intro d hd
    obtain ⟨hi, hj⟩ := mem_product.mp (mem_coe.mp hd)
    rw [mem_range] at hi hj
    apply mem_coe.mpr
    rw [mem_offDiag, mem_range, mem_range]
    exact ⟨hi, second_lt hi hj, second_ne _ _⟩
  · rintro ⟨i, j⟩ - ⟨i', j'⟩ - h
    have hfirst : i = i' := congrArg Prod.fst h
    have hsecond : second i j = second i' j' := congrArg Prod.snd h
    subst hfirst
    rw [second_injective i hsecond]
  · rintro ⟨i, k⟩ hp
    rw [mem_coe, mem_offDiag, mem_range, mem_range] at hp
    obtain ⟨hi, hk, hne⟩ := hp
    obtain ⟨j, hj, hsecond⟩ := second_surjective hi hk hne
    refine ⟨(i, j), mem_coe.mpr (mem_product.mpr ⟨mem_range.mpr hi, mem_range.mpr hj⟩), ?_⟩
    exact congrArg (Prod.mk i) hsecond

theorem card_draws (n : ℕ) : (draws n).card = n * (n - 1) := by
  rw [draws, card_product, card_range, card_range]

/-- A property of what is drawn is counted on the pairs. -/
theorem card_filter_draws (n : ℕ) (P : ℕ × ℕ → Prop) [DecidablePred P] :
    ((draws n).filter fun d => P (pair d)).card = ((range n).offDiag.filter P).card := by
  obtain ⟨hmaps, hinj, hsurj⟩ := draws_pair n
  refine card_nbij pair ?_ ?_ ?_
  · intro d hd
    obtain ⟨hd, hP⟩ := mem_filter.mp hd
    exact mem_filter.mpr ⟨mem_coe.mp (hmaps (mem_coe.mpr hd)), hP⟩
  · exact hinj.mono fun d hd => mem_coe.mpr (mem_filter.mp hd).1
  · intro p hp
    obtain ⟨hp, hP⟩ := mem_filter.mp hp
    obtain ⟨d, hd, rfl⟩ := hsurj (mem_coe.mpr hp)
    exact ⟨d, mem_coe.mpr (mem_filter.mpr ⟨mem_coe.mp hd, hP⟩), rfl⟩

theorem mem_others : i ∈ others n k ↔ i ≠ k ∧ i < n := by
  rw [others, mem_erase, mem_range]

/-! ## A choice between the two -/

/-- **How often a number is taken**: as often as it is taken against the others, as the first and as the second. -/
theorem card_picks {pick : ℕ → ℕ → Option ℕ} (hpick : ∀ i j k, pick i j = some k → k = i ∨ k = j) (hk : k < n) :
    ((draws n).filter fun d => pick d.1 (second d.1 d.2) = some k).card =
      ((others n k).filter fun m => pick k m = some k).card + ((others n k).filter fun m => pick m k = some k).card := by
  have hpairs := card_filter_draws n fun p => pick p.1 p.2 = some k
  have hsplit : (range n).offDiag.filter (fun p => pick p.1 p.2 = some k) =
      {k} ×ˢ ((others n k).filter fun m => pick k m = some k) ∪ ((others n k).filter fun m => pick m k = some k) ×ˢ {k} := by
    ext ⟨i, j⟩
    simp only [mem_filter, mem_offDiag, mem_range, mem_union, mem_product, mem_singleton, mem_others]
    constructor
    · rintro ⟨⟨hi, hj, hne⟩, hp⟩
      rcases hpick i j k hp with rfl | rfl
      · exact Or.inl ⟨rfl, ⟨hne.symm, hj⟩, hp⟩
      · exact Or.inr ⟨⟨⟨hne, hi⟩, hp⟩, rfl⟩
    · rintro (⟨rfl, ⟨hne, hm⟩, hp⟩ | ⟨⟨⟨hne, hm⟩, hp⟩, rfl⟩)
      · exact ⟨⟨hk, hm, hne.symm⟩, hp⟩
      · exact ⟨⟨hm, hk, hne⟩, hp⟩
  have hdisjoint : Disjoint (({k} : Finset ℕ) ×ˢ ((others n k).filter fun m => pick k m = some k))
      (((others n k).filter fun m => pick m k = some k) ×ˢ {k}) := by
    rw [disjoint_left]
    rintro ⟨i, j⟩ h h'
    simp only [mem_product, mem_singleton, mem_filter, mem_others] at h h'
    exact h.2.1.1 h'.2
  rw [show ((draws n).filter fun d => pick d.1 (second d.1 d.2) = some k).card = _ from hpairs, hsplit,
    card_union_of_disjoint hdisjoint, card_product, card_product, card_singleton, one_mul, mul_one]

/-! ## The cheaper one that is open -/

variable {isOpen : ℕ → Bool} {le : ℕ → ℕ → Bool}

/-- The cheaper of the two, and the first of a tie; where that is closed, the other one. -/
def choose (isOpen : ℕ → Bool) (le : ℕ → ℕ → Bool) (i j : ℕ) : Option ℕ :=
  if le i j then
    if isOpen i then some i else if isOpen j then some j else none
  else
    if isOpen j then some j else if isOpen i then some i else none

theorem choose_mem (h : choose isOpen le i j = some k) : k = i ∨ k = j := by
  unfold choose at h
  split at h <;> split at h
  all_goals grind

theorem choose_open (h : choose isOpen le i j = some k) : isOpen k = true := by
  unfold choose at h
  split at h <;> split at h
  all_goals grind

theorem choose_first (hne : i ≠ j) : choose isOpen le i j = some i ↔ isOpen i = true ∧ (isOpen j = false ∨ le i j = true) := by
  unfold choose
  grind

theorem choose_second (hne : i ≠ j) :
    choose isOpen le i j = some j ↔ isOpen j = true ∧ (isOpen i = false ∨ le i j = false) := by
  unfold choose
  grind

theorem choose_none : choose isOpen le i j = none ↔ isOpen i = false ∧ isOpen j = false := by
  unfold choose
  grind

/-- The others that are closed or dearer, against which a number wins in either order. -/
def beaten (n : ℕ) (isOpen : ℕ → Bool) (le : ℕ → ℕ → Bool) (k : ℕ) : Finset ℕ :=
  (others n k).filter fun m => isOpen m = false ∨ le m k = false

/-- The others that are open and as dear, against which it wins as the first. -/
def ties (n : ℕ) (isOpen : ℕ → Bool) (le : ℕ → ℕ → Bool) (k : ℕ) : Finset ℕ :=
  (others n k).filter fun m => isOpen m = true ∧ le k m = true ∧ le m k = true

/-- **How often an open number is chosen.** -/
theorem card_choose (htotal : ∀ i < n, ∀ j < n, le i j = true ∨ le j i = true) (hk : k < n) (hopen : isOpen k = true) :
    ((draws n).filter fun d => choose isOpen le d.1 (second d.1 d.2) = some k).card =
      2 * (beaten n isOpen le k).card + (ties n isOpen le k).card := by
  have hfirst : (others n k).filter (fun m => choose isOpen le k m = some k) = beaten n isOpen le k ∪ ties n isOpen le k := by
    ext m
    rw [beaten, ties, ← filter_or, mem_filter, mem_filter]
    refine and_congr_right fun hm => ?_
    rw [choose_first (mem_others.mp hm).1.symm]
    have htotal := htotal k hk m (mem_others.mp hm).2
    grind
  have hsecond : (others n k).filter (fun m => choose isOpen le m k = some k) = beaten n isOpen le k := by
    refine filter_congr fun m hm => ?_
    rw [choose_second (mem_others.mp hm).1]
    exact ⟨fun h => h.2, fun h => ⟨hopen, h⟩⟩
  have hdisjoint : Disjoint (beaten n isOpen le k) (ties n isOpen le k) := by
    rw [disjoint_left]
    intro m hm hm'
    obtain ⟨-, hopen', -, hle⟩ := mem_filter.mp hm'
    rcases (mem_filter.mp hm).2 with hclosed | hdear
    · rw [hopen'] at hclosed
      cases hclosed
    · rw [hle] at hdear
      cases hdear
  rw [card_picks (fun _ _ _ => choose_mem) hk, hfirst, hsecond, card_union_of_disjoint hdisjoint]
  omega

theorem card_choose_closed (hclosed : isOpen k = false) :
    ((draws n).filter fun d => choose isOpen le d.1 (second d.1 d.2) = some k).card = 0 := by
  rw [card_eq_zero, filter_eq_empty_iff]
  intro d _ h
  rw [choose_open h] at hclosed
  cases hclosed

/-- **How often nothing is chosen**: for each pair of closed ones. -/
theorem card_choose_none (n : ℕ) (isOpen : ℕ → Bool) (le : ℕ → ℕ → Bool) :
    ((draws n).filter fun d => choose isOpen le d.1 (second d.1 d.2) = none).card =
      ((range n).filter fun m => isOpen m = false).card * (((range n).filter fun m => isOpen m = false).card - 1) := by
  have hpairs := card_filter_draws n fun p => choose isOpen le p.1 p.2 = none
  have hboth : (range n).offDiag.filter (fun p => choose isOpen le p.1 p.2 = none) =
      ((range n).filter fun m => isOpen m = false).offDiag := by
    ext ⟨i, j⟩
    simp only [mem_filter, mem_offDiag, mem_range, choose_none]
    tauto
  rw [show ((draws n).filter fun d => choose isOpen le d.1 (second d.1 d.2) = none).card = _ from hpairs, hboth,
    offDiag_card, Nat.mul_sub_one]

end

end Systems.Sampling
