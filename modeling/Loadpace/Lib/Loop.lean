import Mathlib.Algebra.Group.Nat.Defs
import Mathlib.Data.Nat.Notation
import Mathlib.Data.Option.Basic
import Mathlib.Logic.Relation

/-!
# Loops

A loop makes passes over a state until a pass leaves it. A pass can panic, and a loop is given fuel.

* `Reaches pass s s'`: some passes lead from `s` to `s'`, and none of them leaves the loop.
* `loop_left`: a loop that returns has reached a state whose next pass leaves it.
* `visited`: the states at which a loop makes a pass, which are all that it reaches when it returns.
* `loop_ends`: some fuel suffices when every pass goes down in a well-founded order.
* `loop_halves`: as many passes as the width has bits, and one more, suffice when every pass halves it.
-/

namespace Systems

section Loops

variable {σ : Type*} {pass : σ → Option (Bool × σ)} {s s' : σ}

/-- Runs `pass` while it answers `true`. The outer `none` is a panic, the inner one a loop that is out of fuel. -/
def loop (pass : σ → Option (Bool × σ)) : ℕ → σ → Option (Option σ)
  | 0, _ => some none
  | fuel + 1, s => (pass s).bind fun (more, s') => if more then loop pass fuel s' else some (some s')

/-- Some passes of the loop. -/
def Reaches (pass : σ → Option (Bool × σ)) : σ → σ → Prop :=
  Relation.ReflTransGen fun s s' => pass s = some (true, s')

theorem Reaches.start : Reaches pass s s := Relation.ReflTransGen.refl

theorem Reaches.next {m : σ} (h : Reaches pass s m) (hp : pass m = some (true, s')) : Reaches pass s s' :=
  Relation.ReflTransGen.tail h hp

/-- A property that every pass keeps holds in every state that is reached. -/
theorem Reaches.invariant {P : σ → Prop} (h : Reaches pass s s') (h0 : P s)
    (hs : ∀ s s', P s → pass s = some (true, s') → P s') : P s' := by
  induction h with
  | refl => exact h0
  | tail _ hp ih => exact hs _ _ ih hp

/-- What a pass of the loop does. -/
theorem loop_succ {fuel : ℕ} {result : Option σ} (h : loop pass (fuel + 1) s = some result) :
    (∃ m, pass s = some (true, m) ∧ loop pass fuel m = some result) ∨
      ∃ m, pass s = some (false, m) ∧ result = some m := by
  rw [loop, Option.bind_eq_some_iff] at h
  obtain ⟨⟨more, m⟩, hm, h⟩ := h
  cases more with
  | true => exact Or.inl ⟨m, hm, h⟩
  | false => exact Or.inr ⟨m, hm, (Option.some.inj h).symm⟩

theorem loop_left {fuel : ℕ} (h : loop pass fuel s = some (some s')) :
    ∃ m, Reaches pass s m ∧ pass m = some (false, s') := by
  induction fuel generalizing s with
  | zero => cases h
  | succ fuel ih =>
    rcases loop_succ h with ⟨m, hm, h⟩ | ⟨m, hm, h⟩
    · obtain ⟨m', hr, hp⟩ := ih h
      exact ⟨m', .head hm hr, hp⟩
    · obtain rfl : s' = m := Option.some.inj h
      exact ⟨s, .refl, hm⟩

/-- A loop that returns goes through every state that it reaches. -/
theorem Reaches.loop {fuel : ℕ} {m : σ} (hr : Reaches pass s m) (h : loop pass fuel s = some (some s')) :
    ∃ fuel', loop pass fuel' m = some (some s') := by
  induction hr with
  | refl => exact ⟨fuel, h⟩
  | tail _ hp ih =>
    obtain ⟨fuel', h⟩ := ih
    cases fuel' with
    | zero => cases h
    | succ fuel' =>
      rcases loop_succ h with ⟨x, hx, h⟩ | ⟨x, hx, -⟩
      · rw [hp] at hx
        cases hx
        exact ⟨fuel', h⟩
      · rw [hp] at hx
        cases hx

/-- The states at which the loop makes a pass. -/
def visited (pass : σ → Option (Bool × σ)) : ℕ → σ → List σ
  | 0, _ => []
  | fuel + 1, s => s :: match pass s with
    | some (true, s') => visited pass fuel s'
    | _ => []

theorem Reaches.visited {fuel : ℕ} {m : σ} (hr : Reaches pass s m) (h : Systems.loop pass fuel s = some (some s')) :
    m ∈ visited pass fuel s := by
  induction hr using Relation.ReflTransGen.head_induction_on generalizing fuel with
  | refl =>
    cases fuel with
    | zero => cases h
    | succ fuel => exact List.mem_cons_self
  | head hp _ ih =>
    cases fuel with
    | zero => cases h
    | succ fuel =>
      rcases loop_succ h with ⟨x, hx, h⟩ | ⟨x, hx, -⟩
      · rw [hp] at hx
        cases hx
        unfold Systems.visited
        rw [hp]
        exact List.mem_cons_of_mem _ (ih h)
      · rw [hp] at hx
        cases hx

/-- **Termination**: every pass goes down, so some fuel is enough. -/
theorem loop_ends {P : σ → Prop} {r : σ → σ → Prop} (hwf : WellFounded r)
    (hs : ∀ s s', P s → pass s = some (true, s') → P s' ∧ r s' s) (h0 : P s) :
    ∃ n, ∀ fuel, n ≤ fuel → loop pass fuel s ≠ some none := by
  induction s using hwf.induction with
  | _ s ih =>
    -- the last pass needs one unit of fuel, every other one more than the rest of the loop
    cases hp : pass s with
    | none =>
      refine ⟨1, fun fuel hf h => ?_⟩
      obtain ⟨fuel, rfl⟩ := Nat.exists_eq_succ_of_ne_zero (Nat.pos_iff_ne_zero.mp hf)
      rcases loop_succ h with ⟨m, hm, -⟩ | ⟨m, hm, -⟩
      · rw [hp] at hm
        cases hm
      · rw [hp] at hm
        cases hm
    | some x =>
      obtain ⟨more, m⟩ := x
      cases more with
      | false =>
        refine ⟨1, fun fuel hf h => ?_⟩
        obtain ⟨fuel, rfl⟩ := Nat.exists_eq_succ_of_ne_zero (Nat.pos_iff_ne_zero.mp hf)
        rcases loop_succ h with ⟨m', hm, -⟩ | ⟨m', -, h⟩
        · rw [hp] at hm
          cases hm
        · cases h
      | true =>
        obtain ⟨hm, hdown⟩ := hs s m h0 hp
        obtain ⟨n, hn⟩ := ih m hdown hm
        refine ⟨n + 1, fun fuel hf h => ?_⟩
        obtain ⟨fuel, rfl⟩ := Nat.exists_eq_succ_of_ne_zero (Nat.pos_iff_ne_zero.mp (Nat.zero_lt_of_lt hf))
        rcases loop_succ h with ⟨m', hm', h⟩ | ⟨m', hm', -⟩
        · obtain rfl : m' = m := by
            rw [hp] at hm'
            exact (Prod.mk.inj (Option.some.inj hm')).2.symm
          exact hn fuel (Nat.le_of_succ_le_succ hf) h
        · rw [hp] at hm'
          cases hm'

/-- **Termination by halving**: a loop whose passes do not panic, and halve a width until it is zero, returns. -/
theorem loop_halves {Q : σ → Prop} {k fuel : ℕ} (P : σ → Prop) (width : σ → ℕ)
    (hs : ∀ s, P s → (∃ m, pass s = some (true, m) ∧ P m ∧ 0 < width s ∧ width m ≤ width s / 2) ∨
      ∃ m, pass s = some (false, m) ∧ Q m) (h0 : P s) (hw : width s < 2 ^ k) (hf : k < fuel) :
    ∃ m, loop pass fuel s = some (some m) ∧ Q m := by
  induction k generalizing s fuel with
  | zero =>
    obtain ⟨fuel, rfl⟩ := Nat.exists_eq_succ_of_ne_zero (Nat.pos_iff_ne_zero.mp hf)
    rcases hs s h0 with ⟨m, -, -, hpos, -⟩ | ⟨m, hp, hq⟩
    · rw [Nat.pow_zero] at hw
      omega
    · exact ⟨m, by rw [loop, hp]; rfl, hq⟩
  | succ k ih =>
    obtain ⟨fuel, rfl⟩ := Nat.exists_eq_succ_of_ne_zero (Nat.pos_iff_ne_zero.mp (Nat.zero_lt_of_lt hf))
    rcases hs s h0 with ⟨m, hp, hm, -, hhalf⟩ | ⟨m, hp, hq⟩
    · rw [Nat.pow_succ] at hw
      obtain ⟨m', hloop, hq⟩ := ih hm (show width m < 2 ^ k by omega) (show k < fuel by omega)
      exact ⟨m', by rw [loop, hp]; exact hloop, hq⟩
    · exact ⟨m, by rw [loop, hp]; rfl, hq⟩

end Loops

end Systems
