import Loadpace.Lib.Loop
import Loadpace.Lib.Traps
import Loadpace.Machine

/-!
# Saturating addition, on machine integers

`Trapping.saturatingAdd` is `saturating_add` with its loop on fuel, and with a trap wherever its `u128` arithmetic can overflow,
a cast can truncate, or the `expect` at its end can panic. A pass halves the distance between the ends of the search
(`searchPass_some`), so the loop ends before its 95th pass, at the furthest offset that the clock has room for (`search_ends`),
and nothing traps: `saturating_add_saturates`.
-/

namespace Loadpace

open Systems Bisect

namespace Trapping

variable {T : Type} [AddCommMonoid T] [LinearOrder T] [Sub T] [Time T]

/-- `Duration::new`; it panics when the carry from the nanoseconds overflows the seconds. -/
def durationNew (secs nanos : ℕ) : Option T := do
  let secs ← Traps.add 64 secs (nanos / nanosPerSecond)
  some (Time.fromNanos (secs * nanosPerSecond + nanos % nanosPerSecond))

/-- `duration_from_nanos`; a cast traps where it would truncate. -/
def durationFromNanos (nanos : ℕ) : Option T := do
  let secs ← Traps.fit 64 (nanos / nanosPerSecond)
  let subsec ← Traps.fit 32 (nanos % nanosPerSecond)
  durationNew secs subsec

/-- One pass of the loop of `saturating_add`, on `lower` and `upper`. -/
def searchPass (instant : T) : ℕ × ℕ → Option (Bool × ℕ × ℕ)
  | (lower, upper) =>
    if lower < upper then do
      let distance ← Traps.sub upper lower
      let half ← Traps.divCeil 128 distance 2
      let middle ← Traps.add 128 lower half
      let offset : T ← durationFromNanos middle
      if (checkedAdd instant offset).isSome then
        some (true, middle, upper)
      else do
        let upper ← Traps.sub middle 1
        some (true, lower, upper)
    else some (false, lower, upper)

/-- `saturating_add`. The outer `none` is a trap or a panic, the inner one a loop that is out of fuel. -/
def saturatingAdd (fuel : ℕ) (instant duration : T) : Option (Option T) :=
  match checkedAdd instant duration with
  | some result => some (some result)
  | none => do
    let upper ← Traps.fit 128 (Time.asNanos duration)
    match ← loop (searchPass instant) fuel (0, upper) with
    | none => some none
    | some (lower, _) => do
      let offset : T ← durationFromNanos lower
      let result ← checkedAdd instant offset
      some (some result)

variable {t d : T} {n lower upper fuel : ℕ}

/-- No cast truncates below `Duration::MAX`. -/
theorem durationFromNanos_some (h : n ≤ Time.asNanos (durationMax : T)) :
    durationFromNanos n = some (Time.fromNanos n : T) := by
  rw [Time.asNanos_durationMax] at h
  have hpos : 0 < nanosPerSecond := by decide
  have hsubsec : n % nanosPerSecond < nanosPerSecond := Nat.mod_lt n hpos
  have hsecs : n / nanosPerSecond < 2 ^ 64 := by
    unfold nanosPerSecond
    omega
  have hfit : n % nanosPerSecond < 2 ^ 32 := hsubsec.trans (by decide)
  have hcarry : n % nanosPerSecond / nanosPerSecond = 0 := Nat.div_eq_of_lt hsubsec
  unfold durationFromNanos durationNew
  simp only [Option.bind_eq_bind, Traps.fit_some hsecs, Traps.fit_some hfit, Option.bind_some, hcarry]
  simp only [Traps.add_some (show n / nanosPerSecond + 0 < 2 ^ 64 from hsecs), Option.bind_some, Nat.mod_mod, Nat.add_zero]
  rw [Nat.mul_comm, Nat.div_add_mod]

theorem asNanos_lt (hd : d ≤ durationMax) : Time.asNanos d < 2 ^ 94 := by
  have hle := Time.asNanos_mono hd
  rw [Time.asNanos_durationMax] at hle
  exact hle.trans_lt (by decide)

/-- A pass tries the middle of the two ends, and moves one of them past it. -/
theorem searchPass_some (hlt : lower < upper) (hu : upper ≤ Time.asNanos (durationMax : T)) :
    searchPass t (lower, upper) = some (true, if Representable t (middle lower upper) then (middle lower upper, upper)
      else (lower, middle lower upper - 1)) := by
  have hmid := lt_middle hlt
  have hmax := (middle_le hlt).trans hu
  have hwide : upper < 2 ^ 128 := hu.trans_lt ((asNanos_lt le_rfl).trans (by decide))
  have hsum : lower + (upper - lower + 1) / 2 = middle lower upper := rfl
  have hoffset : (checkedAdd t (Time.fromNanos (middle lower upper))).isSome ↔ Representable t (middle lower upper) := by
    rw [Representable, durationFromNanos_eq hmax]
  unfold searchPass
  dsimp only
  rw [if_pos hlt]
  simp only [Option.bind_eq_bind, Traps.sub_some hlt.le, Traps.divCeil_two (show upper - lower < 2 ^ 128 by omega) (by decide),
    Option.bind_some, Traps.add_some (show lower + (upper - lower + 1) / 2 < 2 ^ 128 by omega), hsum,
    durationFromNanos_some hmax, Traps.sub_some (show 1 ≤ middle lower upper by omega), hoffset]
  split
  · rfl
  · rfl

/-- **The search ends** at the furthest offset that the clock has room for. -/
theorem search_ends (t : T) (hd : d ≤ durationMax) (hf : 95 ≤ fuel) :
    ∃ s, loop (searchPass t) fuel (0, Time.asNanos d) = some (some s) ∧
      IsGreatest {n | n ≤ Time.asNanos d ∧ Representable t n} s.1 := by
  have hdown := representable_downTo t hd
  refine loop_halves (fun s => Brackets (Representable t) (Time.asNanos d) s.1 s.2) (fun s => s.2 - s.1)
    (fun s hs => ?_) (.start (representable_zero t)) (asNanos_lt hd) hf
  obtain ⟨lower, upper⟩ := s
  by_cases hlt : lower < upper
  · refine Or.inl ⟨_, searchPass_some hlt (hs.upper_le.trans (Time.asNanos_mono hd)), ?_⟩
    split
    · rename_i hr
      exact ⟨hs.raise hlt hr, Nat.sub_pos_of_lt hlt, half_raise lower upper⟩
    · rename_i hr
      exact ⟨hs.cut hdown hlt hr, Nat.sub_pos_of_lt hlt, half_cut lower upper⟩
  · exact Or.inr ⟨_, if_neg hlt, hs.isGreatest hlt⟩

/-- Nothing traps, and the sum is that of the model. -/
theorem saturatingAdd_some (t : T) (hd : d ≤ durationMax) (hf : 95 ≤ fuel) :
    saturatingAdd fuel t d = some (some (Loadpace.saturatingAdd t d)) := by
  unfold saturatingAdd Loadpace.saturatingAdd
  cases h : checkedAdd t d with
  | some result => rfl
  | none =>
    obtain ⟨⟨offset, upper⟩, hloop, hgreatest⟩ := search_ends t hd hf
    have hsame := searchOffset_greatest (representable_downTo t hd) (representable_zero t) (.start (representable_zero t))
    obtain rfl : offset = (searchOffset t 0 (Time.asNanos d) (representable_zero t)).1 := hgreatest.unique hsame
    have hmax := hgreatest.1.1.trans (Time.asNanos_mono hd)
    have hfit : Time.asNanos d < 2 ^ 128 := (asNanos_lt hd).trans (by decide)
    simp only [Option.bind_eq_bind, Traps.fit_some hfit, Option.bind_some, hloop, durationFromNanos_some hmax]
    rw [← durationFromNanos_eq hmax]
    exact Option.bind_eq_some_iff.mpr ⟨_, (Option.some_get _).symm, rfl⟩

end Trapping

/-! ## What the sum is -/

section

variable {T : Type} [AddCommMonoid T] [LinearOrder T] [Sub T] [Time T] {t t' d d' e : T}

/-- A later instant has a later sum: what is added to it ends where the clock does. -/
theorem saturatingAdd_mono_left (h : t ≤ t') (hd : d ≤ durationMax) : saturatingAdd t d ≤ saturatingAdd t' d := by
  have hroom : Time.room t' = (Time.room t).map (· - (t' - t)) := by
    rw [← Time.room_add, add_tsub_cancel_of_le h]
  cases hm : Time.room t with
  | none =>
    rw [hm] at hroom
    rw [saturatingAdd_none hm, saturatingAdd_none hroom]
    exact add_le_add_left h d
  | some m =>
    rw [hm] at hroom
    rw [saturatingAdd_some hm hd, saturatingAdd_some hroom hd]
    have hmin : min d m ≤ t' - t + min d (m - (t' - t)) := by
      rcases le_total d (m - (t' - t)) with hle | hle
      · rw [min_eq_left hle]
        exact (min_le_left _ _).trans le_add_self
      · rw [min_eq_right hle]
        exact (min_le_right _ _).trans le_add_tsub
    calc t + min d m ≤ t + (t' - t + min d (m - (t' - t))) := add_le_add_right hmin t
      _ = t' + min d (m - (t' - t)) := by rw [← add_assoc, add_tsub_cancel_of_le h]

/-- **An overflowing deadline is the end of the clock**: no sum is later, and nothing can be added to it. -/
theorem saturatingAdd_overflow (hd : d ≤ durationMax) (h : checkedAdd t d = none) :
    (∀ e, (checkedAdd t e).isSome → t + e ≤ saturatingAdd t d) ∧ ∀ e, e ≠ 0 → checkedAdd (saturatingAdd t d) e = none := by
  cases hm : Time.room t with
  | none =>
    rw [checkedAdd_of_none hm] at h
    cases h
  | some m =>
    have hlt : m < d := by
      rw [← not_le, ← checkedAdd_isSome_iff hm, h]
      exact Bool.false_ne_true
    have hend : Time.room (t + m) = some 0 := by
      rw [Time.room_add, hm, Option.map_some, tsub_self]
    rw [saturatingAdd_some hm hd, min_eq_right hlt.le]
    refine ⟨fun e he => add_le_add_right ((checkedAdd_isSome_iff hm).mp he) t, fun e hne => ?_⟩
    rw [← Option.not_isSome_iff_eq_none, checkedAdd_isSome_iff hend, nonpos_iff_eq_zero]
    exact hne

/-- **Saturating addition.** On machine integers `saturating_add` ends within 95 passes without an overflow, a truncation or a
panic, and adds as much of the duration as the clock has room for. It is monotone in both arguments, never returns an earlier
instant, and turns a deadline that overflows into the last one that the clock has. -/
theorem saturating_add_saturates (t : T) (hd : d ≤ durationMax) :
    (∀ fuel, 95 ≤ fuel → Trapping.saturatingAdd fuel t d = some (some (saturatingAdd t d))) ∧
    (∀ n ≤ Time.asNanos d, Trapping.durationFromNanos n = some (Time.fromNanos n : T)) ∧
    (∀ m, Time.room t = some m → saturatingAdd t d = t + min d m) ∧
    (Time.room t = none → saturatingAdd t d = t + d) ∧
    (∀ t' d', t' ≤ t → d' ≤ d → saturatingAdd t' d' ≤ saturatingAdd t d) ∧
    t ≤ saturatingAdd t d ∧
    (checkedAdd t d = none → (∀ e, (checkedAdd t e).isSome → t + e ≤ saturatingAdd t d) ∧
      ∀ e, e ≠ 0 → checkedAdd (saturatingAdd t d) e = none) := by
  refine ⟨fun fuel hf => Trapping.saturatingAdd_some t hd hf, fun n hn => ?_, fun m hm => saturatingAdd_some hm hd,
    fun hnone => saturatingAdd_none hnone d, fun t' d' ht hdd => ?_, le_saturatingAdd t d, saturatingAdd_overflow hd⟩
  · exact Trapping.durationFromNanos_some (hn.trans (Time.asNanos_mono hd))
  · exact (saturatingAdd_mono hdd hd).trans (saturatingAdd_mono_left ht hd)

end

/-- Five nanoseconds before the end of the clock. -/
theorem saturating_add_saturates_end : (durationMax : ℕ) ≤ durationMax ∧
    Trapping.saturatingAdd 95 (9223372036854775807999999994 : ℕ) durationMax = some (some 9223372036854775807999999999) ∧
    checkedAdd (9223372036854775807999999994 : ℕ) durationMax = none := by
  obtain ⟨hends, -, hsum, -⟩ := saturating_add_saturates (9223372036854775807999999994 : ℕ) (le_refl (durationMax : ℕ))
  refine ⟨le_rfl, ?_, by decide⟩
  rw [hends 95 le_rfl, hsum 5 (by decide)]
  decide

end Loadpace
