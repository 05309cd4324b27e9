import Loadpace.Lib.Bisect
import Loadpace.Platform

/-!
# The pacer (`gcra.rs`)

`Gcra` spaces dispatches: `tat` is the theoretical arrival time of the next one. A change of rate keeps the phase,
and a commit moves `tat` one interval past the dispatch. `saturatingAdd` is the addition that every deadline of the
controller goes through: it adds as much of the duration as the clock has room for (`saturatingAdd_some`).
-/

namespace Loadpace

open Bisect

section Time

variable {T : Type} [AddCommMonoid T] [LinearOrder T] [Sub T] [Time T]

def nanosPerSecond : ℕ := 1000000000

/-- `Duration::new` on a number of nanoseconds, with the two casts. -/
def durationFromNanos (nanos : ℕ) : T :=
  Time.fromNanos (nanos / nanosPerSecond % 2 ^ 64 * nanosPerSecond + nanos % nanosPerSecond % 2 ^ 32)

/-- `Instant::checked_add` of a whole number of nanoseconds succeeds. -/
def Representable (instant : T) (nanos : ℕ) : Prop := (checkedAdd instant (durationFromNanos nanos)).isSome

instance (instant : T) (nanos : ℕ) : Decidable (Representable instant nanos) := inferInstanceAs (Decidable (_ = true))

theorem representable_zero (t : T) : Representable t 0 := by
  simp [Representable, durationFromNanos, Time.fromNanos_zero, checkedAdd_zero]

/-- The binary search of `saturating_add`; `lower` stays representable, so the final `expect` never fires. -/
def searchOffset (instant : T) (lower upper : ℕ) (h : Representable instant lower) :
    {n : ℕ // Representable instant n} :=
  if lower < upper then
    let middle := lower + (upper - lower + 1) / 2
    if hm : Representable instant middle then searchOffset instant middle upper hm
    else searchOffset instant lower (middle - 1) h
  else ⟨lower, h⟩
termination_by upper - lower

/-- The search ends at the greatest representable offset. -/
theorem searchOffset_greatest {t : T} {bound lower upper : ℕ} (hdown : DownTo (Representable t) bound)
    (hl : Representable t lower) (h : Brackets (Representable t) bound lower upper) :
    IsGreatest {n | n ≤ bound ∧ Representable t n} (searchOffset t lower upper hl).1 := by
  fun_induction searchOffset t lower upper hl with
  | case1 lower upper hl hlt middle hm ih => exact ih (h.raise hlt hm)
  | case2 lower upper hl hlt middle hm ih => exact ih (h.cut hdown hlt hm)
  | case3 lower upper hl hend => exact h.isGreatest hend

/-- `saturating_add`. -/
def saturatingAdd (instant duration : T) : T :=
  match checkedAdd instant duration with
  | some result => result
  | none =>
    let lower := searchOffset instant 0 (Time.asNanos duration) (representable_zero instant)
    (checkedAdd instant (durationFromNanos lower.1)).get lower.2

/-- The result of `saturatingAdd` is some successful addition to the instant. -/
theorem saturatingAdd_reached (t d : T) : ∃ e, checkedAdd t e = some (saturatingAdd t d) := by
  cases h : checkedAdd t d with
  | some r => exact ⟨d, by simp only [saturatingAdd, h]⟩
  | none =>
    exact ⟨durationFromNanos (searchOffset t 0 (Time.asNanos d) (representable_zero t)).1, by
      simp only [saturatingAdd, h]; exact (Option.some_get _).symm⟩

theorem le_saturatingAdd (t d : T) : t ≤ saturatingAdd t d := by
  obtain ⟨e, he⟩ := saturatingAdd_reached t d
  rw [checkedAdd_some he]
  exact le_self_add

theorem saturatingAdd_none {t : T} (h : Time.room t = none) (d : T) : saturatingAdd t d = t + d := by
  simp only [saturatingAdd, checkedAdd_of_none h]

/-- The casts lose nothing below `Duration::MAX`. -/
theorem durationFromNanos_eq {n : ℕ} (h : n ≤ Time.asNanos (durationMax : T)) :
    durationFromNanos n = (Time.fromNanos n : T) := by
  rw [Time.asNanos_durationMax] at h
  unfold durationFromNanos nanosPerSecond
  congr 1
  omega

/-- Up to `Duration::MAX` an offset is representable when the clock has room for it. -/
theorem representable_iff {t m : T} (h : Time.room t = some m) {n : ℕ} (hn : n ≤ Time.asNanos (durationMax : T)) :
    Representable t n ↔ Time.fromNanos n ≤ m := by
  rw [Representable, durationFromNanos_eq hn]
  exact checkedAdd_isSome_iff h

theorem representable_downTo (t : T) {d : T} (hd : d ≤ durationMax) : DownTo (Representable t) (Time.asNanos d) := by
  intro a b hab hb hr
  have hb : b ≤ Time.asNanos (durationMax : T) := hb.trans (Time.asNanos_mono hd)
  cases h : Time.room t with
  | none =>
    rw [Representable, checkedAdd_of_none h]
    rfl
  | some m =>
    rw [representable_iff h hb] at hr
    exact (representable_iff h (hab.trans hb)).mpr ((Time.fromNanos_mono hab).trans hr)

/-- The room that the clock has is the greatest representable offset of a duration that is longer. -/
theorem room_greatest {t m d : T} (h : Time.room t = some m) (hd : d ≤ durationMax) (hdm : m ≤ d) :
    IsGreatest {n | n ≤ Time.asNanos d ∧ Representable t n} (Time.asNanos m) := by
  have hmd : Time.asNanos m ≤ Time.asNanos d := Time.asNanos_mono hdm
  have hmax : Time.asNanos d ≤ Time.asNanos (durationMax : T) := Time.asNanos_mono hd
  refine ⟨⟨hmd, ?_⟩, fun n ⟨hn, hr⟩ => ?_⟩
  · rw [representable_iff h (hmd.trans hmax), Time.fromNanos_asNanos t m h]
  · rw [representable_iff h (hn.trans hmax)] at hr
    have hle := Time.asNanos_mono hr
    rwa [Time.asNanos_fromNanos] at hle

/-- **Saturating addition**: as much of the duration as the clock has room for. -/
theorem saturatingAdd_some {t m d : T} (h : Time.room t = some m) (hd : d ≤ durationMax) :
    saturatingAdd t d = t + min d m := by
  by_cases hdm : d ≤ m
  · simp only [saturatingAdd, checkedAdd, h, hdm, if_true, min_eq_left]
  · have hnone : checkedAdd t d = none := by simp only [checkedAdd, h, hdm, if_false]
    have hmd : m ≤ d := (not_le.mp hdm).le
    generalize hs : searchOffset t 0 (Time.asNanos d) (representable_zero t) = r
    have hsat : checkedAdd t (durationFromNanos r.1) = some (saturatingAdd t d) := by
      simp only [saturatingAdd, hnone, hs]; exact (Option.some_get _).symm
    -- the search ends at the room that the clock has
    have hr : r.1 = Time.asNanos m := by
      rw [← hs]
      have hgreatest := searchOffset_greatest (representable_downTo t hd) (representable_zero t) (.start (representable_zero t))
      exact hgreatest.unique (room_greatest h hd hmd)
    have hmax : r.1 ≤ Time.asNanos (durationMax : T) := hr.trans_le (Time.asNanos_mono (hmd.trans hd))
    rw [checkedAdd_some hsat, durationFromNanos_eq hmax, hr, Time.fromNanos_asNanos t m h, min_eq_right hmd]

theorem saturatingAdd_mono {t d d' : T} (h : d ≤ d') (hd : d' ≤ durationMax) :
    saturatingAdd t d ≤ saturatingAdd t d' := by
  cases hm : Time.room t with
  | none => rw [saturatingAdd_none hm, saturatingAdd_none hm]; exact add_le_add_right h t
  | some m =>
    rw [saturatingAdd_some hm hd, saturatingAdd_some hm (h.trans hd)]
    exact add_le_add_right (min_le_min_right m h) t

/-- An addition that the clock can represent does not saturate. -/
theorem saturatingAdd_exact {t d : T} (h : (checkedAdd t d).isSome) : saturatingAdd t d = t + d := by
  obtain ⟨r, hr⟩ := Option.isSome_iff_exists.mp h
  simp only [saturatingAdd, hr]
  exact checkedAdd_some hr

/-- A representable sum is representable in two steps. -/
theorem checkedAdd_add {t a b : T} (h : (checkedAdd t (a + b)).isSome) :
    (checkedAdd t a).isSome ∧ (checkedAdd (t + a) b).isSome := by
  cases hm : Time.room t with
  | none =>
    have ha : Time.room (t + a) = none := by rw [Time.room_add, hm]; rfl
    rw [checkedAdd_of_none hm, checkedAdd_of_none ha]
    exact ⟨rfl, rfl⟩
  | some m =>
    have ha : Time.room (t + a) = some (m - a) := by rw [Time.room_add, hm]; rfl
    rw [checkedAdd_isSome_iff hm] at h ⊢
    rw [checkedAdd_isSome_iff ha]
    exact ⟨le_self_add.trans h, le_tsub_of_add_le_left h⟩

theorem fromNanos_pos {n : ℕ} (h : 0 < n) : (0 : T) < Time.fromNanos n := by
  refine lt_of_le_of_ne zero_le fun hzero => ?_
  have hn := congrArg Time.asNanos hzero
  rw [← Time.fromNanos_zero, Time.asNanos_fromNanos, Time.asNanos_fromNanos] at hn
  omega

theorem checkedAdd_mono {t d d' : T} (h : d ≤ d') (hd : (checkedAdd t d').isSome) : (checkedAdd t d).isSome := by
  rw [← add_tsub_cancel_of_le h] at hd
  exact (checkedAdd_add hd).1

end Time

/-! ## Rates and intervals -/

section Rate

variable {T F : Type} [AddCommMonoid T] [LinearOrder T] [Sub T] [Time T] [F64 F] [Secs T F]

/-- `rate_to_interval`; it panics on a rate that is not finite and positive, or too low for a `Duration`. -/
def rateToInterval (ratePerSecond : F) : Option T :=
  if F64.isFinite ratePerSecond ∧ 0.0 < ratePerSecond then
    let seconds := 1.0 / ratePerSecond
    match tryFromSecsF64 (T := T) seconds with
    | some interval => some (max interval (Time.fromNanos 1))
    | none => none
  else none

theorem rateToInterval_pos {rate : F} {interval : T} (h : rateToInterval rate = some interval) : 0 < interval := by
  unfold rateToInterval at h
  dsimp only at h
  split at h
  · split at h
    · rename_i d _
      obtain rfl : max d (Time.fromNanos 1) = interval := Option.some.inj h
      exact lt_max_of_lt_right (fromNanos_pos Nat.one_pos)
    · cases h
  · cases h

/-- `duration_from_secs_saturating`. -/
def durationFromSecsSaturating (seconds : F) : T :=
  if F64.isNan seconds ∨ seconds ≤ 0.0 then 0
  else if ¬F64.isFinite seconds then durationMax
  else
    match tryFromSecsF64 seconds with
    | some duration => duration
    | none => durationMax

end Rate

/-- A single-rate, spacing-oriented pacer. -/
structure Gcra (T : Type) where
  interval : T
  tat : T
  deriving DecidableEq, Repr

namespace Gcra

variable {T F : Type} [AddCommMonoid T] [LinearOrder T] [Sub T] [Time T] [F64 F] [Secs T F]

def new (ratePerSecond : F) (now : T) : Option (Gcra T) := do
  let interval ← rateToInterval ratePerSecond
  some { interval, tat := now }

def rate (g : Gcra T) : F := recip (asSecsF64 g.interval)

def nextAt (g : Gcra T) (now : T) : T := max g.tat now

def setRate (g : Gcra T) (ratePerSecond : F) (now : T) : Option (Gcra T) := do
  let interval : T ← rateToInterval ratePerSecond
  if interval = g.interval then
    some g
  else
    let phase : F := asSecsF64 (g.tat - now) / asSecsF64 g.interval
    let remaining := durationFromSecsSaturating (phase * asSecsF64 interval)
    some { interval, tat := saturatingAdd now remaining }

def commit (g : Gcra T) (dispatchedAt : T) : Gcra T :=
  let base := g.nextAt dispatchedAt
  { g with tat := saturatingAdd base g.interval }

/-- A change of rate takes the interval of the rate: nothing else changes when it is the old one, and otherwise the rest of
the phase is scaled. -/
theorem setRate_cases {g g' : Gcra T} {rate : F} {now : T} (h : g.setRate rate now = some g') :
    rateToInterval rate = some g'.interval ∧ (g' = g ∨ (g'.interval ≠ g.interval ∧ g' = {
      interval := g'.interval
      tat := saturatingAdd now (durationFromSecsSaturating
        (asSecsF64 (g.tat - now) / asSecsF64 g.interval * asSecsF64 g'.interval : F)) })) := by
  unfold setRate at h
  simp only [Option.bind_eq_bind, Option.bind_eq_some_iff] at h
  obtain ⟨interval, hi, h⟩ := h
  split at h
  · rename_i heq
    obtain rfl := Option.some.inj h
    exact ⟨heq ▸ hi, Or.inl rfl⟩
  · rename_i hne
    obtain rfl := Option.some.inj h
    exact ⟨hi, Or.inr ⟨hne, rfl⟩⟩

/-- A change of rate that keeps the interval changes nothing. -/
theorem setRate_same {g g' : Gcra T} {rate : F} {now : T} (h : g.setRate rate now = some g')
    (hi : g'.interval = g.interval) : g' = g := by
  obtain ⟨-, heq | ⟨hne, -⟩⟩ := setRate_cases h
  · exact heq
  · exact absurd hi hne

/-- It succeeds when the rate has an interval. -/
theorem setRate_isSome {rate : F} {interval : T} (g : Gcra T) (now : T) (h : rateToInterval rate = some interval) :
    ∃ g', g.setRate rate now = some g' := by
  unfold setRate
  simp only [Option.bind_eq_bind, h, Option.bind_some]
  split
  · exact ⟨_, rfl⟩
  · exact ⟨_, rfl⟩

end Gcra

end Loadpace
