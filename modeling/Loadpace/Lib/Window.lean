import Mathlib.Algebra.Group.Fin.Basic
import Mathlib.Algebra.Order.Monoid.Defs
import Mathlib.Algebra.Order.Monoid.Unbundled.Pow
import Mathlib.Data.Fin.Basic
import Mathlib.Order.Lattice

/-!
# Rolling minima in a ring of buckets

A ring keeps the least value of each of its last `n + 1` stretches of time, each of one width; a turn of the ring empties the
bucket it comes to (`Ring.turns_kept`, `Ring.turns_emptied`). Of a value in a bucket only the stretch of its instant is known.
`Tracks` says what the ring knows of the values seen: the least of its buckets is at most every value of the last `n` widths
and is a value of the last `n + 1` (`Tracks.least`).
-/

namespace Window

/-- A ring of `n + 1` buckets, of which one is current. -/
structure Ring (n : ℕ) (α : Type*) where
  buckets : Fin (n + 1) → Option α
  current : Fin (n + 1)

namespace Ring

variable {n k : ℕ} {α : Type*} {r : Ring n α} {i : Fin (n + 1)}

/-- How many turns ago a bucket was current. -/
def age (r : Ring n α) (i : Fin (n + 1)) : ℕ := (r.current - i : Fin (n + 1))

/-- The next bucket becomes current, and is empty. -/
def turn (r : Ring n α) : Ring n α where
  buckets := Function.update r.buckets (r.current + 1) none
  current := r.current + 1

def turns (r : Ring n α) : ℕ → Ring n α
  | 0 => r
  | k + 1 => r.turn.turns k

/-- No bucket holds a value. -/
def empty : Ring n α where
  buckets _ := none
  current := 0

theorem age_lt (r : Ring n α) (i : Fin (n + 1)) : r.age i < n + 1 := Fin.isLt _

theorem age_current (r : Ring n α) : r.age r.current = 0 := by
  rw [age, sub_self]
  rfl

/-- The bucket that was current longest ago becomes current. -/
theorem age_eq_last (h : r.age i = n) : i = r.current + 1 := by
  have hlast : r.current - i = Fin.last n := Fin.ext h
  have hzero : r.current - i + 1 = 0 := by rw [hlast, Fin.last_add_one]
  rw [sub_add_eq_add_sub, sub_eq_zero] at hzero
  exact hzero.symm

theorem age_turn (h : r.age i < n) : r.turn.age i = r.age i + 1 := by
  have hsub : r.turn.current - i = r.current - i + 1 := (sub_add_eq_add_sub _ _ _).symm
  rw [age, hsub]
  exact Fin.val_add_one_of_lt' (Nat.succ_lt_succ h)

theorem turn_kept (h : r.age i < n) : r.turn.buckets i = r.buckets i := by
  refine Function.update_of_ne (fun heq => ?_) _ _
  -- the bucket that the turn comes to is the oldest
  have hcur : r.turn.age i = 0 := by
    rw [heq]
    exact r.turn.age_current
  rw [age_turn h] at hcur
  omega

theorem turns_kept (h : r.age i + k ≤ n) : (r.turns k).age i = r.age i + k ∧ (r.turns k).buckets i = r.buckets i := by
  induction k generalizing r with
  | zero => exact ⟨rfl, rfl⟩
  | succ k ih =>
    have hlt : r.age i < n := by omega
    have hage := age_turn hlt
    obtain ⟨ha, hb⟩ := ih (r := r.turn) (by omega)
    refine ⟨?_, hb.trans (turn_kept hlt)⟩
    show (r.turn.turns k).age i = r.age i + (k + 1)
    omega

/-- A bucket that the ring has come round to is empty. -/
theorem turns_emptied (hk : k ≤ n + 1) (h : n < r.age i + k) : (r.turns k).buckets i = none := by
  induction k generalizing r with
  | zero =>
    have hlt := r.age_lt i
    omega
  | succ k ih =>
    have hle := r.age_lt i
    rcases Nat.lt_or_ge (r.age i) n with hlt | hge
    · have hage := age_turn hlt
      exact ih (r := r.turn) (by omega) (by omega)
    · have hcur : i = r.turn.current := age_eq_last (by omega)
      have hage : r.turn.age i = 0 := by
        rw [hcur]
        exact r.turn.age_current
      have hkept := (turns_kept (r := r.turn) (i := i) (k := k) (by omega)).2
      rw [hcur] at hkept ⊢
      refine hkept.trans ?_
      exact Function.update_self _ _ _

variable [LinearOrder α]

/-- The current bucket takes a value. -/
def lower (r : Ring n α) (v : α) : Ring n α :=
  { r with buckets := Function.update r.buckets r.current (some ((r.buckets r.current).elim v (min · v))) }

theorem lower_current (r : Ring n α) (v : α) :
    (r.lower v).buckets r.current = some ((r.buckets r.current).elim v (min · v)) := Function.update_self _ _ _

theorem lower_other (v : α) (h : i ≠ r.current) : (r.lower v).buckets i = r.buckets i := Function.update_of_ne h _ _

end Ring

/-! ## What the ring knows -/

section

variable {n k : ℕ} {α T : Type*} [LinearOrder α] [AddCommMonoid T] [LinearOrder T] [IsOrderedCancelAddMonoid T]
variable {width started now now' : T} {seen : List (T × α)} {r : Ring n α}

/-- The ring at `now`, with the current bucket begun at `started`: a value in a bucket was seen in the stretch of the bucket
or later, and a value of the last `n` widths is in the bucket of its stretch or of an earlier one, or a lower one is. -/
structure Tracks (width started now : T) (seen : List (T × α)) (r : Ring n α) : Prop where
  started_le : started ≤ now
  lt_end : now < started + width
  sound : ∀ i v, r.buckets i = some v → ∃ x ∈ seen, x.2 = v ∧ started ≤ x.1 + r.age i • width
  complete : ∀ x ∈ seen, now ≤ x.1 + n • width → ∃ i v, r.buckets i = some v ∧ v ≤ x.2 ∧
    x.1 + r.age i • width < started + width

/-- **Turning the ring**, by as many stretches as have passed, as long as that is less than a whole turn. -/
theorem Tracks.turns (h : Tracks width started now seen r) (hle : now ≤ now') (hk : k ≤ n)
    (hlo : started + k • width ≤ now') (hhi : now' < started + k • width + width) :
    Tracks width (started + k • width) now' seen (r.turns k) := by
  refine ⟨hlo, hhi, fun i v hv => ?_, fun x hx hrecent => ?_⟩
  · rcases Nat.lt_or_ge n (r.age i + k) with hlt | hge
    · rw [Ring.turns_emptied (by omega) hlt] at hv
      cases hv
    · obtain ⟨hage, hsame⟩ := Ring.turns_kept hge
      rw [hsame] at hv
      obtain ⟨x, hx, hval, hfrom⟩ := h.sound i v hv
      refine ⟨x, hx, hval, ?_⟩
      rw [hage, add_nsmul, ← add_assoc]
      exact add_le_add_left hfrom _
  · obtain ⟨i, v, hv, hlow, hbefore⟩ := h.complete x hx (hle.trans hrecent)
    -- the bucket is not among those that the turns empty
    have hfit : r.age i + k ≤ n := by
      by_contra hc
      have hpos : 0 ≤ width := by
        have hlt := h.started_le.trans_lt h.lt_end
        exact (lt_add_iff_pos_right started).mp hlt |>.le
      have hmore : (n + 1) • width ≤ (r.age i + k) • width := nsmul_le_nsmul_left hpos (by omega)
      have hturned : started + (r.age i + k) • width ≤ x.1 + n • width + r.age i • width := by
        rw [add_nsmul, add_comm (r.age i • width), ← add_assoc]
        exact add_le_add_left (hlo.trans hrecent) _
      have hstretch : x.1 + n • width + r.age i • width < started + (n + 1) • width := by
        have hadd := add_lt_add_left hbefore (n • width)
        rwa [add_right_comm, add_assoc started, ← succ_nsmul'] at hadd
      exact absurd (hturned.trans_lt hstretch) (not_lt.mpr (add_le_add_right hmore started))
    obtain ⟨hage, hsame⟩ := Ring.turns_kept hfit
    refine ⟨i, v, hsame.trans hv, hlow, ?_⟩
    rw [hage, add_nsmul, ← add_assoc, add_right_comm started]
    exact add_lt_add_left hbefore _

/-- **Starting over**, when a whole turn has passed. -/
theorem Tracks.restart (h : Tracks width started now seen r) (hle : now ≤ now')
    (hpassed : started + (n + 1) • width ≤ now') : Tracks width now' now' seen (Ring.empty : Ring n α) := by
  have hpos : 0 < width := (lt_add_iff_pos_right started).mp (h.started_le.trans_lt h.lt_end)
  refine ⟨le_rfl, lt_add_of_pos_right _ hpos, fun i v hv => (by cases hv), fun x hx hrecent => ?_⟩
  -- the values seen are all too old
  obtain ⟨i, v, -, -, hbefore⟩ := h.complete x hx (hle.trans hrecent)
  have hold : x.1 < started + width :=
    (le_add_of_nonneg_right (nsmul_nonneg hpos.le _)).trans_lt hbefore
  have hlate := (hpassed.trans hrecent).trans_lt (add_lt_add_left hold (n • width))
  rw [add_assoc started, ← succ_nsmul'] at hlate
  exact absurd hlate (lt_irrefl _)

/-- A first stretch begins at once. -/
theorem Tracks.first (hpos : 0 < width) (now : T) : Tracks width now now ([] : List (T × α)) (Ring.empty : Ring n α) :=
  ⟨le_rfl, lt_add_of_pos_right _ hpos, fun i v hv => (by cases hv), fun x hx => absurd hx List.not_mem_nil⟩

omit [IsOrderedCancelAddMonoid T] in
/-- **A value goes into the current bucket.** -/
theorem Tracks.lower (h : Tracks width started now seen r) (v : α) :
    Tracks width started now (seen ++ [(now, v)]) (r.lower v) := by
  have hzero (i : Fin (n + 1)) : (r.lower v).age i = r.age i := rfl
  refine ⟨h.started_le, h.lt_end, fun i u hu => ?_, fun x hx hrecent => ?_⟩
  · rw [hzero]
    have old (hold : r.buckets i = some u) : ∃ x ∈ seen ++ [(now, v)], x.2 = u ∧ started ≤ x.1 + r.age i • width := by
      obtain ⟨x, hx, hfound⟩ := h.sound i u hold
      exact ⟨x, List.mem_append_left _ hx, hfound⟩
    have new (hnew : v = u) (hi : i = r.current) :
        ∃ x ∈ seen ++ [(now, v)], x.2 = u ∧ started ≤ x.1 + r.age i • width := by
      refine ⟨(now, v), List.mem_append_right _ List.mem_cons_self, hnew, ?_⟩
      rw [hi, Ring.age_current, zero_nsmul, add_zero]
      exact h.started_le
    by_cases hi : i = r.current
    · rw [hi, Ring.lower_current] at hu
      cases hb : r.buckets r.current with
      | none =>
        rw [hb] at hu
        exact new (Option.some.inj hu) hi
      | some w =>
        rw [hb] at hu
        have hmin : min w v = u := Option.some.inj hu
        rcases min_choice w v with hw | hv
        · exact old (by rw [hi, hb, ← hmin, hw])
        · exact new (hv.symm.trans hmin) hi
    · rw [Ring.lower_other v hi] at hu
      exact old hu
  · rcases List.mem_append.mp hx with hx | hx
    · obtain ⟨i, u, hu, hlow, hbefore⟩ := h.complete x hx hrecent
      by_cases hi : i = r.current
      · refine ⟨i, min u v, ?_, (min_le_left _ _).trans hlow, hbefore⟩
        rw [hi] at hu ⊢
        rw [Ring.lower_current, hu]
        rfl
      · exact ⟨i, u, (Ring.lower_other v hi).trans hu, hlow, hbefore⟩
    · obtain rfl := List.mem_singleton.mp hx
      refine ⟨r.current, _, r.lower_current v, ?_, ?_⟩
      · cases r.buckets r.current with
        | none => exact le_rfl
        | some w => exact min_le_right _ _
      · rw [hzero, Ring.age_current, zero_nsmul, add_zero]
        exact h.lt_end

/-- **The least value of the ring**: at most every value of the last `n` widths, and a value of the last `n + 1`. -/
theorem Tracks.least (h : Tracks width started now seen r) {m : α} (hmem : ∃ i, r.buckets i = some m)
    (hle : ∀ i v, r.buckets i = some v → m ≤ v) :
    (∀ x ∈ seen, now ≤ x.1 + n • width → m ≤ x.2) ∧ ∃ x ∈ seen, x.2 = m ∧ now < x.1 + (n + 1) • width := by
  refine ⟨fun x hx hrecent => ?_, ?_⟩
  · obtain ⟨i, v, hv, hlow, -⟩ := h.complete x hx hrecent
    exact (hle i v hv).trans hlow
  · obtain ⟨i, hi⟩ := hmem
    obtain ⟨x, hx, hval, hfrom⟩ := h.sound i m hi
    refine ⟨x, hx, hval, ?_⟩
    have hpos : 0 < width := (lt_add_iff_pos_right started).mp (h.started_le.trans_lt h.lt_end)
    have hage : r.age i ≤ n := Nat.lt_succ_iff.mp (r.age_lt i)
    calc now < started + width := h.lt_end
      _ ≤ x.1 + r.age i • width + width := add_le_add_left hfrom _
      _ ≤ x.1 + n • width + width :=
        add_le_add_left (add_le_add_right (nsmul_le_nsmul_left hpos.le hage) _) _
      _ = x.1 + (n + 1) • width := by rw [add_assoc, ← succ_nsmul]

end

end Window
