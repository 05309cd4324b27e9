import Loadpace.Lib.Run
import Mathlib.Algebra.BigOperators.Group.List.Basic
import Mathlib.Algebra.GroupWithZero.Nat
import Mathlib.Data.List.Count

/-!
# Stations with waiting rooms

Each station has a waiting room with a bound, counts the jobs that it accepted, started and finished, and knows how many
it works on; one list holds the jobs in service of all stations. No job is lost: `Balanced` holds along every run
(`run_balanced`), and the jobs that were accepted are the accepting steps of the history (`run_issued`). A step that accepts
no job lowers the work that is left (`run_work`).
-/

namespace Stations

open Systems

structure Station where
  capacity : ℕ
  issued : ℕ
  waiting : ℕ
  started : ℕ
  busy : ℕ
  finished : ℕ

/-- The stations, and the station of each job in service. -/
structure State where
  stations : List Station
  jobs : List ℕ

inductive Event
  | accept (i : ℕ)
  | start (i : ℕ)
  | finish (i : ℕ)

def Event.isAccept : Event → Bool
  | .accept _ => true
  | .start _ => false
  | .finish _ => false

namespace Station

def accept (x : Station) : Station := { x with issued := x.issued + 1, waiting := x.waiting + 1 }

def start (x : Station) : Station := { x with waiting := x.waiting - 1, started := x.started + 1, busy := x.busy + 1 }

def finish (x : Station) : Station := { x with busy := x.busy - 1, finished := x.finished + 1 }

end Station

inductive Step (s : State) : Event → State → Prop
  | accept {i : ℕ} {x : Station} : s.stations[i]? = some x → x.waiting < x.capacity →
      Step s (.accept i) { s with stations := s.stations.set i x.accept }
  | start {i : ℕ} {x : Station} : s.stations[i]? = some x → 0 < x.waiting →
      Step s (.start i) { stations := s.stations.set i x.start, jobs := s.jobs ++ [i] }
  | finish {i : ℕ} {x : Station} {before after : List ℕ} : s.stations[i]? = some x → s.jobs = before ++ i :: after →
      Step s (.finish i) { stations := s.stations.set i x.finish, jobs := before ++ after }

/-- Every job of the station is in one place. -/
structure Station.Balanced (x : Station) (inService : ℕ) : Prop where
  room : x.waiting ≤ x.capacity
  issued : x.issued = x.started + x.waiting
  started : x.started = x.finished + x.busy
  busy : x.busy = inService

/-- Every station is balanced, and every job has one. -/
structure Balanced (s : State) : Prop where
  station : ∀ (i : ℕ) (x : Station), s.stations[i]? = some x → x.Balanced (s.jobs.count i)
  owned : ∀ i ∈ s.jobs, i < s.stations.length

/-- Another element of a list that was updated at one place, or the new one. -/
theorem getElem?_set_cases {α : Type*} {l : List α} {i j : ℕ} {x y : α} (h : (l.set i x)[j]? = some y) :
    (j = i ∧ y = x) ∨ (j ≠ i ∧ l[j]? = some y) := by
  rw [List.getElem?_set] at h
  by_cases hij : i = j
  · rw [if_pos hij] at h
    split at h
    · exact Or.inl ⟨hij.symm, (Option.some.inj h).symm⟩
    · cases h
  · rw [if_neg hij] at h
    exact Or.inr ⟨fun he => hij he.symm, h⟩

theorem Step.balanced {s s' : State} {e : Event} (h : Step s e s') (hb : Balanced s) : Balanced s' := by
  cases h with
  | @accept i x hi hroom =>
    refine ⟨fun j y hj => ?_, fun j hj => by rw [List.length_set]; exact hb.owned j hj⟩
    have hx := hb.station i x hi
    rcases getElem?_set_cases hj with ⟨rfl, rfl⟩ | ⟨-, hj⟩
    · have hissued := hx.issued
      exact ⟨hroom, by simp only [Station.accept]; omega, hx.started, hx.busy⟩
    · exact hb.station j y hj
  | @start i x hi hwaits =>
    have hx := hb.station i x hi
    have hlt : i < s.stations.length := (List.getElem?_eq_some_iff.mp hi).1
    refine ⟨fun j y hj => ?_, fun j hj => ?_⟩
    · rcases getElem?_set_cases hj with ⟨rfl, rfl⟩ | ⟨hne, hj⟩
      · obtain ⟨hroom, hissued, hstarted, hbusy⟩ := hx
        refine ⟨?_, ?_, ?_, ?_⟩
        · simp only [Station.start]; omega
        · simp only [Station.start]; omega
        · simp only [Station.start]; omega
        · simp only [Station.start, List.count_append, List.count_singleton_self, hbusy]
      · have hcount : (s.jobs ++ [i]).count j = s.jobs.count j := by
          rw [List.count_append, List.count_singleton, if_neg (by simpa using Ne.symm hne), Nat.add_zero]
        exact hcount.symm ▸ hb.station j y hj
    · rw [List.length_set]
      rcases List.mem_append.mp hj with hj | hj
      · exact hb.owned j hj
      · rw [List.mem_singleton.mp hj]
        exact hlt
  | @finish i x before after hi hjobs =>
    have hx := hb.station i x hi
    have hsub : ∀ j ∈ before ++ after, j ∈ s.jobs := fun j hj => by
      rw [hjobs, List.mem_append, List.mem_cons]
      exact (List.mem_append.mp hj).imp id Or.inr
    refine ⟨fun j y hj => ?_, fun j hj => by rw [List.length_set]; exact hb.owned j (hsub j hj)⟩
    rcases getElem?_set_cases hj with ⟨rfl, rfl⟩ | ⟨hne, hj⟩
    · obtain ⟨hroom, hissued, hstarted, hbusy⟩ := hx
      rw [hjobs, List.count_append, List.count_cons_self] at hbusy
      refine ⟨hroom, hissued, ?_, ?_⟩
      · simp only [Station.finish]; omega
      · simp only [Station.finish, List.count_append]; omega
    · have hcount : (before ++ after).count j = s.jobs.count j := by
        rw [hjobs, List.count_append, List.count_append, List.count_cons_of_ne (Ne.symm hne)]
      exact hcount.symm ▸ hb.station j y hj

theorem run_balanced {s s' : State} {events : List Event} (h : Run Step s events s') (hb : Balanced s) : Balanced s' :=
  h.invariant (P := Balanced) hb fun _ _ _ he hb => he.balanced hb

/-! ## Totals -/

/-- An update that keeps a reading. -/
theorem map_set_same {α β : Type*} {l : List α} {f : α → β} {i : ℕ} {x y : α} (hi : l[i]? = some x) (h : f y = f x) :
    (l.set i y).map f = l.map f := by
  have hx : (l.map f)[i]? = some (f x) := by rw [List.getElem?_map, hi]; rfl
  rw [List.map_set, h]
  refine List.ext_getElem? fun j => ?_
  rw [List.getElem?_set]
  split
  · rename_i hij
    obtain rfl := hij
    rw [hx]
    split
    · rfl
    · rename_i hlt
      exact absurd (List.getElem?_eq_some_iff.mp hx).1 hlt
  · rfl

/-- What an update changes in the total of a reading. -/
theorem sum_set {α : Type*} {l : List α} {f : α → ℕ} {i : ℕ} {x : α} (hi : l[i]? = some x) (y : α) :
    ((l.set i y).map f).sum + f x = (l.map f).sum + f y := by
  induction l generalizing i with
  | nil => cases hi
  | cons a l ih =>
    cases i with
    | zero =>
      obtain rfl : a = x := Option.some.inj hi
      simp only [List.set_cons_zero, List.map_cons, List.sum_cons]
      omega
    | succ i =>
      have hl := ih (i := i) hi
      simp only [List.set_cons_succ, List.map_cons, List.sum_cons]
      omega

/-- An update that raises a reading by one raises its total by one. -/
theorem sum_set_succ {α : Type*} {l : List α} {f : α → ℕ} {i : ℕ} {x y : α} (hi : l[i]? = some x) (h : f y = f x + 1) :
    ((l.set i y).map f).sum = (l.map f).sum + 1 := by
  have hsum := sum_set (f := f) hi y
  omega

theorem Step.capacities {s s' : State} {e : Event} (h : Step s e s') :
    s'.stations.map Station.capacity = s.stations.map Station.capacity := by
  cases h with
  | accept hi _ => exact map_set_same hi rfl
  | start hi _ => exact map_set_same hi rfl
  | finish hi _ => exact map_set_same hi rfl

theorem run_capacities {s s' : State} {events : List Event} (h : Run Step s events s') :
    s'.stations.map Station.capacity = s.stations.map Station.capacity :=
  h.invariant (P := fun m => m.stations.map Station.capacity = s.stations.map Station.capacity) rfl
    fun _ _ _ he hc => he.capacities.trans hc

/-- **Every accepted job was accepted by a step of the history.** -/
theorem run_issued {s s' : State} {events : List Event} (h : Run Step s events s') :
    (s'.stations.map Station.issued).sum = (s.stations.map Station.issued).sum + events.countP Event.isAccept := by
  induction h with
  | nil => rfl
  | @snoc tr m e m' hr he ih =>
    rw [List.countP_append, ← Nat.add_assoc, ← ih]
    cases he with
    | accept hi _ => exact sum_set_succ hi rfl
    | start hi _ => exact congrArg List.sum (map_set_same hi rfl)
    | finish hi _ => exact congrArg List.sum (map_set_same hi rfl)

/-- In balance, the totals are too. -/
theorem Balanced.totals {s : State} (h : Balanced s) :
    (s.stations.map Station.issued).sum =
        (s.stations.map Station.started).sum + (s.stations.map Station.waiting).sum ∧
      (s.stations.map Station.started).sum =
        (s.stations.map Station.finished).sum + (s.stations.map Station.busy).sum := by
  have hmem : ∀ x ∈ s.stations, x.issued = x.started + x.waiting ∧ x.started = x.finished + x.busy := fun x hx => by
    obtain ⟨i, hi⟩ := List.mem_iff_getElem?.mp hx
    exact ⟨(h.station i x hi).issued, (h.station i x hi).started⟩
  constructor
  · rw [← List.sum_map_add]
    exact congrArg List.sum (List.map_congr_left fun x hx => (hmem x hx).1)
  · rw [← List.sum_map_add]
    exact congrArg List.sum (List.map_congr_left fun x hx => (hmem x hx).2)

/-! ## Work -/

/-- The steps that are left: two for each waiting job, and one for each job in service. -/
def State.work (s : State) : ℕ := 2 * (s.stations.map Station.waiting).sum + s.jobs.length

/-- **Every step takes one off the work**, and an accepted job brings three. -/
theorem run_work {s s' : State} {events : List Event} (h : Run Step s events s') :
    s'.work + events.length = s.work + 3 * events.countP Event.isAccept := by
  induction h with
  | nil => rfl
  | @snoc tr m e m' hr he ih =>
    have hone : m'.work + 1 = m.work + 3 * [e].countP Event.isAccept := by
      unfold State.work
      cases he with
      | @accept i x hi _ =>
        have hsum := sum_set_succ (f := Station.waiting) (y := x.accept) hi rfl
        simp only [hsum, List.countP_cons, List.countP_nil, Event.isAccept, if_true]
        omega
      | @start i x hi hwaits =>
        have hsum := sum_set (f := Station.waiting) hi x.start
        have hstart : x.start.waiting = x.waiting - 1 := rfl
        simp only [List.length_append, List.length_singleton, List.countP_cons, List.countP_nil, Event.isAccept,
          Bool.false_eq_true, if_false]
        omega
      | @finish i x before after hi hjobs =>
        have hsame : (m.stations.set i x.finish).map Station.waiting = m.stations.map Station.waiting :=
          map_set_same hi rfl
        simp only [hsame, hjobs, List.length_append, List.length_cons, List.countP_cons, List.countP_nil, Event.isAccept,
          Bool.false_eq_true, if_false]
        omega
    rw [List.length_append, List.countP_append, List.length_singleton]
    omega

end Stations
