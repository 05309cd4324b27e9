import Loadpace.Lib.Run
import Mathlib.Data.List.Range
import Mathlib.Data.List.Nodup
import Mathlib.Data.List.Perm.Subperm

/-!
# First-in-first-out tickets

A counter issues the tickets `0, 1, 2, …`; each waits until it is withdrawn, or served at the head of the line. The
history determines the line (`waiting_eq`): it is the issued tickets minus the withdrawn and the served ones, in the
order of issue. No ticket leaves the line twice (`gone_nodup`), and tickets are served in the order of issue
(`served_sublist`). A waiting ticket moves up by one place for every ticket ahead of it that leaves (`run_place`).
-/

namespace Tickets

open Systems

inductive Event
  | issue (n : ℕ)
  | withdraw (n : ℕ)
  | serve (n : ℕ)
  deriving DecidableEq, Repr

structure Line where
  next : ℕ
  waiting : List ℕ
  deriving DecidableEq, Repr

def empty : Line := { next := 0, waiting := [] }

inductive Step : Line → Event → Line → Prop
  | issue (n : ℕ) (ws : List ℕ) : Step ⟨n, ws⟩ (.issue n) ⟨n + 1, ws ++ [n]⟩
  | withdraw (n k : ℕ) (ws : List ℕ) : k ∈ ws → Step ⟨n, ws⟩ (.withdraw k) ⟨n, ws.erase k⟩
  | serve (n k : ℕ) (ws : List ℕ) : Step ⟨n, k :: ws⟩ (.serve k) ⟨n, ws⟩

/-! ## What the history says -/

def Event.issued? : Event → Option ℕ
  | .issue n => some n
  | _ => none

/-- The ticket that leaves the line. -/
def Event.gone? : Event → Option ℕ
  | .withdraw n | .serve n => some n
  | .issue _ => none

def Event.served? : Event → Option ℕ
  | .serve n => some n
  | _ => none

def issued (tr : List Event) : List ℕ := tr.filterMap Event.issued?

def gone (tr : List Event) : List ℕ := tr.filterMap Event.gone?

def served (tr : List Event) : List ℕ := tr.filterMap Event.served?

section

variable {tr : List Event} {l : Line}

theorem issued_eq (h : Run Step empty tr l) : issued tr = List.range l.next := by
  induction h with
  | nil => rfl
  | snoc _ he ih =>
    unfold issued at ih ⊢
    rw [List.filterMap_append, ih]
    cases he with
    | issue n ws => simp [Event.issued?, List.range_succ]
    | withdraw n k ws _ => simp [Event.issued?]
    | serve n k ws => simp [Event.issued?]

/-- What an event removes from the line. -/
theorem Step.waiting_of_gone {l l' : Line} {e : Event} {k : ℕ} (h : Step l e l') (hk : e.gone? = some k) :
    l'.next = l.next ∧ k ∈ l.waiting ∧ l'.waiting = l.waiting.erase k := by
  cases h with
  | issue n ws => cases hk
  | withdraw n j ws hj => cases hk; exact ⟨rfl, hj, rfl⟩
  | serve n j ws => cases hk; exact ⟨rfl, List.mem_cons_self, (List.erase_cons_head ..).symm⟩

/-- Each issued ticket is gone or waiting, and not both. -/
theorem gone_waiting_perm (h : Run Step empty tr l) : (gone tr ++ l.waiting).Perm (List.range l.next) := by
  induction h with
  | nil => exact .refl _
  | @snoc tr s e s' _ he ih =>
    cases hk : e.gone? with
    | none =>
      cases he with
      | issue n ws =>
        simp only [gone, List.filterMap_append, List.filterMap_cons, hk, List.filterMap_nil, List.append_nil,
          List.range_succ, ← List.append_assoc]
        exact ih.append_right [n]
      | withdraw | serve => cases hk
    | some k =>
      obtain ⟨hn, hmem, hw⟩ := he.waiting_of_gone hk
      simp only [gone, List.filterMap_append, List.filterMap_cons, hk, List.filterMap_nil, List.append_assoc, hn, hw]
      exact ((List.perm_cons_erase hmem).symm.append_left _).trans ih

theorem gone_nodup (h : Run Step empty tr l) : (gone tr).Nodup :=
  ((gone_waiting_perm h).nodup_iff.mpr List.nodup_range).of_append_left

theorem waiting_nodup (h : Run Step empty tr l) : l.waiting.Nodup :=
  ((gone_waiting_perm h).nodup_iff.mpr List.nodup_range).of_append_right

theorem lt_next_of_gone (h : Run Step empty tr l) {n : ℕ} (hn : n ∈ gone tr) : n < l.next :=
  List.mem_range.mp ((gone_waiting_perm h).subset (List.mem_append_left _ hn))

theorem lt_next_of_waiting (h : Run Step empty tr l) {n : ℕ} (hn : n ∈ l.waiting) : n < l.next :=
  List.mem_range.mp ((gone_waiting_perm h).subset (List.mem_append_right _ hn))

/-- A ticket that is gone does not wait again. -/
theorem not_waiting_of_gone (h : Run Step empty tr l) {n : ℕ} (hn : n ∈ gone tr) : n ∉ l.waiting :=
  List.disjoint_of_nodup_append ((gone_waiting_perm h).nodup_iff.mpr List.nodup_range) hn

/-- **The line**: the issued tickets that are not gone, in the order of issue. -/
theorem waiting_eq (h : Run Step empty tr l) : l.waiting = (List.range l.next).filter (· ∉ gone tr) := by
  induction h with
  | nil => rfl
  | @snoc tr s e s' hr he ih =>
    cases hk : e.gone? with
    | none =>
      cases he with
      | issue n ws =>
        have hn : n ∉ gone tr := fun hg => Nat.lt_irrefl n (lt_next_of_gone hr hg)
        have hg : gone (tr ++ [.issue n]) = gone tr := by simp [gone, hk]
        rw [hg, List.range_succ, List.filter_append, ← ih]
        simp [hn]
      | withdraw | serve => cases hk
    | some k =>
      obtain ⟨hn, hmem, hw⟩ := he.waiting_of_gone hk
      have hg : gone (tr ++ [e]) = gone tr ++ [k] := by simp [gone, hk]
      rw [hw, (waiting_nodup hr).erase_eq_filter, hn, hg, ih, List.filter_filter]
      refine List.filter_congr fun m _ => ?_
      by_cases hm : m = k <;> simp [hm]

/-- The served tickets, then the waiting ones, are in the order of issue. -/
theorem served_waiting_sublist (h : Run Step empty tr l) : (served tr ++ l.waiting).Sublist (List.range l.next) := by
  induction h with
  | nil => exact .slnil
  | snoc _ he ih =>
    unfold served at ih ⊢
    rw [List.filterMap_append]
    cases he with
    | issue n ws =>
      simp only [Event.served?, List.filterMap_cons, List.filterMap_nil, List.append_nil, List.range_succ,
        ← List.append_assoc]
      exact ih.append (.refl _)
    | withdraw n k ws _ =>
      simp only [Event.served?, List.filterMap_cons, List.filterMap_nil, List.append_nil]
      exact ((List.Sublist.refl _).append List.erase_sublist).trans ih
    | serve n k ws => simpa [Event.served?] using ih

theorem served_sublist (h : Run Step empty tr l) : (served tr).Sublist (issued tr) :=
  issued_eq h ▸ (List.sublist_append_left _ _).trans (served_waiting_sublist h)

/-! ## The place of a ticket -/

/-- The tickets wait in the order of issue. -/
structure Line.Ordered (l : Line) : Prop where
  sorted : l.waiting.Pairwise (· < ·)
  issued : ∀ n ∈ l.waiting, n < l.next

theorem ordered_of_run (h : Run Step empty tr l) : l.Ordered := by
  refine ⟨?_, fun n hn => lt_next_of_waiting h hn⟩
  have hsub := (List.sublist_append_right _ _).trans (served_waiting_sublist h)
  exact List.pairwise_lt_range.sublist hsub

theorem Step.ordered {l l' : Line} {e : Event} (h : Step l e l') (ho : l.Ordered) : l'.Ordered := by
  cases h with
  | issue n ws =>
    refine ⟨List.pairwise_append.mpr ⟨ho.sorted, List.pairwise_singleton _ _, fun a ha b hb => ?_⟩, fun m hm => ?_⟩
    · rw [List.mem_singleton.mp hb]
      exact ho.issued a ha
    · rcases List.mem_append.mp hm with hm | hm
      · exact (ho.issued m hm).trans (Nat.lt_succ_self n)
      · rw [List.mem_singleton.mp hm]
        exact Nat.lt_succ_self n
  | withdraw n k ws _ =>
    exact ⟨ho.sorted.sublist List.erase_sublist, fun m hm => ho.issued m (List.mem_of_mem_erase hm)⟩
  | serve n k ws => exact ⟨ho.sorted.of_cons, fun m hm => ho.issued m (List.mem_cons_of_mem k hm)⟩

/-- The number of tickets ahead of `n`. -/
def Line.place (l : Line) (n : ℕ) : ℕ := l.waiting.countP (· < n)

def Event.withdrawn? : Event → Option ℕ
  | .withdraw n => some n
  | _ => none

def withdrawn (tr : List Event) : List ℕ := tr.filterMap Event.withdrawn?

theorem countP_eq_of_sorted {ws : List ℕ} {i n : ℕ} (hs : ws.Pairwise (· < ·)) (hn : ws[i]? = some n) :
    ws.countP (· < n) = i := by
  induction ws generalizing i with
  | nil => cases hn
  | cons w ws ih =>
    obtain ⟨hfirst, hs⟩ := List.pairwise_cons.mp hs
    rw [List.countP_cons]
    cases i with
    | zero =>
      obtain rfl : w = n := Option.some.inj hn
      have hnone : ws.countP (· < w) = 0 := List.countP_eq_zero.mpr fun a ha => by simpa using (hfirst a ha).le
      simp [hnone]
    | succ i =>
      have hn : ws[i]? = some n := hn
      have hlt : w < n := hfirst n (List.mem_of_getElem? hn)
      rw [ih hs hn, if_pos (decide_eq_true hlt)]

/-- The place of a ticket is its index. -/
theorem Line.Ordered.place_eq {l : Line} {i n : ℕ} (ho : l.Ordered) (hn : l.waiting[i]? = some n) : l.place n = i :=
  countP_eq_of_sorted ho.sorted hn

/-- **One event** moves a waiting ticket one place up when one ahead of it leaves. -/
theorem Step.place {l l' : Line} {e : Event} {n : ℕ} (h : Step l e l') (ho : l.Ordered) (hn : n ∈ l.waiting)
    (hn' : n ∈ l'.waiting) :
    l.place n = l'.place n + (served [e]).length + (withdrawn [e]).countP (· < n) := by
  cases h with
  | issue k ws =>
    have hlt : ¬k < n := not_lt.mpr (ho.issued n hn).le
    have hs : served [.issue k] = [] := rfl
    have hw : withdrawn [.issue k] = [] := rfl
    simp [Line.place, hs, hw, hlt]
  | withdraw k j ws hj =>
    have hs : served [.withdraw j] = [] := rfl
    have hw : withdrawn [.withdraw j] = [j] := rfl
    have hperm := (List.perm_cons_erase hj).countP_eq (fun m => decide (m < n))
    simp [Line.place, hs, hw, hperm, List.countP_cons]
  | serve k j ws =>
    have hlt : j < n := (List.pairwise_cons.mp ho.sorted).1 n hn'
    have hs : served [.serve j] = [j] := rfl
    have hw : withdrawn [.serve j] = [] := rfl
    simp [Line.place, hs, hw, hlt]

/-- A ticket that was issued before and waits after an event waits all along. -/
theorem Step.waited {l l' : Line} {e : Event} {n : ℕ} (h : Step l e l') (hn : n < l.next) (hn' : n ∈ l'.waiting) :
    n ∈ l.waiting := by
  cases h with
  | issue k ws =>
    refine (List.mem_append.mp hn').resolve_right fun hk => ?_
    rw [List.mem_singleton.mp hk] at hn
    exact lt_irrefl _ hn
  | withdraw k j ws _ => exact List.mem_of_mem_erase hn'
  | serve k j ws => exact List.mem_cons_of_mem j hn'

theorem Step.next_le {l l' : Line} {e : Event} (h : Step l e l') : l.next ≤ l'.next := by
  cases h with
  | issue k ws => exact Nat.le_succ k
  | withdraw k j ws _ => exact le_rfl
  | serve k j ws => exact le_rfl

theorem run_next_le {l₀ : Line} (h : Run Step l₀ tr l) : l₀.next ≤ l.next :=
  h.invariant (P := fun l => l₀.next ≤ l.next) le_rfl fun _ _ _ he hle => hle.trans he.next_le

theorem run_ordered {l₀ : Line} (ho : l₀.Ordered) (h : Run Step l₀ tr l) : l.Ordered ∧ l₀.next ≤ l.next :=
  h.invariant (P := fun l => l.Ordered ∧ l₀.next ≤ l.next) ⟨ho, le_rfl⟩
    fun _ _ _ he hP => ⟨he.ordered hP.1, hP.2.trans he.next_le⟩

theorem run_waited {l₀ : Line} {n : ℕ} (h : Run Step l₀ tr l) (hn : n < l₀.next) (hn' : n ∈ l.waiting) : n ∈ l₀.waiting := by
  induction h with
  | nil => exact hn'
  | @snoc tr m e l hr he ih => exact ih (he.waited (hn.trans_le (run_next_le hr)) hn')

/-- **The place of a ticket** that waits all along: it moves up for every ticket that is served, and for every one ahead of
it that is withdrawn. -/
theorem run_place {l₀ : Line} {n : ℕ} (ho : l₀.Ordered) (hn₀ : n ∈ l₀.waiting) (h : Run Step l₀ tr l) (hn : n ∈ l.waiting) :
    l₀.place n = l.place n + (served tr).length + (withdrawn tr).countP (· < n) := by
  induction h with
  | nil => rfl
  | @snoc tr m e l hr he ih =>
    obtain ⟨hm, hle⟩ := run_ordered ho hr
    have hwait : n ∈ m.waiting := he.waited ((ho.issued n hn₀).trans_le hle) hn
    have hplace := he.place hm hwait hn
    have ih := ih hwait
    have hs : served (tr ++ [e]) = served tr ++ served [e] := List.filterMap_append
    have hw : withdrawn (tr ++ [e]) = withdrawn tr ++ withdrawn [e] := List.filterMap_append
    rw [hs, hw, List.length_append, List.countP_append]
    omega

/-- A ticket moves up when one ahead of it leaves. -/
theorem run_place_lt {l₀ : Line} {m n : ℕ} (ho : l₀.Ordered) (hn₀ : n ∈ l₀.waiting) (h : Run Step l₀ tr l)
    (hlt : m < n) (hm₀ : m ∈ l₀.waiting) (hm : m ∉ l.waiting) : l.place n < l₀.place n := by
  have hahead : (m :: l.waiting.filter (· < n)).Nodup := by
    refine List.nodup_cons.mpr ⟨fun hmem => hm (List.mem_of_mem_filter hmem), ?_⟩
    exact ((run_ordered ho h).1.sorted.imp ne_of_lt).filter _
  have hsub : m :: l.waiting.filter (· < n) ⊆ l₀.waiting.filter (· < n) := by
    intro k hk
    rcases List.mem_cons.mp hk with rfl | hk
    · exact List.mem_filter.mpr ⟨hm₀, decide_eq_true hlt⟩
    · obtain ⟨hk, hkn⟩ := List.mem_filter.mp hk
      have hknext := (of_decide_eq_true hkn).trans (ho.issued n hn₀)
      exact List.mem_filter.mpr ⟨run_waited h hknext hk, hkn⟩
  have hle := (List.Nodup.subperm hahead hsub).length_le
  rw [List.length_cons, ← List.countP_eq_length_filter, ← List.countP_eq_length_filter] at hle
  exact hle

end

end Tickets
