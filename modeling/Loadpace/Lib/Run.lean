import Mathlib.Data.List.Basic
import Mathlib.Order.Lattice

/-!
# Runs of a transition system

* `Run step s₀ tr s`: the labels `tr`, in order, lead from `s₀` to `s`. A run is built at its end, so that an induction
  on it is an induction on the history (`Run.invariant`); it splits at every point of the history (`Run.split`).
* `play`: an executable system runs its labels in order.
* `familyStep`: a family of systems of which one moves at a time; a run of the family is a run of each member
  (`Run.member`).
* `timedStep`: a system with a clock that the labels never move back.
* `disturbedStep`: a system whose environment may change the state between two steps (`Run.disturbed_invariant`).
* `stampedStep`: a history that has the state before each step, for a count of the steps of some states.
-/

namespace Systems

section Runs

variable {σ ε : Type*} {step : σ → ε → σ → Prop} {s₀ s s' : σ} {tr tr' : List ε}

/-- **Runs**, with their history. -/
inductive Run (step : σ → ε → σ → Prop) (s₀ : σ) : List ε → σ → Prop
  | nil : Run step s₀ [] s₀
  | snoc {tr : List ε} {s : σ} {e : ε} {s' : σ} : Run step s₀ tr s → step s e s' → Run step s₀ (tr ++ [e]) s'

namespace Run

/-- A property that holds at the start and that every step keeps holds after every run. -/
theorem invariant {P : σ → Prop} (h : Run step s₀ tr s) (h0 : P s₀) (hs : ∀ s e s', step s e s' → P s → P s') : P s := by
  induction h with
  | nil => exact h0
  | snoc _ he ih => exact hs _ _ _ he ih

theorem single {e : ε} (h : step s e s') : Run step s [e] s' := by simpa using Run.snoc .nil h

theorem append (h : Run step s₀ tr s) (h' : Run step s tr' s') : Run step s₀ (tr ++ tr') s' := by
  induction h' with
  | nil => simpa using h
  | snoc _ he ih => rw [← List.append_assoc]; exact ih.snoc he

theorem cons {e : ε} (h : step s₀ e s) (h' : Run step s tr s') : Run step s₀ (e :: tr) s' := (single h).append h'

/-- A run splits wherever its history does. -/
theorem split (h : Run step s₀ (tr ++ tr') s) : ∃ m, Run step s₀ tr m ∧ Run step m tr' s := by
  generalize he : tr ++ tr' = t at h
  induction h generalizing tr' with
  | nil =>
    obtain ⟨rfl, rfl⟩ := List.append_eq_nil_iff.mp he
    exact ⟨_, .nil, .nil⟩
  | @snoc t m e s hr hstep ih =>
    rcases List.eq_nil_or_concat tr' with rfl | ⟨u, x, rfl⟩
    · rw [List.append_nil] at he
      exact ⟨s, he ▸ hr.snoc hstep, .nil⟩
    · rw [List.concat_eq_append, ← List.append_assoc] at he
      obtain ⟨rfl, hx⟩ := List.append_inj' he rfl
      obtain rfl : x = e := by simpa using hx
      obtain ⟨m', h1, h2⟩ := ih rfl
      exact ⟨m', h1, by rw [List.concat_eq_append]; exact h2.snoc hstep⟩

theorem cons_inv {e : ε} (h : Run step s₀ (e :: tr) s) : ∃ m, step s₀ e m ∧ Run step m tr s := by
  obtain ⟨m, h1, h2⟩ := split (show Run step s₀ ([e] ++ tr) s from h)
  generalize ht : [e] = t at h1
  cases h1 with
  | nil => cases ht
  | @snoc t' m' e' _ h1 he =>
    obtain ⟨rfl, hx⟩ := List.append_inj' (show [] ++ [e] = t' ++ [e'] from ht) rfl
    obtain rfl : e = e' := by simpa using hx
    generalize hn : ([] : List ε) = n at h1
    cases h1 with
    | nil => exact ⟨m, he, h2⟩
    | snoc _ _ => simp at hn

theorem nil_inv (h : Run step s₀ [] s) : s = s₀ := by
  generalize hn : ([] : List ε) = n at h
  cases h with
  | nil => rfl
  | snoc _ _ => simp at hn

theorem snoc_inv {e : ε} (h : Run step s₀ (tr ++ [e]) s) : ∃ m, Run step s₀ tr m ∧ step m e s := by
  obtain ⟨m, h1, h2⟩ := h.split
  obtain ⟨m', he, h3⟩ := h2.cons_inv
  obtain rfl := h3.nil_inv
  exact ⟨m, h1, he⟩

/-- Each step of the run is a step of another system, or leaves it where it is. -/
theorem simulation {σ' ε' : Type*} {A : σ' → ε' → σ' → Prop} {P : σ → Prop} {f : σ → σ'} {g : ε → Option ε'}
    (h : Run step s₀ tr s) (h0 : P s₀) (hs : ∀ s, ∀ e ∈ tr, ∀ s', step s e s' → P s →
      P s' ∧ match g e with
        | none => f s' = f s
        | some x => A (f s) x (f s')) : P s ∧ Run A (f s₀) (tr.filterMap g) (f s) := by
  induction h with
  | nil => exact ⟨h0, .nil⟩
  | @snoc tr m e s _ he ih =>
    obtain ⟨hP, hrun⟩ := ih fun s e he => hs s e (List.mem_append_left _ he)
    obtain ⟨hP', hstep⟩ := hs m e (List.mem_append_right _ List.mem_cons_self) s he hP
    refine ⟨hP', ?_⟩
    rw [List.filterMap_append, List.filterMap_cons, List.filterMap_nil]
    cases hg : g e with
    | none =>
      rw [hg] at hstep
      rw [hstep, List.append_nil]
      exact hrun
    | some x =>
      rw [hg] at hstep
      exact hrun.snoc hstep

/-- Every label of the history is a step of the run. -/
theorem of_mem {e : ε} (h : Run step s₀ tr s) (he : e ∈ tr) :
    ∃ a b m m', tr = a ++ e :: b ∧ Run step s₀ a m ∧ step m e m' ∧ Run step m' b s := by
  obtain ⟨a, b, rfl⟩ := List.append_of_mem he
  obtain ⟨m, h1, h2⟩ := h.split
  obtain ⟨m', h3, h4⟩ := h2.cons_inv
  exact ⟨a, b, m, m', rfl, h1, h3, h4⟩

end Run

end Runs

/-! ## Executable systems -/

section Executable

variable {σ ε : Type*} {exec : σ → ε → Option σ}

/-- Runs the labels in order. -/
def play (exec : σ → ε → Option σ) (s : σ) : List ε → Option σ
  | [] => some s
  | e :: rest => (exec s e).bind fun m => play exec m rest

theorem play_run {s s' : σ} {labels : List ε} (h : play exec s labels = some s') :
    Run (fun s e s' => exec s e = some s') s labels s' := by
  induction labels generalizing s with
  | nil =>
    cases h
    exact .nil
  | cons e rest ih =>
    rw [play, Option.bind_eq_some_iff] at h
    obtain ⟨m, hm, hr⟩ := h
    exact .cons hm (ih hr)

end Executable

/-! ## Families -/

section Families

variable {ι σ ε : Type*} [DecidableEq ι] {step : σ → ε → σ → Prop}

/-- One member of the family moves, the others stay. -/
def familyStep (step : σ → ε → σ → Prop) (f : ι → σ) (e : ι × ε) (f' : ι → σ) : Prop :=
  step (f e.1) e.2 (f' e.1) ∧ ∀ j, j ≠ e.1 → f' j = f j

/-- The history of one member. -/
def memberHistory (i : ι) (tr : List (ι × ε)) : List ε := tr.filterMap (fun e => if e.1 = i then some e.2 else none)

theorem mem_memberHistory {i : ι} {tr : List (ι × ε)} {e : ε} : e ∈ memberHistory i tr ↔ (i, e) ∈ tr := by
  unfold memberHistory
  rw [List.mem_filterMap]
  constructor
  · rintro ⟨⟨j, x⟩, hx, h⟩
    split at h
    · rename_i hj
      obtain rfl : x = e := Option.some.inj h
      rwa [← show j = i from hj]
    · cases h
  · intro h
    exact ⟨(i, e), h, by simp⟩

theorem memberHistory_append (i : ι) (tr tr' : List (ι × ε)) :
    memberHistory i (tr ++ tr') = memberHistory i tr ++ memberHistory i tr' := by
  simp [memberHistory]

/-- A run of the family is a run of each member. -/
theorem Run.member {f₀ f : ι → σ} {tr : List (ι × ε)} (h : Run (familyStep step) f₀ tr f) (i : ι) :
    Run step (f₀ i) (memberHistory i tr) (f i) := by
  induction h with
  | nil => exact .nil
  | @snoc tr f e f' _ he ih =>
    rw [memberHistory_append]
    by_cases hi : e.1 = i
    · subst hi
      simpa [memberHistory] using ih.snoc he.1
    · rw [he.2 i (Ne.symm hi)]
      simpa [memberHistory, hi] using ih

end Families

/-! ## Histories of states -/

section Stamps

variable {σ ε : Type*} {step : σ → ε → σ → Prop} {s₀ s : σ}

/-- A step whose label has the state that it is taken in. -/
def stampedStep (step : σ → ε → σ → Prop) (s : σ) (x : σ × ε) (s' : σ) : Prop := x.1 = s ∧ step s x.2 s'

theorem Run.unstamped {tr : List (σ × ε)} (h : Run (stampedStep step) s₀ tr s) : Run step s₀ (tr.map Prod.snd) s := by
  induction h with
  | nil => exact .nil
  | snoc _ he ih =>
    rw [List.map_append]
    exact ih.snoc he.2

/-- Every run has its history of states. -/
theorem Run.stamped {tr : List ε} (h : Run step s₀ tr s) :
    ∃ stamped, stamped.map Prod.snd = tr ∧ Run (stampedStep step) s₀ stamped s := by
  induction h with
  | nil => exact ⟨[], rfl, .nil⟩
  | @snoc tr m e s _ he ih =>
    obtain ⟨stamped, rfl, hrun⟩ := ih
    exact ⟨stamped ++ [(m, e)], List.map_append, hrun.snoc ⟨rfl, he⟩⟩

end Stamps

/-! ## Disturbances -/

section Disturbances

variable {σ ε : Type*} {step : σ → ε → σ → Prop} {env : σ → σ → Prop} {s₀ s : σ}

/-- A step of the system, or a change that its environment makes. -/
inductive disturbedStep (step : σ → ε → σ → Prop) (env : σ → σ → Prop) (s : σ) : Option ε → σ → Prop
  | step {e : ε} {s' : σ} : step s e s' → disturbedStep step env s (some e) s'
  | env {s' : σ} : env s s' → disturbedStep step env s none s'

/-- What the system's own steps add to, and the environment keeps. -/
theorem Run.disturbed_invariant {P : List ε → σ → Prop} {tr : List (Option ε)}
    (h : Run (disturbedStep step env) s₀ tr s) (h0 : P [] s₀)
    (hs : ∀ tr s e s', step s e s' → P tr s → P (tr ++ [e]) s') (he : ∀ tr s s', env s s' → P tr s → P tr s') :
    P (tr.filterMap id) s := by
  induction h with
  | nil => exact h0
  | snoc _ hd ih =>
    rw [List.filterMap_append]
    cases hd with
    | step h => exact hs _ _ _ _ h ih
    | env h =>
      rw [List.filterMap_cons_none rfl, List.filterMap_nil, List.append_nil]
      exact he _ _ _ h ih

/-- A run that nothing disturbs. -/
theorem Run.undisturbed {tr : List ε} (h : Run step s₀ tr s) : Run (disturbedStep step env) s₀ (tr.map some) s := by
  induction h with
  | nil => exact .nil
  | snoc _ he ih =>
    rw [List.map_append]
    exact ih.snoc (.step he)

end Disturbances

/-! ## Clocks -/

section Clocks

section

variable {σ ε T : Type*} [LE T]

/-- A step at an instant moves the clock there, and not back; a step without one leaves the clock. -/
def timedStep (instant : ε → Option T) (step : σ → ε → σ → Prop) (s : σ × T) (e : ε) (s' : σ × T) : Prop :=
  step s.1 e s'.1 ∧
    match instant e with
    | none => s'.2 = s.2
    | some now => s.2 ≤ now ∧ s'.2 = now

/-- Forgetting the clock. -/
theorem Run.untimed {instant : ε → Option T} {step : σ → ε → σ → Prop} {s₀ s : σ × T} {tr : List ε}
    (h : Run (timedStep instant step) s₀ tr s) : Run step s₀.1 tr s.1 := by
  induction h with
  | nil => exact .nil
  | snoc _ he ih => exact ih.snoc he.1

end

/-- A run with a clock splits at every instant from its start on: what happened up to it, and what happened later. -/
theorem Run.upTo {σ ε T : Type*} [LinearOrder T] {instant : ε → Option T} {step : σ → ε → σ → Prop} {s₀ s : σ × T}
    {tr : List ε} (h : Run (timedStep instant step) s₀ tr s) {b : T} (hb : s₀.2 ≤ b) : ∃ before after m,
      tr = before ++ after ∧ Run (timedStep instant step) s₀ before m ∧ m.2 ≤ b ∧
        Run (timedStep instant step) m after s ∧ (after ≠ [] → b < s.2) ∧
        ∀ e ∈ after, ∀ t, instant e = some t → b < t := by
  induction h with
  | nil => exact ⟨[], [], s₀, rfl, .nil, hb, .nil, fun h => absurd rfl h, fun e he => by cases he⟩
  | @snoc tr m e s hr he ih =>
    obtain ⟨before, after, m', rfl, hbefore, hle, hafter, hlate, hall⟩ := ih
    have hstep := he.2
    by_cases hempty : after = []
    · subst hempty
      obtain rfl := hafter.nil_inv
      rw [List.append_nil]
      rcases le_or_gt s.2 b with hs | hs
      · exact ⟨before ++ [e], [], s, (List.append_nil _).symm, hbefore.snoc he, hs, .nil, fun h => absurd rfl h,
          fun e he => by cases he⟩
      · refine ⟨before, [e], m, rfl, hbefore, hle, .single he, fun _ => hs, fun x hx t ht => ?_⟩
        rw [List.mem_singleton.mp hx] at ht
        rw [ht] at hstep
        rwa [← hstep.2]
    · have hm := hlate hempty
      refine ⟨before, after ++ [e], m', List.append_assoc _ _ _, hbefore, hle, hafter.snoc he, fun _ => ?_,
        fun x hx t ht => ?_⟩
      · cases hi : instant e with
        | none =>
          rw [hi] at hstep
          rwa [hstep]
        | some t =>
          rw [hi] at hstep
          rw [hstep.2]
          exact hm.trans_le hstep.1
      · rcases List.mem_append.mp hx with hx | hx
        · exact hall x hx t ht
        · rw [List.mem_singleton.mp hx] at ht
          rw [ht] at hstep
          exact hm.trans_le hstep.1

end Clocks

end Systems
