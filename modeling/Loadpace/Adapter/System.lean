import Loadpace.Adapter.Lives

/-!
# Adapters as systems

An adapter is an executable machine: its state, its labels, what each label does, and the clients of the controller that the
state shows (`System`). A sound one takes steps of `Clients`, loses no admission wakeup, and leaves nothing with the guard of
a future that is gone (`System.Sound`); then so does every run of it (`System.Sound.run`).
-/

namespace Loadpace

open Systems EndpointController Notify

structure System (T F R : Type) where
  State : Type
  Label : Type
  /-- A new endpoint. -/
  start : EndpointController T F R → T → State
  exec : State → Label → Option (Event T F R × State)
  view : State → Clients T F R
  /-- For each sleeping admission wait, whether a wakeup has reached it or is owed to it. -/
  admissionWaits : State → List Bool
  /-- For each request, whether its future and its guards are gone. -/
  gone : State → List Bool
  /-- The future of a request, or its guard, is dropped. -/
  drop : ℕ → Label

/-! ## Futures and guards -/

section

variable {T α : Type} {gone : α → Bool} {client : α → Client T} {l : List α}

/-- The requests that are gone, and no others, hold nothing. -/
def Agree (gone : α → Bool) (client : α → Client T) (l : List α) : Prop :=
  ∀ a ∈ l, gone a = (client a).purpose.isFinished

theorem Agree.set {i : ℕ} {b : α} (h : Agree gone client l) (hb : gone b = (client b).purpose.isFinished) :
    Agree gone client (l.set i b) := by
  intro a ha
  rcases List.mem_or_eq_of_mem_set ha with ha | rfl
  · exact h a ha
  · exact hb

theorem Agree.join {b : α} (h : Agree gone client l) (hb : gone b = (client b).purpose.isFinished) :
    Agree gone client (l ++ [b]) := by
  intro a ha
  rcases List.mem_append.mp ha with ha | ha
  · exact h a ha
  · obtain rfl := List.mem_singleton.mp ha
    exact hb

theorem Agree.map {g : α → α} (h : Agree gone client l)
    (hg : ∀ a, gone (g a) = gone a ∧ (client (g a)).purpose = (client a).purpose) : Agree gone client (l.map g) := by
  intro a ha
  obtain ⟨b, hb, rfl⟩ := List.mem_map.mp ha
  obtain ⟨hgone, hpurpose⟩ := hg b
  rw [hgone, hpurpose]
  exact h b hb

theorem Agree.settled (h : Agree gone client l) : l.map gone = (l.map client).map fun x => x.purpose.isFinished := by
  rw [List.map_map]
  exact List.map_congr_left h

end

namespace System

/-! ## Systems -/

section

variable {T F R : Type}

def Step (S : System T F R) (s : S.State) (x : S.Label × Event T F R) (s' : S.State) : Prop :=
  S.exec s x.1 = some (x.2, s')

/-- No admission wait sleeps on while the queue has room. -/
def Awake (S : System T F R) (s : S.State) : Prop :=
  ∀ woken ∈ S.admissionWaits s, woken = true ∨ (S.view s).controller.maySchedule = false

/-- The requests that are gone are those that hold nothing. -/
def Settled (S : System T F R) (s : S.State) : Prop :=
  S.gone s = (S.view s).clients.map fun x => x.purpose.isFinished

end

variable {T F R : Type} [AddCommMonoid T] [LinearOrder T] [Sub T] [Time T] [F64 F] [Secs T F] [Rng R F]

/-- **What makes an adapter sound.** -/
structure Sound (S : System T F R) : Prop where
  start : ∀ c now, S.view (S.start c now) = { controller := c, clock := now, owed := 0, clients := [] }
  step : ∀ s l ev s', (S.view s).Inv → S.exec s l = some (ev, s') → Clients.Step (S.view s) ev (S.view s')
  /-- An invariant of the admission waits, and of the futures and their guards. -/
  inner : ∃ I : S.State → Prop, (∀ c now, I (S.start c now)) ∧ (∀ s, I s → S.Awake s ∧ S.Settled s) ∧
    ∀ s l ev s', (S.view s).Inv → I s → S.exec s l = some (ev, s') → I s'
  drop : ∀ s i ev s', S.exec s (S.drop i) = some (ev, s') →
    ∃ x, (S.view s').clients[i]? = some x ∧ x.purpose = .finished

/-- A fresh controller without clients. -/
theorem inv_start {c : EndpointController T F R} (h0 : Fresh c) (now : T) :
    ({ controller := c, clock := now, owed := 0, clients := [] } : Clients T F R).Inv := by
  refine ⟨⟨c, [], h0, .nil⟩, ?_, fun x hx => (by cases hx), ?_, ?_, covered_nil⟩
  all_goals
    obtain ⟨config, t, rng, controllerId, hn⟩ := h0
    obtain ⟨_, _, _, _, _, _, _, _, _, rfl⟩ := newWithRng_cases hn
  · rfl
  · exact List.Perm.nil
  · rfl

variable {S : System T F R} {c₀ : EndpointController T F R} {start : T} {tr : List (S.Label × Event T F R)} {s : S.State}

/-- **Every run of a sound adapter** keeps the invariants and every life. -/
theorem Sound.run (hS : S.Sound) (h0 : Fresh c₀) (h : Run S.Step (S.start c₀ start) tr s) :
    (S.view s).Inv ∧ Lives (tr.map Prod.snd) (S.view s).clients ∧ S.Awake s ∧ S.Settled s := by
  obtain ⟨I, hstart, hinner, hkeep⟩ := hS.inner
  suffices hs : (S.view s).Inv ∧ Lives (tr.map Prod.snd) (S.view s).clients ∧ I s from
    ⟨hs.1, hs.2.1, hinner s hs.2.2⟩
  induction h with
  | nil =>
    refine ⟨?_, ?_, hstart c₀ start⟩
    · rw [hS.start]
      exact inv_start h0 start
    · rw [hS.start]
      exact fun i => rfl
  | @snoc tr s x s' _ he ih =>
    obtain ⟨hinv, hlives, hI⟩ := ih
    have hstep := hS.step s x.1 x.2 s' hinv he
    rw [List.map_append]
    exact ⟨hstep.inv hinv, hstep.lives hinv hlives, hkeep s x.1 x.2 s' hinv hI he⟩

/-- What a run does about no request does nothing for any. -/
theorem Sound.idle (hS : S.Sound) (h0 : Fresh c₀) (h : Run S.Step (S.start c₀ start) tr s) :
    ∀ x ∈ tr, x.2.who = none → deeds x.2.entries = ⟨[], [], []⟩ := by
  induction h with
  | nil =>
    intro x hx
    cases hx
  | @snoc tr s x s' hrun he ih =>
    intro y hy hwho
    rcases List.mem_append.mp hy with hy | hy
    · exact ih y hy hwho
    · obtain rfl := List.mem_singleton.mp hy
      exact (hS.step s y.1 y.2 s' (hS.run h0 hrun).1 he).idle hwho

/-- Runs the labels in order. -/
def play (S : System T F R) (s : S.State) : List S.Label → Option (List (S.Label × Event T F R) × S.State)
  | [] => some ([], s)
  | l :: rest => do
    let (ev, m) ← S.exec s l
    let (tr, s') ← S.play m rest
    some ((l, ev) :: tr, s')

omit [AddCommMonoid T] [LinearOrder T] [Sub T] [Time T] [F64 F] [Secs T F] [Rng R F] in
theorem play_run {s' : S.State} {labels : List S.Label} (h : S.play s labels = some (tr, s')) : Run S.Step s tr s' := by
  induction labels generalizing s tr with
  | nil =>
    cases h
    exact .nil
  | cons l rest ih =>
    simp only [play, Option.bind_eq_bind, Option.bind_eq_some_iff] at h
    obtain ⟨⟨ev, m⟩, he, ⟨tr', m'⟩, hr, h⟩ := h
    cases h
    exact .cons he (ih hr)

end System

end Loadpace
