import Mathlib.Data.List.Basic

/-!
# Waiting for a broadcast

A task that waits for a condition on some shared state first enables a listener, then inspects the state, and then sleeps
until the listener is notified; it may also have a reason `δ` to wake up by itself, such as a timer. A broadcast reaches
every listener that is enabled. Between a change of the state and its broadcast, the broadcast is owed.

`Covered` says that no wakeup is lost: a sleeper that has not been notified may sleep on, or a broadcast is owed. The
rules: a broadcast covers every sleeper (`Covered.notify`); a change of the state that is not broadcast must let every
sleeper sleep on (`Covered.change`); a task that falls asleep must be right to do so (`Covered.replace`).
-/

namespace Notify

/-- Where a task is in its wait. -/
inductive Wait (δ : Type*)
  | away
  | enabled (notified : Bool)
  | asleep (notified : Bool) (alarm : δ)
  deriving DecidableEq, Repr

/-- A broadcast. -/
def Wait.notify {δ : Type*} : Wait δ → Wait δ
  | .away => .away
  | .enabled _ => .enabled true
  | .asleep _ alarm => .asleep true alarm

/-- A task with what it waits for. -/
structure Waiter (α δ : Type*) where
  purpose : α
  wait : Wait δ

def Waiter.notify {α δ : Type*} (x : Waiter α δ) : Waiter α δ := { x with wait := x.wait.notify }

section

variable {α δ : Type*} {ok ok' : α → δ → Prop} {owed owed' : ℕ} {xs ys : List (Waiter α δ)} {x y : Waiter α δ}

/-- The task sleeps, and no notification has reached it. -/
def Waiter.Deaf (x : Waiter α δ) (alarm : δ) : Prop := x.wait = .asleep false alarm

/-- **No wakeup is lost.** -/
def Covered (ok : α → δ → Prop) (owed : ℕ) (xs : List (Waiter α δ)) : Prop :=
  ∀ x ∈ xs, ∀ alarm, x.Deaf alarm → 0 < owed ∨ ok x.purpose alarm

theorem covered_nil : Covered ok owed ([] : List (Waiter α δ)) := fun _ hx => by cases hx

theorem Waiter.not_deaf_notify (x : Waiter α δ) (alarm : δ) : ¬x.notify.Deaf alarm := by
  intro h
  obtain ⟨purpose, wait⟩ := x
  cases wait with
  | away => cases h
  | enabled _ => cases h
  | asleep _ _ => cases h

/-- After a broadcast nobody sleeps on. -/
theorem covered_notify : Covered ok owed (xs.map Waiter.notify) := by
  intro y hy alarm hdeaf
  obtain ⟨x, -, rfl⟩ := List.mem_map.mp hy
  exact absurd hdeaf (x.not_deaf_notify alarm)

/-- A change of the state is broadcast, or it lets every sleeper sleep on. -/
theorem Covered.change (h : Covered ok owed xs) (hle : owed ≤ owed')
    (hok : ∀ x ∈ xs, ∀ alarm, x.Deaf alarm → ok x.purpose alarm → 0 < owed' ∨ ok' x.purpose alarm) :
    Covered ok' owed' xs := by
  intro x hx alarm hdeaf
  rcases h x hx alarm hdeaf with hpos | hsleep
  · exact Or.inl (Nat.lt_of_lt_of_le hpos hle)
  · exact hok x hx alarm hdeaf hsleep

/-- A task that falls asleep must be right to do so. -/
theorem Covered.replace (h : Covered ok owed (xs ++ x :: ys))
    (hy : ∀ alarm, y.Deaf alarm → 0 < owed ∨ ok y.purpose alarm) : Covered ok owed (xs ++ y :: ys) := by
  intro z hz alarm hdeaf
  rcases List.mem_append.mp hz with hz | hz
  · exact h z (List.mem_append_left _ hz) alarm hdeaf
  · rcases List.mem_cons.mp hz with rfl | hz
    · exact hy alarm hdeaf
    · exact h z (List.mem_append_right _ (List.mem_cons_of_mem _ hz)) alarm hdeaf

/-- A new task is not asleep yet. -/
theorem Covered.join (h : Covered ok owed xs) (hy : ∀ alarm, ¬y.Deaf alarm) : Covered ok owed (xs ++ [y]) := by
  intro z hz alarm hdeaf
  rcases List.mem_append.mp hz with hz | hz
  · exact h z hz alarm hdeaf
  · obtain rfl := List.mem_singleton.mp hz
    exact absurd hdeaf (hy alarm)

end

end Notify
