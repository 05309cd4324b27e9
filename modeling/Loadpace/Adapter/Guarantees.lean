import Loadpace.Adapter.Rama
import Loadpace.Adapter.Tokio
import Loadpace.Adapter.TowerSound
import Loadpace.Machine

/-!
# What the adapters guarantee

The three adapters are sound systems (`Adapter.sound`). So in every run of each of them no dispatch wakeup is lost
(`no_lost_wakeup`), and the controller hears of the end of each request exactly once (`exactly_one_release`).
-/

namespace Loadpace

open Systems EndpointController Notify

/-- The adapters; the errors of the service that Tower wraps are of any type. -/
inductive Adapter : Type 1
  | tokio
  | rama
  | tower (E : Type)

section

variable (T F R : Type) [AddCommMonoid T] [LinearOrder T] [Sub T] [Time T] [F64 F] [Secs T F] [Rng R F]

def Adapter.system : Adapter → System T F R
  | .tokio => Tokio.system T F R
  | .rama => Rama.system T F R
  | .tower E => Tower.system T F R E

theorem Adapter.sound (adapter : Adapter) : (adapter.system T F R).Sound := by
  cases adapter with
  | tokio => exact Tokio.system_sound
  | rama => exact Rama.system_sound
  | tower E => exact Tower.system_sound

end

section

variable {T F R : Type} [AddCommMonoid T] [LinearOrder T] [Sub T] [Time T] [F64 F] [Secs T F] [Rng R F]
variable {S : System T F R} {c₀ : EndpointController T F R} {start : T} {tr : List (S.Label × Event T F R)} {s : S.State}

/-! ## Wakeups -/

/-- **No wakeup is lost.** Whenever the lock is free and the request at the head of the queue sleeps in its dispatch wait, it
has a notification or is owed one, or its timer is no later than its check is due, or the inflight count is at its bound;
no admission wait sleeps while the queue has room unless a wakeup is owed to it; and the flags that the next step drops are
of no use to another task. -/
theorem no_lost_wakeup (adapter : Adapter) (hS : S = adapter.system T F R) (h0 : Fresh c₀)
    (h : Run S.Step (S.start c₀ start) tr s) :
    (∀ x ∈ (S.view s).clients, ∀ r notified timer front rest, x.purpose = .queued r → x.wait = .asleep notified timer →
      (S.view s).controller.pending = front :: rest → front.id = r.id →
      notified = true ∨ 0 < (S.view s).owed ∨
        (∃ t, timer = some t ∧ t ≤ (S.view s).controller.recheckAt front.scheduledAt) ∨
        (S.view s).controller.config.maxInflight ≤ (S.view s).controller.inflight) ∧
    (∀ woken ∈ S.admissionWaits s, woken = true ∨ (S.view s).controller.maySchedule = false) ∧
    ∀ l ev s', S.exec s l = some (ev, s') → Clients.Spares ev (S.view s') := by
  subst hS
  have hsound := adapter.sound T F R
  obtain ⟨hinv, -, hawake, -⟩ := hsound.run h0 h
  refine ⟨?_, hawake, fun l ev s' he => (hsound.step s l ev s' hinv he).spares hinv⟩
  intro x hx r notified timer front rest hr hwait hp hid
  cases notified with
  | true => exact Or.inl rfl
  | false =>
    rcases hinv.covered x hx timer hwait with howed | hsleep
    · exact Or.inr (Or.inl howed)
    · rcases hsleep r front rest hr hp hid with hcap | htimer
      · exact Or.inr (Or.inr (Or.inr hcap))
      · exact Or.inr (Or.inr (Or.inl htimer))

end

/-- Two requests of a Rama endpoint: the first is dispatched, and the second falls asleep. -/
def wakeupLabels : List (Rama.Label ℕ) := [.serve, .serve, .run 0, .run 0, .run 0, .notifyDispatch, .run 1, .run 1]

/-- The second request sleeps with a timer. -/
theorem no_lost_wakeup_two : ∃ tr s t, (Rama.system ℕ ℚ ℕ).play ((Rama.system ℕ ℚ ℕ).start sample 0) wakeupLabels =
    some (tr, s) ∧ (∃ x ∈ s.view.clients, x.purpose = .queued ⟨7, 1⟩ ∧ x.wait = .asleep false (some t)) ∧
    ∃ front, s.controller.pending = [front] ∧ t ≤ s.controller.recheckAt front.scheduledAt := by
  have hp : ((Rama.system ℕ ℚ ℕ).play ((Rama.system ℕ ℚ ℕ).start sample 0) wakeupLabels).any (fun x =>
      let s : Rama.Endpoint ℕ ℚ ℕ := x.2
      decide ((∃ x ∈ s.view.clients, x.purpose = .queued ⟨7, 1⟩ ∧ x.wait = .asleep false (some 4545455)) ∧
        ids s.controller.pending = [1] ∧ s.dispatch = 0 ∧ s.controller.inflight < s.controller.config.maxInflight)) =
      true := by decide +kernel
  obtain ⟨⟨tr, s⟩, hr, hres⟩ := (Option.any_eq_true _ _).mp hp
  obtain ⟨⟨x, hx, hqueued, hasleep⟩, hids, howed, hcap⟩ := of_decide_eq_true hres
  obtain ⟨front, hpending, hid⟩ := List.map_eq_singleton_iff.mp hids
  have hall := no_lost_wakeup .rama rfl sample_fresh (System.play_run hr)
  refine ⟨tr, s, _, hr, ⟨x, hx, hqueued, hasleep⟩, front, hpending, ?_⟩
  rcases hall.1 x hx _ _ _ front [] hqueued hasleep hpending hid with hn | hn | ⟨t, ht, hle⟩ | hn
  · cases hn
  · exact absurd howed (Nat.pos_iff_ne_zero.mp hn)
  · cases ht
    exact hle
  · exact absurd hcap (Nat.not_lt.mpr hn)

section

variable {T F R : Type} [AddCommMonoid T] [LinearOrder T] [Sub T] [Time T] [F64 F] [Secs T F] [Rng R F]
variable {S : System T F R} {c₀ : EndpointController T F R} {start : T} {tr : List (S.Label × Event T F R)} {s : S.State}

/-! ## Releases -/

/-- **Exactly one release.** What a step does about no request does nothing for any; of each request the controller has heard
one reservation, at most one dispatch, and, once its future and guards are gone and not before, one release, which is a
cancellation without a dispatch and a finish after one (`Life`); a request that is dropped is gone; and a controller whose
requests are all gone has an empty queue and nothing in flight. -/
theorem exactly_one_release (adapter : Adapter) (hS : S = adapter.system T F R) (h0 : Fresh c₀)
    (h : Run S.Step (S.start c₀ start) tr s) :
    (∀ x ∈ tr, x.2.who = none → deeds x.2.entries = ⟨[], [], []⟩) ∧
    (∀ i, match (S.gone s)[i]? with
      | none => entriesOf i (tr.map Prod.snd) = []
      | some gone => ∃ hold, hold.isFinished = gone ∧ Life hold (deeds (entriesOf i (tr.map Prod.snd)))) ∧
    (∀ i ev s', S.exec s (S.drop i) = some (ev, s') → (S.gone s')[i]? = some true) ∧
    ((∀ gone ∈ S.gone s, gone = true) → (S.view s).controller.pending = [] ∧ (S.view s).controller.inflight = 0) := by
  subst hS
  have hsound := adapter.sound T F R
  obtain ⟨hinv, hlives, -, hsettled⟩ := hsound.run h0 h
  have hsettled : _ = _ := hsettled
  refine ⟨hsound.idle h0 h, ?_, ?_, ?_⟩
  · intro i
    have hlife := hlives i
    rw [hsettled, List.getElem?_map]
    cases hx : ((adapter.system T F R).view s).clients[i]? with
    | none =>
      rw [hx] at hlife
      exact hlife
    | some x =>
      rw [hx] at hlife
      exact ⟨x.purpose, rfl, hlife⟩
  · intro i ev s' he
    obtain ⟨x, hx, hfinished⟩ := hsound.drop s i ev s' he
    have hstep : (adapter.system T F R).Step s (_, ev) s' := he
    have hsettled' : _ = _ := (hsound.run h0 (h.snoc hstep)).2.2.2
    rw [hsettled', List.getElem?_map, hx]
    exact congrArg some (Hold.isFinished_iff.mpr hfinished)
  · intro hall
    refine hinv.empty fun x hx => Hold.isFinished_iff.mp (hall _ ?_)
    rw [hsettled]
    exact List.mem_map_of_mem hx

end

/-- Two requests of a Tower endpoint: the first is served, and the second is dropped while it waits. -/
def releaseLabels : List (Tower.Label ℕ ℕ) :=
  [.call, .call, .run 0, .run 0, .run 0, .run 0, .pollInner 0 (.ready (.ok ())), .run 0, .run 0, .run 1, .run 1,
    .respond 0 true, .drop 1]

/-- Nothing is left of the two requests. -/
theorem exactly_one_release_two : ∃ tr s, (Tower.system ℕ ℚ ℕ ℕ).play ((Tower.system ℕ ℚ ℕ ℕ).start sample 0) releaseLabels =
    some (tr, s) ∧ s.shared.controller.completed = 1 ∧ s.shared.controller.pending = [] ∧ s.shared.controller.inflight = 0 := by
  have hp : ((Tower.system ℕ ℚ ℕ ℕ).play ((Tower.system ℕ ℚ ℕ ℕ).start sample 0) releaseLabels).any (fun x =>
      decide ((∀ gone ∈ (Tower.system ℕ ℚ ℕ ℕ).gone x.2, gone = true) ∧
        (x.2 : Tower.Endpoint ℕ ℚ ℕ ℕ).shared.controller.completed = 1)) = true := by decide +kernel
  obtain ⟨⟨tr, s⟩, hr, hres⟩ := (Option.any_eq_true _ _).mp hp
  obtain ⟨hgone, hcompleted⟩ := of_decide_eq_true hres
  have hall := exactly_one_release (.tower ℕ) rfl sample_fresh (System.play_run hr)
  exact ⟨tr, s, hr, hcompleted, hall.2.2.2 hgone⟩

end Loadpace
