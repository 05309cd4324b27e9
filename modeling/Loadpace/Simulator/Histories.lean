import Loadpace.Schedule
import Loadpace.Simulator.Passes

/-!
# The histories of a simulation

The simulator changes a controller only by calls at the instant of an event. So every controller of a simulation has
lived a history that ended by the cursor (`pass_lived`), and what is known of every history is known of it.
-/

namespace Loadpace.Simulator

open Systems EndpointController

section

variable {T F R : Type} [AddCommMonoid T] [LinearOrder T] [Sub T] [Time T] [F64 F] [Secs T F] [Rng R F]
variable {c c' : EndpointController T F R} {start now t : T}

/-! ## Calls -/

/-- The controller has lived a history that started at `start` and ended by `now`. -/
def Lived (start now : T) (c : EndpointController T F R) : Prop :=
  ∃ c₀ tr clock, FreshAt c₀ start ∧ Run TimedStep (c₀, start) tr (c, clock) ∧ clock ≤ now

theorem Lived.later (h : Lived start now c) (hle : now ≤ t) : Lived start t c := by
  obtain ⟨c₀, tr, clock, h0, hr, hclock⟩ := h
  exact ⟨c₀, tr, clock, h0, hr, hclock.trans hle⟩

/-- The slots of its queue are a line on the committed TAT. -/
theorem Lived.lazy (h : Lived start now c) : c.Lazy now := by
  obtain ⟨c₀, tr, clock, h0, hr, hclock⟩ := h
  exact (run_lazy h0 hr).mono hclock

/-- One more call. -/
theorem Lived.exec (h : Lived start now c) (call : Call T) {reply : Reply T F} (hnow : call.now? = some now)
    (hx : c.exec call = some (reply, c')) : Lived start now c' := by
  obtain ⟨c₀, tr, clock, h0, hr, hclock⟩ := h
  have hstep : TimedStep (c, clock) { call, reply, before := c, after := c' } (c', now) := by
    refine ⟨⟨rfl, rfl, hx⟩, ?_⟩
    simp only [hnow, and_true]
    exact hclock
  exact ⟨c₀, _, now, h0, hr.snoc hstep, le_rfl⟩

theorem Lived.refresh (h : Lived start now c) (hr : c.refresh now = some c') : Lived start now c' :=
  h.exec (.refresh now) rfl (by rw [EndpointController.exec, hr]; rfl)

theorem Lived.check {r : DispatchReservation} {s : DispatchState T} (h : Lived start now c)
    (hs : c.dispatchState r now = some (s, c')) : Lived start now c' :=
  h.exec (.dispatchState r now) rfl (by rw [EndpointController.exec, hs]; rfl)

theorem Lived.dispatch {r : DispatchReservation} {result : Except (DispatchState T) (InFlightRequest T)}
    (h : Lived start now c) (hd : c.onDispatched r now = some (result, c')) : Lived start now c' :=
  h.exec (.onDispatched r now) rfl (by rw [EndpointController.exec, hd]; rfl)

theorem Lived.complete {q : InFlightRequest T} {outcome : Outcome} {latency : T} {b : Bool} (h : Lived start now c)
    (hc : c.onComplete q outcome latency now = some (b, c')) : Lived start now c' :=
  h.exec (.onComplete q outcome latency now) rfl (by rw [EndpointController.exec, hc]; rfl)

theorem Lived.load {x : F} (h : Lived start now c) (hl : c.load now = some (x, c')) : Lived start now c' :=
  h.exec (.load now) rfl (by rw [EndpointController.exec, hl]; rfl)

theorem Lived.reserve (h : Lived start now c) : Lived start now (c.reserve now).2 :=
  h.exec (.reserve now) rfl rfl

/-! ## Endpoints -/

variable {e e' : EndpointRuntime T F R} {es es' : List (EndpointRuntime T F R)} {cs cs' : List (Completion T)} {i : ℕ}

/-- The controllers of the endpoints. -/
def AllLived (start now : T) (endpoints : List (EndpointRuntime T F R)) : Prop :=
  ∀ e ∈ endpoints, Lived start now e.controller

theorem AllLived.later (h : AllLived start now es) (hle : now ≤ t) : AllLived start t es :=
  fun e he => (h e he).later hle

theorem AllLived.set (h : AllLived start now es) (he : Lived start now e.controller) : AllLived start now (es.set i e) :=
  fun x hx => (List.mem_or_eq_of_mem_set hx).elim (h x) fun heq => heq ▸ he

theorem AllLived.get (h : AllLived start now es) (hi : es[i]? = some e) : Lived start now e.controller :=
  h e (List.mem_of_getElem? hi)

theorem nextDispatchAt_lived {wake : Option T} (h : Lived start now e.controller)
    (hn : nextDispatchAt e now = some (wake, e')) : Lived start now e'.controller := by
  unfold nextDispatchAt at hn
  split at hn
  · cases hn
    exact h
  · simp only [Option.bind_eq_bind, Option.bind_eq_some_iff] at hn
    obtain ⟨⟨s, c⟩, hcheck, hn⟩ := hn
    cases hn
    exact h.check hcheck

omit [Rng R F] in
theorem completeReady_induct {P : List (EndpointRuntime T F R) → Prop} (h : P es)
    (hs : ∀ es q es', P es → completeOne now es q = some es' → P es')
    (hc : completeReady now es cs = some (es', cs')) : P es' := by
  induction cs generalizing es cs' with
  | nil =>
    cases hc
    exact h
  | cons q rest ih =>
    unfold completeReady at hc
    split at hc
    · simp only [Option.bind_eq_bind, Option.bind_eq_some_iff] at hc
      obtain ⟨m, hm, hc⟩ := hc
      exact ih (hs es q m h hm) hc
    · simp only [Option.bind_eq_bind, Option.bind_eq_some_iff] at hc
      obtain ⟨⟨m, kept⟩, hm, hc⟩ := hc
      cases hc
      exact ih h hm

theorem completeReady_lived (h : AllLived start now es) (hc : completeReady now es cs = some (es', cs')) :
    AllLived start now es' := by
  refine completeReady_induct h (fun es q es' h hc => ?_) hc
  unfold completeOne at hc
  simp only [Option.bind_eq_bind, Option.bind_eq_some_iff] at hc
  obtain ⟨e, he, ⟨b, c⟩, hcomplete, hc⟩ := hc
  obtain rfl := Option.some.inj hc
  have hlived : Lived start now c := (h.get he).complete hcomplete
  exact h.set hlived

theorem driveOne_lived {r : DispatchReservation} {more : Bool} (h : Lived start now e.controller)
    (hd : driveOne i now r e cs = some (more, e', cs')) : Lived start now e'.controller := by
  unfold driveOne at hd
  simp only [Option.bind_eq_bind, Option.bind_eq_some_iff] at hd
  obtain ⟨⟨s, c⟩, hs, hd⟩ := hd
  have hc : Lived start now c := h.check hs
  cases s with
  | ready =>
    cases hworker : firstWorker e.availableAt with
    | none =>
      simp only [hworker] at hd
      cases hd
      exact hc
    | some x =>
      simp only [hworker, Option.bind_eq_some_iff] at hd
      obtain ⟨⟨result, c'⟩, hdispatch, hd⟩ := hd
      have hc' : Lived start now c' := hc.dispatch hdispatch
      cases result with
      | error s' =>
        cases hd
        exact hc'
      | ok q =>
        cases hd
        exact hc'
  | waitUntil t =>
    cases hd
    exact hc
  | inflightLimit =>
    cases hd
    exact hc
  | waitForPrevious =>
    cases hd
    exact hc
  | cancelled =>
    cases hd
    exact hc

theorem drive_lived {pending : List DispatchReservation} (h : Lived start now e.controller)
    (hd : drive i now pending e cs = some (e', cs')) : Lived start now e'.controller := by
  induction pending generalizing e cs with
  | nil =>
    cases hd
    exact h
  | cons r rest ih =>
    rw [drive] at hd
    simp only [Option.bind_eq_bind, Option.bind_eq_some_iff] at hd
    obtain ⟨⟨more, e₁, cs₁⟩, hone, hd⟩ := hd
    have hround := driveOne_lived h hone
    cases more with
    | true => exact ih hround hd
    | false =>
      cases hd
      exact hround

theorem driveAllFrom_lived (h : AllLived start now es) (hd : driveAllFrom now i es cs = some (es', cs')) :
    AllLived start now es' := by
  induction es generalizing i cs es' with
  | nil =>
    cases hd
    exact h
  | cons e rest ih =>
    rw [driveAllFrom] at hd
    simp only [Option.bind_eq_bind, Option.bind_eq_some_iff] at hd
    obtain ⟨c, hc, ⟨e₁, cs₁⟩, hdrive, ⟨rest', cs₂⟩, hrest, hd⟩ := hd
    cases hd
    have hone : Lived start now e₁.controller :=
      drive_lived (e := { e with controller := c }) ((h e List.mem_cons_self).refresh hc) hdrive
    have hothers := ih (fun x hx => h x (List.mem_cons_of_mem _ hx)) hrest
    exact fun x hx => (List.mem_cons.mp hx).elim (fun heq => heq ▸ hone) (hothers x)

/-! ## The choice -/

theorem refreshAll_lived (h : AllLived start now es) (hr : es.mapM (fun e => e.refresh now) = some es') :
    AllLived start now es' := fun e' he' => by
  obtain ⟨e, he, hone⟩ := forall₂_mem (mapM_some hr) he'
  unfold EndpointRuntime.refresh at hone
  simp only [Option.bind_eq_bind, Option.bind_eq_some_iff] at hone
  obtain ⟨c, hc, hone⟩ := hone
  obtain rfl := Option.some.inj hone
  exact (h e he).refresh hc

theorem loadOf_lived {x : F} (h : AllLived start now es) (hl : loadOf es i now = some (x, es')) :
    AllLived start now es' := by
  unfold loadOf at hl
  simp only [Option.bind_eq_bind, Option.bind_eq_some_iff] at hl
  obtain ⟨e, he, ⟨load, c⟩, hload, hl⟩ := hl
  cases hl
  have hlived : Lived start now c := (h.get he).load hload
  exact h.set hlived

variable [SeededRng R] {rng rng' : R}

theorem chooseP2c_lived {choice : Option ℕ} (h : AllLived start now es)
    (hc : chooseP2c es rng now = some (choice, es', rng')) : AllLived start now es' := by
  unfold chooseP2c at hc
  simp only [Option.bind_eq_bind, Option.bind_eq_some_iff] at hc
  obtain ⟨es₁, hrefresh, hc⟩ := hc
  have h1 := refreshAll_lived h hrefresh
  split at hc
  · cases hc
    exact h1
  · cases hc
    exact h1
  · simp only [Option.bind_eq_some_iff] at hc
    obtain ⟨⟨j, es₂, rng₂⟩, hchoose, hc⟩ := hc
    cases hc
    unfold chooseBetween at hchoose
    simp only [Option.bind_eq_bind, Option.bind_eq_some_iff] at hchoose
    obtain ⟨a, -, b, -, ⟨aLoad, m⟩, haLoad, ⟨bLoad, m'⟩, hbLoad, hchoose⟩ := hchoose
    cases hchoose
    exact loadOf_lived (loadOf_lived h1 haLoad) hbLoad

/-! ## Passes -/

namespace Simulation

variable {window : Window T} {s s' : Simulation T F R}

/-- Every controller has lived a history that ended by the cursor. -/
def Lives (start : T) (s : Simulation T F R) : Prop := AllLived start s.cursor s.endpoints

theorem offer_lived (h : AllLived start now s.endpoints) (ho : s.offer now = some s') :
    AllLived start now s'.endpoints := by
  unfold offer at ho
  simp only [Option.bind_eq_bind, Option.bind_eq_some_iff, Option.guard_eq_some'] at ho
  obtain ⟨-, -, ⟨choice, es, rng⟩, hchoose, ho⟩ := ho
  have hes := chooseP2c_lived h hchoose
  cases choice with
  | none =>
    cases ho
    exact hes
  | some index =>
    simp only [Option.bind_eq_some_iff] at ho
    obtain ⟨e, he, ho⟩ := ho
    have hreserved : Lived start now (e.controller.reserve now).2 := (hes.get he).reserve
    split at ho
    · cases ho
      exact hes.set hreserved
    · cases ho
      exact hes.set hreserved

variable {asked settled arrived : Simulation T F R}

omit [SeededRng R] in
/-- The histories up to the arrival of a pass. -/
theorem settled_lived (h : s.Lives start) (hevent : s.nextEvent = some (some now, asked)) (hcursor : s.cursor ≤ now)
    (hsettle : asked.settle now = some settled) : AllLived start now settled.endpoints ∧ settled.cursor = now := by
  obtain ⟨_, answers, -, hanswers, hasked, -⟩ := nextEvent_cases hevent
  have h1 : AllLived start s.cursor asked.endpoints := by
    rw [hasked]
    intro e' he'
    obtain ⟨x, hx, rfl⟩ := List.mem_map.mp he'
    obtain ⟨e, he, hask⟩ := forall₂_mem (mapM_some hanswers) hx
    exact nextDispatchAt_lived (h e he) hask
  obtain ⟨⟨es, cs, hcomplete, hdrive⟩, hseq⟩ := settle_drives hsettle
  exact ⟨driveAllFrom_lived (completeReady_lived (h1.later hcursor) hcomplete) hdrive, by rw [hseq]⟩

/-- The histories up to the dispatches that end a pass. -/
theorem Turn.arrived_lived (h : s.Lives start) (ht : s.Turn window now asked settled arrived s') :
    AllLived start now arrived.endpoints ∧ arrived.cursor = now := by
  have h2 := settled_lived h ht.event ht.cursor ht.settle
  cases ht.arrives with
  | none _ => exact h2
  | @offers m _ hoffer _ =>
    have hm : AllLived start now m.endpoints := offer_lived h2.1 hoffer
    exact ⟨hm, (offer_keeps hoffer).2.2.1.trans h2.2⟩

/-- **One pass**: every controller lives on. -/
theorem pass_lived {more : Bool} (h : s.Lives start) (hp : s.pass window = some (more, s')) : s'.Lives start := by
  rcases pass_cases hp with ⟨-, -, rfl⟩ | ⟨-, now, asked, settled, arrived, ht⟩ | ⟨-, now, asked, settled, hb⟩
  · exact h
  · have h3 := ht.arrived_lived h
    obtain ⟨hdrive, heq⟩ := finish_drives ht.finish
    have hcursor : s'.cursor = now := by rw [heq]; exact h3.2
    unfold Lives
    rw [hcursor]
    exact driveAllFrom_lived h3.1 hdrive
  · have h2 := settled_lived h hb.event hb.cursor hb.settle
    unfold Lives
    rw [(offer_keeps hb.offer).2.2.1, h2.2]
    exact offer_lived h2.1 hb.offer

end Simulation

end

end Loadpace.Simulator
