import Loadpace.Adapter.Rama
import Loadpace.Adapter.Tokio
import Loadpace.Dns.Cache
import Loadpace.Machine
import Loadpace.Pair

/-!
# Pairs in the adapters (`loadpace-tokio`, `loadpace-rama`)

`try_reserve_pair` locks two endpoints in the order of their addresses, and `reserve_p2c` in that of their IPs; each gives the
controllers to `reserve_pair` in the order of the caller, and delivers the changes of both. `tryReservePair_eq` and
`reserveP2c_eq`: the order of the locks does not show. `pair_selection` draws the consequences for every pair.
-/

namespace Loadpace

open EndpointController

/-! ## Two endpoints -/

section

variable {T F R E : Type} (store : E → EndpointController T F R → E) (notify : E → ControllerChanges → E)

/-- The end of a locked section: the changes are drained under the lock, and delivered after it. -/
def deliver (s : E) (controller : EndpointController T F R) : E :=
  let (changes, controller) := controller.takeChanges
  notify (store s controller) changes

/-- The end of a section with two locks: both changes are drained under the locks, and delivered after them. -/
def deliverBoth (endpoints : ℕ → E) (lower upper : ℕ) (lowerController upperController :
    EndpointController T F R) : ℕ → E :=
  let (lowerChanges, lowerController) := lowerController.takeChanges
  let (upperChanges, upperController) := upperController.takeChanges
  let endpoints := Function.update endpoints lower (store (endpoints lower) lowerController)
  let endpoints := Function.update endpoints upper (store (endpoints upper) upperController)
  let endpoints := Function.update endpoints lower (notify (endpoints lower) lowerChanges)
  Function.update endpoints upper (notify (endpoints upper) upperChanges)

theorem deliverBoth_eq (endpoints : ℕ → E) {a b : ℕ} (hne : a ≠ b) (x y : EndpointController T F R) :
    deliverBoth store notify endpoints a b x y =
      Function.update (Function.update endpoints a (deliver store notify (endpoints a) x)) b
        (deliver store notify (endpoints b) y) := by
  funext i
  simp only [deliverBoth, deliver]
  by_cases hb : i = b
  · subst hb
    simp only [Function.update_self, Function.update_of_ne hne.symm]
  · by_cases ha : i = a
    · subst ha
      simp only [Function.update_self, Function.update_of_ne hb]
    · simp only [Function.update_of_ne ha, Function.update_of_ne hb]

variable [AddCommMonoid T] [LinearOrder T] [Sub T] [Time T] [F64 F] [Secs T F] [Rng R F]

/-- **The order of the locks does not show**: a pair is reserved and delivered as in the order of the caller. -/
theorem reserveOrdered_deliver {β : Type} (controller : E → EndpointController T F R) (endpoints : ℕ → E) {a b : ℕ}
    (hne : a ≠ b) (now : T) (g : Except ScheduleError (PairChoice × DispatchReservation) → (ℕ → E) → β) :
    let delivered := (reservePair (controller (endpoints a)) (controller (endpoints b)) now).map fun x =>
      g x.1 (Function.update (Function.update endpoints a (deliver store notify (endpoints a) x.2.1)) b
        (deliver store notify (endpoints b) x.2.2))
    ((reserveOrdered true (controller (endpoints a)) (controller (endpoints b)) now).bind fun x =>
        some (g x.1 (deliverBoth store notify endpoints a b x.2.1 x.2.2))) = delivered ∧
      ((reserveOrdered false (controller (endpoints b)) (controller (endpoints a)) now).bind fun x =>
        some (g x.1 (deliverBoth store notify endpoints b a x.2.1 x.2.2))) = delivered := by
  simp only [reserveOrdered, if_true, Bool.false_eq_true, if_false, deliverBoth_eq store notify endpoints hne,
    deliverBoth_eq store notify endpoints hne.symm]
  cases reservePair (controller (endpoints a)) (controller (endpoints b)) now with
  | none => exact ⟨rfl, rfl⟩
  | some x => exact ⟨rfl, congrArg (fun m => some (g x.1 m)) (Function.update_comm hne.symm _ _ _)⟩

end

variable {T F R : Type} [AddCommMonoid T] [LinearOrder T] [Sub T] [Time T] [F64 F] [Secs T F] [Rng R F]

/-! ## Tokio -/

namespace Tokio

def Endpoint.store (s : Endpoint T F R) (controller : EndpointController T F R) : Endpoint T F R := { s with controller }

/-- `Endpoint::try_reserve_pair` on endpoints that are told apart by the address of their allocation. A reservation comes
with the endpoint that it is on. -/
def tryReservePair (endpoints : ℕ → Endpoint T F R) (self other : ℕ) (now : T) :
    Option (Except ScheduleError (PairChoice × ℕ × DispatchReservation) × (ℕ → Endpoint T F R)) :=
  if self = other then do
    let controller ← (endpoints self).controller.refresh now
    let (result, controller) := controller.reserve now
    some (result.map fun token => (.first, self, token),
      Function.update endpoints self (deliver Endpoint.store Endpoint.notify (endpoints self) controller))
  else do
    let firstIsLower : Bool := self < other
    let (lower, upper) := if firstIsLower then (self, other) else (other, self)
    let (result, lowerController, upperController) ←
      reserveOrdered firstIsLower (endpoints lower).controller (endpoints upper).controller now
    some (result.map fun (choice, token) => (choice, choice.of self other, token),
      deliverBoth Endpoint.store Endpoint.notify endpoints lower upper lowerController upperController)

/-- **The order of the locks does not show.** -/
theorem tryReservePair_eq (endpoints : ℕ → Endpoint T F R) {self other : ℕ} (now : T) (hne : self ≠ other) :
    tryReservePair endpoints self other now =
      (reservePair (endpoints self).controller (endpoints other).controller now).map fun (result, first, second) =>
        (result.map fun (choice, token) => (choice, choice.of self other, token),
          Function.update (Function.update endpoints self (deliver Endpoint.store Endpoint.notify (endpoints self) first)) other
            (deliver Endpoint.store Endpoint.notify (endpoints other) second)) := by
  obtain ⟨hlower, hupper⟩ := reserveOrdered_deliver Endpoint.store Endpoint.notify Endpoint.controller endpoints hne now fun result endpoints => (result.map fun (choice, token) => (choice, choice.of self other, token), endpoints)
  unfold tryReservePair
  rw [if_neg hne]
  by_cases hlt : self < other
  · simp only [hlt, decide_true, if_true]
    exact hlower
  · simp only [hlt, decide_false, Bool.false_eq_true, if_false]
    exact hupper

end Tokio

/-! ## Rama -/

namespace Rama

def Endpoint.store (s : Endpoint T F R) (controller : EndpointController T F R) : Endpoint T F R := { s with controller }

/-- `reserve_p2c` on the endpoints of a snapshot, with what the random generator draws; `none` is also its panic on an empty
snapshot. The caller reads `now` before the locks are taken. -/
def reserveP2c (states : ℕ → Endpoint T F R) (endpoints : List Dns.Endpoint) (firstIndex secondIndex : ℕ) (now : T) :
    Option (Except ScheduleError (Dns.Endpoint × DispatchReservation) × (ℕ → Endpoint T F R)) :=
  match endpoints with
  | [endpoint] => do
    let controller ← (states endpoint.state).controller.refresh now
    let (result, controller) := controller.reserve now
    some (result.map fun reservation => (endpoint, reservation),
      Function.update states endpoint.state
        (deliver Endpoint.store Endpoint.notifyChanges (states endpoint.state) controller))
  | endpoints => do
    guard (secondIndex < endpoints.length - 1)
    let secondIndex := if firstIndex ≤ secondIndex then secondIndex + 1 else secondIndex
    let first ← endpoints[firstIndex]?
    let second ← endpoints[secondIndex]?
    let firstIsLower : Bool := first.ip < second.ip
    let (lower, upper) := if firstIsLower then (first, second) else (second, first)
    let (result, lowerController, upperController) ←
      reserveOrdered firstIsLower (states lower.state).controller (states upper.state).controller now
    some (result.map fun (choice, reservation) => (choice.of first second, reservation),
      deliverBoth Endpoint.store Endpoint.notifyChanges states lower.state upper.state lowerController upperController)

/-- **The order of the locks does not show.** -/
theorem reserveP2c_eq (states : ℕ → Endpoint T F R) {endpoints : List Dns.Endpoint} {i j : ℕ} {first second : Dns.Endpoint}
    (now : T) (hj : j < endpoints.length - 1) (hfirst : endpoints[i]? = some first)
    (hsecond : endpoints[if i ≤ j then j + 1 else j]? = some second) (hne : first.state ≠ second.state) :
    reserveP2c states endpoints i j now =
      (reservePair (states first.state).controller (states second.state).controller now).map fun (result, a, b) =>
        (result.map fun (choice, reservation) => (choice.of first second, reservation),
          Function.update
            (Function.update states first.state (deliver Endpoint.store Endpoint.notifyChanges (states first.state) a))
            second.state (deliver Endpoint.store Endpoint.notifyChanges (states second.state) b)) := by
  obtain ⟨hlower, hupper⟩ := reserveOrdered_deliver Endpoint.store Endpoint.notifyChanges Endpoint.controller states hne now fun result states =>
      (result.map fun (choice, reservation) => (choice.of first second, reservation), states)
  unfold reserveP2c
  split
  · exact absurd hj (Nat.not_lt_zero _)
  · simp only [Option.bind_eq_bind, hfirst, hsecond, guard, hj, if_true, Option.pure_def, Option.bind_some]
    by_cases hlt : first.ip < second.ip
    · simp only [hlt, decide_true, if_true]
      exact hlower
    · simp only [hlt, decide_false, Bool.false_eq_true, if_false]
      exact hupper

end Rama

/-! ## The selection -/

section

variable {F : Type} [Field F] [LinearOrder F] [Powers F] [Secs T F]

instance exactOrderedSecs : OrderedSecs T F where
  le_total _ _ := le_total _ _
  le_antisymm _ _ := le_antisymm

end

/-- **Pair selection**, for two controllers in any states. A pair returns when both loads do. It reserves once, on the one
with the lower load if it has room and otherwise on the other; only a tie depends on the order; and the adapters do the same
to the controllers of their endpoints, and deliver the changes of both. -/
theorem pair_selection [OrderedSecs T F] (first second : EndpointController T F R) (now : T)
    (hids : first.controllerId ≠ second.controllerId) :
    ((reservePair first second now).isSome ↔ (first.load now).isSome ∧ (second.load now).isSome) ∧
    (∀ result first' second', reservePair first second now = some (result, first', second') →
      (∃ firstLoad secondLoad m₁ m₂, first.load now = some (firstLoad, m₁) ∧ second.load now = some (secondLoad, m₂) ∧
        Selects (preferredChoice firstLoad secondLoad) first second first' second' result) ∧
      ∀ choice choice' token, result = .ok (choice, token) →
        (token.controllerId = (choice'.of first second).controllerId ↔ choice' = choice)) ∧
    ((∀ x y, first.load now = some x → second.load now = some y → x.1 ≠ y.1) →
      reservePair second first now = (reservePair first second now).map swapPair) ∧
    (∀ (endpoints : ℕ → Tokio.Endpoint T F R) (self other : ℕ), self ≠ other → (endpoints self).controller = first →
      (endpoints other).controller = second →
      Tokio.tryReservePair endpoints self other now = (reservePair first second now).map fun (result, first, second) =>
        (result.map fun (choice, token) => (choice, choice.of self other, token),
          Function.update
            (Function.update endpoints self (deliver Tokio.Endpoint.store Tokio.Endpoint.notify (endpoints self) first))
            other (deliver Tokio.Endpoint.store Tokio.Endpoint.notify (endpoints other) second))) ∧
    ∀ (states : ℕ → Rama.Endpoint T F R) (endpoints : List Dns.Endpoint) (i j : ℕ) (a b : Dns.Endpoint),
      j < endpoints.length - 1 → endpoints[i]? = some a → endpoints[if i ≤ j then j + 1 else j]? = some b →
      a.state ≠ b.state → (states a.state).controller = first → (states b.state).controller = second →
      Rama.reserveP2c states endpoints i j now = (reservePair first second now).map fun (result, first, second) =>
        (result.map fun (choice, reservation) => (choice.of a b, reservation),
          Function.update
            (Function.update states a.state
              (deliver Rama.Endpoint.store Rama.Endpoint.notifyChanges (states a.state) first))
            b.state (deliver Rama.Endpoint.store Rama.Endpoint.notifyChanges (states b.state) second)) := by
  refine ⟨reservePair_isSome, fun result first' second' h => ?_, reservePair_swap, ?_, ?_⟩
  · obtain ⟨firstLoad, secondLoad, m₁, m₂, h₁, h₂, hsel⟩ := reservePair_selects h
    refine ⟨⟨firstLoad, secondLoad, m₁, m₂, h₁, h₂, hsel⟩, fun choice choice' token hok => ?_⟩
    rw [(hsel.ok hok).2.1]
    cases choice <;> cases choice' <;> simp [PairChoice.of, hids, hids.symm]
  · rintro endpoints self other hne rfl rfl
    exact Tokio.tryReservePair_eq endpoints now hne
  · rintro states endpoints i j a b hj ha hb hne rfl rfl
    exact Rama.reserveP2c_eq states now hj ha hb hne

/-- A controller whose queue is full. -/
def fullSample : EndpointController ℕ ℚ ℕ := ((((sample.reserve 0).2.reserve 0).2.reserve 0).2.reserve 0).2

/-- A controller with forty times the response time. -/
def dearSample : EndpointController ℕ ℚ ℕ :=
  (EndpointController.newWithRng { sampleConfig with expectedRtt := 400000000 } 0 0 8).get (by decide +kernel)

/-- The cheaper controller is full, so that the other one is chosen. -/
theorem pair_selection_full : ∃ (first' second' : EndpointController ℕ ℚ ℕ) (token : DispatchReservation),
    reservePair fullSample dearSample 0 = some (.ok (.second, token), first', second') ∧
      token = { controllerId := dearSample.controllerId, id := dearSample.nextId } ∧ first'.ledger = fullSample.ledger ∧
      second'.ledger = dearSample.ledger.reserved ∧ token.controllerId ≠ fullSample.controllerId := by
  obtain ⟨first', second', h⟩ : ∃ first' second',
      reservePair fullSample dearSample 0 = some (.ok (.second, ⟨8, 0⟩), first', second') := by
    have hres : (reservePair fullSample dearSample 0).map Prod.fst = some (.ok (.second, ⟨8, 0⟩)) := by decide +kernel
    obtain ⟨⟨_, first', second'⟩, h, rfl⟩ := Option.map_eq_some_iff.mp hres
    exact ⟨first', second', h⟩
  obtain ⟨-, hall, -⟩ := pair_selection fullSample dearSample 0 (by decide +kernel)
  obtain ⟨⟨_, _, _, _, -, -, hsel⟩, hid⟩ := hall _ _ _ h
  obtain ⟨-, htoken, hl, hl'⟩ := hsel.ok rfl
  exact ⟨first', second', _, h, htoken, hl', hl, fun hc => nomatch (hid _ .first _ rfl).mp hc⟩

end Loadpace
