import Loadpace.Adapter.Histories
import Loadpace.Readiness
import Loadpace.Lib.Fair

/-!
# Progress of the adapters

What brings a queue head that is due to its dispatch. While its reservation stays queued it stays due (`Clients.Step.keeps_due`),
no task falls asleep on it (`Clients.Step.hears`), and a broadcast is owed to it while it sleeps (`Clients.Inv.hears`); so each
poll of its own future brings it one step on. `System.Polls` is how an adapter polls its futures, and `Polls.dispatched` says
that in a fair run of it a head that is due leaves the queue.
-/

namespace Loadpace

open Systems EndpointController Notify

/-! ## Calls that keep the queue head -/

section

variable {T F R : Type} [AddCommMonoid T] [LinearOrder T] [Sub T] [Time T] [F64 F] [Secs T F] [Rng R F]
variable {c c' : EndpointController T F R} {rest : List (Entry T F R)} {r : DispatchReservation} {clock now : T}

/-- A step is the one that `perform` takes. -/
theorem perform_of_step {e : Entry T F R} (h : Step c e c') : perform c e.call = some e := by
  obtain ⟨rfl, rfl, hx⟩ := h
  rw [perform, hx]
  rfl

/-- **Calls that keep the queue head** leave it the head, dispatch nothing, and do not raise inflight. -/
theorem run_kept (hh : c.Heads r) (h : Run TimedStep (c, clock) rest (c', now)) (hk : ∀ e ∈ rest, e.resolved? ≠ some r) :
    c'.Heads r ∧ (∀ e ∈ rest, e.dispatched? = none) ∧ c'.inflight ≤ c.inflight := by
  generalize hx : (c', now) = x at h
  induction h generalizing c' now with
  | nil =>
    obtain ⟨rfl, -⟩ := Prod.mk.inj hx
    exact ⟨hh, fun e he => (by cases he), le_rfl⟩
  | @snoc rest m e x _ he ih =>
    subst hx
    obtain ⟨hm, hnone, hle⟩ := ih (fun e he => hk e (List.mem_append_left _ he)) rfl
    have hstep : Step m.1 e c' := he.1
    have hk := hk e (List.mem_append_right _ List.mem_cons_self)
    have hd := hstep.dispatches_head hm hk
    refine ⟨hstep.keeps_head hm hk, ?_, (hstep.inflight_le hd).trans hle⟩
    intro e' he'
    rcases List.mem_append.mp he' with he' | he'
    · exact hnone e' he'
    · exact List.mem_singleton.mp he' ▸ hd

end

namespace Clients

section

variable {T : Type} [LinearOrder T]

/-- Neither a notification nor the timer ends the wait. -/
def deafAt (now : T) : Wait (Option T) → Bool
  | .asleep notified timer => !(notified || timer.any (· ≤ now))
  | _ => false

theorem deafAt_notify (now : T) (wait : Wait (Option T)) : deafAt now wait.notify = false := by
  cases wait <;> rfl

theorem deafAt_iff {now : T} {wait : Wait (Option T)} :
    deafAt now wait = true ↔ ∃ timer, wait = .asleep false timer ∧ ∀ t, timer = some t → now < t := by
  cases wait with
  | away => simp [deafAt]
  | enabled _ => simp [deafAt]
  | asleep notified timer => cases timer <;> simp [deafAt]

theorem deafAt_later {now later : T} {wait : Wait (Option T)} (hle : now ≤ later) (h : deafAt later wait = true) :
    deafAt now wait = true := by
  obtain ⟨timer, rfl, hlate⟩ := deafAt_iff.mp h
  exact deafAt_iff.mpr ⟨timer, rfl, fun t ht => hle.trans_lt (hlate t ht)⟩

end

section

variable {T F R : Type} [AddCommMonoid T] [LinearOrder T] [Sub T] [Time T] [F64 F] [Secs T F] [Rng R F]
variable {s s' : Clients T F R} {ev : Event T F R} {i : ℕ} {x y : Client T} {r : DispatchReservation}

/-! ## What a step does to one request -/

/-- What a step does to one of the requests. -/
inductive Turn (s s' : Clients T F R) (x : Client T) : Client T → Prop
  | same : Turn s s' x x
  | notified : Turn s s' x x.notify
  /-- Its task enables its listener, or leaves its wait. -/
  | moved {wait : Wait (Option T)} : wait = .away ∨ wait = .enabled false → Turn s s' x { x with wait }
  | checked {r : DispatchReservation} {notified : Bool} {state : DispatchState T} {m : EndpointController T F R} :
      x = ⟨.queued r, .enabled notified⟩ → s.controller.dispatchState r s.clock = some (state, m) →
      Turn s s' x ⟨.queued r, waitAfter notified state⟩
  | dispatched {r : DispatchReservation} {wait : Wait (Option T)} {q : InFlightRequest T} : x = ⟨.queued r, wait⟩ →
      (tickets s.clients).Perm (r.id :: tickets s'.clients) → Turn s s' x ⟨.inflight q, .away⟩
  | released : (tickets s.clients).Perm (x.purpose.ticket?.toList ++ tickets s'.clients) →
      inflights s.clients = inflights s'.clients + x.purpose.isInflight.toNat → Turn s s' x ⟨.finished, .away⟩

/-- **What a step does to one of the requests.** -/
theorem Step.turnOf (h : Step s ev s') (hx : s.clients[i]? = some x) : ∃ y, s'.clients[i]? = some y ∧ Turn s s' x y := by
  -- one request of the list is replaced
  have replaced {xs ys : List (Client T)} {x' y' : Client T} (hs : s.clients = xs ++ x' :: ys)
      (hturn : x' = x → Turn s s' x y') : ∃ y, (xs ++ y' :: ys)[i]? = some y ∧ Turn s s' x y := by
    rw [hs] at hx
    rw [getElem?_replace (x := x')]
    split
    · rename_i hi
      subst hi
      rw [getElem?_middle] at hx
      exact ⟨_, rfl, hturn (Option.some.inj hx)⟩
    · exact ⟨x, hx, .same⟩
  cases h with
  | stay => exact ⟨x, hx, .same⟩
  | tick _ => exact ⟨x, hx, .same⟩
  | broadcast _ =>
    refine ⟨x.notify, ?_, .notified⟩
    show (s.clients.map Waiter.notify)[i]? = _
    rw [List.getElem?_map, hx]
    rfl
  | move hs hw =>
    refine replaced hs ?_
    rintro rfl
    exact .moved hw
  | read _ _ _ _ _ => exact ⟨x, hx, .same⟩
  | accept _ _ _ _ _ _ =>
    obtain ⟨hlt, -⟩ := List.getElem?_eq_some_iff.mp hx
    exact ⟨x, (List.getElem?_append_left hlt).trans hx, .same⟩
  | check hs he hc hstate =>
    refine replaced hs ?_
    rintro rfl
    exact .checked rfl (he.check_state hc hstate)
  | retry hs _ _ _ _ =>
    refine replaced hs ?_
    rintro rfl
    exact .moved (Or.inl rfl)
  | @dispatch xs ys r _ _ _ q _ hs _ _ _ _ =>
    refine replaced hs ?_
    rintro rfl
    refine .dispatched rfl ?_
    show (tickets s.clients).Perm (r.id :: tickets (xs ++ ⟨.inflight q, .away⟩ :: ys))
    rw [hs, tickets_split, tickets_split]
    exact List.perm_middle
  | @release xs ys x' _ _ _ _ hs _ _ _ =>
    refine replaced hs ?_
    rintro rfl
    refine .released ?_ ?_
    · show (tickets s.clients).Perm (_ ++ tickets (xs ++ ⟨.finished, .away⟩ :: ys))
      rw [hs, tickets_split, tickets_split]
      exact List.perm_append_comm_assoc _ _ _
    · show inflights s.clients = inflights (xs ++ ⟨.finished, .away⟩ :: ys) + _
      rw [hs, inflights_split, inflights_split]
      cases x'.purpose.isInflight <;> rfl

/-- The request is queued under the reservation. -/
def Queued (s : Clients T F R) (i : ℕ) (r : DispatchReservation) : Prop := ∃ wait, s.clients[i]? = some ⟨.queued r, wait⟩

/-- A request that leaves the queue was dispatched, or has finished. -/
theorem Step.leaves (h : Step s ev s') (hi : s.Inv) (hq : s.Queued i r) (hq' : ¬s'.Queued i r) :
    r.id ∉ ids s'.controller.pending ∧ ∃ y, s'.clients[i]? = some y ∧
      ((∃ q, y.purpose = .inflight q) ∨ y.purpose = .finished) := by
  obtain ⟨wait, hx⟩ := hq
  obtain ⟨y, hy, hturn⟩ := h.turnOf hx
  -- its ticket was the only one of its identity
  have gone (hperm : (tickets s.clients).Perm (r.id :: tickets s'.clients)) : r.id ∉ ids s'.controller.pending := by
    have hnodup := hperm.nodup_iff.mp (hi.line.nodup_iff.mpr hi.ids_nodup)
    intro hmem
    exact (List.nodup_cons.mp hnodup).1 ((h.inv hi).line.symm.subset hmem)
  cases hturn with
  | same => exact absurd ⟨_, hy⟩ hq'
  | notified => exact absurd ⟨_, hy⟩ hq'
  | moved _ => exact absurd ⟨_, hy⟩ hq'
  | checked hx _ =>
    cases hx
    exact absurd ⟨_, hy⟩ hq'
  | dispatched hx hperm =>
    cases hx
    exact ⟨gone hperm, _, hy, Or.inl ⟨_, rfl⟩⟩
  | released hperm _ => exact ⟨gone hperm, _, hy, Or.inr rfl⟩

/-- A request in flight that stays so, or else leaves fewer in flight. -/
theorem Step.inflights_lt (h : Step s ev s') (hx : s.clients[i]? = some x) {q : InFlightRequest T}
    (hq : x.purpose = .inflight q) :
    (∃ y, s'.clients[i]? = some y ∧ y.purpose = .inflight q) ∨ inflights s'.clients < inflights s.clients := by
  obtain ⟨y, hy, hturn⟩ := h.turnOf hx
  cases hturn with
  | same => exact Or.inl ⟨_, hy, hq⟩
  | notified => exact Or.inl ⟨_, hy, hq⟩
  | moved _ => exact Or.inl ⟨_, hy, hq⟩
  | checked hx _ =>
    rw [hx] at hq
    cases hq
  | dispatched hx _ =>
    rw [hx] at hq
    cases hq
  | released _ hlt =>
    rw [hq] at hlt
    right
    rw [hlt]
    exact Nat.lt_succ_self _

/-! ## A head that is due -/

/-- A step after which the request is still queued resolves its reservation in no call. -/
theorem Step.unresolved (h : Step s ev s') (hi : s.Inv) (hq : s'.Queued i r) : ∀ e ∈ ev.history, e.resolved? ≠ some r := by
  obtain ⟨wait, hx⟩ := hq
  obtain ⟨c₀, tr, h0, hrun⟩ := hi.reached
  obtain ⟨⟨clock', -, hturn⟩, -⟩ := h.history hi le_rfl
  intro e he hr
  have hline := (h.inv hi).in_line (List.mem_of_getElem? hx) rfl
  rw [← ledger_ids] at hline
  refine Tickets.not_waiting_of_gone (run_tickets h0 (hrun.append hturn.untimed)) ?_ hline
  rw [Tickets.gone, List.filterMap_filterMap]
  refine List.mem_filterMap.mpr ⟨e, List.mem_append_right _ he, ?_⟩
  rw [← e.ids_ticket.2.1, hr]
  rfl

/-- **A queue head stays the head** while it is queued, and nothing else is dispatched. -/
theorem Step.keeps_head (h : Step s ev s') (hi : s.Inv) (hh : s.controller.Heads r) (hq : s'.Queued i r) :
    s'.controller.Heads r ∧ s'.controller.inflight ≤ s.controller.inflight := by
  obtain ⟨⟨clock', -, hturn⟩, -⟩ := h.history hi le_rfl
  obtain ⟨hh', -, hle⟩ := run_kept hh hturn (h.unresolved hi hq)
  exact ⟨hh', hle⟩

/-- **A head that is due stays due** while it is queued. -/
theorem Step.keeps_due [NullLaws T F] (h : Step s ev s') (hi : s.Inv) (hd : Due r s.controller s.clock) (hq : s'.Queued i r) :
    Due r s'.controller s'.clock := by
  obtain ⟨⟨clock', hle, hturn⟩, -⟩ := h.history hi le_rfl
  have hdue := run_due hd hturn (h.unresolved hi hq)
  exact ⟨hdue.heads, hdue.room, hdue.tat.trans hle⟩

/-- A check would find the reservation ready, and a dispatch would succeed. -/
structure Prompt (s : Clients T F R) (r : DispatchReservation) : Prop where
  check : ∃ m, s.controller.dispatchState r s.clock = some (.ready, m)
  dispatch : ∃ q m, s.controller.onDispatched r s.clock = some (.ok q, m)

theorem Prompt.of_due [NullLaws T F] (hd : Due r s.controller s.clock) (hl : s.controller.Lazy s.clock)
    (hr : (s.controller.refresh s.clock).isSome) : s.Prompt r := by
  obtain ⟨m, hm⟩ := Option.isSome_iff_exists.mp hr
  obtain ⟨hready, hok⟩ := hd.dispatch hl le_rfl hm
  exact ⟨⟨m, hready⟩, hok⟩

theorem Prompt.performs_check (hp : s.Prompt r) :
    ∃ e, perform s.controller (.dispatchState r s.clock) = some e ∧ e.reply = .state .ready := by
  obtain ⟨m, hm⟩ := hp.check
  refine ⟨⟨.dispatchState r s.clock, .state .ready, s.controller, m⟩, ?_, rfl⟩
  rw [perform, exec, hm]
  rfl

theorem Prompt.performs_dispatch (hp : s.Prompt r) :
    ∃ e q, perform s.controller (.onDispatched r s.clock) = some e ∧ e.reply = .dispatched (.ok q) := by
  obtain ⟨q, m, hm⟩ := hp.dispatch
  refine ⟨⟨.onDispatched r s.clock, .dispatched (.ok q), s.controller, m⟩, q, ?_, rfl⟩
  rw [perform, exec, hm]
  rfl

theorem Step.clock_le (h : Step s ev s') : s.clock ≤ s'.clock := by
  rcases h.turn with ⟨-, -, hle⟩ | ⟨heq, -⟩
  · exact hle
  · exact heq.ge

/-- **No task falls asleep** on a reservation that a check would find ready. -/
theorem Step.hears (h : Step s ev s') (hp : s.Prompt r) {wait wait' : Wait (Option T)}
    (hx : s.clients[i]? = some ⟨.queued r, wait⟩) (hx' : s'.clients[i]? = some ⟨.queued r, wait'⟩)
    (hdeaf : deafAt s'.clock wait' = true) : deafAt s.clock wait = true := by
  obtain ⟨y, hy, hturn⟩ := h.turnOf hx
  obtain rfl := Option.some.inj (hy.symm.trans hx')
  generalize hz : (⟨.queued r, wait'⟩ : Client T) = z at hturn
  cases hturn with
  | same =>
    cases hz
    exact deafAt_later h.clock_le hdeaf
  | notified =>
    cases hz
    rw [deafAt_notify] at hdeaf
    cases hdeaf
  | moved hw =>
    cases hz
    rcases hw with rfl | rfl <;> cases hdeaf
  | checked hx hstate =>
    cases hx
    cases hz
    obtain ⟨m, hready⟩ := hp.check
    rw [hready] at hstate
    cases hstate
    cases hdeaf
  | dispatched _ _ => cases hz
  | released _ _ => cases hz

/-- **A broadcast is owed** to the task that sleeps on a head that is due. -/
theorem Inv.owed (hi : s.Inv) (hd : Due r s.controller s.clock) (hl : s.controller.Lazy s.clock)
    {wait : Wait (Option T)} (hx : s.clients[i]? = some ⟨.queued r, wait⟩) (hdeaf : deafAt s.clock wait = true) :
    0 < s.owed := by
  obtain ⟨timer, rfl, hlate⟩ := deafAt_iff.mp hdeaf
  obtain ⟨front, rest, hp, hid⟩ := hd.heads.front
  refine (hi.covered _ (List.mem_of_getElem? hx) timer rfl).resolve_right fun hsleep => ?_
  rcases hsleep r front rest rfl hp hid with hcap | ⟨t, ht, hle⟩
  · exact absurd hd.room (not_lt.mpr hcap)
  · -- the head's slot has passed
    obtain ⟨u, hu, hslot⟩ := hl.head front.scheduledAt (by rw [slots, hp]; rfl)
    have hpast : front.scheduledAt ≤ s.clock := hslot ▸ max_le hd.tat hu
    exact absurd (hlate t ht) (not_lt.mpr ((hle.trans (recheckAt_le_slot _ _)).trans hpast))

end

end Clients

/-! ## How an adapter polls its futures -/

section

variable {T F R : Type}

structure System.Polls (S : System T F R) where
  /-- The future of a request is polled. -/
  poll : ℕ → S.Label
  /-- A broadcast that is owed is made. -/
  broadcast : S.Label
  /-- The queued requests are at places before their dispatch. -/
  placed : S.State → Prop
  /-- The polls of its own that take a queued request to its dispatch, when no check tells it to wait. -/
  left : S.State → ℕ → ℕ

end

section

variable {T F R : Type} [AddCommMonoid T] [LinearOrder T] [Sub T] [Time T] [F64 F] [Secs T F] [Rng R F]
variable {S : System T F R}

/-- **What makes an adapter prompt.** -/
structure System.Polls.Sound (P : S.Polls) : Prop where
  start : ∀ c now, P.placed (S.start c now)
  keeps : ∀ s l ev s', P.placed s → S.exec s l = some (ev, s') → P.placed s'
  /-- A queued request can be polled unless it is deaf. -/
  able : ∀ s i r wait, P.placed s → (S.view s).clients[i]? = some ⟨.queued r, wait⟩ →
    Clients.deafAt (S.view s).clock wait = false → (S.view s).Prompt r → (S.exec s (P.poll i)).isSome
  /-- A broadcast that is owed can be made, and reaches every request. -/
  owed : ∀ s, 0 < (S.view s).owed → (S.exec s P.broadcast).isSome
  broadcast : ∀ s ev s', S.exec s P.broadcast = some (ev, s') →
    (S.view s').clients = (S.view s).clients.map Waiter.notify
  /-- While a request stays queued, no step sends it back, and its own polls bring it on. -/
  left : ∀ s l ev s' i r, S.exec s l = some (ev, s') → (S.view s).Queued i r → (S.view s').Queued i r →
    (S.view s).Prompt r → P.left s' i ≤ P.left s i ∧ (l = P.poll i → P.left s' i < P.left s i)
  /-- Only its own drop finishes a request that is queued. -/
  drop : ∀ s l ev s' i r x, P.placed s → S.exec s l = some (ev, s') → (S.view s).Queued i r →
    (S.view s').clients[i]? = some x → x.purpose = .finished → l = S.drop i

/-- A run of an adapter that forgets no future and no broadcast. -/
structure System.Polls.Fair (P : S.Polls) (ρ : Endless S.Step) : Prop where
  polls : ∀ i, ρ.Fair fun x => x.1 = P.poll i
  broadcasts : ρ.Fair fun x => x.1 = P.broadcast

variable {P : S.Polls} {ρ : Endless S.Step} {c₀ : EndpointController T F R} {start : T} {n i : ℕ} {r : DispatchReservation}

/-- What holds all along a run of a sound adapter. -/
structure System.Reached (S : System T F R) (ρ : Endless S.Step) (c₀ : EndpointController T F R) (start : T) (k : ℕ) : Prop where
  inv : (S.view (ρ.state k)).Inv
  step : Clients.Step (S.view (ρ.state k)) (ρ.label k).2 (S.view (ρ.state (k + 1)))
  /-- The history of the controller. -/
  past : ∃ tr clock, Run TimedStep (c₀, start) tr ((S.view (ρ.state k)).controller, clock) ∧ clock ≤ (S.view (ρ.state k)).clock ∧
    ∀ e ∈ tr, e.call.now?.isSome → ∃ j, e ∈ (ρ.label j).2.entries

theorem System.Sound.reached (hS : S.Sound) (h0 : Fresh c₀) (hρ : ρ.state 0 = S.start c₀ start) (k : ℕ) :
    S.Reached ρ c₀ start k := by
  have hrun := ρ.run k
  rw [hρ] at hrun
  obtain ⟨⟨clock, hle, hpast⟩, hentries⟩ := hS.history h0 hrun
  have hinv := (hS.run h0 hrun).1
  refine ⟨hinv, hS.step _ _ _ _ hinv (ρ.steps k), _, clock, hpast, hle, fun e he hnow => ?_⟩
  have hmem : e ∈ _ := hentries ▸ List.mem_filter.mpr ⟨he, hnow⟩
  obtain ⟨x, hx, he⟩ := List.mem_flatMap.mp hmem
  obtain ⟨j, -, rfl⟩ := List.mem_map.mp hx
  exact ⟨j, he⟩

theorem System.Reached.lazy {k : ℕ} (h : S.Reached ρ c₀ start k) (h0 : FreshAt c₀ start) :
    (S.view (ρ.state k)).controller.Lazy (S.view (ρ.state k)).clock := by
  obtain ⟨tr, clock, hpast, hle, -⟩ := h.past
  exact (run_lazy h0 hpast).mono hle

theorem System.Polls.Sound.placed (hP : P.Sound) (hρ : ρ.state 0 = S.start c₀ start) (k : ℕ) : P.placed (ρ.state k) := by
  have hrun := ρ.run k
  rw [hρ] at hrun
  exact hrun.invariant (hP.start c₀ start) fun s x s' he hs => hP.keeps s x.1 x.2 s' hs he

/-- The task of the request sleeps, and is not to wake. -/
def Clients.deaf (s : Clients T F R) (i : ℕ) : Bool := s.clients[i]?.any fun x => deafAt s.clock x.wait

/-- **A queue head that is due leaves the queue.** -/
theorem System.Polls.Sound.leaves [NullLaws T F] (hP : P.Sound) (hS : S.Sound) (h0 : FreshAt c₀ start)
    (hρ : ρ.state 0 = S.start c₀ start) (hf : P.Fair ρ)
    (hr : ∀ k, ((S.view (ρ.state k)).controller.refresh (S.view (ρ.state k)).clock).isSome)
    (hq : (S.view (ρ.state n)).Queued i r) (hd : Due r (S.view (ρ.state n)).controller (S.view (ρ.state n)).clock) :
    ∃ k, n ≤ k ∧ ¬(S.view (ρ.state (k + 1))).Queued i r := by
  let due (k : ℕ) : Prop := (S.view (ρ.state k)).Queued i r ∧
    Due r (S.view (ρ.state k)).controller (S.view (ρ.state k)).clock
  have hprompt (k : ℕ) (hk : due k) : (S.view (ρ.state k)).Prompt r :=
    .of_due hk.2 ((hS.reached h0.fresh hρ k).lazy h0) (hr k)
  -- a broadcast helps while the task is deaf, and its own polls do otherwise
  refine ρ.eventually (fun (deaf : Bool) (x : S.Label × Event T F R) => x.1 = if deaf then P.broadcast else P.poll i) due
    (fun k => ¬(S.view (ρ.state k)).Queued i r)
    (fun k => P.left (ρ.state k) i + ((S.view (ρ.state k)).deaf i).toNat)
    (fun k => (S.view (ρ.state k)).deaf i) ?_ ⟨hq, hd⟩ ?_ ?_
  · intro deaf
    cases deaf with
    | true => exact hf.broadcasts
    | false => exact hf.polls i
  · intro k _ hk
    obtain ⟨⟨wait, hx⟩, hd⟩ := hk
    have hreached := hS.reached h0.fresh hρ k
    have hdeaf : (S.view (ρ.state k)).deaf i = Clients.deafAt (S.view (ρ.state k)).clock wait := by
      rw [Clients.deaf, hx]
      rfl
    have hsome : (S.exec (ρ.state k) (if (S.view (ρ.state k)).deaf i then P.broadcast else P.poll i)).isSome := by
      rw [hdeaf]
      split
      · rename_i hdeaf
        exact hP.owed _ (hreached.inv.owed hd (hreached.lazy h0) hx hdeaf)
      · rename_i hdeaf
        exact hP.able _ i r wait (hP.placed hρ k) hx (Bool.eq_false_iff.mpr hdeaf) (hprompt k ⟨⟨wait, hx⟩, hd⟩)
    obtain ⟨⟨ev, s'⟩, he⟩ := Option.isSome_iff_exists.mp hsome
    exact ⟨(_, ev), s', rfl, he⟩
  · intro k _ hk hq'
    have hq' := not_not.mp hq'
    have hreached := hS.reached h0.fresh hρ k
    have hstep := hreached.step
    refine ⟨⟨hq', hstep.keeps_due hreached.inv hk.2 hq'⟩, ?_⟩
    obtain ⟨hle, hpoll⟩ := hP.left _ _ _ _ i r (ρ.steps k) hk.1 hq' (hprompt k hk)
    obtain ⟨wait, hx⟩ := hk.1
    obtain ⟨wait', hx'⟩ := hq'
    have hdeaf : (S.view (ρ.state k)).deaf i = Clients.deafAt (S.view (ρ.state k)).clock wait := by
      rw [Clients.deaf, hx]
      rfl
    have hdeaf' : (S.view (ρ.state (k + 1))).deaf i = Clients.deafAt (S.view (ρ.state (k + 1))).clock wait' := by
      rw [Clients.deaf, hx']
      rfl
    have hhears := hstep.hears (hprompt k hk) hx hx'
    rw [← hdeaf, ← hdeaf'] at hhears
    cases hdeaf : (S.view (ρ.state k)).deaf i with
    | false =>
      have hdeaf' : (S.view (ρ.state (k + 1))).deaf i = false := Bool.eq_false_iff.mpr fun h => by
        rw [hhears h] at hdeaf
        cases hdeaf
      rw [hdeaf']
      rcases hle.eq_or_lt with heq | hlt
      · exact Or.inr ⟨congrArg (· + _) heq, rfl, fun hl => heq.not_lt (hpoll hl)⟩
      · exact Or.inl (Nat.add_lt_add_right hlt _)
    | true =>
      cases hdeaf' : (S.view (ρ.state (k + 1))).deaf i with
      | false => exact Or.inl (Nat.lt_succ_of_le hle)
      | true =>
        rcases hle.eq_or_lt with heq | hlt
        · refine Or.inr ⟨congrArg (· + _) heq, rfl, fun hl => ?_⟩
          -- a broadcast would have reached the task
          have hlabel : (ρ.label k).1 = P.broadcast := hl
          have hexec : S.exec (ρ.state k) (ρ.label k).1 = some ((ρ.label k).2, ρ.state (k + 1)) := ρ.steps k
          have hclients := hP.broadcast _ _ _ (hlabel ▸ hexec)
          rw [Clients.deaf, hclients, List.getElem?_map, hx] at hdeaf'
          exact Bool.noConfusion ((Clients.deafAt_notify _ wait).symm.trans hdeaf')
        · exact Or.inl (Nat.add_lt_add_right hlt _)

end

end Loadpace
