import Loadpace.Adapter.Guarantees
import Loadpace.Throughput

/-!
# Adapters and controller histories

Whatever its tasks do at once, an adapter leads its controller through one history with a clock that does not move back: the
calls of its turns at the lock, each turn followed by a drain of the flags (`adapter_refines_controller`). A turn's instant is
the one at which it has the lock. So what holds of every controller history holds of every run of an adapter, such as the
bound on the dispatches of a window (`adapter_conforms`). And the adapter dispatches its requests in the order in which it
accepted them (`no_overtaking`).
-/

namespace Loadpace

open Systems EndpointController Notify

section

variable {T F R : Type}

/-- The drain of the flags. -/
def EndpointController.drained (m : EndpointController T F R) : Entry T F R where
  call := .takeChanges
  reply := .changes m.changes
  before := m
  after := m.takeChanges.2

/-- The calls of a step, and the drain that ends its turn. -/
def Event.history (ev : Event T F R) : List (Entry T F R) :=
  match ev.entries.getLast? with
  | none => []
  | some e => ev.entries ++ [e.after.drained]

/-- A turn's history ends with the drain of the flags that its last call has left. -/
theorem Event.history_eq (ev : Event T F R) :
    (ev.entries = [] ∧ ev.history = []) ∨
      ∃ es e, ev.entries = es ++ [e] ∧ ev.history = es ++ [e, e.after.drained] := by
  unfold Event.history
  cases hlast : ev.entries.getLast? with
  | none => exact Or.inl ⟨List.getLast?_eq_none_iff.mp hlast, rfl⟩
  | some e =>
    obtain ⟨es, hes⟩ := List.getLast?_eq_some_iff.mp hlast
    refine Or.inr ⟨es, e, hes, ?_⟩
    dsimp only
    rw [hes, List.append_assoc]
    rfl

/-- What is not a call of the turn is the drain, which has no instant. -/
theorem Event.mem_history (ev : Event T F R) {e : Entry T F R} (he : e ∈ ev.history) :
    e ∈ ev.entries ∨ e.call.now? = none := by
  rcases ev.history_eq with ⟨-, hhistory⟩ | ⟨es, e', hentries, hhistory⟩
  · rw [hhistory] at he
    cases he
  · rw [hhistory] at he
    rw [hentries]
    rcases List.mem_append.mp he with he | he
    · exact Or.inl (List.mem_append_left _ he)
    · rcases List.mem_cons.mp he with rfl | he
      · exact Or.inl (List.mem_append_right _ List.mem_cons_self)
      · rw [List.mem_singleton.mp he]
        exact Or.inr rfl

end

section

variable {T F R : Type} [AddCommMonoid T] [LinearOrder T] [Sub T] [Time T] [F64 F] [Secs T F] [Rng R F]
variable {c c₀ m : EndpointController T F R} {es : List (Entry T F R)} {s s' : Clients T F R} {ev : Event T F R}
variable {clock now start : T}

/-! ## A turn at the lock -/

/-- The calls of a turn are a history at one instant. -/
theorem Locked.timed (h : Locked c now es m) (hle : clock ≤ now) :
    ∃ clock' ≤ now, Run TimedStep (c, clock) es (m, clock') := by
  obtain ⟨hrun, hnow⟩ := h
  induction hrun with
  | nil => exact ⟨clock, hle, .nil⟩
  | @snoc es m e m' _ he ih =>
    obtain ⟨clock', hle', hrun⟩ := ih fun e he => hnow e (List.mem_append_left _ he)
    refine ⟨now, le_rfl, hrun.snoc ⟨he, ?_⟩⟩
    dsimp only
    rw [hnow e (List.mem_append_right _ List.mem_cons_self)]
    exact ⟨hle', rfl⟩

/-- A turn ends where its last call does. -/
theorem Locked.last (h : Locked c now es m) {e : Entry T F R} (he : es.getLast? = some e) : e.after = m := by
  obtain ⟨hrun, -⟩ := h
  cases hrun with
  | nil => cases he
  | snoc _ hstep =>
    rw [List.getLast?_concat] at he
    rw [← Option.some.inj he]
    exact hstep.2.1

/-- A step of an adapter leaves the controller, or is a turn at the lock. -/
theorem Clients.Step.turn (h : Clients.Step s ev s') :
    (ev.entries = [] ∧ s'.controller = s.controller ∧ s.clock ≤ s'.clock) ∨
    (s'.clock = s.clock ∧ ∃ m, Locked s.controller s.clock ev.entries m ∧
      s'.controller = { m with changes := ControllerChanges.none }) := by
  cases h with
  | stay => exact Or.inl ⟨rfl, rfl, le_rfl⟩
  | tick hle => exact Or.inl ⟨rfl, rfl, hle⟩
  | broadcast _ => exact Or.inl ⟨rfl, rfl, le_rfl⟩
  | move _ _ => exact Or.inl ⟨rfl, rfl, le_rfl⟩
  | read hl _ _ _ _ => exact Or.inr ⟨rfl, _, hl, rfl⟩
  | accept hl _ he hnow _ _ => exact Or.inr ⟨rfl, _, hl.snoc he hnow, rfl⟩
  | check _ he hc _ => exact Or.inr ⟨rfl, _, .single he (Call.now_of_check hc), rfl⟩
  | retry _ he hc _ _ => exact Or.inr ⟨rfl, _, .single he (Call.now_of_check hc), rfl⟩
  | dispatch _ he hnow _ _ => exact Or.inr ⟨rfl, _, .single he hnow, rfl⟩
  | release _ he hrel _ => exact Or.inr ⟨rfl, _, .single he (Hold.now_of_release hrel), rfl⟩

/-- All calls of a step are made at the instant of its turn. -/
theorem Clients.Step.instant (h : Clients.Step s ev s') : ∀ e ∈ ev.entries, e.call.now? = some s.clock := by
  rcases h.turn with ⟨hnone, -, -⟩ | ⟨-, m, hl, -⟩
  · rw [hnone]
    intro e he
    cases he
  · exact hl.instant

/-- **One step of an adapter** is a history of its controller. -/
theorem Clients.Step.history (h : Clients.Step s ev s') (hi : s.Inv) (hle : clock ≤ s.clock) :
    (∃ clock' ≤ s'.clock, Run TimedStep (s.controller, clock) ev.history (s'.controller, clock')) ∧
      ev.history.filter (fun e => e.call.now?.isSome) = ev.entries := by
  unfold Event.history
  rcases h.turn with ⟨hnone, hsame, hclock⟩ | ⟨hclock, m, hl, hdrained⟩
  · rw [hnone, hsame]
    exact ⟨⟨clock, hle.trans hclock, .nil⟩, rfl⟩
  · obtain ⟨clock', hle', hrun⟩ := hl.timed hle
    cases hlast : ev.entries.getLast? with
    | none =>
      -- no call was made, and no flag was up
      have hnil := List.getLast?_eq_none_iff.mp hlast
      rw [hnil] at hrun ⊢
      obtain ⟨rfl, rfl⟩ := Prod.mk.inj hrun.nil_inv
      have hsame : s'.controller = s.controller := by
        rw [hdrained]
        have hquiet := hi.quiet
        cases hc : s.controller
        rw [hc] at hquiet
        subst hquiet
        rfl
      rw [hsame]
      exact ⟨⟨clock', hle'.trans hclock.ge, .nil⟩, rfl⟩
    | some e =>
      have hafter := hl.last hlast
      have hdrain : TimedStep (m, clock') m.drained (m.takeChanges.2, clock') := ⟨⟨rfl, rfl, rfl⟩, rfl⟩
      dsimp only
      rw [hafter, hdrained, hclock]
      refine ⟨⟨clock', hle', hrun.snoc hdrain⟩, ?_⟩
      rw [List.filter_append, List.filter_eq_self.mpr fun e he => by rw [hl.instant e he]; rfl]
      exact List.append_nil _

/-! ## Runs -/

variable {S : System T F R} {tr before after : List (S.Label × Event T F R)} {x : S.Label × Event T F R} {σ : S.State}

/-- **Every run of a sound adapter is a history of its controller.** -/
theorem System.Sound.history (hS : S.Sound) (h0 : Fresh c₀) (h : Run S.Step (S.start c₀ start) tr σ) :
    (∃ clock ≤ (S.view σ).clock, Run TimedStep (c₀, start) (tr.flatMap fun x => x.2.history) ((S.view σ).controller, clock)) ∧
      (tr.flatMap fun x => x.2.history).filter (fun e => e.call.now?.isSome) = tr.flatMap fun x => x.2.entries := by
  induction h with
  | nil =>
    rw [hS.start]
    exact ⟨⟨start, le_rfl, .nil⟩, rfl⟩
  | @snoc tr σ x σ' hrun he ih =>
    obtain ⟨⟨clock, hle, hpast⟩, hfilter⟩ := ih
    have hinv := (hS.run h0 hrun).1
    obtain ⟨⟨clock', hle', hturn⟩, hentries⟩ := (hS.step _ _ _ _ hinv he).history hinv hle
    rw [List.flatMap_append, List.flatMap_append, List.flatMap_singleton, List.flatMap_singleton, List.filter_append,
      hfilter, hentries]
    exact ⟨⟨clock', hle', hpast.append hturn⟩, rfl⟩

/-- The requests of a run hold their reservations in the order in which they were accepted. -/
theorem System.Sound.lined (hS : S.Sound) (h0 : Fresh c₀) (h : Run S.Step (S.start c₀ start) tr σ) : (S.view σ).Lined := by
  induction h with
  | nil =>
    rw [hS.start]
    exact List.Pairwise.nil
  | snoc hrun he ih =>
    have hinv := (hS.run h0 hrun).1
    exact (hS.step _ _ _ _ hinv he).lined hinv ih

/-- A step that dispatches finds its request at the head of the queue. -/
theorem Clients.Step.dispatches (h : Clients.Step s ev s') {e : Entry T F R} (he : e ∈ ev.entries)
    (hd : e.dispatched?.isSome) : ∃ xs ys r wait rest, ev.who = some xs.length ∧ s.clients = xs ++ ⟨.queued r, wait⟩ :: ys ∧
      ids s.controller.pending = r.id :: rest := by
  have hinert {es : List (Entry T F R)} (hes : ∀ e ∈ es, e.Inert) (he : e ∈ es) : False := by
    have hnone := deeds_inert hes
    have hdis := List.filterMap_eq_nil_iff.mp (congrArg Deeds.dispatches hnone) e he
    rw [hdis] at hd
    cases hd
  have hstate {state : DispatchState T} (hs : e.reply.state? = some state) : False := by
    have hnone : e.dispatched? = none := dispatchedOf_state _ hs
    rw [hnone] at hd
    cases hd
  cases h with
  | stay => cases he
  | tick _ => cases he
  | broadcast _ => cases he
  | move _ _ => cases he
  | read _ hes _ _ _ => exact (hinert hes he).elim
  | @accept es e' m m' owed r _ hes _ _ hr _ =>
    rcases List.mem_append.mp he with he | he
    · exact (hinert hes he).elim
    · rw [List.mem_singleton.mp he] at hd
      unfold Entry.dispatched? dispatchedOf at hd
      unfold Entry.issued? at hr
      split at hd
      · rename_i hcall _
        rw [hcall] at hr
        cases hr
      · cases hd
  | check _ _ _ hs => exact (hstate (List.mem_singleton.mp he ▸ hs)).elim
  | retry _ _ _ hs _ => exact (hstate (List.mem_singleton.mp he ▸ hs)).elim
  | @dispatch xs ys r wait e' m q owed hx he' _ hd' _ =>
    obtain ⟨-, -, hids, -⟩ := he'.dispatched hd'
    exact ⟨xs, ys, r, wait, _, rfl, hx, hids⟩
  | @release xs ys y completion e' m owed hx _ hrel _ =>
    rw [List.mem_singleton.mp he] at hd
    unfold Entry.dispatched? dispatchedOf at hd
    split at hd
    · rename_i hcall _
      rw [hcall] at hrel
      cases hp : y.purpose <;> rw [hp] at hrel <;> cases hrel
    · cases hd

/-- **An adapter is a refinement of its controller.** The turns of any run of an adapter, one after the other, are a history
of the controller with a clock that does not move back. A turn is the calls that one step makes under the lock, all at the
instant of the step, and after the last of them the drain of the flags. -/
theorem adapter_refines_controller (adapter : Adapter) (hS : S = adapter.system T F R) (h0 : FreshAt c₀ start)
    (h : Run S.Step (S.start c₀ start) tr σ) :
    (∃ clock ≤ (S.view σ).clock,
      Run TimedStep (c₀, start) (tr.flatMap fun x => x.2.history) ((S.view σ).controller, clock)) ∧
    ∀ x ∈ tr, (∃ now, ∀ e ∈ x.2.entries, e.call.now? = some now) ∧ ((x.2.entries = [] ∧ x.2.history = []) ∨
      ∃ es e, x.2.entries = es ++ [e] ∧ x.2.history = es ++ [e, e.after.drained]) := by
  subst hS
  have hsound := adapter.sound T F R
  refine ⟨(hsound.history h0.fresh h).1, fun x hx => ⟨?_, x.2.history_eq⟩⟩
  obtain ⟨before, after, σ₁, σ₂, rfl, hbefore, hstep, -⟩ := h.of_mem hx
  exact ⟨_, (hsound.step _ _ _ _ (hsound.run h0.fresh hbefore).1 hstep).instant⟩

end

/-- A reservation that is dispatched, and one that waits. -/
theorem adapter_refines_controller_two : ∃ tr σ clock, (Rama.system ℕ ℚ ℕ).play ((Rama.system ℕ ℚ ℕ).start sample 0)
    wakeupLabels = some (tr, σ) ∧ (tr.flatMap fun x => x.2.entries).length = 5 ∧
    Run TimedStep (sample, 0) (tr.flatMap fun x => x.2.history) (σ.controller, clock) := by
  have hp : ((Rama.system ℕ ℚ ℕ).play ((Rama.system ℕ ℚ ℕ).start sample 0) wakeupLabels).any (fun x =>
      (x.1.flatMap fun x => x.2.entries).length = 5) = true := by decide +kernel
  obtain ⟨⟨tr, σ⟩, hr, hres⟩ := (Option.any_eq_true _ _).mp hp
  obtain ⟨⟨clock, -, hrun⟩, -⟩ := adapter_refines_controller .rama rfl sample_freshAt (System.play_run hr)
  exact ⟨tr, σ, clock, hr, of_decide_eq_true hres, hrun⟩

section

variable {T F R : Type} [AddCommMonoid T] [LinearOrder T] [Sub T] [Time T] [F64 F] [Secs T F] [Rng R F]
variable {c₀ : EndpointController T F R} {start : T} {S : System T F R} {before after : List (S.Label × Event T F R)}
variable {x : S.Label × Event T F R} {σ : S.State}

/-- **No request overtakes another.** Whenever a run of an adapter dispatches a request, each request that was accepted
before it has been dispatched already, or has been released. -/
theorem no_overtaking (adapter : Adapter) (hS : S = adapter.system T F R) (h0 : Fresh c₀)
    (h : Run S.Step (S.start c₀ start) (before ++ x :: after) σ) {e : Entry T F R} (he : e ∈ x.2.entries)
    (hd : e.dispatched?.isSome) {i j : ℕ} (hj : x.2.who = some j) (hij : i < j) :
    (deeds (entriesOf i (before.map Prod.snd))).dispatches ≠ [] ∨ (deeds (entriesOf i (before.map Prod.snd))).releases ≠ [] := by
  subst hS
  have hsound := adapter.sound T F R
  obtain ⟨σ₁, hbefore, hrest⟩ := h.split
  obtain ⟨σ₂, hx, -⟩ := hrest.cons_inv
  obtain ⟨hinv, hlives, -⟩ := hsound.run h0 hbefore
  obtain ⟨xs, ys, r, wait, rest, hwho, hclients, hhead⟩ := (hsound.step _ _ _ _ hinv hx).dispatches he hd
  obtain rfl : j = xs.length := Option.some.inj (hj.symm.trans hwho)
  have hlife := hlives i
  rw [hclients] at hlife
  rw [List.getElem?_append_left hij, List.getElem?_eq_getElem hij] at hlife
  have hlife : Life xs[i].purpose (deeds (entriesOf i (before.map Prod.snd))) := hlife
  generalize hdeeds : deeds (entriesOf i (before.map Prod.snd)) = d at hlife ⊢
  generalize hp : xs[i].purpose = hold at hlife
  cases hlife with
  | queued r' =>
    -- the head of the queue was accepted first
    have hi : ((adapter.system T F R).view σ₁).clients[i]? = some xs[i] := by
      rw [hclients, List.getElem?_append_left hij, List.getElem?_eq_getElem hij]
    have hj : ((adapter.system T F R).view σ₁).clients[xs.length]? = some ⟨.queued r, wait⟩ := by
      rw [hclients]
      exact getElem?_middle
    have hfirst := (hsound.lined h0 hbefore).head hinv hj rfl hi hp hhead hij.ne
    exact absurd hfirst (Nat.not_lt.mpr hij.le)
  | inflight r' q => exact Or.inl (List.cons_ne_nil _ _)
  | cancelled r' e' => exact Or.inr (List.cons_ne_nil _ _)
  | finished r' q completion t e' => exact Or.inr (List.cons_ne_nil _ _)

end

/-- The first request of two is dispatched, and the second when its timer has fired. -/
def overtakingLabels : List (Rama.Label ℕ) := wakeupLabels ++ [.tick 5000000, .run 1, .run 1, .run 1, .run 1]

theorem no_overtaking_two : ∃ before x σ, (Rama.system ℕ ℚ ℕ).play ((Rama.system ℕ ℚ ℕ).start sample 0) overtakingLabels =
    some (before ++ [x], σ) ∧ x.2.who = some 1 ∧ (∃ e ∈ x.2.entries, e.dispatched?.isSome) ∧
    ((deeds (entriesOf 0 (before.map Prod.snd))).dispatches ≠ [] ∨
      (deeds (entriesOf 0 (before.map Prod.snd))).releases ≠ []) := by
  have hp : ((Rama.system ℕ ℚ ℕ).play ((Rama.system ℕ ℚ ℕ).start sample 0) overtakingLabels).any (fun x =>
      x.1.getLast?.any fun x => decide (x.2.who = some 1) && x.2.entries.any fun e => e.dispatched?.isSome) = true := by
    decide +kernel
  obtain ⟨⟨tr, σ⟩, hr, hres⟩ := (Option.any_eq_true _ _).mp hp
  obtain ⟨x, hlast, hx⟩ := (Option.any_eq_true _ _).mp hres
  obtain ⟨hwho, hany⟩ := Bool.and_eq_true_iff.mp hx
  obtain ⟨e, he, hd⟩ := List.any_eq_true.mp hany
  obtain ⟨before, rfl⟩ := List.getLast?_eq_some_iff.mp hlast
  have hwho : x.2.who = some 1 := of_decide_eq_true hwho
  exact ⟨before, x, σ, hr, hwho, ⟨e, he, hd⟩,
    no_overtaking .rama rfl sample_fresh (System.play_run hr) he hd hwho Nat.zero_lt_one⟩

/-! ## The rate of an adapter -/

section

open scoped NNReal

variable {R : Type} [Rng R ℝ] {c₀ : EndpointController ℝ≥0 ℝ R} {start a b : ℝ≥0} {S : System ℝ≥0 ℝ R}
variable {tr : List (S.Label × Event ℝ≥0 ℝ R)} {σ : S.State} {hist : List (Entry ℝ≥0 ℝ R)}

omit [Rng R ℝ] in
/-- The drains have no instant. -/
theorem calls_filter (c₀ : EndpointController ℝ≥0 ℝ R) (hist : List (Entry ℝ≥0 ℝ R)) :
    dispatchInstants (hist.filter fun e => e.call.now?.isSome) = dispatchInstants hist ∧
      inForce c₀ (hist.filter fun e => e.call.now?.isSome) = inForce c₀ hist := by
  induction hist using List.reverseRecOn with
  | nil => exact ⟨rfl, rfl⟩
  | append_singleton hist e ih =>
    obtain ⟨hinstants, hforce⟩ := ih
    rw [List.filter_append, dispatchInstants_snoc, inForce_snoc, ← hinstants, ← hforce]
    cases hnow : e.call.now? with
    | none =>
      rw [List.filter_cons_of_neg (by rw [hnow]; exact Bool.false_ne_true), List.filter_nil, List.append_nil, ite_self,
        Option.toList_none, List.append_nil]
      refine ⟨rfl, ?_⟩
      unfold Entry.overlay
      rw [hnow]
    | some t =>
      rw [List.filter_cons_of_pos (by rw [hnow]; rfl), List.filter_nil, dispatchInstants_snoc, inForce_snoc, hnow]
      exact ⟨rfl, rfl⟩

/-- **An adapter conforms to its rate.** -/
theorem adapter_conforms (adapter : Adapter) (hS : S = adapter.system ℝ≥0 ℝ R) (h0 : FreshAt c₀ start)
    (h : Run S.Step (S.start c₀ start) tr σ) (ha : start ≤ a) (hab : a ≤ b) :
    ((dispatchInstants (tr.flatMap fun x => x.2.entries)).countP (fun t => a ≤ t ∧ t ≤ b) : ℝ) ≤
      1 + ∫ t in (a : ℝ)..b, 1 / ((inForce c₀ (tr.flatMap fun x => x.2.entries) t.toNNReal : ℝ≥0) : ℝ) := by
  subst hS
  obtain ⟨⟨clock, -, hrun⟩, hentries⟩ := (adapter.sound ℝ≥0 ℝ R).history h0.fresh h
  obtain ⟨hinstants, hforce⟩ := calls_filter c₀ (tr.flatMap fun x => x.2.history)
  rw [hentries] at hinstants hforce
  rw [hinstants, hforce]
  exact run_conforms h0 hrun ha hab

/-- The calls of a first request, which is dispatched at once. -/
theorem exactSample_request : ∃ c₀ c₁ c₂ : EndpointController ℝ≥0 ℝ Unit,
    newWithRng (exactConfigOf 1) 0 () 7 = some c₀ ∧ c₀.refresh 0 = some c₀ ∧
    c₀.reserve 0 = (.ok { controllerId := 7, id := 0 }, c₁) ∧
    perform c₁ (.dispatchState { controllerId := 7, id := 0 } 0) =
      some ⟨.dispatchState { controllerId := 7, id := 0 } 0, .state .ready, c₁, c₁⟩ ∧
    perform c₁ (.onDispatched { controllerId := 7, id := 0 } 0) = some ⟨.onDispatched { controllerId := 7, id := 0 } 0,
      .dispatched (.ok { controllerId := c₁.controllerId, dispatchedAt := 0, wasPaced := false }), c₁, c₂⟩ ∧
    c₁.changes = ControllerChanges.none := by
  obtain ⟨c₀, c₁, hnew, hreserve, hrefresh, hs, htat, hpend, hnext, hinflight, hepoch, hchanges⟩ :=
    exactSample_reserved () nano_le_one one_le_durationMax
  obtain ⟨c, hnew', hs₀, -, hpend₀, -, hinflight₀, hepoch₀⟩ := exactSample_exists () nano_le_one one_le_durationMax
  obtain rfl : c = c₀ := Option.some.inj (hnew'.symm.trans hnew)
  have hrefresh₀ : c.refresh 0 = some c := by
    refine hs₀.refresh nano_le_one one_le_durationMax hinflight₀ hepoch₀ ?_
    rw [hpend₀]
    exact Bool.false_ne_true
  have hheads : c₁.Heads { controllerId := 7, id := 0 } := ⟨hs.controllerId.symm, by rw [hpend]; rfl⟩
  have hroom : c₁.inflight < c₁.config.maxInflight := hs.room (hinflight.trans_le zero_le_one)
  refine ⟨c, c₁, (c₁.dispatchedFrom [] 0).rebuildVirtualQueue 0, hnew, hrefresh₀, hreserve, ?_, ?_, hchanges⟩
  · show ((c₁.dispatchState _ 0).map _).map _ = _
    rw [dispatchState_head hheads hrefresh hpend (.ready hroom (le_refl (0 : ℝ≥0)))]
    rfl
  · show ((c₁.onDispatched _ 0).map _).map _ = _
    rw [onDispatched_ok hheads hrefresh hpend hroom (le_refl (0 : ℝ≥0))]
    rfl

/-- A request of a Rama endpoint that is served and dispatched at once. -/
theorem exactSample_steps : ∃ (c₀ : EndpointController ℝ≥0 ℝ Unit) (served ready begun : Entry ℝ≥0 ℝ Unit)
    (changes : ControllerChanges) (σ₁ σ : Rama.Endpoint ℝ≥0 ℝ Unit) (r : DispatchReservation) (q : InFlightRequest ℝ≥0),
    newWithRng (exactConfigOf 1) 0 () 7 = some c₀ ∧
    (Rama.system ℝ≥0 ℝ Unit).Step ((Rama.system ℝ≥0 ℝ Unit).start c₀ 0) (.serve, ⟨some 0, [served], .none⟩) σ₁ ∧
    σ₁.requests = [⟨.reserved r, .waiting .away⟩] ∧
    Run (Rama.system ℝ≥0 ℝ Unit).Step σ₁ [(.run 0, .silent), (.run 0, ⟨some 0, [ready], changes⟩),
      (.run 0, ⟨some 0, [begun], .none⟩)] σ ∧
    σ.requests = [⟨.dispatched q, .serving⟩] ∧ (∀ e ∈ [served, ready, begun], e.call.release? = none) ∧
    dispatchInstants [served, ready, begun] = [0] := by
  obtain ⟨c₀, c₁, c₂, hnew, -, hreserve, hready, hdispatched, hchanges⟩ := exactSample_request
  let r : DispatchReservation := { controllerId := 7, id := 0 }
  have hdrained : c₁.takeChanges.2 = c₁ := by
    show ({ c₁ with changes := ControllerChanges.none } : EndpointController ℝ≥0 ℝ Unit) = c₁
    rw [← hchanges]
  let served : Entry ℝ≥0 ℝ Unit := ⟨.reserve 0, .reserved (.ok r), c₀, c₁⟩
  let ready : Entry ℝ≥0 ℝ Unit := ⟨.dispatchState r 0, .state .ready, c₁, c₁⟩
  let begun : Entry ℝ≥0 ℝ Unit := ⟨.onDispatched r 0, .dispatched (.ok
    { controllerId := c₁.controllerId, dispatchedAt := 0, wasPaced := false }), c₁, c₂⟩
  let S := Rama.system ℝ≥0 ℝ Unit
  let at₁ (place : Rama.Place ℝ≥0) : Rama.Endpoint ℝ≥0 ℝ Unit := {
    controller := c₁, clock := 0, dispatch := 0, requests := [⟨.reserved r, place⟩] }
  have hserve : S.exec (S.start c₀ 0) .serve = some (⟨some 0, [served], .none⟩, at₁ (.waiting .away)) := by
    show ((some ((c₀.reserve 0).map Reply.reserved id)).map _ >>= _) = _
    rw [hreserve]
    rfl
  have henable : S.exec (at₁ (.waiting .away)) (.run 0) = some (.silent, at₁ (.waiting (.enabled false))) := rfl
  have hcheck : S.exec (at₁ (.waiting (.enabled false))) (.run 0) = some (⟨some 0, [ready], c₁.changes⟩, at₁ .ready) := by
    show (perform c₁ (.dispatchState r 0) >>= _) = _
    rw [hready]
    show some (_, ({ controller := c₁.takeChanges.2, clock := _, dispatch := _, requests := _ } : Rama.Endpoint _ _ _)) = _
    rw [hdrained]
    rfl
  let σ : Rama.Endpoint ℝ≥0 ℝ Unit := {
    controller := begun.after.takeChanges.2, clock := 0, dispatch := 0 + begun.after.changes.dispatch.toNat
    requests := [⟨.dispatched { controllerId := c₁.controllerId, dispatchedAt := 0, wasPaced := false }, .serving⟩] }
  have hbegin : S.exec (at₁ .ready) (.run 0) = some (⟨some 0, [begun], .none⟩, σ) := by
    show ((perform c₁ (.onDispatched r 0) >>= _) >>= _) = _
    rw [hdispatched]
    rfl
  have hrun : Run S.Step (at₁ (.waiting .away)) [(.run 0, .silent), (.run 0, ⟨some 0, [ready], c₁.changes⟩),
      (.run 0, ⟨some 0, [begun], .none⟩)] σ := .cons henable (.cons hcheck (.single hbegin))
  have hcalls : ∀ e ∈ [served, ready, begun], e.call.release? = none := by
    intro e he
    simp only [List.mem_cons, List.not_mem_nil, or_false] at he
    rcases he with rfl | rfl | rfl <;> rfl
  exact ⟨c₀, served, ready, begun, c₁.changes, at₁ (.waiting .away), σ, r, _, hnew, hserve, rfl, hrun, rfl, hcalls, rfl⟩

theorem exactSample_served : ∃ (c₀ : EndpointController ℝ≥0 ℝ Unit)
    (tr : List ((Rama.system ℝ≥0 ℝ Unit).Label × Event ℝ≥0 ℝ Unit)) (σ : (Rama.system ℝ≥0 ℝ Unit).State),
    FreshAt c₀ 0 ∧ Run (Rama.system ℝ≥0 ℝ Unit).Step ((Rama.system ℝ≥0 ℝ Unit).start c₀ 0) tr σ ∧
    dispatchInstants (tr.flatMap fun x => x.2.entries) = [0] := by
  obtain ⟨c₀, served, ready, begun, changes, σ₁, σ, _, _, hnew, hserve, -, hrun, -, -, hinstants⟩ := exactSample_steps
  exact ⟨c₀, _, σ, ⟨exactConfigOf 1, (), 7, hnew⟩, .cons hserve hrun, hinstants⟩

theorem adapter_conforms_one : ∃ (c₀ : EndpointController ℝ≥0 ℝ Unit)
    (tr : List ((Rama.system ℝ≥0 ℝ Unit).Label × Event ℝ≥0 ℝ Unit)) (σ : (Rama.system ℝ≥0 ℝ Unit).State),
    FreshAt c₀ 0 ∧ Run (Rama.system ℝ≥0 ℝ Unit).Step ((Rama.system ℝ≥0 ℝ Unit).start c₀ 0) tr σ ∧
    dispatchInstants (tr.flatMap fun x => x.2.entries) = [0] ∧
    ((dispatchInstants (tr.flatMap fun x => x.2.entries)).countP (fun t => 0 ≤ t ∧ t ≤ 5) : ℝ) ≤
      1 + ∫ t in ((0 : ℝ≥0) : ℝ)..(5 : ℝ≥0),
        1 / ((inForce c₀ (tr.flatMap fun x => x.2.entries) t.toNNReal : ℝ≥0) : ℝ) := by
  obtain ⟨c₀, tr, σ, h0, hrun, hinstants⟩ := exactSample_served
  exact ⟨c₀, tr, σ, h0, hrun, hinstants, adapter_conforms .rama rfl h0 hrun le_rfl zero_le⟩

end

end Loadpace
