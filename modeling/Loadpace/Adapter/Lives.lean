import Loadpace.Adapter.Clients

/-!
# The life of a request

The calls that an adapter makes for one request are its reservation, checks, at most one dispatch, and in the end one
release: a cancellation when the request was not dispatched, and a finish when it was (`Life`). `Clients.Step.lives` says
that every step of the adapter keeps this, whatever the others do.
-/

namespace Loadpace

open Systems EndpointController Notify

section

variable {T F R : Type}

/-- The call releases a reservation or a request. -/
def Entry.isRelease (e : Entry T F R) : Bool :=
  match e.call with
  | .cancel _ _ | .finish _ _ _ | .onComplete _ _ _ _ | .onAbandoned _ _ => true
  | _ => false

/-- The calls that were made for a request. -/
def entriesOf (i : ℕ) (tr : List (Event T F R)) : List (Entry T F R) :=
  tr.flatMap fun ev => if ev.who = some i then ev.entries else []

/-- What the calls for a request were: its reservation, its dispatch, and its releases. -/
structure Deeds (T F R : Type) where
  accepted : List DispatchReservation
  dispatches : List (DispatchReservation × InFlightRequest T)
  releases : List (Entry T F R)

def deeds (es : List (Entry T F R)) : Deeds T F R where
  accepted := es.filterMap Entry.issued?
  dispatches := es.filterMap Entry.dispatched?
  releases := es.filter Entry.isRelease

/-- **What was done for a request**, by what its guard holds. -/
inductive Life : Hold T → Deeds T F R → Prop
  | queued (r : DispatchReservation) : Life (.queued r) ⟨[r], [], []⟩
  | inflight (r : DispatchReservation) (q : InFlightRequest T) : Life (.inflight q) ⟨[r], [(r, q)], []⟩
  /-- It was cancelled, which is neither a completion nor a failure. -/
  | cancelled (r : DispatchReservation) (e : Entry T F R) : e.cancelled? = some r →
      e.after.completed = e.before.completed → e.after.failures = e.before.failures → Life .finished ⟨[r], [], [e]⟩
  | finished (r : DispatchReservation) (q : InFlightRequest T) (completion : Completion) (now : T) (e : Entry T F R) :
      e.call = .finish q completion now → e.reply = .finished true → Life .finished ⟨[r], [(r, q)], [e]⟩

theorem entriesOf_snoc (i : ℕ) (tr : List (Event T F R)) (ev : Event T F R) :
    entriesOf i (tr ++ [ev]) = entriesOf i tr ++ (if ev.who = some i then ev.entries else []) := by
  rw [entriesOf, List.flatMap_append, List.flatMap_singleton]
  rfl

/-- The deeds of more calls. -/
theorem deeds_append (es es' : List (Entry T F R)) : deeds (es ++ es') =
    ⟨(deeds es).accepted ++ (deeds es').accepted, (deeds es).dispatches ++ (deeds es').dispatches,
      (deeds es).releases ++ (deeds es').releases⟩ := by
  simp only [deeds, List.filterMap_append, List.filter_append]

/-- Every request of the system has the life that its guard tells. -/
def Lives (tr : List (Event T F R)) (clients : List (Client T)) : Prop :=
  ∀ i, match clients[i]? with
    | none => entriesOf i tr = []
    | some x => Life x.purpose (deeds (entriesOf i tr))

variable {tr : List (Event T F R)} {ev : Event T F R} {clients clients' xs ys : List (Client T)} {x y : Client T}

theorem getElem?_middle : (xs ++ y :: ys)[xs.length]? = some y := by
  rw [List.getElem?_append_right (Nat.le_refl _), Nat.sub_self, List.getElem?_cons_zero]

theorem getElem?_replace (i : ℕ) : (xs ++ y :: ys)[i]? = if i = xs.length then some y else (xs ++ x :: ys)[i]? := by
  rcases Nat.lt_trichotomy i xs.length with h | rfl | h
  · rw [if_neg (Nat.ne_of_lt h), List.getElem?_append_left h, List.getElem?_append_left h]
  · rw [if_pos rfl, getElem?_middle]
  · obtain ⟨k, rfl⟩ : ∃ k, i = xs.length + (k + 1) := ⟨i - xs.length - 1, by omega⟩
    rw [if_neg (by omega), List.getElem?_append_right (by omega), List.getElem?_append_right (by omega),
      Nat.add_sub_cancel_left, List.getElem?_cons_succ, List.getElem?_cons_succ]

/-- A step about no request, after which every guard holds what it did. -/
theorem Lives.silent (h : Lives tr clients) (hwho : ev.who = none)
    (hsame : clients'.map Waiter.purpose = clients.map Waiter.purpose) : Lives (tr ++ [ev]) clients' := by
  intro i
  have hentries : entriesOf i (tr ++ [ev]) = entriesOf i tr := by
    rw [entriesOf_snoc, hwho]
    exact List.append_nil _
  have hi : clients'[i]?.map Waiter.purpose = clients[i]?.map Waiter.purpose := by
    rw [← List.getElem?_map, ← List.getElem?_map, hsame]
  have hold := h i
  rw [hentries]
  cases hc : clients[i]? with
  | none =>
    rw [hc] at hi hold
    rw [Option.map_eq_none_iff.mp hi]
    exact hold
  | some x =>
    rw [hc] at hi hold
    obtain ⟨y, hy, hpurpose⟩ := Option.map_eq_some_iff.mp hi
    rw [hy]
    show Life y.purpose _
    rw [hpurpose]
    exact hold

/-- A step about one request. -/
theorem Lives.replace (h : Lives tr (xs ++ x :: ys)) (hwho : ev.who = some xs.length)
    (hlife : ∀ d : Deeds T F R, Life x.purpose d → Life y.purpose ⟨d.accepted ++ (deeds ev.entries).accepted,
      d.dispatches ++ (deeds ev.entries).dispatches, d.releases ++ (deeds ev.entries).releases⟩) :
    Lives (tr ++ [ev]) (xs ++ y :: ys) := by
  intro i
  have hold := h i
  rw [entriesOf_snoc, hwho]
  by_cases hi : i = xs.length
  · subst hi
    rw [getElem?_middle] at hold ⊢
    rw [if_pos rfl, deeds_append]
    exact hlife _ hold
  · have hne : ¬some xs.length = some i := fun h => hi (Option.some.inj h).symm
    rw [getElem?_replace (x := x) i, if_neg hi, if_neg hne, List.append_nil]
    exact hold

/-- A step about a new request. -/
theorem Lives.join (h : Lives tr clients) (hwho : ev.who = some clients.length)
    (hlife : Life y.purpose (deeds ev.entries)) : Lives (tr ++ [ev]) (clients ++ [y]) := by
  intro i
  have hold := h i
  rw [entriesOf_snoc, hwho]
  rcases Nat.lt_trichotomy i clients.length with hi | rfl | hi
  · have hne : ¬some clients.length = some i := fun h => Nat.ne_of_gt hi (Option.some.inj h)
    rw [List.getElem?_append_left hi, if_neg hne, List.append_nil]
    exact hold
  · rw [List.getElem?_eq_none (Nat.le_refl _)] at hold
    rw [List.getElem?_append_right (Nat.le_refl _), Nat.sub_self, if_pos rfl, hold]
    exact hlife
  · have hne : ¬some clients.length = some i := fun h => Nat.ne_of_lt hi (Option.some.inj h)
    have hnone : (clients ++ [y])[i]? = none := List.getElem?_eq_none (by rw [List.length_append]; exact hi)
    rw [List.getElem?_eq_none (Nat.le_of_lt hi)] at hold
    rw [hnone, if_neg hne, List.append_nil]
    exact hold

/-- An inert call does nothing for a request. -/
theorem deeds_inert {es : List (Entry T F R)} (h : ∀ e ∈ es, e.Inert) : deeds es = ⟨[], [], []⟩ := by
  have hnone : ∀ e ∈ es, e.issued? = none ∧ e.dispatched? = none ∧ e.isRelease = false := by
    intro e he
    unfold Entry.issued? Entry.dispatched? Entry.isRelease
    cases h e he with
    | read hr => cases hc : e.call <;> rw [hc] at hr <;> first | exact hr.elim | exact ⟨rfl, rfl, rfl⟩
    | admissionFailure hc => rw [hc]; exact ⟨rfl, rfl, rfl⟩
    | refused hc hr => rw [hc, hr]; exact ⟨rfl, rfl, rfl⟩
  unfold deeds
  rw [List.filterMap_eq_nil_iff.mpr fun e he => (hnone e he).1, List.filterMap_eq_nil_iff.mpr fun e he => (hnone e he).2.1,
    List.filter_eq_nil_iff.mpr fun e he => by rw [(hnone e he).2.2]; exact Bool.false_ne_true]

theorem deeds_single (e : Entry T F R) : deeds [e] =
    ⟨e.issued?.toList, e.dispatched?.toList, if e.isRelease then [e] else []⟩ := by
  unfold deeds
  rw [List.filter_cons, List.filter_nil]
  cases hi : e.issued? <;> cases hd : e.dispatched? <;> simp [hi, hd]

/-- A check that dispatches nothing does nothing for its request. -/
theorem deeds_check {e : Entry T F R} {r : DispatchReservation} {now : T} {state : DispatchState T}
    (hc : e.call.check? = some (r, now)) (hs : e.reply.state? = some state) : deeds [e] = ⟨[], [], []⟩ := by
  have hd : e.dispatched? = none := dispatchedOf_state _ hs
  rw [deeds_single, hd]
  unfold Entry.issued? Entry.isRelease
  cases hcall : e.call with
  | dispatchState _ _ => rfl
  | onDispatched _ _ => rfl
  | _ => rw [hcall] at hc; cases hc

end

section

variable {T F R : Type} [AddCommMonoid T] [LinearOrder T] [Sub T] [Time T] [F64 F] [Secs T F] [Rng R F]
variable {s s' : Clients T F R} {ev : Event T F R} {tr : List (Event T F R)}

/-- A step about no request does nothing for any. -/
theorem Clients.Step.idle (h : Clients.Step s ev s') (hwho : ev.who = none) : deeds ev.entries = ⟨[], [], []⟩ := by
  cases h with
  | read _ hes _ _ _ => exact deeds_inert hes
  | stay => rfl
  | tick _ => rfl
  | broadcast _ => rfl
  | move _ _ => rfl
  | _ => cases hwho

/-- **One step keeps every life.** -/
theorem Clients.Step.lives (h : Clients.Step s ev s') (hi : s.Inv) (hl : Lives tr s.clients) :
    Lives (tr ++ [ev]) s'.clients := by
  cases h with
  | stay => exact hl.silent rfl rfl
  | tick _ => exact hl.silent rfl rfl
  | broadcast _ => exact hl.silent rfl (by rw [List.map_map]; rfl)
  | @move xs ys x wait hx _ =>
    refine hl.silent rfl ?_
    rw [hx, List.map_append, List.map_append, List.map_cons, List.map_cons]
  | read _ _ _ _ _ => exact hl.silent rfl rfl
  | @accept es e m m' owed r _ hes he _ hr _ =>
    refine hl.join rfl ?_
    have hd : e.dispatched? = none ∧ e.isRelease = false := by
      unfold Entry.issued? at hr
      split at hr
      · rename_i hc _
        unfold Entry.dispatched? Entry.isRelease
        rw [hc]
        exact ⟨rfl, rfl⟩
      · cases hr
    rw [deeds_append, deeds_inert hes, deeds_single, hr, hd.1, hd.2]
    exact .queued r
  | @check xs ys r notified e m state hx he hc hs =>
    rw [hx] at hl
    refine hl.replace rfl fun d hd => ?_
    rw [deeds_check hc hs, List.append_nil, List.append_nil, List.append_nil]
    exact hd
  | @retry xs ys r wait e m state owed hx he hc hs _ =>
    rw [hx] at hl
    refine hl.replace rfl fun d hd => ?_
    rw [deeds_check hc hs, List.append_nil, List.append_nil, List.append_nil]
    exact hd
  | @dispatch xs ys r wait e m q owed hx he _ hd _ =>
    rw [hx] at hl
    refine hl.replace rfl fun d hlife => ?_
    have hn : e.issued? = none ∧ e.isRelease = false := by
      have hd : dispatchedOf e.call e.reply = some (r, q) := hd
      unfold dispatchedOf at hd
      split at hd
      · rename_i hc _
        unfold Entry.issued? Entry.isRelease
        rw [hc]
        exact ⟨rfl, rfl⟩
      · cases hd
    rw [deeds_single, hn.1, hn.2, hd]
    cases hlife with
    | queued => exact .inflight r q
  | @release xs ys x completion e m owed hx he hrel _ =>
    have hmem : x ∈ s.clients := hx ▸ List.mem_append_right _ List.mem_cons_self
    have hown := hi.own x hmem
    have hbefore := he.1
    have hafter := he.2.1
    rw [hx] at hl
    refine hl.replace rfl fun d hlife => ?_
    cases hp : x.purpose with
    | queued r =>
      have hcall : e.call = .cancel r s.clock := by rw [hp] at hrel; exact (Option.some.inj hrel).symm
      obtain ⟨hcancelled, -, -, hcompleted, hfailures⟩ := he.cancelled hcall (hi.holds hmem hp)
      have hn : e.issued? = none ∧ e.dispatched? = none ∧ e.isRelease = true := by
        unfold Entry.issued? Entry.dispatched? Entry.isRelease
        rw [hcall]
        exact ⟨rfl, rfl, rfl⟩
      rw [hp] at hlife
      rw [deeds_single, hn.1, hn.2.1, hn.2.2]
      cases hlife with
      | queued => exact .cancelled r e hcancelled (by rw [hbefore, hafter, hcompleted]) (by rw [hbefore, hafter, hfailures])
    | inflight q =>
      have hcall : e.call = .finish q completion s.clock := by rw [hp] at hrel; exact (Option.some.inj hrel).symm
      rw [hp] at hown hlife
      obtain ⟨hreply, -, -⟩ := he.finished hcall hown
      have hn : e.issued? = none ∧ e.dispatched? = none ∧ e.isRelease = true := by
        unfold Entry.issued? Entry.dispatched? Entry.isRelease
        rw [hcall]
        exact ⟨rfl, rfl, rfl⟩
      rw [deeds_single, hn.1, hn.2.1, hn.2.2]
      cases hlife with
      | inflight r => exact .finished r q completion s.clock e hcall hreply
    | finished =>
      rw [hp] at hrel
      cases hrel

end

end Loadpace
