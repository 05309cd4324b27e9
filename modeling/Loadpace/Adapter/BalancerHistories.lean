import Loadpace.Adapter.Histories
import Loadpace.Adapter.Selection

/-!
# Histories of the DNS balancer (`loadpace-rama/src/dns.rs`)

* `selection_retries_bounded`: a call goes around its loop only for a snapshot that a refresh of its entry has published
  meanwhile, so it goes around at most once for each. A selection is `Behind` when what it has loaded or chosen is no longer
  published; only such a refresh puts it behind, and going around the loop is the end of that.
* `balancer_conforms`: each endpoint state has lived one run of the adapter, in which what it dispatched is what the guards of
  the calls dispatched, and its interval at each instant the one of its controller in the run of the balancer (`run_lived`,
  `Paced`). So its dispatches conform to its rate, whatever the calls and the refreshes do.
-/

namespace Loadpace.Rama

open EndpointController Systems

namespace BalancerLabel

variable {T F R S : Type}

/-- The call cancels its reservation, and goes around the loop. -/
def retries (k : ℕ) : BalancerLabel T F R S → Bool
  | .task j .cancel => j = k
  | _ => false

end BalancerLabel

namespace Report

variable {T F R : Type}

/-- The calls of a step on one endpoint. -/
def callsAt (x : ℕ) (report : Report T F R) : List (Entry T F R) :=
  report.calls.filterMap fun c => if c.1 = x then some c.2 else none

theorem callsAt_silent (x : ℕ) : (Report.silent : Report T F R).callsAt x = [] := rfl

theorem callsAt_same (x : ℕ) (es : List (Entry T F R)) :
    (⟨none, es.map fun e => (x, e)⟩ : Report T F R).callsAt x = es := by
  unfold callsAt
  rw [List.filterMap_map]
  simp only [Function.comp_def, if_true]
  exact List.filterMap_some

theorem callsAt_other {x y : ℕ} (h : x ≠ y) (es : List (Entry T F R)) :
    (⟨none, es.map fun e => (x, e)⟩ : Report T F R).callsAt y = [] := by
  unfold callsAt
  rw [List.filterMap_map, List.filterMap_eq_nil_iff]
  intro e _
  exact if_neg h

end Report

namespace Balancer

/-! ## Going around the loop -/

section

variable {T F R S : Type} {s s' : Balancer T F R} {k e : ℕ} {p : Serve}

/-- The step publishes the snapshot of a refresh of the entry. -/
def refreshes (s : Balancer T F R) (e : ℕ) : BalancerLabel T F R S → Bool
  | .cache (.task i .store) => s.cache.refreshes i = some e
  | _ => false

/-- What a selection goes by is not what its entry publishes. -/
def Outdated (s : Balancer T F R) : Serve → Prop
  | .loaded e endpoints => ∀ snapshot, s.cache.current e = some snapshot → snapshot.endpoints ≠ endpoints
  | .selected x => ¬s.Publishes x.entry x.endpoint.state
  | .superseded _ => True
  | _ => False

/-- The call is in such a selection from the entry. -/
def Behind (s : Balancer T F R) (k e : ℕ) : Prop := ∃ p, s.serves[k]? = some p ∧ p.entry? = some e ∧ s.Outdated p

/-- The call selects from the entry, or has been refused. -/
def SelectsFrom (s : Balancer T F R) (k e : ℕ) : Prop :=
  ∃ p, s.serves[k]? = some p ∧ (p.entry? = some e ∨ p = .rejected)

/-- The entry publishes the same snapshot, or there was no such entry. -/
def SamePublished (s s' : Balancer T F R) (e : ℕ) : Prop :=
  s'.cache.current e = s.cache.current e ∨ s.cache.current e = none

theorem publishes_current {x : ℕ} (h : s.Publishes e x) :
    ∃ snapshot, s.cache.current e = some snapshot ∧ ∃ a ∈ snapshot.endpoints, a.state = x := by
  obtain ⟨entry, he, ha⟩ := h
  exact ⟨entry.current, by rw [Dns.State.current, he]; rfl, ha⟩

theorem publishes_of_current {x : ℕ} {snapshot : Dns.ResolvedSnapshot T} (h : s.cache.current e = some snapshot)
    (ha : ∃ a ∈ snapshot.endpoints, a.state = x) : s.Publishes e x := by
  obtain ⟨entry, he, rfl⟩ := Option.map_eq_some_iff.mp h
  exact ⟨entry, he, ha⟩

theorem SamePublished.outdated (h : SamePublished s s' e) (he : p.entry? = some e) (hp : s'.Outdated p) : s.Outdated p := by
  have hcurrent {snapshot : Dns.ResolvedSnapshot T} (hs : s.cache.current e = some snapshot) :
      s'.cache.current e = some snapshot := by
    rcases h with hsame | hnone
    · exact hsame.trans hs
    · cases hnone.symm.trans hs
  cases p with
  | loaded e endpoints =>
    cases he
    exact fun snapshot hs => hp snapshot (hcurrent hs)
  | selected x =>
    cases he
    intro hpub
    obtain ⟨snapshot, hs, ha⟩ := publishes_current hpub
    exact hp (publishes_of_current (hcurrent hs) ha)
  | superseded _ => trivial
  | _ => cases hp

theorem SamePublished.behind (h : SamePublished s s' e) (hserves : s'.serves = s.serves) (hb : s'.Behind k e) :
    s.Behind k e := by
  obtain ⟨p, hp, he, hout⟩ := hb
  exact ⟨p, hserves ▸ hp, he, h.outdated he hout⟩

/-- A call that moves is behind only if its new place is. -/
theorem behind_goto {j : ℕ} {p' : Serve} (hj : s.serves[j]? = some p)
    (hout : p'.entry? = some e → s.Outdated p' → p.entry? = some e ∧ s.Outdated p)
    (hb : (s.goto j p').Behind k e) : s.Behind k e := by
  obtain ⟨q, hq, he, hqout⟩ := hb
  have hqout : s.Outdated q := hqout
  by_cases hjk : j = k
  · subst hjk
    obtain ⟨hlt, -⟩ := List.getElem?_eq_some_iff.mp hj
    cases (List.getElem?_set_self hlt).symm.trans hq
    exact ⟨p, hj, hout he hqout⟩
  · exact ⟨q, (List.getElem?_set_ne hjk).symm.trans hq, he, hqout⟩

theorem SelectsFrom.congr (hk : s.SelectsFrom k e) (hserves : s'.serves = s.serves) : s'.SelectsFrom k e := by
  obtain ⟨p, hp, hfrom⟩ := hk
  exact ⟨p, hserves ▸ hp, hfrom⟩

/-- A call that moves selects from the same entry. -/
theorem selectsFrom_goto {j : ℕ} {p' : Serve} (hj : s.serves[j]? = some p)
    (hp' : p.entry? = some e ∨ p = .rejected → p'.entry? = some e ∨ p' = .rejected) (hk : s.SelectsFrom k e) :
    (s.goto j p').SelectsFrom k e := by
  obtain ⟨q, hq, hfrom⟩ := hk
  by_cases hjk : j = k
  · subst hjk
    obtain ⟨hlt, -⟩ := List.getElem?_eq_some_iff.mp hj
    cases hj.symm.trans hq
    exact ⟨p', List.getElem?_set_self hlt, hp' hfrom⟩
  · exact ⟨q, (List.getElem?_set_ne hjk).trans hq, hfrom⟩

variable [AddCommMonoid T] [LinearOrder T] [Sub T] [Time T] [F64 F] [Secs T F] [Rng R F]
variable {d : Dns.DnsCache T S (Endpoint T F R)} {l : BalancerLabel T F R S} {report : Report T F R}

omit [AddCommMonoid T] [Time T] [F64 F] [Secs T F] [Rng R F] in
/-- Only a refresh replaces what the entry publishes. -/
theorem cache_published {label : Dns.Label T S (Endpoint T F R)} {cache : Dns.State T (Endpoint T F R)} {serves : List Serve}
    (h : Dns.Move d s.cache label cache) (hl : s.refreshes (R := R) (F := F) e (.cache label) = false) :
    SamePublished s { cache, serves } e := by
  rcases h.current e with hsame | ⟨i, goal, previous, snapshot, rfl, hi, -, ⟨-, hnone⟩ | rfl⟩
  · exact Or.inl hsame
  · exact Or.inr hnone
  · have hrefreshes : s.cache.refreshes i = some e := by
      rw [Dns.State.refreshes, hi]
      rfl
    exact absurd hrefreshes (of_decide_eq_false hl)

/-- The choice is of an endpoint of the snapshot. -/
theorem reserve_mem {endpoints : List Dns.Endpoint} {i j : ℕ} {a : Dns.Endpoint} {r : DispatchReservation}
    {states : List (Endpoint T F R)} (h : s.reserve endpoints i j = some (.ok (a, r), states)) : a ∈ endpoints := by
  simp only [reserve, Option.bind_eq_bind, Option.bind_eq_some_iff] at h
  obtain ⟨fallback, -, ⟨result, f⟩, hr, h⟩ := h
  obtain ⟨rfl, -⟩ := Prod.mk.inj (Option.some.inj h)
  unfold reserveP2c at hr
  split at hr
  · simp only [Option.bind_eq_bind, Option.bind_eq_some_iff] at hr
    obtain ⟨m, -, hr⟩ := hr
    obtain ⟨hresult, -⟩ := Prod.mk.inj (Option.some.inj hr)
    cases hres : (m.reserve s.cache.clock).1 with
    | error _ =>
      rw [hres] at hresult
      cases hresult
    | ok _ =>
      rw [hres] at hresult
      cases hresult
      exact List.mem_singleton.mpr rfl
  · simp only [Option.bind_eq_bind, Option.bind_eq_some_iff] at hr
    obtain ⟨-, -, first, hfirst, second, hsecond, ⟨result, m, n⟩, -, hr⟩ := hr
    obtain ⟨hresult, -⟩ := Prod.mk.inj (Option.some.inj hr)
    cases result with
    | error _ => cases hresult
    | ok x =>
      obtain ⟨choice, reservation⟩ := x
      cases hresult
      cases choice with
      | first => exact List.mem_of_getElem? hfirst
      | second => exact List.mem_of_getElem? hsecond

theorem operate_published {x : ℕ} {label : Label T} (h : s.operate x label = some (report, s')) :
    s'.serves = s.serves ∧ ∀ e, SamePublished s s' e := by
  simp only [operate, Option.bind_eq_bind, Option.bind_eq_some_iff] at h
  obtain ⟨_, -, _, -, h⟩ := h
  cases h
  exact ⟨rfl, fun _ => Or.inl rfl⟩

/-- **One step**: only a refresh of its entry puts a call behind. -/
theorem Move.behind (h : Move d s l report s') (hl : s.refreshes e l = false) (hb : s'.Behind k e) : s.Behind k e := by
  cases h with
  | cache _ hm => exact (cache_published hm hl).behind rfl hb
  | @serve cache hm =>
    obtain ⟨p, hp, he, hout⟩ := hb
    rcases Nat.lt_or_ge k s.serves.length with hlt | hge
    · exact ⟨p, (List.getElem?_append_left hlt).symm.trans hp, he, (cache_published hm rfl).outdated he hout⟩
    · -- the new call is in its lookup
      have hp := (List.getElem?_append_right hge).symm.trans hp
      rw [List.mem_singleton.mp (List.mem_of_getElem? hp)] at hout
      cases hout
  | @goto j action p p' hj hg =>
    refine behind_goto hj (fun he hout => ?_) hb
    cases hg with
    | @load e' entry hentry =>
      have hcurrent : s.cache.current e' = some entry.current := by
        rw [Dns.State.current, hentry]
        rfl
      exact absurd rfl (hout _ hcurrent)
    | supersede hnot => exact ⟨he, hnot⟩
    | _ => cases hout
  | @reserve j i i' e' endpoints a r states state hj hr _ =>
    have hb : (s.goto j (.selected ⟨e', a, r, state.requests.length⟩)).Behind k e :=
      SamePublished.behind (Or.inl rfl) rfl hb
    refine behind_goto hj (fun he hout => ?_) hb
    refine ⟨he, fun snapshot hs heq => hout ?_⟩
    exact publishes_of_current hs ⟨a, by rw [heq]; exact reserve_mem hr, rfl⟩
  | @reject j i i' e' endpoints error states hj hr =>
    have hb : (s.goto j .rejected).Behind k e := SamePublished.behind (Or.inl rfl) rfl hb
    exact behind_goto hj (fun _ hout => by cases hout) hb
  | @cancel j x report s₁ hj ho =>
    obtain ⟨hserves, hsame⟩ := operate_published ho
    have hb : (s.goto j (.selecting x.entry)).Behind k e := by
      have hsame : SamePublished (s.goto j (.selecting x.entry)) (s₁.goto j (.selecting x.entry)) e := hsame e
      refine hsame.behind ?_ hb
      show s₁.serves.set j _ = s.serves.set j _
      rw [hserves]
    exact behind_goto hj (fun _ hout => by cases hout) hb
  | guard _ _ ho =>
    obtain ⟨hserves, hsame⟩ := operate_published ho
    exact (hsame e).behind hserves hb
  | snapshot ho =>
    obtain ⟨hserves, hsame⟩ := operate_published ho
    exact (hsame e).behind hserves hb
  | notifyDispatch ho =>
    obtain ⟨hserves, hsame⟩ := operate_published ho
    exact (hsame e).behind hserves hb

/-- A call keeps to the entry that its lookup has found. -/
theorem Move.selectsFrom (h : Move d s l report s') (hk : s.SelectsFrom k e) : s'.SelectsFrom k e := by
  cases h with
  | cache _ _ => exact hk
  | serve _ =>
    obtain ⟨p, hp, hfrom⟩ := hk
    obtain ⟨hlt, -⟩ := List.getElem?_eq_some_iff.mp hp
    exact ⟨p, (List.getElem?_append_left hlt).trans hp, hfrom⟩
  | goto hj hg =>
    refine selectsFrom_goto hj (fun hfrom => ?_) hk
    cases hg with
    | load _ => exact hfrom.imp_right fun h => by cases h
    | keep _ => exact hfrom.imp_right fun h => by cases h
    | supersede _ => exact hfrom.imp_right fun h => by cases h
    | _ => rcases hfrom with h | h <;> cases h
  | reserve hj _ _ => exact selectsFrom_goto hj (fun hfrom => hfrom.imp_right fun h => by cases h) hk
  | reject hj _ => exact selectsFrom_goto hj (fun _ => Or.inr rfl) hk
  | @cancel j x report s₁ hj ho =>
    obtain ⟨hserves, -⟩ := operate_published ho
    have hk : (s.goto j (.selecting x.entry)).SelectsFrom k e :=
      selectsFrom_goto hj (fun hfrom => hfrom.imp_right fun h => by cases h) hk
    refine hk.congr ?_
    show s₁.serves.set j _ = s.serves.set j _
    rw [hserves]
  | guard _ _ ho => exact hk.congr (operate_published ho).1
  | snapshot ho => exact hk.congr (operate_published ho).1
  | notifyDispatch ho => exact hk.congr (operate_published ho).1

/-- A call that goes around the loop was behind, and is no longer. -/
theorem Move.retries (h : Move d s l report s') (hk : s.SelectsFrom k e) (hl : l.retries k = true) :
    s.Behind k e ∧ ¬s'.Behind k e := by
  unfold BalancerLabel.retries at hl
  split at hl
  · rename_i j
    obtain rfl := of_decide_eq_true hl
    cases h with
    | goto _ hg => cases hg
    | guard _ hlabel _ => cases hlabel
    | @cancel _ x _ s₁ hj ho =>
      obtain ⟨hserves, -⟩ := operate_published ho
      obtain ⟨hlt, -⟩ := List.getElem?_eq_some_iff.mp hj
      obtain ⟨p, hp, hfrom⟩ := hk
      cases hj.symm.trans hp
      refine ⟨⟨_, hj, hfrom.resolve_right (by intro h; cases h), trivial⟩, ?_⟩
      rintro ⟨p, hp, -, hout⟩
      have hp : (s₁.serves.set j (.selecting x.entry))[j]? = some p := hp
      rw [hserves, List.getElem?_set_self hlt] at hp
      cases hp
      cases hout
  · cases hl

variable {tr : List (Balancer T F R × BalancerLabel T F R S × Report T F R)}

/-- **A call that is not behind goes around its loop at most once for each snapshot that a refresh of its entry publishes
meanwhile.** -/
theorem run_retries {step : Balancer T F R → BalancerLabel T F R S × Report T F R → Balancer T F R → Prop}
    (hstep : ∀ s x s', step s x s' → Move d s x.1 x.2 s') (h : Run (stampedStep step) s tr s') (hk : s.SelectsFrom k e)
    (h0 : ¬s.Behind k e) :
    s'.SelectsFrom k e ∧ tr.countP (fun x => x.2.1.retries k) ≤ tr.countP (fun x => x.1.refreshes e x.2.1) ∧
      (s'.Behind k e → tr.countP (fun x => x.2.1.retries k) + 1 ≤ tr.countP (fun x => x.1.refreshes e x.2.1)) := by
  induction h with
  | nil => exact ⟨hk, le_rfl, fun hb => absurd hb h0⟩
  | @snoc tr m x s' _ he ih =>
    obtain ⟨hfrom, hle, hbehind⟩ := ih
    obtain ⟨before, l⟩ := x
    obtain ⟨rfl, he⟩ := he
    have hmove := hstep _ _ _ he
    refine ⟨hmove.selectsFrom hfrom, ?_⟩
    rw [List.countP_append, List.countP_append, List.countP_singleton, List.countP_singleton]
    cases hr : l.1.retries k with
    | true =>
      obtain ⟨hbefore, hafter⟩ := hmove.retries hfrom hr
      have hroom := hbehind hbefore
      rw [if_pos rfl]
      exact ⟨hroom.trans (Nat.le_add_right _ _), fun hb => absurd hb hafter⟩
    | false =>
      rw [if_neg Bool.false_ne_true, Nat.add_zero]
      cases hp : before.refreshes e l.1 with
      | true =>
        rw [if_pos rfl]
        exact ⟨hle.trans (Nat.le_add_right _ _), fun _ => Nat.succ_le_succ hle⟩
      | false =>
        rw [if_neg Bool.false_ne_true, Nat.add_zero]
        exact ⟨hle, fun hb => hbehind (hmove.behind hp hb)⟩

end

section

variable {T F R : Type} [AddCommMonoid T] [LinearOrder T] [Sub T] [Time T] [F64 F] [Secs T F] [Rng R F]
variable {d : Dns.DnsCache T (R × ℕ) (Endpoint T F R)} {s s' : Balancer T F R} {k e : ℕ}
variable {tr : List (Balancer T F R × BalancerLabel T F R (R × ℕ) × Report T F R)}

/-- **A call goes around its loop at most once for each snapshot that a refresh of its entry publishes meanwhile**, from any
time at which it is at the top of the loop. -/
theorem selection_retries_bounded (h : Run (stampedStep (Step d)) s tr s') (hp : s.serves[k]? = some (.selecting e)) :
    tr.countP (fun x => x.2.1.retries k) ≤ tr.countP fun x => x.1.refreshes e x.2.1 := by
  refine (run_retries (fun _ _ _ => exec_move) h ⟨_, hp, Or.inl rfl⟩ ?_).2.1
  rintro ⟨p, hp', -, hout⟩
  cases hp.symm.trans hp'
  cases hout

end

/-- The run of `superseding`: the call goes around once, for the snapshot of the refresh. -/
theorem selection_retries_bounded_superseding : ∃ s tr s', Run (stampedStep (Step sampleDns)) s tr s' ∧
    s.serves = [.selecting 0] ∧ tr.countP (fun x => x.2.1.retries 0) = 1 ∧
    tr.countP (fun x => x.2.1.retries 0) ≤ tr.countP fun x => x.1.refreshes 0 x.2.1 := by
  have hp : (play sampleDns (empty 0) (superseding.take 9)).any (fun x => decide (x.2.serves = [.selecting 0]) &&
      (play sampleDns x.2 (superseding.drop 9)).any fun y => y.1.countP (fun x => x.1.retries 0) = 1) = true := by
    decide +kernel
  obtain ⟨⟨before, s⟩, -, hrest⟩ := (Option.any_eq_true _ _).mp hp
  obtain ⟨hserves, hrest⟩ := Bool.and_eq_true_iff.mp hrest
  obtain ⟨⟨tr, s'⟩, hplay, hone⟩ := (Option.any_eq_true _ _).mp hrest
  have hserves : s.serves = [.selecting 0] := of_decide_eq_true hserves
  have hone : tr.countP (fun x => x.1.retries 0) = 1 := of_decide_eq_true hone
  obtain ⟨stamped, rfl, hrun⟩ := (play_run hplay).stamped
  rw [List.countP_map] at hone
  exact ⟨s, stamped, s', hrun, hserves, hone, selection_retries_bounded hrun (by rw [hserves]; rfl)⟩

/-! ## The life of an endpoint -/

section

variable {T F R : Type}

/-- Those calls that dispatched a request. -/
def dispatching (es : List (Entry T F R)) : List (Entry T F R) := es.filter fun e => e.dispatched?.isSome

/-- The calls on one endpoint, but for those of the selections. -/
def callsAt {S : Type} (x : ℕ) (tr : List (BalancerLabel T F R S × Report T F R)) : List (Entry T F R) :=
  tr.flatMap fun y => y.2.callsAt x

theorem dispatching_append (es es' : List (Entry T F R)) : dispatching (es ++ es') = dispatching es ++ dispatching es' :=
  List.filter_append ..

/-- They are all that is needed to know when requests were dispatched. -/
theorem dispatching_instants (es : List (Entry T F R)) : dispatchInstants (dispatching es) = dispatchInstants es := by
  unfold dispatchInstants dispatching
  rw [List.filterMap_filter]
  refine congrArg (fun f => es.filterMap f) (funext fun e => ?_)
  split
  · rfl
  · rfl

theorem callsAt_snoc {S : Type} (x : ℕ) (tr : List (BalancerLabel T F R S × Report T F R)) (l : BalancerLabel T F R S)
    (report : Report T F R) : callsAt x (tr ++ [(l, report)]) = callsAt x tr ++ report.callsAt x := by
  rw [callsAt, List.flatMap_append, List.flatMap_singleton]
  rfl

/-- The drains dispatch nothing. -/
theorem dispatching_history {L : Type} (tr : List (L × Event T F R)) :
    dispatching (tr.flatMap fun y => y.2.history) = dispatching (tr.flatMap fun y => y.2.entries) := by
  unfold dispatching
  rw [List.filter_flatMap, List.filter_flatMap]
  refine congrArg (fun f => tr.flatMap f) (funext fun y => ?_)
  rcases y.2.history_eq with ⟨hentries, hhistory⟩ | ⟨es, e, hentries, hhistory⟩
  · rw [hentries, hhistory]
  · have hsplit : es ++ [e, e.after.drained] = es ++ [e] ++ [e.after.drained] := (List.append_assoc es [e] _).symm
    rw [hentries, hhistory, hsplit, List.filter_append (es ++ [e])]
    exact List.append_nil _

variable [AddCommMonoid T] [LinearOrder T] [Sub T] [Time T] [F64 F] [Secs T F] [Rng R F]

/-- A run of the adapter takes the endpoint from one to the other, with the dispatches of the calls, all at one instant. -/
def Advances (s : Endpoint T F R) (calls : List (Entry T F R)) (s' : Endpoint T F R) : Prop :=
  s.clock ≤ s'.clock ∧ ∃ tr, Run (system T F R).Step s tr s' ∧
    dispatching (tr.flatMap fun y => y.2.entries) = dispatching calls ∧
      ∀ y ∈ tr, ∀ e ∈ y.2.entries, e.call.now? = some s'.clock

variable {s s' : Endpoint T F R} {calls : List (Entry T F R)} {l : Label T} {ev : Event T F R} {now : T}

theorem Advances.refl (s : Endpoint T F R) : Advances s [] s :=
  ⟨le_rfl, [], .nil, rfl, fun y hy => by cases hy⟩

/-- A step advances its endpoint. -/
theorem advances_exec (hreached : Reached s) (h : s.exec l = some (ev, s')) : Advances s ev.entries s' := by
  have hstep : (system T F R).Step s (l, ev) s' := h
  have hturn := ((Endpoint.exec_move h).clients hreached.inv).turn
  refine ⟨?_, [(l, ev)], .single hstep, ?_, fun y hy => ?_⟩
  · rcases hturn with ⟨-, -, hle⟩ | ⟨hclock, -⟩
    · exact hle
    · exact hclock.ge
  · rw [List.flatMap_singleton]
  · rw [List.mem_singleton.mp hy]
    rcases hturn with ⟨hnone, -, -⟩ | ⟨hclock, m, hl, -⟩
    · intro e he
      cases hnone ▸ he
    · intro e he
      exact (hl.instant e he).trans (congrArg some hclock.symm)

theorem Advances.at (hle : s.clock ≤ now) : Advances s [] (s.at now) := by
  have hstep : (system T F R).Step s (.tick now, .silent) (s.at now) := if_pos hle
  refine ⟨hle, [(.tick now, .silent)], .single hstep, rfl, fun y hy e he => ?_⟩
  rw [List.mem_singleton.mp hy] at he
  cases he

/-- `reserve_p2c` dispatches nothing. -/
theorem serves_dispatching (hl : l.Reserves) (he : s.exec l = some (ev, s')) : dispatching ev.entries = [] := by
  have hread {e : Entry T F R} (hr : e.call.IsRead) : e.dispatched? = none := by
    unfold Entry.dispatched? dispatchedOf
    split
    · rename_i hcall _
      rw [hcall] at hr
      cases hr
    · rfl
  have hreserve {e : Entry T F R} (hr : e.call = .reserve s.clock) : e.dispatched? = none := by
    unfold Entry.dispatched? dispatchedOf
    split
    · rename_i hcall _
      rw [hcall] at hr
      cases hr
    · rfl
  cases Endpoint.exec_move he with
  | read _ hr _ _ => simp [dispatching, hread hr]
  | reserve _ hr _ _ hc _ _ => simp [dispatching, hread hr, hreserve hc]
  | refuse _ hr _ _ hc _ _ => simp [dispatching, hread hr, hreserve hc]
  | finish _ hl' _ _ => rcases hl' with ⟨ok, rfl⟩ | rfl <;> rcases hl with hl | ⟨asked, hl⟩ <;> cases hl
  | finished _ _ => rfl
  | _ => rcases hl with hl | ⟨asked, hl⟩ <;> cases hl

theorem serves_advances (hreached : Reached s) (h : Serves s s') : Advances s [] s' := by
  obtain ⟨l, ev, hl, he⟩ := h
  obtain ⟨hle, tr, hrun, hcalls, hinstants⟩ := advances_exec hreached he
  exact ⟨hle, tr, hrun, hcalls.trans (serves_dispatching hl he), hinstants⟩

/-! ## One step -/

variable {b b' : Balancer T F R} {report : Report T F R} {x : ℕ} {after : Endpoint T F R}

/-- What has been reserved on the endpoints. -/
theorem reserve_endpoints {endpoints : List Dns.Endpoint} {i j : ℕ} {states : List (Endpoint T F R)}
    {result : Except ScheduleError (Dns.Endpoint × DispatchReservation)}
    (hreached : ∀ (x : ℕ) state, b.states[x]? = some state → Reached state) (hdistinct : (endpoints.map (·.state)).Nodup)
    (h : b.reserve endpoints i j = some (result, states)) : ∃ f : ℕ → Endpoint T F R,
      states = (List.range b.states.length).map f ∧ (∀ (x : ℕ) before, b.states[x]? = some before →
        Advances before [] (accepted result f x)) ∧
      ∀ state ∈ (List.range b.states.length).map (accepted result f), state.clock = b.cache.clock := by
  obtain ⟨f, rfl, -, hf⟩ := reserve_cases hdistinct h
  have hone (x : ℕ) (before : Endpoint T F R) (hb : b.states[x]? = some before) :
      Advances before [] (accepted result f x) ∧ (accepted result f x).clock = before.clock := by
    rcases (hf x before hb).2 with hsame | hserves
    · rw [hsame]
      exact ⟨.refl _, rfl⟩
    · exact ⟨serves_advances (hreached x _ hb) hserves, serves_clock hserves⟩
  refine ⟨f, rfl, fun x before hb => (hone x before hb).1, fun state hstate => ?_⟩
  obtain ⟨x, hx, rfl⟩ := List.mem_map.mp hstate
  have hb := List.getElem?_eq_getElem (List.mem_range.mp hx)
  exact (hone x _ hb).2.trans (states_clock hb)

/-- The endpoint was there before, or it is new. -/
def Grows (b : Balancer T F R) (x : ℕ) (calls : List (Entry T F R)) (after : Endpoint T F R) : Prop :=
  (∃ before, b.states[x]? = some before ∧ Advances before calls after) ∨
    (b.states[x]? = none ∧ calls = [] ∧ ∃ c₀ start, FreshAt c₀ start ∧ after.clock = start ∧
      Advances ((system T F R).start c₀ start) [] after)

theorem operate_grows {y : ℕ} {label : Label T} (hsound : Dns.Sound b.cache)
    (hreached : ∀ (x : ℕ) state, b.states[x]? = some state → Reached state) (hl : label.Operates)
    (h : b.operate y label = some (report, b')) (hafter : b'.states[x]? = some after) :
    b.Grows x (report.callsAt x) after := by
  obtain ⟨before, ev, after', hb, he, rfl, -, hstates, -, -⟩ := operate_keeps hsound hreached hl h
  rw [hstates] at hafter
  left
  by_cases hxy : y = x
  · subst hxy
    obtain ⟨hlt, -⟩ := List.getElem?_eq_some_iff.mp hb
    rw [List.getElem?_set_self hlt] at hafter
    cases hafter
    rw [Report.callsAt_same]
    exact ⟨before, hb, advances_exec (hreached _ _ hb) he⟩
  · rw [List.getElem?_set_ne hxy] at hafter
    rw [Report.callsAt_other hxy]
    exact ⟨after, hafter, .refl after⟩

variable {config : EndpointConfig T} {refreshAfter evictAfterStale : T} {mode : Dns.DnsResolveIpMode}

theorem cache_grows {cache : Dns.State T (Endpoint T F R)} {label : Dns.Label T (R × ℕ) (Endpoint T F R)}
    {serves : List Serve} (hl : BalancerLabel.operates label = false)
    (h : Dns.Move (dnsCache config refreshAfter evictAfterStale mode) b.cache label cache)
    (hafter : (⟨cache, serves⟩ : Balancer T F R).states[x]? = some after) : b.Grows x [] after := by
  obtain ⟨raw, hraw, rfl⟩ := Option.map_eq_some_iff.mp ((List.getElem?_map ..).symm.trans hafter)
  have hold (hraw : b.cache.states[x]? = some raw) : b.Grows x [] (raw.at cache.clock) := by
    have hb : b.states[x]? = some (raw.at b.cache.clock) := (List.getElem?_map ..).trans (congrArg _ hraw)
    have hle : (raw.at b.cache.clock).clock ≤ cache.clock := h.clock_le
    exact Or.inl ⟨_, hb, .at hle⟩
  rcases cache_states h hl with hsame | ⟨seed, made, hmake, hmade, hclock⟩
  · rw [hsame] at hraw
    exact hold hraw
  · rw [hmade] at hraw
    rcases Nat.lt_or_ge x b.cache.states.length with hlt | hge
    · rw [List.getElem?_append_left hlt] at hraw
      exact hold hraw
    · rw [List.getElem?_append_right hge] at hraw
      obtain rfl := List.mem_singleton.mp (List.mem_of_getElem? hraw)
      obtain ⟨controller, hc, rfl⟩ := Option.map_eq_some_iff.mp hmake
      refine Or.inr ⟨List.getElem?_eq_none (b.states_length ▸ hge), rfl, controller, b.cache.clock, ?_, hclock, .at hclock.ge⟩
      exact ⟨config, seed.1, seed.2, hc⟩

/-- What a selection leaves of the endpoints. -/
theorem reserved_grows {f : ℕ → Endpoint T F R} {states : List (Endpoint T F R)}
    (hstates : states = (List.range b.states.length).map f)
    (hadvances : ∀ (x : ℕ) before, b.states[x]? = some before → Advances before [] (f x))
    (hclock : ∀ state ∈ (List.range b.states.length).map f, state.clock = b.cache.clock)
    (hafter : (b.setStates states).states[x]? = some after) : b.Grows x [] after := by
  subst hstates
  rw [states_setStates hclock, List.getElem?_map] at hafter
  obtain ⟨y, hy, rfl⟩ := Option.map_eq_some_iff.mp hafter
  obtain ⟨hlt, rfl⟩ := List.getElem?_eq_some_iff.mp hy
  rw [List.length_range] at hlt
  rw [List.getElem_range]
  have hb := List.getElem?_eq_getElem hlt
  exact Or.inl ⟨_, hb, hadvances x _ hb⟩

/-- **One step** leads each endpoint by a run of the adapter, with the dispatches that it reports. -/
theorem Move.grows {l : BalancerLabel T F R (R × ℕ)} {tr : List (BalancerLabel T F R (R × ℕ) × Report T F R)}
    (hi : b.Inv tr) (h : Move (dnsCache config refreshAfter evictAfterStale mode) b l report b')
    (hafter : b'.states[x]? = some after) : b.Grows x (report.callsAt x) after := by
  cases h with
  | cache hl hm => exact cache_grows hl hm hafter
  | serve hm => exact cache_grows rfl hm hafter
  | goto _ _ => exact Or.inl ⟨after, hafter, .refl after⟩
  | @reserve k i j e endpoints a r states state hp hr hstate =>
    obtain ⟨f, rfl, hadvances, hclock⟩ := reserve_endpoints hi.reached ((hi.serves k _ hp).distinct e endpoints rfl) hr
    refine reserved_grows (f := accepted (.ok (a, r)) f) ?_ hadvances hclock hafter
    obtain ⟨hlt, hf⟩ := List.getElem?_eq_some_iff.mp hstate
    rw [List.getElem_map, List.getElem_range] at hf
    apply List.ext_getElem
    · rw [List.length_set, List.length_map, List.length_map]
    · intro y hy hy'
      rw [List.getElem_set, List.getElem_map, List.getElem_map, List.getElem_range]
      show (if a.state = y then state.accept r else f y) = if a.state = y then (f y).accept r else f y
      split
      · rename_i heq
        rw [← heq, hf]
      · rfl
  | @reject k i j e endpoints error states hp hr =>
    obtain ⟨f, rfl, hadvances, hclock⟩ := reserve_endpoints hi.reached ((hi.serves k _ hp).distinct e endpoints rfl) hr
    exact reserved_grows (f := f) rfl hadvances hclock hafter
  | cancel _ ho => exact operate_grows hi.sound hi.reached (Or.inr (Or.inr ⟨_, rfl⟩)) ho hafter
  | guard _ hlabel ho =>
    exact operate_grows hi.sound hi.reached (Or.inr (Or.inr ⟨_, ServeAction.label?_request hlabel⟩)) ho hafter
  | snapshot ho => exact operate_grows hi.sound hi.reached (Or.inl rfl) ho hafter
  | notifyDispatch ho => exact operate_grows hi.sound hi.reached (Or.inr (Or.inl rfl)) ho hafter

theorem operate_states {y : ℕ} {label : Label T} (h : b.operate y label = some (report, b')) :
    b.states.length ≤ b'.states.length ∧ ∀ x, b.states.length ≤ x → report.callsAt x = [] := by
  simp only [operate, Option.bind_eq_bind, Option.bind_eq_some_iff] at h
  obtain ⟨before, hb, ⟨ev, state⟩, -, h⟩ := h
  cases h
  refine ⟨?_, fun x hx => Report.callsAt_other ?_ _⟩
  · show b.states.length ≤ ((b.states.set y state).map _).length
    rw [List.length_map, List.length_set]
  · exact ((List.getElem?_eq_some_iff.mp hb).1.trans_le hx).ne

/-- No step drops an endpoint, or works on one that is not there. -/
theorem Move.states {S : Type} {d : Dns.DnsCache T S (Endpoint T F R)} {l : BalancerLabel T F R S}
    (h : Move d b l report b') :
    b.states.length ≤ b'.states.length ∧ ∀ x, b.states.length ≤ x → report.callsAt x = [] := by
  have hreserve {endpoints : List Dns.Endpoint} {i j : ℕ} {states : List (Endpoint T F R)}
      {result : Except ScheduleError (Dns.Endpoint × DispatchReservation)}
      (hr : b.reserve endpoints i j = some (result, states)) : states.length = b.states.length := by
    simp only [Balancer.reserve, Option.bind_eq_bind, Option.bind_eq_some_iff] at hr
    obtain ⟨_, -, _, -, hr⟩ := hr
    cases hr
    rw [List.length_map, List.length_range]
  cases h with
  | @cache _ cache _ hm =>
    refine ⟨?_, fun x _ => Report.callsAt_silent x⟩
    rw [b.states_length, states_length]
    exact hm.states_length
  | @serve cache hm =>
    refine ⟨?_, fun x _ => Report.callsAt_silent x⟩
    rw [b.states_length, states_length]
    exact hm.states_length
  | goto _ _ => exact ⟨le_rfl, fun x _ => Report.callsAt_silent x⟩
  | @reserve k i j e endpoints a r states state _ hr _ =>
    refine ⟨?_, fun x _ => rfl⟩
    show _ ≤ ((states.set a.state (state.accept r)).map _).length
    rw [List.length_map, List.length_set, hreserve hr]
  | @reject _ _ _ _ _ _ states _ hr =>
    refine ⟨?_, fun x _ => rfl⟩
    show _ ≤ (states.map _).length
    rw [List.length_map, hreserve hr]
  | cancel _ ho =>
    obtain ⟨hlength, hcalls⟩ := operate_states ho
    exact ⟨hlength, hcalls⟩
  | guard _ _ ho => exact operate_states ho
  | snapshot ho => exact operate_states ho
  | notifyDispatch ho => exact operate_states ho

/-- No step moves the clock back. -/
theorem Move.clock_le {S : Type} {d : Dns.DnsCache T S (Endpoint T F R)} {l : BalancerLabel T F R S}
    (h : Move d b l report b') : b.cache.clock ≤ b'.cache.clock := by
  have hoperate {y : ℕ} {label : Label T} {b' : Balancer T F R} (ho : b.operate y label = some (report, b')) :
      b'.cache.clock = b.cache.clock := by
    simp only [operate, Option.bind_eq_bind, Option.bind_eq_some_iff] at ho
    obtain ⟨_, -, _, -, ho⟩ := ho
    cases ho
    rfl
  cases h with
  | cache _ hm => exact hm.clock_le
  | serve hm => exact hm.clock_le
  | goto _ _ => exact le_rfl
  | reserve _ _ _ => exact le_rfl
  | reject _ _ => exact le_rfl
  | cancel _ ho => exact (hoperate ho).ge
  | guard _ _ ho => exact (hoperate ho).ge
  | snapshot ho => exact (hoperate ho).ge
  | notifyDispatch ho => exact (hoperate ho).ge

/-! ## Every run -/

variable {tr : List (BalancerLabel T F R (R × ℕ) × Report T F R)} {clock start : T} {c₀ : EndpointController T F R}
variable {etr : List ((system T F R).Label × Event T F R)}

/-- **The endpoint's interval at an instant of the run**: that of its controller at the last moment at which the clock does
not read later. -/
def Paced (d : Dns.DnsCache T (R × ℕ) (Endpoint T F R)) (clock : T)
    (tr : List (BalancerLabel T F R (R × ℕ) × Report T F R)) (s : Balancer T F R) (x : ℕ) (t interval : T) : Prop :=
  ∃ before after m state, tr = before ++ after ∧ Run (Step d) (empty clock) before m ∧ Run (Step d) m after s ∧
    m.states[x]? = some state ∧ state.controller.pacer.interval = interval ∧ m.cache.clock ≤ t ∧
      ∀ y rest next, after = y :: rest → Step d m y next → t < next.cache.clock

variable {d : Dns.DnsCache T (R × ℕ) (Endpoint T F R)} {y : BalancerLabel T F R (R × ℕ) × Report T F R} {t interval : T}

/-- It is the current one from the last moment on. -/
theorem paced_last (h : Run (Step d) (empty clock) tr b) (hx : b.states[x]? = some after) (ht : b.cache.clock ≤ t) :
    Paced d clock tr b x t after.controller.pacer.interval :=
  ⟨tr, [], b, after, (List.append_nil _).symm, h, .nil, hx, rfl, ht, fun _ _ _ h => by cases h⟩

/-- It was the current one until the clock moved on. -/
theorem paced_step (h : Run (Step d) (empty clock) tr b) (he : Step d b y b') (hx : b.states[x]? = some after)
    (ht : b.cache.clock ≤ t) (hlt : t < b'.cache.clock) :
    Paced d clock (tr ++ [y]) b' x t after.controller.pacer.interval := by
  refine ⟨tr, [y], b, after, rfl, h, .single he, hx, rfl, ht, fun y' rest next hy hnext => ?_⟩
  obtain ⟨rfl, -⟩ := List.cons.inj hy
  have hsame : (y.2, b') = (y.2, next) := Option.some.inj (Eq.trans (Eq.symm he) hnext)
  rwa [← (Prod.mk.inj hsame).2]

/-- What it was remains. -/
theorem Paced.snoc (h : Paced d clock tr b x t interval) (he : Step d b y b') (ht : t < b.cache.clock) :
    Paced d clock (tr ++ [y]) b' x t interval := by
  obtain ⟨before, after, m, state, rfl, hbefore, hafter, hx, hinterval, hle, hnext⟩ := h
  cases after with
  | nil =>
    obtain rfl := hafter.nil_inv
    exact absurd hle (not_le.mpr ht)
  | cons z rest =>
    refine ⟨before, z :: rest ++ [y], m, state, List.append_assoc _ _ _, hbefore, hafter.snoc he, hx, hinterval, hle,
      fun z' rest' next hz => ?_⟩
    obtain ⟨rfl, -⟩ := List.cons.inj hz
    exact hnext z rest next rfl

/-- The history of an endpoint's run gives its interval from the last moment on. -/
theorem inForce_lived (h0 : FreshAt c₀ start) (h : Run (system T F R).Step ((system T F R).start c₀ start) etr after)
    (ht : after.clock ≤ t) : inForce c₀ (etr.flatMap fun y => y.2.history) t = after.controller.pacer.interval := by
  obtain ⟨⟨t', hle, hrun⟩, -⟩ := system_sound.history h0.fresh h
  exact run_inForce hrun (hle.trans ht)

/-- The calls of a step leave the interval that was in force. -/
theorem inForce_past {etr' : List ((system T F R).Label × Event T F R)}
    (hinstants : ∀ y ∈ etr', ∀ e ∈ y.2.entries, e.call.now? = some after.clock) (ht : t < after.clock) :
    inForce c₀ ((etr ++ etr').flatMap fun y => y.2.history) t = inForce c₀ (etr.flatMap fun y => y.2.history) t := by
  rw [List.flatMap_append]
  refine inForce_later fun e he t' hnow => ?_
  obtain ⟨y, hy, he⟩ := List.mem_flatMap.mp he
  rcases y.2.mem_history he with hentry | hnone
  · cases hnow.symm.trans (hinstants y hy e hentry)
    exact ht
  · rw [hnone] at hnow
    cases hnow

/-- **Each endpoint has lived one run of the adapter**, with the dispatches that were reported of it, and at each instant
with the interval that its controller had in the run of the balancer. -/
theorem run_lived (h : Run (Step (dnsCache config refreshAfter evictAfterStale mode)) (empty clock) tr b) (x : ℕ) :
    (b.states[x]? = none → callsAt x tr = []) ∧ ∀ after, b.states[x]? = some after → ∃ c₀ start etr, FreshAt c₀ start ∧
      Run (system T F R).Step ((system T F R).start c₀ start) etr after ∧
      dispatching (etr.flatMap fun y => y.2.entries) = dispatching (callsAt x tr) ∧
      ∀ t, start ≤ t → Paced (dnsCache config refreshAfter evictAfterStale mode) clock tr b x t
        (inForce c₀ (etr.flatMap fun y => y.2.history) t) := by
  induction h with
  | nil => exact ⟨fun _ => rfl, fun after hafter => by cases hafter⟩
  | @snoc tr b y b' hrun he ih =>
    obtain ⟨l, report⟩ := y
    obtain ⟨hnone, hsome⟩ := ih
    have hmove := exec_move he
    obtain ⟨hlength, hcalls⟩ := hmove.states
    rw [callsAt_snoc]
    refine ⟨fun hafter => ?_, fun after hafter => ?_⟩
    · have hx := hlength.trans (List.getElem?_eq_none_iff.mp hafter)
      rw [hnone (List.getElem?_eq_none hx), hcalls x hx]
      rfl
    · have hclock := states_clock hafter
      rcases hmove.grows (run_inv hrun) hafter with ⟨before, hb, hadvances⟩ | ⟨hb, hsilent, c₀, start, h0, hstart, hadvances⟩
      · obtain ⟨-, etr', hrun', hsame', hinstants⟩ := hadvances
        obtain ⟨c₀, start, etr, h0, hlived, hsame, hpaced⟩ := hsome before hb
        refine ⟨c₀, start, etr ++ etr', h0, hlived.append hrun', ?_, fun t ht => ?_⟩
        · rw [List.flatMap_append, dispatching_append, dispatching_append, hsame, hsame']
        rcases lt_or_ge t b'.cache.clock with hlt | hge
        · rw [inForce_past hinstants (hlt.trans_eq hclock.symm)]
          rcases lt_or_ge t b.cache.clock with hlt' | hge'
          · exact (hpaced t ht).snoc he hlt'
          · rw [inForce_lived h0 hlived ((states_clock hb).trans_le hge')]
            exact paced_step hrun he hb hge' hlt
        · rw [inForce_lived h0 (hlived.append hrun') (hclock.trans_le hge)]
          exact paced_last (hrun.snoc he) hafter hge
      · obtain ⟨-, etr, hlived, hsame, -⟩ := hadvances
        refine ⟨c₀, start, etr, h0, hlived, ?_, fun t ht => ?_⟩
        · rw [hnone hb, hsilent]
          exact hsame
        · rw [inForce_lived h0 hlived (hstart.trans_le ht)]
          exact paced_last (hrun.snoc he) hafter (hclock.symm.trans_le (hstart.trans_le ht))

end

/-! ## The rate of an endpoint -/

section

open scoped NNReal
open MeasureTheory

variable {R : Type} [Rng R ℝ] {config : EndpointConfig ℝ≥0} {refreshAfter evictAfterStale clock : ℝ≥0}
variable {mode : Dns.DnsResolveIpMode} {tr : List (BalancerLabel ℝ≥0 ℝ R (R × ℕ) × Report ℝ≥0 ℝ R)}
variable {s : Balancer ℝ≥0 ℝ R} {x : ℕ} {state : Endpoint ℝ≥0 ℝ R}

/-- **The balancer conforms to the rate of each of its endpoints.** An endpoint's controller has lived a history, whose
dispatches are those of all calls of the balancer on this endpoint, and whose interval at each instant is the one that the
controller had then in the run of the balancer. The dispatches of a window are at most one more than the integral of that
rate. -/
theorem balancer_conforms (h : Run (Step (dnsCache config refreshAfter evictAfterStale mode)) (empty clock) tr s)
    (hx : s.states[x]? = some state) : ∃ c₀ start hist, FreshAt c₀ start ∧
      (∃ t ≤ state.clock, Run TimedStep (c₀, start) hist (state.controller, t)) ∧
      dispatching hist = dispatching (callsAt x tr) ∧
      (∀ t, start ≤ t →
        Paced (dnsCache config refreshAfter evictAfterStale mode) clock tr s x t (inForce c₀ hist t)) ∧
      ∀ a b : ℝ≥0, start ≤ a → a ≤ b →
        ((dispatchInstants (callsAt x tr)).countP (fun t => a ≤ t ∧ t ≤ b) : ℝ) ≤
          1 + ∫ t in (a : ℝ)..b, 1 / ((inForce c₀ hist t.toNNReal : ℝ≥0) : ℝ) := by
  obtain ⟨c₀, start, etr, h0, hlived, hsame, hpaced⟩ := (run_lived h x).2 state hx
  obtain ⟨⟨t, hle, hrun⟩, -⟩ := system_sound.history h0.fresh hlived
  have hdispatching : dispatching (etr.flatMap fun y => y.2.history) = dispatching (callsAt x tr) :=
    (dispatching_history etr).trans hsame
  refine ⟨c₀, start, _, h0, ⟨t, hle, hrun⟩, hdispatching, hpaced, fun a b ha hab => ?_⟩
  rw [← dispatching_instants, ← hdispatching, dispatching_instants]
  exact run_conforms h0 hrun ha hab

/-- A call resolves one address, selects its endpoint and dispatches at once. -/
theorem balancer_conforms_one : ∃ (d : Dns.DnsCache ℝ≥0 (Unit × ℕ) (Endpoint ℝ≥0 ℝ Unit))
    (tr : List (BalancerLabel ℝ≥0 ℝ Unit (Unit × ℕ) × Report ℝ≥0 ℝ Unit)) (s : Balancer ℝ≥0 ℝ Unit),
    Run (Step d) (empty 0) tr s ∧ dispatchInstants (callsAt 0 tr) = [0] ∧
    ∃ (c₀ : EndpointController ℝ≥0 ℝ Unit) (start : ℝ≥0) (hist : List (Entry ℝ≥0 ℝ Unit)), FreshAt c₀ start ∧
      dispatching hist = dispatching (callsAt 0 tr) ∧
      (∀ t, start ≤ t → Paced d 0 tr s 0 t (inForce c₀ hist t)) ∧ ∀ a b : ℝ≥0, start ≤ a → a ≤ b →
        ((dispatchInstants (callsAt 0 tr)).countP (fun t => a ≤ t ∧ t ≤ b) : ℝ) ≤
          1 + ∫ t in (a : ℝ)..b, 1 / ((inForce c₀ hist t.toNNReal : ℝ≥0) : ℝ) := by
  obtain ⟨c₀, c₁, c₂, hnew, hrefresh, hreserve, hready, hdispatched, hchanges⟩ := exactSample_request
  let r : DispatchReservation := { controllerId := 7, id := 0 }
  have hdrained : c₁.takeChanges.2 = c₁ := by
    show ({ c₁ with changes := ControllerChanges.none } : EndpointController ℝ≥0 ℝ Unit) = c₁
    rw [← hchanges]
  let d : Dns.DnsCache ℝ≥0 (Unit × ℕ) (Endpoint ℝ≥0 ℝ Unit) := dnsCache (exactConfigOf 1) 30 300 .singleIpV4
  let a : Dns.Endpoint := ⟨.v4 1, 0⟩
  let x : Selected := { entry := 0, endpoint := a, reservation := r, request := 0 }
  -- the states of the run: before the address has its endpoint, and after
  let resolving (p : Dns.Place ℝ≥0) : Balancer ℝ≥0 ℝ Unit := {
    cache := { clock := 0, states := [], entries := [], cached := none, tasks := [p] }, serves := [.lookup 0] }
  let built (p : Dns.Place ℝ≥0) : Balancer ℝ≥0 ℝ Unit := {
    cache := { clock := 0, states := [(system ℝ≥0 ℝ Unit).start c₀ 0], entries := [], cached := none, tasks := [p] }
    serves := [.lookup 0] }
  let published (state : Endpoint ℝ≥0 ℝ Unit) (p : Serve) : Balancer ℝ≥0 ℝ Unit := {
    cache := { clock := 0, states := [state], entries := [⟨⟨[a], 0⟩, false⟩], cached := some 0, tasks := [.served 0 []] }
    serves := [p] }
  let at₁ (place : Place ℝ≥0) : Endpoint ℝ≥0 ℝ Unit := {
    controller := c₁, clock := 0, dispatch := 0, requests := [⟨.reserved r, place⟩] }
  let served : Endpoint ℝ≥0 ℝ Unit := {
    controller := c₂.takeChanges.2, clock := 0, dispatch := 0 + c₂.changes.dispatch.toNat
    requests := [⟨.dispatched { controllerId := c₁.controllerId, dispatchedAt := 0, wasPaced := false }, .serving⟩] }
  have hlookup : play d (empty 0) [.serve, .cache (.task 0 .get), .cache (.task 0 .tryGetWith),
      .cache (.task 0 (.answer ⟨[some 1], []⟩))] = some ([(.serve, .silent), (.cache (.task 0 .get), .silent),
        (.cache (.task 0 .tryGetWith), .silent), (.cache (.task 0 (.answer ⟨[some 1], []⟩)), .silent)],
        resolving (.building .initial none [.v4 1] [])) := rfl
  have hbuild : Step d (resolving (.building .initial none [.v4 1] [])) (.cache (.task 0 (.endpoint ((), 7))), .silent)
      (built (.building .initial none [] [a])) := by
    show ((Option.map _ (newWithRng (exactConfigOf 1) 0 () 7) >>= _) >>= _) = _
    rw [hnew]
    rfl
  have hpublish : play d (built (.building .initial none [] [a])) [.cache (.task 0 .stamp), .cache (.task 0 .store),
      .task 0 .found, .task 0 .load] = some ([(.cache (.task 0 .stamp), .silent), (.cache (.task 0 .store), .silent),
        (.task 0 .found, .silent), (.task 0 .load, .silent)],
        published ((system ℝ≥0 ℝ Unit).start c₀ 0) (.loaded 0 [a])) := rfl
  have hselect : Step d (published ((system ℝ≥0 ℝ Unit).start c₀ 0) (.loaded 0 [a]))
      (.task 0 (.reserve 0 0), ⟨some (0, r), []⟩) (published (at₁ (.waiting .away)) (.selected x)) := by
    have hreserved : (published ((system ℝ≥0 ℝ Unit).start c₀ 0) (.loaded 0 [a])).reserve [a] 0 0 =
        some (.ok (a, r), [deliver Endpoint.store Endpoint.notifyChanges ((system ℝ≥0 ℝ Unit).start c₀ 0) c₁]) := by
      show (Option.bind (Option.bind (c₀.refresh 0) fun m => _) _) = _
      rw [hrefresh]
      have hclock : (published ((system ℝ≥0 ℝ Unit).start c₀ 0) (.loaded 0 [a])).cache.clock = 0 := rfl
      simp only [Option.bind_some, hclock, hreserve]
      rfl
    show (Option.bind (Balancer.reserve _ [a] 0 0) _) = _
    rw [hreserved]
    show some (_, published ⟨c₁.takeChanges.2, 0, 0 + c₁.changes.dispatch.toNat, _⟩ _) = _
    rw [hdrained, hchanges]
    rfl
  have hguard : play d (published (at₁ (.waiting .away)) (.selected x)) [.task 0 .recheck, .task 0 .run] =
      some ([(.task 0 .recheck, .silent), (.task 0 .run, ⟨none, []⟩)],
        published (at₁ (.waiting (.enabled false))) (.guarded x)) := rfl
  have hcheck : Step d (published (at₁ (.waiting (.enabled false))) (.guarded x))
      (.task 0 .run, ⟨none, [(0, ⟨.dispatchState r 0, .state .ready, c₁, c₁⟩)]⟩) (published (at₁ .ready) (.guarded x)) := by
    show (Option.bind (Option.bind (perform c₁ (.dispatchState r 0)) _) _) = _
    rw [hready]
    show some (_, published { controller := c₁.takeChanges.2, clock := 0, dispatch := _, requests := _ } _) = _
    rw [hdrained]
    rfl
  have hbegin : Step d (published (at₁ .ready) (.guarded x))
      (.task 0 .run, ⟨none, [(0, ⟨.onDispatched r 0, .dispatched (.ok
        { controllerId := c₁.controllerId, dispatchedAt := 0, wasPaced := false }), c₁, c₂⟩)]⟩)
      (published served (.guarded x)) := by
    show (Option.bind (Option.bind (Option.bind (perform c₁ (.onDispatched r 0)) _) _) _) = _
    rw [hdispatched]
    rfl
  have hrun := (play_run hlookup).append (.cons hbuild ((play_run hpublish).append (.cons hselect
    ((play_run hguard).append (.cons hcheck (.single hbegin))))))
  obtain ⟨c₀, start, hist, h0, -, hdispatches, hpaced, hconforms⟩ := balancer_conforms (x := 0) hrun rfl
  exact ⟨d, _, _, hrun, rfl, c₀, start, hist, h0, hdispatches, hpaced, hconforms⟩

end

end Balancer

end Loadpace.Rama
