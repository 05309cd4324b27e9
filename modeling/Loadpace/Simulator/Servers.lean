import Loadpace.Lib.Servers
import Loadpace.Saturation
import Loadpace.Simulator.Report

/-!
# The workers of an endpoint

The workers of an endpoint are a pool of servers (`Lib/Servers.lean`): a dispatch sends a request to the first of those that
come free first (`driveOne_works`), and nothing else changes when they come free. So over a whole simulation the requests
of an endpoint complete as those of a queue in front of its workers do (`endpoints_are_queues`).
-/

namespace Loadpace.Simulator

open Systems EndpointController

section

variable {T F R : Type}

/-- When a request was dispatched, and when it completes. -/
def Completion.times (q : Completion T) : T × T := (q.request.dispatchedAt, q.completionAt)

/-- Those of one endpoint. -/
def ofEndpoint (i : ℕ) (jobs : List (Completion T)) : List (Completion T) := jobs.filter fun q => q.endpoint = i

variable {jobs jobs' finished finished' : List (Completion T)} {q : Completion T} {i : ℕ}

theorem ofEndpoint_append (i : ℕ) (jobs jobs' : List (Completion T)) :
    ofEndpoint i (jobs ++ jobs') = ofEndpoint i jobs ++ ofEndpoint i jobs' := List.filter_append ..

theorem ofEndpoint_all (h : ∀ q ∈ jobs, q.endpoint = i) : ofEndpoint i jobs = jobs :=
  List.filter_eq_self.mpr fun q hq => decide_eq_true (h q hq)

theorem ofEndpoint_none (h : ∀ q ∈ jobs, q.endpoint ≠ i) : ofEndpoint i jobs = [] :=
  List.filter_eq_nil_iff.mpr fun q hq heq => h q hq (of_decide_eq_true heq)

variable [AddCommMonoid T] [LinearOrder T] [Sub T] [Time T]

/-- An endpoint has dispatched some of the requests, and others have finished. -/
structure Works (i : ℕ) (jobs finished : List (Completion T)) (e e' : EndpointRuntime T F R) : Prop where
  serviceTime : e'.serviceTime = e.serviceTime
  dispatched : e'.dispatched = e.dispatched + (ofEndpoint i jobs).length
  completed : e'.completed = e.completed + (ofEndpoint i finished).length
  pool : Run (Servers.Step fun t => saturatingAdd t e.serviceTime) e.availableAt ((ofEndpoint i jobs).map Completion.times)
    e'.availableAt

/-- Every endpoint of a list, of which the first has the index `index`. -/
def AllWork (index : ℕ) (jobs finished : List (Completion T)) (es es' : List (EndpointRuntime T F R)) : Prop :=
  ∀ i e, es[i]? = some e → ∃ e', es'[i]? = some e' ∧ Works (index + i) jobs finished e e'

variable {e e' e'' : EndpointRuntime T F R} {es es' es'' : List (EndpointRuntime T F R)} {cs cs' : List (Completion T)}
variable {now : T} {index : ℕ}

theorem Works.refl (i : ℕ) (e : EndpointRuntime T F R) : Works i [] [] e e := ⟨rfl, rfl, rfl, .nil⟩

theorem Same.works (h : Same e e') (i : ℕ) : Works i [] [] e e' := by
  obtain ⟨c, -, rfl⟩ := h
  exact ⟨rfl, rfl, rfl, .nil⟩

theorem Works.trans (h : Works i jobs finished e e') (h' : Works i jobs' finished' e' e'') :
    Works i (jobs ++ jobs') (finished ++ finished') e e'' := by
  refine ⟨h'.serviceTime.trans h.serviceTime, ?_, ?_, ?_⟩
  · rw [h'.dispatched, h.dispatched, ofEndpoint_append, List.length_append, Nat.add_assoc]
  · rw [h'.completed, h.completed, ofEndpoint_append, List.length_append, Nat.add_assoc]
  · rw [ofEndpoint_append, List.map_append]
    refine h.pool.append ?_
    rw [← h.serviceTime]
    exact h'.pool

/-- Only the requests of the endpoint count, and how many of them finish. -/
theorem Works.congr (h : Works i jobs finished e e') (hjobs : ofEndpoint i jobs' = ofEndpoint i jobs)
    (hfinished : (ofEndpoint i finished').length = (ofEndpoint i finished).length) : Works i jobs' finished' e e' := by
  obtain ⟨hservice, hdispatched, hcompleted, hpool⟩ := h
  rw [← hjobs] at hdispatched hpool
  rw [← hfinished] at hcompleted
  exact ⟨hservice, hdispatched, hcompleted, hpool⟩

theorem AllWork.trans (h : AllWork index jobs finished es es') (h' : AllWork index jobs' finished' es' es'') :
    AllWork index (jobs ++ jobs') (finished ++ finished') es es'' := fun i e hi => by
  obtain ⟨e', hi', hw⟩ := h i e hi
  obtain ⟨e'', hi'', hw'⟩ := h' i e' hi'
  exact ⟨e'', hi'', hw.trans hw'⟩

theorem same_allWork (h : List.Forall₂ Same es es') (index : ℕ) : AllWork index [] [] es es' := fun i e hi => by
  obtain ⟨e', hi', hs⟩ := forall₂_get h hi
  exact ⟨e', hi', hs.works _⟩

/-- One endpoint works. -/
theorem AllWork.set (hi : es[i]? = some e) (h : Works i jobs finished e e')
    (hjobs : ∀ q ∈ jobs, q.endpoint = i) (hfinished : ∀ q ∈ finished, q.endpoint = i) :
    AllWork 0 jobs finished es (es.set i e') := fun k x hk => by
  rw [Nat.zero_add]
  by_cases heq : i = k
  · subst heq
    obtain rfl : e = x := Option.some.inj (hi.symm.trans hk)
    exact ⟨e', by rw [List.getElem?_set_self (List.getElem?_eq_some_iff.mp hi).1], h⟩
  · refine ⟨x, by rw [List.getElem?_set_ne heq]; exact hk, (Works.refl k x).congr ?_ ?_⟩
    · exact ofEndpoint_none fun q hq => (hjobs q hq).trans_ne heq
    · rw [ofEndpoint_none fun q hq => (hfinished q hq).trans_ne heq]
      rfl

/-! ## Completions -/

variable [F64 F] [Secs T F]

theorem completeOne_works (h : completeOne now es q = some es') : AllWork 0 [] [q] es es' := by
  unfold completeOne at h
  simp only [Option.bind_eq_bind, Option.bind_eq_some_iff] at h
  obtain ⟨e, he, ⟨b, c⟩, -, h⟩ := h
  obtain rfl := Option.some.inj h
  refine AllWork.set he ⟨rfl, rfl, ?_, .nil⟩ (fun q hq => by cases hq) fun q' hq' => by rw [List.mem_singleton.mp hq']
  rw [ofEndpoint_all fun q' hq' => by rw [List.mem_singleton.mp hq']]
  rfl

/-- Those that are due finish, and the others are left. -/
theorem completeReady_works (h : completeReady now es cs = some (es', cs')) :
    AllWork 0 [] (cs.filter fun q => q.completionAt ≤ now) es es' ∧ cs' = cs.filter fun q => now < q.completionAt := by
  induction cs generalizing es es' cs' with
  | nil =>
    cases h
    exact ⟨same_allWork (List.forall₂_same.mpr fun e _ => .refl e) 0, rfl⟩
  | cons q rest ih =>
    unfold completeReady at h
    split at h
    · rename_i hdue
      simp only [Option.bind_eq_bind, Option.bind_eq_some_iff] at h
      obtain ⟨m, hm, h⟩ := h
      obtain ⟨hrest, rfl⟩ := ih h
      have hnot : ¬now < q.completionAt := not_lt.mpr hdue
      simp only [List.filter_cons, hdue, hnot, decide_true, decide_false, if_true, Bool.false_eq_true, if_false]
      exact ⟨(completeOne_works hm).trans hrest, trivial⟩
    · rename_i hlater
      simp only [Option.bind_eq_bind, Option.bind_eq_some_iff] at h
      obtain ⟨⟨m, kept⟩, hm, h⟩ := h
      cases h
      obtain ⟨hrest, rfl⟩ := ih hm
      simp only [List.filter_cons, hlater, not_le.mp hlater, decide_true, decide_false, if_true, Bool.false_eq_true, if_false]
      exact ⟨hrest, trivial⟩

/-! ## Dispatches -/

variable [Rng R F] {r : DispatchReservation} {rest : List DispatchReservation}

/-- A dispatch gives one job to the pool. -/
theorem driveOne_works (hok : e.Ok) (hp : e.pending = r :: rest)
    (h : driveOne i now r e cs = some (true, e', cs')) :
    ∃ q, cs' = cs ++ [q] ∧ q.endpoint = i ∧ q.request.dispatchedAt = now ∧ Works i [q] [] e e' := by
  obtain ⟨s, c, -, ⟨-, hmore, -⟩ | ⟨rfl, available, worker, result, c', hworker, hd, hresult⟩⟩ := driveOne_check hok hp h
  · cases hmore
  · rcases hresult with ⟨-, -, hmore, -⟩ | ⟨q, rfl, -, rfl, rfl⟩
    · cases hmore
    · have hq : q.dispatchedAt = now := by
        rcases onDispatched_cases hd with ⟨_, -, hres, -⟩ | ⟨-, _, _, _, -, -, -, -, -, hres, -⟩
        · cases hres
        · injection hres with hres
          rw [hres]
      refine ⟨_, rfl, rfl, hq, rfl, ?_, rfl, ?_⟩
      · rw [ofEndpoint_all fun q' hq' => by rw [List.mem_singleton.mp hq']]
        rfl
      · rw [ofEndpoint_all fun q' hq' => by rw [List.mem_singleton.mp hq']]
        refine Run.single ⟨available, worker, hworker, ?_, rfl⟩
        show saturatingAdd (max available now) e.serviceTime = saturatingAdd (max available q.dispatchedAt) e.serviceTime
        rw [hq]

/-- Driving one endpoint gives jobs to its pool. -/
theorem drive_works (hok : e.Ok) (hd : drive i now e.pending e cs = some (e', cs')) :
    ∃ jobs, cs' = cs ++ jobs ∧ (∀ q ∈ jobs, q.endpoint = i ∧ q.request.dispatchedAt = now) ∧ Works i jobs [] e e' := by
  obtain ⟨m, ms, hm, ⟨jobs, hms, hjobs, hworks⟩, hend⟩ := drive_induct hok rfl hd
    (P := fun x ys => ∃ jobs, ys = cs ++ jobs ∧ (∀ q ∈ jobs, q.endpoint = i ∧ q.request.dispatchedAt = now) ∧
      Works i jobs [] e x) ⟨[], (List.append_nil cs).symm, fun q hq => (by cases hq), Works.refl i e⟩
    fun x r rest ys x' ys' hx hxp ⟨jobs, hys, hjobs, hworks⟩ hone => by
      obtain ⟨q, rfl, hqi, hqnow, hq⟩ := driveOne_works hx hxp hone
      refine ⟨jobs ++ [q], by rw [hys, List.append_assoc], fun q' hq' => ?_, hworks.trans hq⟩
      rcases List.mem_append.mp hq' with hq' | hq'
      · exact hjobs q' hq'
      · rw [List.mem_singleton.mp hq']
        exact ⟨hqi, hqnow⟩
  rcases hend with ⟨-, rfl, rfl⟩ | ⟨r, rest, hmp, hstop⟩
  · exact ⟨jobs, hms, hjobs, hworks⟩
  · have hround := driveOne_cases hm hmp hstop
    generalize hb : false = b at hround
    cases hround with
    | @stopped c ha =>
      have hsame : Same m { m with controller := c } := ⟨c, ha, rfl⟩
      have hall := hworks.trans (hsame.works i)
      rw [List.append_nil] at hall
      exact ⟨jobs, hms, hjobs, hall⟩
    | dispatched _ _ => cases hb

theorem driveAllFrom_works (hok : ∀ e ∈ es, e.Ok) (hd : driveAllFrom now index es cs = some (es', cs')) :
    ∃ jobs, cs' = cs ++ jobs ∧ (∀ q ∈ jobs, index ≤ q.endpoint ∧ q.request.dispatchedAt = now) ∧
      AllWork index jobs [] es es' := by
  induction es generalizing index cs es' with
  | nil =>
    cases hd
    exact ⟨[], (List.append_nil _).symm, fun q hq => (by cases hq), fun i e hi => (by cases hi)⟩
  | cons e rest ih =>
    rw [driveAllFrom] at hd
    simp only [Option.bind_eq_bind, Option.bind_eq_some_iff] at hd
    obtain ⟨c, hc, ⟨e₁, cs₁⟩, hdrive, ⟨rest', cs₂⟩, hrest, hd⟩ := hd
    cases hd
    have hsame : Same e { e with controller := c } := ⟨c, refresh_alike hc, rfl⟩
    obtain ⟨first, rfl, hfirst, hworks⟩ := drive_works ((refresh_alike hc).ok (hok e List.mem_cons_self)) hdrive
    obtain ⟨others, rfl, hothers, hall⟩ := ih (fun x hx => hok x (List.mem_cons_of_mem _ hx)) hrest
    refine ⟨first ++ others, List.append_assoc .., fun q hq => ?_, fun i x hx => ?_⟩
    · rcases List.mem_append.mp hq with hq | hq
      · exact ⟨(hfirst q hq).1.ge, (hfirst q hq).2⟩
      · exact ⟨Nat.le_of_succ_le (hothers q hq).1, (hothers q hq).2⟩
    · cases i with
      | zero =>
        obtain rfl := Option.some.inj hx
        refine ⟨e₁, rfl, ((hsame.works index).trans hworks).congr ?_ rfl⟩
        rw [ofEndpoint_append, ofEndpoint_none fun q hq => Nat.ne_of_gt (hothers q hq).1, List.append_nil]
        rfl
      | succ i =>
        obtain ⟨x', hx', hw⟩ := hall i x hx
        have hshift : index + 1 + i = index + (i + 1) := by omega
        rw [hshift] at hw
        refine ⟨x', hx', hw.congr ?_ rfl⟩
        rw [ofEndpoint_append, ofEndpoint_none fun q hq => (by rw [(hfirst q hq).1]; omega), List.nil_append]

/-! ## Passes -/

namespace Simulation

variable [SeededRng R] {window : Window T} {s s' s₀ asked settled arrived : Simulation T F R}

/-- A pass that goes on, by the requests that it dispatches; those of before that are due by its end have completed. -/
def Step (window : Window T) (s : Simulation T F R) (jobs : List (Completion T)) (s' : Simulation T F R) : Prop :=
  s.pass window = some (true, s') ∧
    s'.completions = s.completions.filter (fun q => s'.cursor < q.completionAt) ++ jobs

/-- The request of an arrival occupies no worker. -/
theorem offer_works (h : s.offer now = some s') : AllWork 0 [] [] s.endpoints s'.endpoints := by
  unfold offer at h
  simp only [Option.bind_eq_bind, Option.bind_eq_some_iff, Option.guard_eq_some'] at h
  obtain ⟨-, -, ⟨choice, es, rng⟩, hchoose, h⟩ := h
  have hsame := same_allWork (chooseP2c_cases hchoose).1 0
  cases choice with
  | none =>
    cases h
    exact hsame
  | some index =>
    simp only [Option.bind_eq_some_iff] at h
    obtain ⟨e, he, h⟩ := h
    have hset (c : EndpointController T F R) (pending : List DispatchReservation) :
        AllWork 0 [] [] es (es.set index { e with controller := c, pending }) :=
      AllWork.set he ⟨rfl, rfl, rfl, .nil⟩ (fun q hq => by cases hq) fun q hq => by cases hq
    split at h
    · cases h
      exact hsame.trans (hset _ _)
    · cases h
      exact hsame.trans (hset _ _)

/-- What a pass dispatches and completes. -/
theorem Turn.works (hc : s.Counted) (ht : s.Turn window now asked settled arrived s') :
    ∃ jobs, s'.completions = s.completions.filter (fun q => now < q.completionAt) ++ jobs ∧
      (∀ q ∈ jobs, q.request.dispatchedAt = now) ∧
      AllWork 0 jobs (s.completions.filter fun q => q.completionAt ≤ now) s.endpoints s'.endpoints := by
  obtain ⟨_, answers, -, hanswers, hasked, -⟩ := nextEvent_cases ht.event
  have h1 : AllWork 0 [] [] s.endpoints asked.endpoints := by
    rw [hasked]
    exact same_allWork (asked_same hanswers) 0
  obtain ⟨⟨es, cs, hcomplete, hdrive⟩, -⟩ := settle_drives ht.settle
  have hcs : asked.completions = s.completions := by rw [hasked]
  rw [hcs] at hcomplete
  obtain ⟨h2, rfl⟩ := completeReady_works hcomplete
  have htidy : Tidy asked.endpoints s.completions := by
    rw [hasked]
    exact hc.tidy.same (asked_same hanswers)
  have hposts := completeReady_posts (show Tidy asked.endpoints ([] ++ s.completions) from htidy) hcomplete
  obtain ⟨before, hbefore, hnow, h3⟩ := driveAllFrom_works hposts.tidy.ok hdrive
  obtain ⟨hsettled, -⟩ := settled_counted hc ht.event ht.settle
  obtain ⟨harrived, -, hsame, -⟩ := ht.arrives.spec hsettled
  have h4 : AllWork 0 [] [] settled.endpoints arrived.endpoints := by
    cases ht.arrives with
    | none _ => exact same_allWork (List.forall₂_same.mpr fun e _ => .refl e) 0
    | @offers m _ hoffer _ =>
      have hm : AllWork 0 [] [] settled.endpoints m.endpoints := offer_works hoffer
      exact hm
  obtain ⟨hfinish, -⟩ := finish_drives ht.finish
  obtain ⟨after, hafter, hnow', h5⟩ := driveAllFrom_works harrived.tidy.ok hfinish
  refine ⟨before ++ after, ?_, fun q hq => ?_, ?_⟩
  · rw [hafter, hsame, hbefore, List.append_assoc]
  · exact (List.mem_append.mp hq).elim (fun hq => (hnow q hq).2) fun hq => (hnow' q hq).2
  · have hall := (((h1.trans h2).trans h3).trans h4).trans h5
    simpa only [List.nil_append, List.append_nil] using hall

/-! ## Every run -/

/-- What the requests dispatched so far and the endpoints have come to. -/
structure Served (start : T) (s₀ : Simulation T F R) (jobs : List (Completion T)) (s : Simulation T F R) : Prop where
  endpoints : AllWork 0 jobs (jobs.filter fun q => q.completionAt ≤ s.cursor) s₀.endpoints s.endpoints
  completions : s.completions = jobs.filter fun q => s.cursor < q.completionAt
  started : ∀ q ∈ jobs, start ≤ q.request.dispatchedAt ∧ q.request.dispatchedAt ≤ s.cursor
  sorted : jobs.Pairwise fun q q' => q.request.dispatchedAt ≤ q'.request.dispatchedAt

omit [AddCommMonoid T] [Sub T] [Time T] in
/-- Those that have finished later. -/
theorem finished_later {t t' : T} (h : t ≤ t') (jobs : List (Completion T)) :
    (jobs.filter (fun q => q.completionAt ≤ t) ++
      (jobs.filter fun q => t < q.completionAt).filter fun q => q.completionAt ≤ t').Perm
      (jobs.filter fun q => q.completionAt ≤ t') := by
  have hsplit := List.filter_append_perm (fun q : Completion T => decide (q.completionAt ≤ t))
    (jobs.filter fun q => q.completionAt ≤ t')
  refine List.Perm.trans (List.Perm.of_eq ?_) hsplit
  rw [List.filter_filter, List.filter_filter, List.filter_filter]
  congr 1
  · refine List.filter_congr fun q _ => ?_
    by_cases hq : q.completionAt ≤ t
    · simp [hq, hq.trans h]
    · simp [hq]
  · refine List.filter_congr fun q _ => ?_
    by_cases hq : q.completionAt ≤ t
    · simp [hq, not_lt.mpr hq]
    · simp [hq, not_le.mp hq]

/-- **One pass.** -/
theorem pass_served {jobs : List (Completion T)} {rooms : List ℕ} {start : T} (hw : window.InRange)
    (ha : s.Accounts window rooms) (hstart : start ≤ s.cursor) (hp : s.pass window = some (true, s'))
    (h : Served start s₀ jobs s) :
    ∃ new, Step window s new s' ∧ start ≤ s'.cursor ∧ Served start s₀ (jobs ++ new) s' := by
  rcases pass_cases hp with ⟨hmore, -⟩ | ⟨-, now, asked, settled, arrived, ht⟩ | ⟨hmore, -⟩
  · cases hmore
  · obtain ⟨-, rfl, -⟩ := ht.accounts ha
    obtain ⟨new, hcompletions, hnow, hworks⟩ := ht.works ha.counted
    obtain ⟨-, hlater⟩ := ht.rests (hw.inside ht.inside) ha.counted
    have hnew : ∀ q ∈ new, s'.cursor < q.completionAt := fun q hq =>
      hlater q (by rw [hcompletions]; exact List.mem_append_right _ hq)
    refine ⟨new, ⟨hp, hcompletions⟩, hstart.trans ht.cursor, fun i e hi => ?_, ?_, fun q hq => ?_, ?_⟩
    · obtain ⟨m, hm, hbefore⟩ := h.endpoints i e hi
      obtain ⟨e', hi', hafter⟩ := hworks i m hm
      refine ⟨e', hi', (hbefore.trans hafter).congr rfl ?_⟩
      -- none of the new ones has finished
      have hnone : new.filter (fun q => q.completionAt ≤ s'.cursor) = [] :=
        List.filter_eq_nil_iff.mpr fun q hq => by simpa using hnew q hq
      rw [List.filter_append, hnone, List.append_nil, h.completions]
      exact ((finished_later ht.cursor jobs).filter _).length_eq.symm
    · have hall : new.filter (fun q => s'.cursor < q.completionAt) = new :=
        List.filter_eq_self.mpr fun q hq => decide_eq_true (hnew q hq)
      rw [hcompletions, h.completions, List.filter_append, hall, List.filter_filter]
      congr 1
      refine List.filter_congr fun q _ => ?_
      by_cases hq : s'.cursor < q.completionAt
      · simp [hq, ht.cursor.trans_lt hq]
      · simp [hq]
    · rcases List.mem_append.mp hq with hq | hq
      · exact ⟨(h.started q hq).1, (h.started q hq).2.trans ht.cursor⟩
      · rw [hnow q hq]
        exact ⟨hstart.trans ht.cursor, le_rfl⟩
    · refine List.pairwise_append.mpr ⟨h.sorted, ?_, fun q hq q' hq' => ?_⟩
      · exact List.pairwise_of_forall_mem_list fun q hq q' hq' => by rw [hnow q hq, hnow q' hq']
      · rw [hnow q' hq']
        exact (h.started q hq).2.trans ht.cursor
  · cases hmore

/-- **Every pass of the loop.** -/
theorem reaches_served {rooms : List ℕ} {start : T} (hw : window.InRange) (h : Reaches (Simulation.pass window) s₀ s)
    (h0 : s₀.Accounts window rooms ∧ s₀.Steady) (hstart : s₀.cursor = start) (hnone : s₀.completions = []) :
    ∃ tr, Run (Step window) s₀ tr s ∧ Served start s₀ tr.flatten s := by
  have hall := h.invariant (P := fun s => (s.Accounts window rooms ∧ s.Steady) ∧ start ≤ s.cursor ∧
    ∃ tr, Run (Step window) s₀ tr s ∧ Served start s₀ tr.flatten s) ?_ ?_
  · exact hall.2.2
  · refine ⟨h0, hstart.ge, [], .nil, fun i e hi => ⟨e, hi, .refl _ e⟩, hnone, ?_, List.Pairwise.nil⟩
    intro q hq
    cases hq
  · rintro m s' ⟨hm, hle, tr, hrun, hserved⟩ hp
    obtain ⟨new, hstep, hle', hserved'⟩ := pass_served hw hm.1 hle hp hserved
    refine ⟨reaches_accounts hw (Reaches.start.next hp) hm, hle', tr ++ [new], hrun.snoc hstep, ?_⟩
    rw [List.flatten_append, List.flatten_singleton]
    exact hserved'

end Simulation

omit [Rng R F] in
variable [SeededRng R] in
/-- The workers of a new endpoint are free from the start. -/
theorem new_pool {x : SimulatedEndpoint T} {start : T} {seed controllerId : ℕ}
    (h : EndpointRuntime.new x start seed controllerId = some e) : e.serviceTime = x.serviceTime ∧
      e.availableAt = List.replicate x.workers start ∧ e.dispatched = 0 ∧ e.completed = 0 := by
  unfold EndpointRuntime.new at h
  simp only [Option.bind_eq_bind, Option.bind_eq_some_iff] at h
  obtain ⟨-, -, -, -, c, -, h⟩ := h
  obtain rfl := Option.some.inj h
  exact ⟨rfl, rfl, rfl, rfl⟩

variable [SeededRng R] {config : SimulationConfig T F} {start interval : T} {controllerIds : ℕ → ℕ} {window : Window T}
variable {s s₀ : Simulation T F R} {spec : SimulatedEndpoint T}

/-- The jobs of an endpoint's workers, by when its requests were dispatched. -/
def jobsOf (spec : SimulatedEndpoint T) (start : T) (served : List (Completion T)) : List (Servers.Job T) :=
  Servers.schedule (fun t => saturatingAdd t spec.serviceTime) (List.replicate spec.workers start)
    (served.map fun q => q.request.dispatchedAt)

/-- **An endpoint is a queue in front of its workers.** In every state that a simulation reaches, the requests that an
endpoint has dispatched complete when they would if its workers served them in turn: no more of them are being served than
it has workers, and one waits only while every worker is busy. The endpoint has counted those that have completed, and the
others are left. -/
theorem endpoints_are_queues (hi : arrivalInterval config.offeredRate = some interval)
    (hrange : (checkedAdd start (config.duration + interval)).isSome)
    (hprepare : prepare config start controllerIds = some (window, s₀)) (h : Reaches (Simulation.pass window) s₀ s)
    (hspec : config.endpoints[i]? = some spec) :
    ∃ tr e, Run (Simulation.Step window) s₀ tr s ∧ s.endpoints[i]? = some e ∧
      (ofEndpoint i tr.flatten).map Completion.completionAt =
        (jobsOf spec start (ofEndpoint i tr.flatten)).map Servers.Job.finish ∧
      ofEndpoint i s.completions = (ofEndpoint i tr.flatten).filter (fun q => s.cursor < q.completionAt) ∧
      e.dispatched = (jobsOf spec start (ofEndpoint i tr.flatten)).length ∧
      e.completed = (jobsOf spec start (ofEndpoint i tr.flatten)).countP (fun j => j.finish ≤ s.cursor) ∧
      (∀ t, Servers.busy (jobsOf spec start (ofEndpoint i tr.flatten)) t ≤ spec.workers) ∧
      ∀ j ∈ jobsOf spec start (ofEndpoint i tr.flatten), ∀ t, j.arrival ≤ t → t < j.begins →
        Servers.busy (jobsOf spec start (ofEndpoint i tr.flatten)) t = spec.workers := by
  obtain ⟨-, hw, h0⟩ := prepare_accounts hi hrange hprepare
  obtain ⟨_, endpoints, -, -, he, rfl⟩ := prepare_cases hprepare
  obtain ⟨tr, hrun, hserved⟩ := Simulation.reaches_served hw h h0 rfl rfl
  obtain ⟨e₀, hi₀, hnew⟩ := forall₂_get (mapM_some he) (i := i) (a := (spec, i)) (by rw [List.getElem?_zipIdx, hspec]; simp)
  obtain ⟨hservice, hfree, hdispatched, hcompleted⟩ := new_pool hnew
  obtain ⟨e, hi', hworks⟩ := hserved.endpoints i e₀ hi₀
  rw [Nat.zero_add] at hworks
  have hmono : Monotone fun t => saturatingAdd t spec.serviceTime := fun _ _ h =>
    saturatingAdd_mono_left h spec.serviceTime_le
  have hserve (t : T) : t ≤ saturatingAdd t spec.serviceTime := le_saturatingAdd t _
  have hsub (q : Completion T) (hq : q ∈ ofEndpoint i tr.flatten) : q ∈ tr.flatten := List.mem_of_mem_filter hq
  have hstart : ∀ a ∈ (ofEndpoint i tr.flatten).map fun q => q.request.dispatchedAt, start ≤ a := by
    intro a ha
    obtain ⟨q, hq, rfl⟩ := List.mem_map.mp ha
    exact (hserved.started q (hsub q hq)).1
  have hsorted : ((ofEndpoint i tr.flatten).map fun q => q.request.dispatchedAt).Pairwise (· ≤ ·) :=
    List.pairwise_map.mpr (hserved.sorted.sublist List.filter_sublist)
  have htimes : (ofEndpoint i tr.flatten).map Completion.times =
      (jobsOf spec start (ofEndpoint i tr.flatten)).map Servers.Job.times := by
    have hpool := hworks.pool
    rw [hservice, hfree] at hpool
    have hin : ((ofEndpoint i tr.flatten).map Completion.times).map Prod.fst =
        (ofEndpoint i tr.flatten).map fun q => q.request.dispatchedAt := List.map_map ..
    have hturn := Servers.run_schedule hmono hserve hpool (.refl _) (Servers.ready_replicate hserve _ start start)
      (fun job hjob => hstart job.1 (by rw [← hin]; exact List.mem_map_of_mem hjob)) (by rw [hin]; exact hsorted)
    rwa [hin] at hturn
  have hfinish : (ofEndpoint i tr.flatten).map Completion.completionAt =
      (jobsOf spec start (ofEndpoint i tr.flatten)).map Servers.Job.finish := by
    have hsnd := congrArg (List.map Prod.snd) htimes
    rwa [List.map_map, List.map_map] at hsnd
  refine ⟨tr, e, hrun, hi', hfinish, ?_, ?_, ?_, fun t => ?_, fun j hj t harrived hwaits => ?_⟩
  · rw [hserved.completions, ofEndpoint, ofEndpoint, List.filter_comm]
  · have hlength := congrArg List.length hfinish
    rw [List.length_map, List.length_map] at hlength
    rw [hworks.dispatched, hdispatched, Nat.zero_add, hlength]
  · have hcount := congrArg (List.countP fun t => t ≤ s.cursor) hfinish
    rw [List.countP_map, List.countP_map] at hcount
    rw [hworks.completed, hcompleted, Nat.zero_add, ofEndpoint, List.filter_comm, ← List.countP_eq_length_filter]
    exact hcount
  · have hbusy := Servers.busy_le hserve (List.replicate spec.workers start)
      ((ofEndpoint i tr.flatten).map fun q => q.request.dispatchedAt) t
    rwa [List.length_replicate] at hbusy
  · exact Servers.busy_of_waiting hmono hserve hstart hsorted hj harrived hwaits

end

/-- The second request is dispatched while the only worker serves the first, and completes 300 ms later. -/
theorem endpoints_are_queues_tail : ∃ window, ∃ s₀ s : Simulation ℕ ℚ ℕ, ∃ spec tr,
    prepare (tailConfig 130000000) 0 id = some (window, s₀) ∧ Run (Simulation.Step window) s₀ tr s ∧
      s.completions.map Completion.times = [(0, 200000000), (100000000, 400000000)] ∧
      (jobsOf spec 0 (ofEndpoint 0 tr.flatten)).length = 2 ∧
      ∀ t, Servers.busy (jobsOf spec 0 (ofEndpoint 0 tr.flatten)) t ≤ 1 := by
  have hp : (prepare (R := ℕ) (tailConfig 130000000) 0 id).bind (fun x => (Simulation.pass x.1 x.2).bind fun y =>
      (Simulation.pass x.1 y.2).bind fun z => (Simulation.pass x.1 z.2).map fun w => (y.1 && z.1 && w.1,
        w.2.completions.map Completion.times, w.2.endpoints.map EndpointRuntime.dispatched)) =
      some (true, [(0, 200000000), (100000000, 400000000)], [2]) := by decide +kernel
  simp only [Option.bind_eq_some_iff, Option.map_eq_some_iff, Prod.mk.injEq, Bool.and_eq_true] at hp
  obtain ⟨⟨window, s₀⟩, hprepare, ⟨_, s₁⟩, h1, ⟨_, s₂⟩, h2, ⟨_, s⟩, h3, ⟨⟨rfl, rfl⟩, rfl⟩, htimes, hcounts⟩ := hp
  have h1 : Simulation.pass window s₀ = some (true, s₁) := h1
  have h2 : Simulation.pass window s₁ = some (true, s₂) := h2
  have h3 : Simulation.pass window s₂ = some (true, s) := h3
  have hr : Reaches (Simulation.pass window) s₀ s := ((Reaches.start.next h1).next h2).next h3
  have hi : arrivalInterval (tailConfig 130000000).offeredRate = some 60000000 := by decide +kernel
  have hrange : (checkedAdd 0 ((tailConfig 130000000).duration + 60000000)).isSome := by decide +kernel
  obtain ⟨tr, e, hrun, he, -, -, hdispatched, -, hbusy, -⟩ := endpoints_are_queues hi hrange hprepare hr
    (i := 0) (List.getElem?_cons_zero ..)
  have hcount : (s.endpoints.map EndpointRuntime.dispatched)[0]? = some e.dispatched := by
    rw [List.getElem?_map, he]
    rfl
  rw [hcounts] at hcount
  exact ⟨window, s₀, s, _, tr, hprepare, hrun, htimes, hdispatched ▸ (Option.some.inj hcount).symm, hbusy⟩

end Loadpace.Simulator
