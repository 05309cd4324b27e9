import Loadpace.Simulator.Accounting

/-!
# The passes of the event loop

`pass_cases` says what a pass is; inside the clock's range the loop is left by its condition only. A pass keeps the accounts
(`Turn.accounts`), and inside the clock's range it ends at rest (`Turn.steady`): every queue that is left has a head that is
held beyond this instant, driving the endpoint again changes nothing, and every completion is later.
-/

namespace Loadpace.Simulator

open Systems EndpointController Stations

section

variable {T F R : Type} [AddCommMonoid T] [LinearOrder T] [Sub T] [Time T]

/-! ## Inside the clock's range -/

/-- One more arrival after the window is representable. -/
structure Window.InRange (window : Window T) : Prop where
  start : window.start ≤ window.stop
  room : (checkedAdd window.stop window.arrivalInterval).isSome
  positive : 0 < window.arrivalInterval

/-- What can be added to an instant can be added to an earlier one. -/
theorem checkedAdd_earlier {t t' d : T} (h : t ≤ t') (hd : (checkedAdd t' d).isSome) : (checkedAdd t d).isSome := by
  obtain ⟨x, rfl⟩ := le_iff_exists_add.mp h
  cases hm : Time.room t with
  | none =>
    rw [checkedAdd_of_none hm]
    rfl
  | some m =>
    have hx : Time.room (t + x) = some (m - x) := by rw [Time.room_add, hm]; rfl
    rw [checkedAdd_isSome_iff hx] at hd
    rw [checkedAdd_isSome_iff hm]
    exact hd.trans tsub_le_self

variable {window : Window T} {now : T}

theorem Window.InRange.next (hw : window.InRange) (h : now ≤ window.stop) :
    checkedAdd now window.arrivalInterval = some (now + window.arrivalInterval) := by
  obtain ⟨t, ht⟩ := Option.isSome_iff_exists.mp (checkedAdd_earlier h hw.room)
  rw [ht, checkedAdd_some ht]

theorem Window.InRange.inside (hw : window.InRange) (h : now ≤ window.stop) : Inside now :=
  ⟨window.arrivalInterval, hw.positive, checkedAdd_earlier h hw.room⟩

/-- A service that starts now or later ends later. -/
theorem Inside.lt_after {t d : T} (h : Inside now) (ht : now ≤ t) (h0 : 0 < d) (hd : d ≤ durationMax) :
    now < saturatingAdd t d := by
  rcases lt_or_eq_of_le ht with hlt | rfl
  · exact hlt.trans_le (le_saturatingAdd t d)
  · exact h.lt h0 hd

/-! ## Endpoints at rest -/

variable [F64 F] [Secs T F] [Rng R F]
variable {e e' : EndpointRuntime T F R} {es es' : List (EndpointRuntime T F R)} {cs cs' : List (Completion T)} {i : ℕ}

/-- The queue is empty, or its head is held, and time alone changes nothing at this instant. -/
def EndpointRuntime.Rests (e : EndpointRuntime T F R) (now : T) : Prop :=
  e.pending = [] ∨ ∃ r rest s, e.pending = r :: rest ∧ e.controller.dispatchState r now = some (s, e.controller) ∧
    Held now s ∧ Idle e.controller now

theorem drive_rests {pending : List DispatchReservation} (hin : Inside now) (hok : e.Ok) (hp : e.pending = pending)
    (h : drive i now pending e cs = some (e', cs')) (hcs : ∀ q ∈ cs, now < q.completionAt) :
    e'.Rests now ∧ ∀ q ∈ cs', now < q.completionAt := by
  obtain ⟨m, ms, hm, hlater, hend⟩ := drive_induct hok hp h (P := fun _ ys => ∀ q ∈ ys, now < q.completionAt) hcs
    fun x r rest ys x' ys' hx hxp hys hone q hq => by
      obtain ⟨available, job, rfl, hjob⟩ := driveOne_starts hx hxp hone
      rcases List.mem_append.mp hq with hq | hq
      · exact hys q hq
      · rw [List.mem_singleton.mp hq, hjob]
        exact Inside.lt_after hin (le_max_right _ _) hx.service hx.service_le
  rcases hend with ⟨hnil, rfl, rfl⟩ | ⟨r, rest, hp, hstop⟩
  · exact ⟨Or.inl hnil, hlater⟩
  · obtain ⟨s, c, hcheck, hheld, rfl, rfl⟩ := driveOne_stops hin hm hp hstop
    obtain ⟨-, hidle, hagain⟩ := check_again hin (hm.heads hp) hcheck
    exact ⟨Or.inr ⟨r, rest, s, hp, hagain, hheld, hidle⟩, hlater⟩

theorem driveAllFrom_rests (hin : Inside now) (hok : ∀ e ∈ es, e.Ok) (hcs : ∀ q ∈ cs, now < q.completionAt)
    (h : driveAllFrom now i es cs = some (es', cs')) :
    (∀ e ∈ es', e.Rests now) ∧ ∀ q ∈ cs', now < q.completionAt := by
  induction es generalizing i cs es' with
  | nil =>
    cases h
    exact ⟨fun e he => (by cases he), hcs⟩
  | cons e rest ih =>
    rw [driveAllFrom] at h
    simp only [Option.bind_eq_bind, Option.bind_eq_some_iff] at h
    obtain ⟨c, hc, ⟨e₁, cs₁⟩, hdrive, ⟨rest', cs₂⟩, hrest, h⟩ := h
    cases h
    have hone := drive_rests hin ((refresh_alike hc).ok (hok e List.mem_cons_self)) rfl hdrive hcs
    have hothers := ih (fun x hx => hok x (List.mem_cons_of_mem _ hx)) hone.2 hrest
    refine ⟨fun x hx => ?_, hothers.2⟩
    rcases List.mem_cons.mp hx with rfl | hx
    · exact hone.1
    · exact hothers.1 x hx

/-- Driving endpoints whose heads are held changes nothing. -/
theorem driveAllFrom_held (hes : ∀ e ∈ es, e.Rests now ∧ e.pending ≠ []) (i : ℕ) (cs : List (Completion T)) :
    driveAllFrom now i es cs = some (es, cs) := by
  induction es generalizing i with
  | nil => rfl
  | cons e rest ih =>
    obtain ⟨hrest, hne⟩ := hes e List.mem_cons_self
    obtain hnil | ⟨r, others, s, hp, hcheck, hheld, hidle⟩ := hrest
    · exact absurd hnil hne
    · have hone : driveOne i now r e cs = some (false, e, cs) := by
        unfold driveOne
        rcases hheld with rfl | ⟨t, rfl, -⟩
        · simp only [hcheck, Option.bind_eq_bind, Option.bind_some]
        · simp only [hcheck, Option.bind_eq_bind, Option.bind_some]
      have hdrive : drive i now e.pending e cs = some (e, cs) := by
        rw [hp, drive, hone]
        rfl
      have hothers := ih (fun x hx => hes x (List.mem_cons_of_mem _ hx)) (i + 1)
      rw [driveAllFrom, hidle.refresh]
      simp only [Option.bind_eq_bind, Option.bind_some, hdrive, hothers]

theorem refreshAll_held (hes : ∀ e ∈ es, e.Rests now ∧ e.pending ≠ []) :
    es.mapM (fun e => e.refresh now) = some es := by
  induction es with
  | nil => rfl
  | cons e rest ih =>
    obtain ⟨hrest, hne⟩ := hes e List.mem_cons_self
    obtain hnil | ⟨r, others, s, hp, hcheck, hheld, hidle⟩ := hrest
    · exact absurd hnil hne
    · have hone : e.refresh now = some e := by
        unfold EndpointRuntime.refresh
        rw [hidle.refresh]
        rfl
      rw [List.mapM_cons, hone, ih fun x hx => hes x (List.mem_cons_of_mem _ hx)]
      rfl

/-- An endpoint at rest has no dispatch at this instant. -/
theorem nextDispatchAt_rests {wake : Option T} (h : e.Rests now) (hn : nextDispatchAt e now = some (wake, e')) :
    e' = e ∧ ∀ t, wake = some t → now < t := by
  unfold nextDispatchAt at hn
  split at hn
  · cases hn
    exact ⟨rfl, fun t ht => by cases ht⟩
  · rename_i r' rest' hp'
    obtain hnil | ⟨r, rest, s, hp, hcheck, hheld, -⟩ := h
    · rw [hp'] at hnil
      cases hnil
    · obtain ⟨rfl, -⟩ := List.cons.inj (hp.symm.trans hp')
      simp only [hcheck, Option.bind_eq_bind, Option.bind_some] at hn
      cases hn
      refine ⟨rfl, fun t ht => ?_⟩
      rcases hheld with rfl | ⟨u, rfl, hu⟩
      · cases ht
      · exact Option.some.inj ht ▸ hu

omit [Rng R F] in
/-- The completions that are left are later. -/
theorem completeReady_later (h : completeReady now es cs = some (es', cs')) : ∀ q ∈ cs', now < q.completionAt := by
  induction cs generalizing es es' cs' with
  | nil =>
    cases h
    intro q hq
    cases hq
  | cons q rest ih =>
    unfold completeReady at h
    split at h
    · simp only [Option.bind_eq_bind, Option.bind_eq_some_iff] at h
      obtain ⟨m, -, h⟩ := h
      exact ih h
    · rename_i hlater
      simp only [Option.bind_eq_bind, Option.bind_eq_some_iff] at h
      obtain ⟨⟨m, kept⟩, hm, h⟩ := h
      cases h
      intro q' hq'
      rcases List.mem_cons.mp hq' with rfl | hq'
      · exact not_le.mp hlater
      · exact ih hm q' hq'

/-! ## One pass -/

/-- Asking an endpoint for its next dispatch may refresh its controller. -/
theorem nextDispatchAt_same {wake : Option T} (h : nextDispatchAt e now = some (wake, e')) : Same e e' := by
  unfold nextDispatchAt at h
  split at h
  · cases h
    exact .refl e
  · simp only [Option.bind_eq_bind, Option.bind_eq_some_iff] at h
    obtain ⟨⟨s, c⟩, hcheck, h⟩ := h
    cases h
    exact ⟨c, check_alike hcheck, rfl⟩

namespace Simulation

variable [SeededRng R] {s s' asked settled : Simulation T F R}

omit [SeededRng R] in
/-- The next event is an arrival, a completion or a dispatch, and none of the first two is earlier. -/
theorem nextEvent_cases {event : Option T} (h : s.nextEvent = some (event, asked)) :
    ∃ now answers, event = some now ∧ s.endpoints.mapM (fun e => nextDispatchAt e s.cursor) = some answers ∧
      asked = { s with endpoints := answers.map Prod.snd } ∧ now ≤ s.nextArrival ∧
      (∀ q ∈ s.completions, now ≤ q.completionAt) ∧
      (now = s.nextArrival ∨ (∃ q ∈ s.completions, q.completionAt = now) ∨ ∃ x ∈ answers, x.1 = some now) := by
  unfold nextEvent at h
  simp only [Option.bind_eq_bind, Option.bind_eq_some_iff] at h
  obtain ⟨answers, hanswers, h⟩ := h
  cases h
  generalize hc : (s.completions.map Completion.completionAt).min? = completion
  generalize hd : (answers.filterMap Prod.fst).min? = dispatch
  cases hmin : ([some s.nextArrival, completion, dispatch].filterMap id).min? with
  | none =>
    have hnil := List.min?_eq_none_iff.mp hmin
    simp only [List.filterMap_cons, id, List.cons_ne_nil] at hnil
  | some now =>
    obtain ⟨hmem, hle⟩ := List.min?_eq_some_iff.mp hmin
    have hle' (t : T) (ht : some t ∈ [some s.nextArrival, completion, dispatch]) : now ≤ t :=
      hle t (List.mem_filterMap.mpr ⟨_, ht, rfl⟩)
    refine ⟨now, answers, rfl, hanswers, rfl, hle' _ List.mem_cons_self, fun q hq => ?_, ?_⟩
    · cases completion with
      | none =>
        have hnil := List.map_eq_nil_iff.mp (List.min?_eq_none_iff.mp hc)
        rw [hnil] at hq
        cases hq
      | some t =>
        have hfirst := (List.min?_eq_some_iff.mp hc).2 _ (List.mem_map_of_mem hq)
        exact (hle' t (by simp)).trans hfirst
    · obtain ⟨x, hx, rfl : x = some now⟩ := List.mem_filterMap.mp hmem
      simp only [List.mem_cons, List.not_mem_nil, or_false] at hx
      rcases hx with hx | hx | hx
      · exact Or.inl (Option.some.inj hx)
      · rw [← hx] at hc
        obtain ⟨q, hq, hat⟩ := List.mem_map.mp (List.min?_eq_some_iff.mp hc).1
        exact Or.inr (Or.inl ⟨q, hq, hat⟩)
      · rw [← hx] at hd
        obtain ⟨x, hx, hat⟩ := List.mem_filterMap.mp (List.min?_eq_some_iff.mp hd).1
        exact Or.inr (Or.inr ⟨x, hx, hat⟩)

omit [SeededRng R] in
theorem asked_same {answers : List (Option T × EndpointRuntime T F R)}
    (h : s.endpoints.mapM (fun e => nextDispatchAt e s.cursor) = some answers) :
    List.Forall₂ Same s.endpoints (answers.map Prod.snd) :=
  List.forall₂_map_right_iff.mpr ((mapM_some h).imp fun _ _ => nextDispatchAt_same)

omit [SeededRng R] in
theorem settle_drives (h : s.settle now = some settled) :
    (∃ es cs, completeReady now s.endpoints s.completions = some (es, cs) ∧
      driveAll es cs now = some (settled.endpoints, settled.completions)) ∧
      settled = { s with endpoints := settled.endpoints, completions := settled.completions, cursor := now } := by
  unfold settle at h
  simp only [Option.bind_eq_bind, Option.bind_eq_some_iff] at h
  obtain ⟨⟨es, cs⟩, hcomplete, ⟨es', cs'⟩, hdrive, h⟩ := h
  obtain rfl := Option.some.inj h
  exact ⟨⟨es, cs, hcomplete, hdrive⟩, rfl⟩

omit [SeededRng R] in
/-- The completions and the dispatches of an event finish and start jobs. -/
theorem settle_posts (ht : Tidy s.endpoints s.completions) (h : s.settle now = some settled) :
    Posts s.endpoints s.completions 0 settled.endpoints settled.completions ∧
      (Inside now → (∀ e ∈ settled.endpoints, e.Rests now) ∧ ∀ q ∈ settled.completions, now < q.completionAt) := by
  obtain ⟨⟨es, cs, hcomplete, hdrive⟩, -⟩ := settle_drives h
  have hcompleted : Posts s.endpoints s.completions 0 es cs :=
    completeReady_posts (show Tidy s.endpoints ([] ++ s.completions) from ht) hcomplete
  have hdriven := driveAll_posts hcompleted.tidy hdrive
  exact ⟨hcompleted.trans hdriven, fun hin =>
    driveAllFrom_rests hin hcompleted.tidy.ok (completeReady_later hcomplete) hdrive⟩

omit [SeededRng R] in
theorem finish_drives (h : s.finish now = some s') :
    driveAll s.endpoints s.completions now = some (s'.endpoints, s'.completions) ∧
      s' = { s with
        endpoints := s'.endpoints, completions := s'.completions
        maxQueued := max s.maxQueued ((s'.endpoints.map fun e => e.controller.queued).foldl max 0) } := by
  unfold finish at h
  simp only [Option.bind_eq_bind, Option.bind_eq_some_iff] at h
  obtain ⟨⟨es, cs⟩, hdrive, h⟩ := h
  obtain rfl := Option.some.inj h
  exact ⟨hdrive, rfl⟩

/-- The largest of the depths. -/
theorem foldl_max_le {l : List ℕ} {a b : ℕ} : l.foldl max a ≤ b ↔ a ≤ b ∧ ∀ x ∈ l, x ≤ b := by
  induction l generalizing a with
  | nil => simp
  | cons x l ih =>
    rw [List.foldl_cons, ih, List.forall_mem_cons, max_le_iff, and_assoc]

omit [LinearOrder T] [Sub T] [Time T] [F64 F] [Secs T F] [Rng R F] [SeededRng R] [AddCommMonoid T] in
theorem maySchedule_false {c : EndpointController T F R} (h : c.maySchedule = false) :
    c.config.queueCapacity ≤ c.pending.length :=
  Nat.not_lt.mp (of_decide_eq_false h)

/-- What the loop keeps: the counters agree with the books, the arrivals are regular, and no queue was deeper than the
largest capacity. -/
structure Accounts (window : Window T) (rooms : List ℕ) (s : Simulation T F R) : Prop where
  counted : s.Counted
  capacities : (books s.endpoints s.completions).stations.map Station.capacity = rooms
  arrivals : s.nextArrival = window.start + s.offered • window.arrivalInterval
  last : ∀ n, s.offered = n + 1 → window.start + n • window.arrivalInterval ≤ window.stop
  maxQueued : s.maxQueued ≤ rooms.foldl max 0

/-- The endpoints are at rest, and every other event is later. -/
structure Steady (s : Simulation T F R) : Prop where
  rests : ∀ e ∈ s.endpoints, e.Rests s.cursor
  later : ∀ q ∈ s.completions, s.cursor < q.completionAt
  arrival : s.cursor ≤ s.nextArrival

/-- The request of an arrival, if one arrives now; the clock can represent the next one. -/
inductive Arrives (window : Window T) (s : Simulation T F R) (now : T) : Simulation T F R → Prop
  | none : now ≠ s.nextArrival → Arrives window s now s
  | offers {m : Simulation T F R} : now = s.nextArrival → s.offer now = some m →
      (checkedAdd s.nextArrival window.arrivalInterval).isSome →
      Arrives window s now { m with nextArrival := s.nextArrival + window.arrivalInterval }

/-- A pass that goes on. -/
structure Turn (window : Window T) (s : Simulation T F R) (now : T) (asked settled arrived s' : Simulation T F R) :
    Prop where
  event : s.nextEvent = some (some now, asked)
  inside : now ≤ window.stop
  cursor : s.cursor ≤ now
  settle : asked.settle now = some settled
  arrives : settled.Arrives window now arrived
  finish : arrived.finish now = some s'

/-- A pass that leaves the loop at an arrival, because the clock cannot represent the next one. -/
structure Breaks (window : Window T) (s : Simulation T F R) (now : T) (asked settled s' : Simulation T F R) :
    Prop where
  event : s.nextEvent = some (some now, asked)
  inside : now ≤ window.stop
  cursor : s.cursor ≤ now
  settle : asked.settle now = some settled
  arrival : now = s.nextArrival
  offer : settled.offer now = some s'
  last : checkedAdd s.nextArrival window.arrivalInterval = none

omit [AddCommMonoid T] [Sub T] [Time T] [F64 F] [Secs T F] [Rng R F] [SeededRng R] in
/-- In the range of the clock an event of the loop is in the window. -/
theorem event_inside (hg : s.goesOn window.stop = true) (hle : now ≤ s.nextArrival)
    (hcs : ∀ q ∈ s.completions, now ≤ q.completionAt) : now ≤ window.stop := by
  unfold goesOn at hg
  rw [Bool.or_eq_true] at hg
  rcases hg with harrival | hcompletion
  · exact hle.trans (of_decide_eq_true harrival)
  · obtain ⟨q, hq, hat⟩ := List.any_eq_true.mp hcompletion
    exact (hcs q hq).trans (of_decide_eq_true hat)

/-- An offer changes neither the arrivals nor the completions. -/
theorem offer_keeps (h : s.offer now = some s') : s'.nextArrival = s.nextArrival ∧ s'.completions = s.completions ∧
    s'.cursor = s.cursor ∧ s'.maxQueued = s.maxQueued := by
  unfold offer at h
  simp only [Option.bind_eq_bind, Option.bind_eq_some_iff, Option.guard_eq_some'] at h
  obtain ⟨-, -, ⟨choice, es, rng⟩, -, h⟩ := h
  cases choice with
  | none =>
    cases h
    exact ⟨rfl, rfl, rfl, rfl⟩
  | some index =>
    simp only [Option.bind_eq_some_iff] at h
    obtain ⟨e, -, h⟩ := h
    split at h
    · cases h
      exact ⟨rfl, rfl, rfl, rfl⟩
    · cases h
      exact ⟨rfl, rfl, rfl, rfl⟩

/-- **One pass.** It goes on, or it leaves the loop: its condition no longer holds, or the clock ends. -/
theorem pass_cases {more : Bool} (h : s.pass window = some (more, s')) :
    (more = false ∧ s.goesOn window.stop = false ∧ s' = s) ∨
      (more = true ∧ ∃ now asked settled arrived, s.Turn window now asked settled arrived s') ∨
      (more = false ∧ ∃ now asked settled, s.Breaks window now asked settled s') := by
  unfold pass at h
  split at h
  · rename_i hg
    simp only [Option.bind_eq_bind, Option.bind_eq_some_iff] at h
    obtain ⟨⟨event, asked⟩, hevent, h⟩ := h
    obtain ⟨now, answers, rfl, hanswers, hasked, hle, hcs, -⟩ := nextEvent_cases hevent
    have hin := event_inside hg hle hcs
    dsimp only at h
    rw [if_neg (not_lt.mpr hin)] at h
    unfold handle at h
    simp only [Option.bind_eq_bind, Option.bind_eq_some_iff, Option.guard_eq_some'] at h
    obtain ⟨-, hcursor, settled, hsettle, h⟩ := h
    have hcursor : s.cursor ≤ now := by rw [hasked] at hcursor; exact hcursor
    have hnext : settled.nextArrival = s.nextArrival := by rw [(settle_drives hsettle).2, hasked]
    split at h
    · rename_i heq
      obtain ⟨⟨goes, arrived⟩, harrive, h⟩ := Option.bind_eq_some_iff.mp h
      unfold arrive at harrive
      simp only [Option.bind_eq_bind, Option.bind_eq_some_iff] at harrive
      obtain ⟨m, hoffer, harrive⟩ := harrive
      rw [(offer_keeps hoffer).1] at harrive
      cases hadd : checkedAdd settled.nextArrival window.arrivalInterval with
      | none =>
        -- the dispatches that end a pass are left out
        rw [hadd] at harrive
        cases harrive
        cases h
        exact Or.inr (Or.inr ⟨rfl, now, asked, settled, hevent, hin, hcursor, hsettle, heq.trans hnext, hoffer,
          by rw [← hnext]; exact hadd⟩)
      | some next =>
        have hsum := checkedAdd_some hadd
        rw [hadd] at harrive
        cases harrive
        obtain ⟨final, hfinish, h⟩ := Option.bind_eq_some_iff.mp h
        cases h
        refine Or.inr (Or.inl ⟨rfl, now, asked, settled, _, hevent, hin, hcursor, hsettle, ?_, hfinish⟩)
        rw [hsum]
        exact .offers heq hoffer (by rw [hadd]; rfl)
    · rename_i hne
      simp only [Option.bind_some, if_true] at h
      obtain ⟨final, hfinish, h⟩ := Option.bind_eq_some_iff.mp h
      cases h
      exact Or.inr (Or.inl ⟨rfl, now, asked, settled, settled, hevent, hin, hcursor, hsettle, .none hne, hfinish⟩)
  · rename_i hg
    cases h
    exact Or.inl ⟨rfl, by simpa using hg, rfl⟩

/-- In the range of the clock the loop is left by its condition only. -/
theorem Breaks.not_inRange (hw : window.InRange) (h : s.Breaks window now asked settled s') : False := by
  have hnext := hw.next h.inside
  rw [h.arrival, h.last] at hnext
  cases hnext

variable {arrived : Simulation T F R} {rooms : List ℕ}

/-- What the request of an arrival changes. -/
theorem offer_spec (hc : s.Counted) (h : s.offer now = some s') : s'.Counted ∧ s'.offered = s.offered + 1 ∧
    ∃ n, Posts s.endpoints s.completions n s'.endpoints s'.completions := by
  have hsplit := hc.split
  cases offer_cases hc h with
  | @accepted es rng hp => exact ⟨hc.posts hp rfl (by dsimp only; omega), rfl, 1, hp⟩
  | @backpressured es rng hrefresh _ =>
    have hp := Posts.same hc.tidy (refreshAll_same hrefresh)
    exact ⟨hc.posts hp rfl (by dsimp only; omega), rfl, 0, hp⟩

/-- What an arrival changes. -/
theorem Arrives.spec (hc : s.Counted) (h : s.Arrives window now s') : s'.Counted ∧
    (∃ n, Posts s.endpoints s.completions n s'.endpoints s'.completions) ∧ s'.completions = s.completions ∧
    s'.maxQueued = s.maxQueued ∧ s'.cursor = s.cursor ∧
    ((now ≠ s.nextArrival ∧ s'.offered = s.offered ∧ s'.nextArrival = s.nextArrival) ∨
      (now = s.nextArrival ∧ s'.offered = s.offered + 1 ∧ s'.nextArrival = s.nextArrival + window.arrivalInterval)) := by
  cases h with
  | none hne => exact ⟨hc, ⟨0, .refl hc.tidy⟩, rfl, rfl, rfl, Or.inl ⟨hne, rfl, rfl⟩⟩
  | offers heq hoffer _ =>
    obtain ⟨⟨htidy, hbalanced, hsplit, hissued⟩, hoffered, hp⟩ := offer_spec hc hoffer
    obtain ⟨-, hcs, hcursor, hmax⟩ := offer_keeps hoffer
    exact ⟨⟨htidy, hbalanced, hsplit, hissued⟩, hp, hcs, hmax, hcursor, Or.inr ⟨heq, hoffered, rfl⟩⟩

omit [F64 F] [Secs T F] [Rng R F] [SeededRng R] in
/-- No queue is deeper than the largest capacity. -/
theorem Counted.queued_le (hc : s.Counted)
    (hr : (books s.endpoints s.completions).stations.map Station.capacity = rooms) :
    (s.endpoints.map fun e => e.controller.queued).foldl max 0 ≤ rooms.foldl max 0 := by
  refine foldl_max_le.mpr ⟨Nat.zero_le _, fun x hx => ?_⟩
  obtain ⟨e, he, rfl⟩ := List.mem_map.mp hx
  obtain ⟨i, hi⟩ := List.mem_iff_getElem?.mp he
  have hroom : e.controller.queued ≤ e.station.capacity := (hc.balanced.station i _ (books_get s.completions hi)).room
  refine hroom.trans ((foldl_max_le.mp le_rfl).2 _ ?_)
  rw [← hr]
  exact List.mem_map_of_mem (List.mem_map_of_mem he)

omit [SeededRng R] in
/-- What a pass does to the books before its arrival. -/
theorem settled_counted (hc : s.Counted) (hevent : s.nextEvent = some (some now, asked))
    (hsettle : asked.settle now = some settled) :
    settled.Counted ∧ Posts s.endpoints s.completions 0 settled.endpoints settled.completions ∧
      settled = { s with endpoints := settled.endpoints, completions := settled.completions, cursor := now } ∧
      (Inside now → (∀ e ∈ settled.endpoints, e.Rests now) ∧ ∀ q ∈ settled.completions, now < q.completionAt) := by
  obtain ⟨_, answers, heq, hanswers, hasked, -, -, -⟩ := nextEvent_cases hevent
  have hp1 : Posts s.endpoints s.completions 0 asked.endpoints asked.completions := by
    rw [hasked]
    exact Posts.same hc.tidy (asked_same hanswers)
  obtain ⟨hp2, hrests⟩ := settle_posts hp1.tidy hsettle
  have hp := hp1.trans hp2
  have hseq : settled = { s with endpoints := settled.endpoints, completions := settled.completions, cursor := now } := by
    rw [(settle_drives hsettle).2, hasked]
  exact ⟨hc.quiet hp (by rw [hseq]) (by rw [hseq]) (by rw [hseq]), hp, hseq, hrests⟩

/-- **A pass keeps the accounts**, and moves the cursor to its event. -/
theorem Turn.accounts (ha : s.Accounts window rooms) (ht : s.Turn window now asked settled arrived s') :
    s'.Accounts window rooms ∧ s'.cursor = now ∧ now ≤ s'.nextArrival := by
  obtain ⟨_, answers, heq, -, -, hle, -, -⟩ := nextEvent_cases ht.event
  obtain rfl := Option.some.inj heq
  obtain ⟨hc2, hp2, hseq, -⟩ := settled_counted ha.counted ht.event ht.settle
  obtain ⟨hc3, ⟨n, hp3⟩, hcs, hmax, hcursor, hnext⟩ := ht.arrives.spec hc2
  obtain ⟨hdrive, hfeq⟩ := finish_drives ht.finish
  have hp4 := driveAll_posts hc3.tidy hdrive
  have hc4 : s'.Counted := hc3.quiet hp4 (by rw [hfeq]) (by rw [hfeq]) (by rw [hfeq])
  have hrooms : (books s'.endpoints s'.completions).stations.map Station.capacity = rooms := by
    rw [hp4.capacities, hp3.capacities, hp2.capacities, ha.capacities]
  have hsn : settled.nextArrival = s.nextArrival := by rw [hseq]
  have hso : settled.offered = s.offered := by rw [hseq]
  have hsm : settled.maxQueued = s.maxQueued := by rw [hseq]
  have hsc : s'.cursor = now := by rw [hfeq, hcursor, hseq]
  have hn' : s'.nextArrival = arrived.nextArrival := by rw [hfeq]
  have ho' : s'.offered = arrived.offered := by rw [hfeq]
  have hmax' : s'.maxQueued ≤ rooms.foldl max 0 := by
    have hq := hc4.queued_le hrooms
    rw [hfeq, hmax, hsm]
    exact max_le ha.maxQueued hq
  rw [hsn, hso] at hnext
  obtain ⟨hlt, harrivals, hlast⟩ : now ≤ s'.nextArrival ∧
      s'.nextArrival = window.start + s'.offered • window.arrivalInterval ∧
      ∀ n, s'.offered = n + 1 → window.start + n • window.arrivalInterval ≤ window.stop := by
    rw [hn', ho']
    rcases hnext with ⟨hne, ho, hn⟩ | ⟨heq, ho, hn⟩
    · rw [hn, ho]
      exact ⟨hle, ha.arrivals, ha.last⟩
    · rw [hn, ho]
      refine ⟨heq ▸ le_self_add, ?_, fun n hn => ?_⟩
      · rw [succ_nsmul, ← add_assoc, ← ha.arrivals]
      · obtain rfl : s.offered = n := Nat.succ.inj hn
        rw [← ha.arrivals, ← heq]
        exact ht.inside
  exact ⟨⟨hc4, hrooms, harrivals, hlast, hmax'⟩, hsc, hlt⟩

/-- The next arrival is later than the event of a pass. -/
theorem Turn.next (hD : 0 < window.arrivalInterval) (ht : s.Turn window now asked settled arrived s') :
    now < s'.nextArrival := by
  obtain ⟨_, answers, heq, -, hasked, hle, -, -⟩ := nextEvent_cases ht.event
  obtain rfl := Option.some.inj heq
  have hsn : settled.nextArrival = s.nextArrival := by rw [(settle_drives ht.settle).2, hasked]
  have hn' : s'.nextArrival = arrived.nextArrival := by rw [(finish_drives ht.finish).2]
  rw [hn']
  cases ht.arrives with
  | none hne => exact lt_of_le_of_ne (hsn ▸ hle) hne
  | offers harrival _ _ =>
    rw [← harrival]
    exact lt_add_of_pos_right _ hD

/-- The endpoints are at rest after a pass inside the clock's range, and every completion is later. -/
theorem Turn.rests (hin : Inside now) (hc : s.Counted) (ht : s.Turn window now asked settled arrived s') :
    (∀ e ∈ s'.endpoints, e.Rests now) ∧ ∀ q ∈ s'.completions, now < q.completionAt := by
  obtain ⟨hc2, -, -, hrests⟩ := settled_counted hc ht.event ht.settle
  obtain ⟨hc3, -, hcs, -, -, -⟩ := ht.arrives.spec hc2
  obtain ⟨hdrive, -⟩ := finish_drives ht.finish
  exact driveAllFrom_rests hin hc3.tidy.ok (by rw [hcs]; exact (hrests hin).2) hdrive

/-- **A pass ends at rest** inside the clock's range. -/
theorem Turn.steady (hw : window.InRange) (ha : s.Accounts window rooms)
    (ht : s.Turn window now asked settled arrived s') : s'.Steady := by
  obtain ⟨-, hcursor, -⟩ := ht.accounts ha
  obtain ⟨hrests, hlater⟩ := ht.rests (hw.inside ht.inside) ha.counted
  refine ⟨?_, ?_, ?_⟩
  · rw [hcursor]
    exact hrests
  · rw [hcursor]
    exact hlater
  · rw [hcursor]
    exact (ht.next hw.positive).le

end Simulation

end

end Loadpace.Simulator
