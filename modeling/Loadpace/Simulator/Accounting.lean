import Loadpace.Simulator.Endpoints
import Mathlib.Data.List.Forall2

/-!
# The books of a simulation

All that the simulator does to its endpoints and its completions is a run of the stations of `Lib/Stations.lean`
(`Posts`): a completion finishes a job, a dispatch starts one, and a reservation accepts one. So the counters of the
simulation are balanced in every state (`Accounts`).
-/

namespace Loadpace.Simulator

open Systems EndpointController Stations

/-! ## Lists -/

section

variable {α β : Type}

/-- The results of a list of fallible calls. -/
theorem mapM_some {f : α → Option β} {l : List α} {l' : List β} (h : l.mapM f = some l') :
    List.Forall₂ (fun a b => f a = some b) l l' := by
  induction l generalizing l' with
  | nil =>
    cases h
    exact .nil
  | cons a l ih =>
    rw [List.mapM_cons] at h
    simp only [Option.bind_eq_bind, Option.bind_eq_some_iff] at h
    obtain ⟨b, hb, bs, hbs, h⟩ := h
    cases h
    exact .cons hb (ih hbs)

theorem forall₂_get {r : α → β → Prop} {l : List α} {l' : List β} (h : List.Forall₂ r l l') {i : ℕ} {a : α}
    (ha : l[i]? = some a) : ∃ b, l'[i]? = some b ∧ r a b := by
  induction h generalizing i with
  | nil => cases ha
  | cons hab _ ih =>
    cases i with
    | zero =>
      obtain rfl := Option.some.inj ha
      exact ⟨_, rfl, hab⟩
    | succ i => exact ih (i := i) ha

theorem forall₂_mem {r : α → β → Prop} {l : List α} {l' : List β} (h : List.Forall₂ r l l') {b : β} (hb : b ∈ l') :
    ∃ a ∈ l, r a b := by
  induction h with
  | nil => cases hb
  | cons hab _ ih =>
    rcases List.mem_cons.mp hb with rfl | hb
    · exact ⟨_, List.mem_cons_self, hab⟩
    · obtain ⟨a, ha, hr⟩ := ih hb
      exact ⟨a, List.mem_cons_of_mem _ ha, hr⟩

theorem forall₂_set {r : α → α → Prop} (hrefl : ∀ a, r a a) {l : List α} {i : ℕ} {a b : α} (ha : l[i]? = some a)
    (hab : r a b) : List.Forall₂ r l (l.set i b) := by
  induction l generalizing i with
  | nil => cases ha
  | cons x l ih =>
    cases i with
    | zero =>
      obtain rfl := Option.some.inj ha
      exact .cons hab (List.forall₂_same.mpr fun a _ => hrefl a)
    | succ i => exact .cons (hrefl x) (ih (i := i) ha)

theorem set_middle (before after : List α) (a b : α) : (before ++ a :: after).set before.length b = before ++ b :: after := by
  simp

theorem get_middle (before after : List α) (a : α) : (before ++ a :: after)[before.length]? = some a := by
  simp

end

/-! ## Endpoints and completions -/

section

variable {T F R : Type}

/-- The stations of the endpoints, and of the requests that are being served. -/
def books (endpoints : List (EndpointRuntime T F R)) (completions : List (Completion T)) : Stations.State where
  stations := endpoints.map EndpointRuntime.station
  jobs := completions.map Completion.endpoint

/-- The endpoint has another controller, with the same reservations and requests. -/
def Same (e e' : EndpointRuntime T F R) : Prop := ∃ c, Alike e.controller c ∧ e' = { e with controller := c }

theorem Same.refl (e : EndpointRuntime T F R) : Same e e := ⟨e.controller, .refl _, rfl⟩

theorem Same.trans {e e' e'' : EndpointRuntime T F R} (h : Same e e') (h' : Same e' e'') : Same e e'' := by
  obtain ⟨c, ha, rfl⟩ := h
  obtain ⟨c', ha', rfl⟩ := h'
  exact ⟨c', ha.trans ha', rfl⟩

theorem Same.station {e e' : EndpointRuntime T F R} (h : Same e e') : e'.station = e.station := by
  obtain ⟨c, ha, rfl⟩ := h
  exact ha.station

theorem same_trans {es es' es'' : List (EndpointRuntime T F R)} (h : List.Forall₂ Same es es')
    (h' : List.Forall₂ Same es' es'') : List.Forall₂ Same es es'' := by
  induction h generalizing es'' with
  | nil =>
    cases h'
    exact .nil
  | cons hab _ ih =>
    cases h' with
    | cons hbc h' => exact .cons (hab.trans hbc) (ih h')

theorem same_books {es es' : List (EndpointRuntime T F R)} (h : List.Forall₂ Same es es') (cs : List (Completion T)) :
    books es' cs = books es cs := by
  have hmap : es'.map EndpointRuntime.station = es.map EndpointRuntime.station := by
    induction h with
    | nil => rfl
    | cons hab _ ih => rw [List.map_cons, List.map_cons, ih, hab.station]
  rw [books, books, hmap]

variable [AddCommMonoid T] [LinearOrder T] [Sub T] [Time T]

/-- Every endpoint is in order, and every completion is of a request of its endpoint. -/
structure Tidy (endpoints : List (EndpointRuntime T F R)) (completions : List (Completion T)) : Prop where
  ok : ∀ e ∈ endpoints, e.Ok
  owned : ∀ q ∈ completions, ∃ e, endpoints[q.endpoint]? = some e ∧
    q.request.controllerId = e.controller.controllerId

/-- The endpoints and the completions stay tidy, and the change is a run of the books with `accepts` acceptances. -/
structure Posts (es : List (EndpointRuntime T F R)) (cs : List (Completion T)) (accepts : ℕ)
    (es' : List (EndpointRuntime T F R)) (cs' : List (Completion T)) : Prop where
  tidy : Tidy es' cs'
  run : ∃ events, events.countP Event.isAccept = accepts ∧ Run Stations.Step (books es cs) events (books es' cs')

variable {es es' es'' : List (EndpointRuntime T F R)} {cs cs' cs'' before after : List (Completion T)}
variable {e e' : EndpointRuntime T F R} {q : Completion T} {i m n : ℕ} {now : T}

theorem Posts.refl (h : Tidy es cs) : Posts es cs 0 es cs := ⟨h, [], rfl, .nil⟩

theorem Posts.trans (h : Posts es cs m es' cs') (h' : Posts es' cs' n es'' cs'') : Posts es cs (m + n) es'' cs'' := by
  obtain ⟨-, events, hm, hr⟩ := h
  obtain ⟨htidy, events', hn, hr'⟩ := h'
  exact ⟨htidy, events ++ events', by rw [List.countP_append, hm, hn], hr.append hr'⟩

theorem Posts.capacities (h : Posts es cs n es' cs') :
    (books es' cs').stations.map Station.capacity = (books es cs).stations.map Station.capacity := by
  obtain ⟨-, events, -, hr⟩ := h
  exact run_capacities hr

theorem Tidy.same (h : Tidy es cs) (hs : List.Forall₂ Same es es') : Tidy es' cs := by
  refine ⟨fun e' he' => ?_, fun q hq => ?_⟩
  · obtain ⟨e, he, c, ha, rfl⟩ := forall₂_mem hs he'
    exact ha.ok (h.ok e he)
  · obtain ⟨e, he, hid⟩ := h.owned q hq
    obtain ⟨e', he', c, ha, rfl⟩ := forall₂_get hs he
    exact ⟨_, he', hid.trans ha.controllerId.symm⟩

theorem Posts.same (h : Tidy es cs) (hs : List.Forall₂ Same es es') : Posts es cs 0 es' cs :=
  ⟨h.same hs, [], rfl, by rw [same_books hs]; exact .nil⟩

/-- One endpoint changes. -/
theorem Tidy.set (h : Tidy es cs) (hi : es[i]? = some e) (hok : e'.Ok)
    (hid : e'.controller.controllerId = e.controller.controllerId) : Tidy (es.set i e') cs := by
  refine ⟨fun x hx => ?_, fun q hq => ?_⟩
  · rcases List.mem_or_eq_of_mem_set hx with hx | rfl
    · exact h.ok x hx
    · exact hok
  · obtain ⟨x, hx, hown⟩ := h.owned q hq
    by_cases hqi : i = q.endpoint
    · subst hqi
      obtain rfl : e = x := Option.some.inj (hi.symm.trans hx)
      have hlt := (List.getElem?_eq_some_iff.mp hi).1
      exact ⟨e', by rw [List.getElem?_set, if_pos rfl, if_pos hlt], hown.trans hid.symm⟩
    · exact ⟨x, by rw [List.getElem?_set, if_neg hqi]; exact hx, hown⟩

theorem Tidy.remove (h : Tidy es (before ++ q :: after)) : Tidy es (before ++ after) :=
  ⟨h.ok, fun q' hq' => h.owned q' (by
    rw [List.mem_append, List.mem_cons]
    exact (List.mem_append.mp hq').imp id Or.inr)⟩

theorem Tidy.append (h : Tidy es cs) (hi : es[q.endpoint]? = some e)
    (hid : q.request.controllerId = e.controller.controllerId) : Tidy es (cs ++ [q]) := by
  refine ⟨h.ok, fun q' hq' => ?_⟩
  rcases List.mem_append.mp hq' with hq' | hq'
  · exact h.owned q' hq'
  · rw [List.mem_singleton.mp hq']
    exact ⟨e, hi, hid⟩

omit [AddCommMonoid T] [LinearOrder T] [Sub T] [Time T] in
theorem books_set (es : List (EndpointRuntime T F R)) (cs : List (Completion T)) (i : ℕ) (e : EndpointRuntime T F R) :
    books (es.set i e) cs = { stations := (books es cs).stations.set i e.station, jobs := (books es cs).jobs } := by
  rw [books, List.map_set]
  rfl

omit [AddCommMonoid T] [LinearOrder T] [Sub T] [Time T] in
theorem books_append (es : List (EndpointRuntime T F R)) (cs : List (Completion T)) (q : Completion T) :
    books es (cs ++ [q]) = { stations := (books es cs).stations, jobs := (books es cs).jobs ++ [q.endpoint] } := by
  rw [books, List.map_append]
  rfl

omit [AddCommMonoid T] [LinearOrder T] [Sub T] [Time T] in
theorem books_get (cs : List (Completion T)) (hi : es[i]? = some e) : (books es cs).stations[i]? = some e.station := by
  rw [books, List.getElem?_map, hi]
  rfl

/-! ## Completions -/

variable [F64 F] [Secs T F]

/-- A completion releases a request. -/
structure Releases (c c' : EndpointController T F R) : Prop where
  controllerId : c'.controllerId = c.controllerId
  config : c'.config = c.config
  queue : ids c'.pending = ids c.pending
  nextId : c'.nextId = c.nextId
  inflight : c'.inflight = c.inflight - 1

omit [AddCommMonoid T] [LinearOrder T] [Sub T] [Time T] [F64 F] [Secs T F] in
theorem Releases.length {c c' : EndpointController T F R} (h : Releases c c') : c'.pending.length = c.pending.length := by
  simpa [ids] using congrArg List.length h.queue

theorem complete_releases {c c' : EndpointController T F R} {q : InFlightRequest T} {latency : T} {b : Bool}
    (hid : q.controllerId = c.controllerId) (h : c.onComplete q .success latency now = some (b, c')) :
    Releases c c' := by
  rcases onComplete_cases h with ⟨hne, -⟩ | ⟨-, -, -, hu⟩
  · exact absurd hid hne
  · have hl : c'.ledger = c.ledger.release q latency now .success := (updateRate_ledger hu).trans (released_ledger ..)
    exact ⟨congrArg Ledger.controllerId hl, congrArg Ledger.config hl, by rw [← ledger_ids, ← ledger_ids, hl]; rfl,
      congrArg Ledger.nextId hl, congrArg Ledger.inflight hl⟩

/-- One completion finishes a job. -/
theorem completeOne_posts (h : Tidy es (before ++ q :: after)) (hc : completeOne now es q = some es') :
    Posts es (before ++ q :: after) 0 es' (before ++ after) := by
  unfold completeOne at hc
  simp only [Option.bind_eq_bind, Option.bind_eq_some_iff] at hc
  obtain ⟨e, he, ⟨b, c⟩, hcomplete, hc⟩ := hc
  obtain rfl := Option.some.inj hc
  obtain ⟨x, hx, hid⟩ := h.owned q (List.mem_append_right _ List.mem_cons_self)
  obtain rfl : e = x := Option.some.inj (he.symm.trans hx)
  have hr := complete_releases hid hcomplete
  have hok := h.ok e (List.mem_of_getElem? he)
  refine ⟨h.remove.set he ⟨?_, hok.workers, hok.service, hok.service_le, ?_⟩ hr.controllerId, [.finish q.endpoint], rfl, ?_⟩
  · show e.pending = (ids c.pending).map (token c.controllerId)
    rw [hr.queue, hr.controllerId]
    exact hok.mirror
  · show 0 < c.config.queueCapacity
    rw [hr.config]
    exact hok.capacity
  · have hstation : ({ e with controller := c, completed := e.completed + 1 } : EndpointRuntime T F R).station =
        e.station.finish := by
      unfold EndpointRuntime.station Station.finish
      simp only [hr.config, hr.nextId, hr.inflight, hr.length]
    have hjobs : (books es (before ++ q :: after)).jobs =
        before.map Completion.endpoint ++ q.endpoint :: after.map Completion.endpoint := by
      rw [books, List.map_append, List.map_cons]
    have hstep := Stations.Step.finish (books_get (before ++ q :: after) he) hjobs
    rw [books_set, hstation]
    refine Run.single ?_
    rw [show (books es (before ++ after)) = { books es (before ++ q :: after) with
      jobs := before.map Completion.endpoint ++ after.map Completion.endpoint } by rw [books, List.map_append]; rfl]
    exact hstep

theorem completeReady_posts {remaining : List (Completion T)} (h : Tidy es (before ++ cs))
    (hc : completeReady now es cs = some (es', remaining)) : Posts es (before ++ cs) 0 es' (before ++ remaining) := by
  induction cs generalizing es before remaining with
  | nil =>
    cases hc
    exact .refl h
  | cons q rest ih =>
    unfold completeReady at hc
    split at hc
    · simp only [Option.bind_eq_bind, Option.bind_eq_some_iff] at hc
      obtain ⟨m, hm, hc⟩ := hc
      have hone := completeOne_posts h hm
      exact hone.trans (ih hone.tidy hc)
    · simp only [Option.bind_eq_bind, Option.bind_eq_some_iff] at hc
      obtain ⟨⟨m, kept⟩, hm, hc⟩ := hc
      cases hc
      -- the completion stays in front of the rest
      have hshift (xs : List (Completion T)) : before ++ q :: xs = (before ++ [q]) ++ xs := by
        rw [List.append_assoc]
        rfl
      have hkept := @ih es (before ++ [q]) _ (by rw [← hshift rest]; exact h) hm
      rw [← hshift rest, ← hshift kept] at hkept
      exact hkept

/-! ## Dispatches -/

variable [Rng R F]

omit [F64 F] [Secs T F] [Rng R F] in
/-- One dispatch starts a job. -/
theorem round_posts {r : DispatchReservation} (h : Tidy es cs) (hi : es[i]? = some e)
    (hr : Round i now r e cs true e' cs') : Posts es cs 0 (es.set i e') cs' := by
  cases hr with
  | @dispatched c q available worker hserves hq =>
    have hok := h.ok e (List.mem_of_getElem? hi)
    have hwaits : 0 < e.station.waiting := by
      have hlen := hserves.length
      show 0 < e.controller.pending.length
      omega
    have hlt := (List.getElem?_eq_some_iff.mp hi).1
    have hnew : (e.dispatch c worker (saturatingAdd (max available now) e.serviceTime)).Ok := hserves.ok hok
    have hget : (es.set i (e.dispatch c worker (saturatingAdd (max available now) e.serviceTime)))[i]? =
        some (e.dispatch c worker (saturatingAdd (max available now) e.serviceTime)) := by
      rw [List.getElem?_set, if_pos rfl, if_pos hlt]
    have hstep := Stations.Step.start (books_get cs hi) hwaits
    refine ⟨(h.set hi hnew hserves.controllerId).append hget (hq.trans hserves.controllerId.symm), [.start i], rfl,
      Run.single ?_⟩
    rw [books_set, hserves.station, books_append]
    exact hstep

/-- The inner loop: a property that the dispatches keep holds of the endpoint at its end, whose queue is empty or
stopped the last round. -/
theorem drive_induct {P : EndpointRuntime T F R → List (Completion T) → Prop} {pending : List DispatchReservation}
    (hok : e.Ok) (hp : e.pending = pending) (h : drive i now pending e cs = some (e', cs')) (h0 : P e cs)
    (hs : ∀ e r rest cs e' cs', e.Ok → e.pending = r :: rest → P e cs →
      driveOne i now r e cs = some (true, e', cs') → P e' cs') :
    ∃ m ms, m.Ok ∧ P m ms ∧ ((m.pending = [] ∧ e' = m ∧ cs' = ms) ∨
      ∃ r rest, m.pending = r :: rest ∧ driveOne i now r m ms = some (false, e', cs')) := by
  induction pending generalizing e cs with
  | nil =>
    cases h
    exact ⟨_, _, hok, h0, Or.inl ⟨hp, rfl, rfl⟩⟩
  | cons r rest ih =>
    rw [drive] at h
    simp only [Option.bind_eq_bind, Option.bind_eq_some_iff] at h
    obtain ⟨⟨more, e₁, cs₁⟩, hone, h⟩ := h
    have hround := driveOne_cases hok hp hone
    cases more with
    | false =>
      cases h
      exact ⟨e, cs, hok, h0, Or.inr ⟨r, rest, hp, hone⟩⟩
    | true =>
      have hP := hs e r rest cs e₁ cs₁ hok hp h0 hone
      generalize hb : true = b at hround
      cases hround with
      | stopped _ => cases hb
      | dispatched hserves _ =>
        refine ih (hserves.ok hok) ?_ h hP
        show e.pending.tail = rest
        rw [hp]
        rfl

/-- Driving one endpoint starts jobs. -/
theorem drive_posts (h : Tidy es cs) (hi : es[i]? = some e) {pending : List DispatchReservation}
    (hp : e.pending = pending) (hd : drive i now pending e cs = some (e', cs')) : Posts es cs 0 (es.set i e') cs' := by
  have hlt := (List.getElem?_eq_some_iff.mp hi).1
  have hget (x : EndpointRuntime T F R) : (es.set i x)[i]? = some x := by rw [List.getElem?_set, if_pos rfl, if_pos hlt]
  have hsame : es.set i e = es := by
    obtain ⟨_, rfl⟩ := List.getElem?_eq_some_iff.mp hi
    exact List.set_getElem_self hlt
  obtain ⟨m, ms, hok, hm, hend⟩ := drive_induct (h.ok e (List.mem_of_getElem? hi)) hp hd
    (P := fun x ys => Posts es cs 0 (es.set i x) ys) (by rw [hsame]; exact .refl h)
    fun x r rest ys x' ys' hx hxp hP hone => by
      have hround := round_posts hP.tidy (hget x) (driveOne_cases hx hxp hone)
      rw [List.set_set] at hround
      exact hP.trans hround
  rcases hend with ⟨-, rfl, rfl⟩ | ⟨r, rest, hmp, hstop⟩
  · exact hm
  · have hround := driveOne_cases hok hmp hstop
    generalize hb : false = b at hround
    cases hround with
    | @stopped c ha =>
      have hlast := Posts.same hm.tidy (forall₂_set Same.refl (hget m) ⟨c, ha, rfl⟩)
      rw [List.set_set] at hlast
      exact hm.trans hlast
    | dispatched _ _ => cases hb

theorem driveAllFrom_posts {done : List (EndpointRuntime T F R)} (h : Tidy (done ++ es) cs)
    (hd : driveAllFrom now done.length es cs = some (es', cs')) : Posts (done ++ es) cs 0 (done ++ es') cs' := by
  induction es generalizing done cs es' with
  | nil =>
    cases hd
    exact .refl h
  | cons e rest ih =>
    rw [driveAllFrom] at hd
    simp only [Option.bind_eq_bind, Option.bind_eq_some_iff] at hd
    obtain ⟨c, hc, ⟨e₁, cs₁⟩, hdrive, ⟨rest', cs₂⟩, hrest, hd⟩ := hd
    cases hd
    have hsame : Same e { e with controller := c } := ⟨c, refresh_alike hc, rfl⟩
    have h1 := Posts.same h (forall₂_set Same.refl (get_middle done rest e) hsame)
    rw [set_middle] at h1
    have h2 := drive_posts h1.tidy (get_middle done rest { e with controller := c }) rfl hdrive
    rw [set_middle] at h2
    have h3 : Posts ((done ++ [e₁]) ++ rest) cs₁ 0 ((done ++ [e₁]) ++ rest') cs₂ := by
      refine ih ?_ ?_
      · rw [List.append_assoc]
        exact h2.tidy
      · rw [List.length_append]
        exact hrest
    rw [List.append_assoc, List.append_assoc] at h3
    exact (h1.trans h2).trans h3

theorem driveAll_posts (h : Tidy es cs) (hd : driveAll es cs now = some (es', cs')) : Posts es cs 0 es' cs' :=
  driveAllFrom_posts (show Tidy ([] ++ es) cs from h) hd

/-! ## Admission -/

omit [AddCommMonoid T] [LinearOrder T] [Sub T] [Time T] [F64 F] [Secs T F] [Rng R F] in
theorem mem_readyFrom : i ∈ readyFrom es ↔ ∃ e, es[i]? = some e ∧ e.controller.maySchedule = true := by
  unfold readyFrom
  rw [List.mem_filterMap]
  constructor
  · rintro ⟨⟨e, j⟩, hmem, h⟩
    dsimp only at h
    split at h
    · rename_i hmay
      obtain rfl : j = i := Option.some.inj h
      exact ⟨e, List.mem_zipIdx_iff_getElem?.mp hmem, hmay⟩
    · cases h
  · rintro ⟨e, he, hmay⟩
    exact ⟨(e, i), List.mem_zipIdx_iff_getElem?.mpr he, if_pos hmay⟩

omit [AddCommMonoid T] [LinearOrder T] [Sub T] [Time T] [F64 F] [Secs T F] [Rng R F] in
theorem Alike.maySchedule {c c' : EndpointController T F R} (h : Alike c c') : c'.maySchedule = c.maySchedule := by
  unfold EndpointController.maySchedule
  rw [h.length, h.config]

omit [AddCommMonoid T] [LinearOrder T] [Sub T] [Time T] [F64 F] [Secs T F] [Rng R F] in
theorem Same.maySchedule (h : Same e e') : e'.controller.maySchedule = e.controller.maySchedule := by
  obtain ⟨c, ha, rfl⟩ := h
  exact ha.maySchedule

theorem refresh_same (h : e.refresh now = some e') : Same e e' := by
  unfold EndpointRuntime.refresh at h
  simp only [Option.bind_eq_bind, Option.bind_eq_some_iff] at h
  obtain ⟨c, hc, h⟩ := h
  exact ⟨c, refresh_alike hc, (Option.some.inj h).symm⟩

theorem refreshAll_same (h : es.mapM (fun e => e.refresh now) = some es') : List.Forall₂ Same es es' :=
  (mapM_some h).imp fun _ _ => refresh_same

theorem loadOf_same {x : F} (h : loadOf es i now = some (x, es')) : List.Forall₂ Same es es' := by
  unfold loadOf at h
  simp only [Option.bind_eq_bind, Option.bind_eq_some_iff] at h
  obtain ⟨e, he, ⟨load, c⟩, hload, h⟩ := h
  cases h
  exact forall₂_set Same.refl he ⟨c, load_alike hload, rfl⟩

variable [SeededRng R] {rng rng' : R}

theorem chooseBetween_cases {ready : List ℕ} (h : chooseBetween es ready rng now = some (i, es', rng')) :
    i ∈ ready ∧ List.Forall₂ Same es es' := by
  unfold chooseBetween at h
  simp only [Option.bind_eq_bind, Option.bind_eq_some_iff] at h
  obtain ⟨a, ha, b, hb, ⟨aLoad, es₁⟩, haLoad, ⟨bLoad, es₂⟩, hbLoad, h⟩ := h
  cases h
  refine ⟨?_, same_trans (loadOf_same haLoad) (loadOf_same hbLoad)⟩
  dsimp only
  split
  · exact List.mem_of_getElem? ha
  · exact List.mem_of_getElem? hb

/-- The choice is of an endpoint that may schedule; without one, every queue is full. -/
theorem chooseP2c_cases {choice : Option ℕ} (h : chooseP2c es rng now = some (choice, es', rng')) :
    List.Forall₂ Same es es' ∧
      ((choice = none ∧ es.mapM (fun e => e.refresh now) = some es' ∧ ∀ e ∈ es', e.controller.maySchedule = false) ∨
        ∃ i e, choice = some i ∧ es'[i]? = some e ∧ e.controller.maySchedule = true) := by
  unfold chooseP2c at h
  simp only [Option.bind_eq_bind, Option.bind_eq_some_iff] at h
  obtain ⟨es₁, hrefresh, h⟩ := h
  have hsame := refreshAll_same hrefresh
  split at h
  · rename_i hready
    cases h
    refine ⟨hsame, Or.inl ⟨rfl, hrefresh, fun e he => ?_⟩⟩
    obtain ⟨i, hi⟩ := List.mem_iff_getElem?.mp he
    by_contra hmay
    have hmem : i ∈ readyFrom es' := mem_readyFrom.mpr ⟨e, hi, by simpa using hmay⟩
    rw [hready] at hmem
    cases hmem
  · rename_i only hready
    cases h
    have hmem : only ∈ readyFrom es' := by
      rw [hready]
      exact List.mem_cons_self
    obtain ⟨e, he, hmay⟩ := mem_readyFrom.mp hmem
    exact ⟨hsame, Or.inr ⟨only, e, rfl, he, hmay⟩⟩
  · simp only [Option.bind_eq_some_iff] at h
    obtain ⟨⟨i, es₂, rng₂⟩, hchoose, h⟩ := h
    cases h
    obtain ⟨hmem, hloads⟩ := chooseBetween_cases hchoose
    obtain ⟨e, he, hmay⟩ := mem_readyFrom.mp hmem
    obtain ⟨e', he', hs⟩ := forall₂_get hloads he
    exact ⟨same_trans hsame hloads, Or.inr ⟨i, e', rfl, he', hs.maySchedule.trans hmay⟩⟩

omit [F64 F] [Secs T F] [Rng R F] [SeededRng R] in
/-- A reservation of an endpoint that may schedule accepts a job. -/
theorem reserve_posts (now : T) (h : Tidy es cs) (hi : es[i]? = some e) (hmay : e.controller.maySchedule = true)
    (hid : e.controller.nextId ≠ u64Max) : ∃ r c, e.controller.reserve now = (.ok r, c) ∧
      Posts es cs 1 (es.set i { e with controller := c, pending := e.pending ++ [r] }) cs := by
  have hroom : e.controller.pending.length < e.controller.config.queueCapacity := of_decide_eq_true hmay
  have hok := h.ok e (List.mem_of_getElem? hi)
  refine ⟨_, _, reserve_ok e.controller now hroom hid, h.set hi ⟨?_, hok.workers, hok.service, hok.service_le, hok.capacity⟩ rfl,
    [.accept i], rfl, ?_⟩
  · dsimp only
    rw [hok.mirror, ids, ids, List.map_append, List.map_append]
    rfl
  · have hstation : ({ e with
        controller := { e.controller with
          nextId := e.controller.nextId + 1
          pending := e.controller.pending ++
            [{ id := e.controller.nextId, scheduledAt := e.controller.nextVirtualSlot now, wasPaced := false }] }
        pending := e.pending ++ [{ controllerId := e.controller.controllerId, id := e.controller.nextId }] } :
          EndpointRuntime T F R).station = e.station.accept := by
      unfold EndpointRuntime.station Station.accept
      simp only [List.length_append, List.length_cons, List.length_nil, Nat.zero_add]
    rw [books_set, hstation]
    exact Run.single (Stations.Step.accept (books_get cs hi) hroom)

/-! ## The counters -/

namespace Simulation

/-- The counters of a simulation and the books of its endpoints agree. -/
structure Counted (s : Simulation T F R) : Prop where
  tidy : Tidy s.endpoints s.completions
  balanced : Balanced (books s.endpoints s.completions)
  split : s.offered = s.accepted + s.backpressured
  issued : s.accepted = ((books s.endpoints s.completions).stations.map Station.issued).sum

variable {s s' : Simulation T F R}

omit [F64 F] [Secs T F] [Rng R F] [SeededRng R] in
/-- The counters stay in step with the books. -/
theorem Counted.posts (hc : s.Counted) (hp : Posts s.endpoints s.completions n s'.endpoints s'.completions)
    (haccepted : s'.accepted = s.accepted + n) (hsplit : s'.offered = s'.accepted + s'.backpressured) : s'.Counted := by
  obtain ⟨htidy, events, hn, hr⟩ := hp
  refine ⟨htidy, run_balanced hr hc.balanced, hsplit, ?_⟩
  rw [run_issued hr, ← hc.issued, hn]
  exact haccepted

omit [F64 F] [Secs T F] [Rng R F] [SeededRng R] in
/-- Nothing arrives. -/
theorem Counted.quiet (hc : s.Counted) (hp : Posts s.endpoints s.completions 0 s'.endpoints s'.completions)
    (ho : s'.offered = s.offered) (ha : s'.accepted = s.accepted) (hb : s'.backpressured = s.backpressured) :
    s'.Counted := by
  refine hc.posts hp ha ?_
  rw [ho, ha, hb]
  exact hc.split

/-- What the request of an arrival does: it is accepted, or every queue is full and it is backpressured. -/
inductive Offers (s : Simulation T F R) (now : T) : Simulation T F R → Prop
  | accepted {es : List (EndpointRuntime T F R)} {rng : R} : Posts s.endpoints s.completions 1 es s.completions →
      Offers s now { s with offered := s.offered + 1, accepted := s.accepted + 1, endpoints := es, rng }
  | backpressured {es : List (EndpointRuntime T F R)} {rng : R} : s.endpoints.mapM (fun e => e.refresh now) = some es →
      (∀ e ∈ es, e.controller.maySchedule = false) →
      Offers s now { s with offered := s.offered + 1, backpressured := s.backpressured + 1, endpoints := es, rng }

theorem offer_cases (hc : s.Counted) (h : s.offer now = some s') : s.Offers now s' := by
  unfold offer at h
  simp only [Option.bind_eq_bind, Option.bind_eq_some_iff, Option.guard_eq_some'] at h
  obtain ⟨-, hoffered, ⟨choice, es, rng⟩, hchoose, h⟩ := h
  obtain ⟨hsame, ⟨rfl, hrefresh, hfull⟩ | ⟨i, e, rfl, he, hmay⟩⟩ := chooseP2c_cases hchoose
  · cases h
    exact .backpressured hrefresh hfull
  · simp only [he, Option.bind_some] at h
    have hposts := Posts.same hc.tidy hsame
    have hid : e.controller.nextId ≠ u64Max := by
      -- no endpoint has given out more identities than requests were accepted
      have hle : e.controller.nextId ≤ s.accepted := by
        rw [hc.issued, ← same_books hsame s.completions]
        refine List.single_le_sum (fun _ _ => Nat.zero_le _) _ ?_
        exact List.mem_map_of_mem (List.mem_map_of_mem (List.mem_of_getElem? he))
      have hsplit := hc.split
      omega
    obtain ⟨r, c, hreserve, hreserved⟩ := reserve_posts now hposts.tidy he hmay hid
    rw [hreserve] at h
    cases h
    have hall := hposts.trans hreserved
    rw [Nat.zero_add] at hall
    exact .accepted hall

end Simulation

end

end Loadpace.Simulator
