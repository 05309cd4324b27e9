import Loadpace.Readiness
import Loadpace.Simulator.Start
import Mathlib.Data.Prod.Lex

/-!
# The progress of a simulation

* `simulator_progress`: the loops of the simulator end, its time does not move back, and a pass that handles neither an
  arrival nor a completion moves the time on.

A pass leaves no dispatch that is due: inside the clock's range its endpoints are at rest, and at the clock's last instant
every slot has come, so a head that is left finds no inflight room (`Turn.still`). So either a pass moves the cursor on, or
it handles the arrival at the cursor, or it lowers the work that is left (`Turn.progress`).
-/

namespace Loadpace.Simulator

open Systems EndpointController Stations

section

variable {T F R : Type} [AddCommMonoid T] [LinearOrder T] [Sub T] [Time T]
variable {start now m t : T}

/-! ## The end of the clock -/

theorem room_of_le (hm : Time.room start = some m) (h0 : start ≤ t) (hle : t ≤ start + m) :
    ∃ x, t = start + x ∧ x ≤ m ∧ Time.room t = some (m - x) := by
  obtain ⟨x, rfl⟩ := le_iff_exists_add.mp h0
  exact ⟨x, rfl, (add_le_add_iff_left start).mp hle, by rw [Time.room_add, hm]; rfl⟩

/-- The clock goes on after every instant but its end. -/
theorem inside_or_end (hm : Time.room start = some m) (h0 : start ≤ now) (hle : now ≤ start + m) :
    Inside now ∨ now = start + m := by
  obtain ⟨x, rfl, hx, hroom⟩ := room_of_le hm h0 hle
  rcases hx.lt_or_eq with hlt | rfl
  · exact Or.inl ⟨m - x, tsub_pos_of_lt hlt, (checkedAdd_isSome_iff hroom).mpr le_rfl⟩
  · exact Or.inr rfl

/-- No sum is later than the end of the clock. -/
theorem saturatingAdd_le_end (hm : Time.room start = some m) (h0 : start ≤ t) (hle : t ≤ start + m) (d : T) :
    saturatingAdd t d ≤ start + m := by
  obtain ⟨e, he⟩ := saturatingAdd_reached t d
  obtain ⟨x, rfl, hx, hroom⟩ := room_of_le hm h0 hle
  have hd : e ≤ m - x := (checkedAdd_isSome_iff hroom).mp (by rw [he]; rfl)
  rw [checkedAdd_some he, add_assoc]
  exact add_le_add_right ((add_le_add_right hd x).trans (add_tsub_cancel_of_le hx).le) start

/-- The time of a clock with an end is a number of nanoseconds. -/
theorem asNanos_strict (hm : Time.room start = some m) {t t' : T} (hlt : t < t') : Time.asNanos t < Time.asNanos t' := by
  refine lt_of_le_of_ne (Time.asNanos_mono hlt.le) fun heq => hlt.ne ?_
  rw [← Time.fromNanos_asNanos start m hm t, heq, Time.fromNanos_asNanos start m hm]

/-! ## At the end of the clock -/

variable [F64 F] [Secs T F] [Rng R F] {c c' : EndpointController T F R} {r : DispatchReservation}

/-- The committed TAT is an instant of the clock. -/
theorem Lived.tat_le (hm : Time.room start = some m) (h : Lived start now c) (hle : now ≤ start + m) :
    c.pacer.tat ≤ start + m := by
  obtain ⟨c₀, tr, clock, h0, hr, hclock⟩ := h
  have hkept : start ≤ clock ∧ (clock ≤ start + m → start ≤ c.pacer.tat ∧ c.pacer.tat ≤ start + m) := by
    refine hr.invariant (P := fun s => start ≤ s.2 ∧ (s.2 ≤ start + m → start ≤ s.1.pacer.tat ∧ s.1.pacer.tat ≤ start + m))
      ?_ fun s e s' hs ⟨hs0, hs1⟩ => ?_
    · obtain ⟨config, rng, controllerId, hn⟩ := h0
      obtain ⟨-, -, -, _, _, pacer, -, -, hp, rfl⟩ := newWithRng_cases hn
      unfold Gcra.new at hp
      simp only [Option.bind_eq_bind, Option.bind_eq_some_iff] at hp
      obtain ⟨interval, -, hp⟩ := hp
      obtain rfl := Option.some.inj hp
      exact ⟨le_rfl, fun _ => ⟨le_rfl, le_self_add⟩⟩
    · obtain ⟨hstep, ⟨t, hnow, hst, hs'⟩ | ⟨-, heq, hs'⟩⟩ := TimedStep.cases hs
      · -- a call at `t` keeps the TAT, moves it to a sum with `t`, or commits it there
        rw [hs']
        refine ⟨hs0.trans hst, fun hend => ?_⟩
        have hold := hs1 (hst.trans hend)
        have hsum (d : T) : start ≤ saturatingAdd t d ∧ saturatingAdd t d ≤ start + m :=
          ⟨(hs0.trans hst).trans (le_saturatingAdd t d), saturatingAdd_le_end hm (hs0.trans hst) hend d⟩
        have hset {g g' : Gcra T} {rate : F} (hg : start ≤ g.tat ∧ g.tat ≤ start + m) (h : g.setRate rate t = some g') :
            start ≤ g'.tat ∧ g'.tat ≤ start + m := by
          obtain ⟨-, rfl | ⟨-, heq⟩⟩ := Gcra.setRate_cases h
          · exact hg
          · rw [heq]
            exact hsum _
        cases hstep.pacing with
        | still _ hsame =>
          rw [hsame]
          exact hold
        | repaced hcall _ _ hrate =>
          obtain rfl := Option.some.inj (hcall.symm.trans hnow)
          exact hset hold hrate
        | @committed u m' pacer hcall _ _ hrate hpast heq =>
          obtain rfl := Option.some.inj (hcall.symm.trans hnow)
          have hat : pacer.nextAt u = u := max_eq_right hpast
          rw [heq]
          show start ≤ saturatingAdd (pacer.nextAt u) pacer.interval ∧ saturatingAdd (pacer.nextAt u) pacer.interval ≤ start + m
          rw [hat]
          exact hsum _
      · rw [hs', heq]
        exact ⟨hs0, hs1⟩
  exact (hkept.2 (hclock.trans hle)).2

/-- At the end of the clock every slot has come: a head waits for inflight room only. -/
theorem check_end {s : DispatchState T} (hm : Time.room start = some m) (hl : Lived start (start + m) c) (hh : c.Heads r)
    (h : c.dispatchState r (start + m) = some (s, c')) :
    (s = .ready ∧ c.inflight < c.config.maxInflight) ∨ (s = .inflightLimit ∧ c.config.maxInflight ≤ c.inflight) := by
  obtain ⟨m', front, rest, hrefresh, hp, -, hch⟩ := head_cases hh h
  have ha := refresh_alike hrefresh
  rw [← ha.inflight, ← ha.config]
  cases hch with
  | inflightLimit hfull => exact Or.inr ⟨rfl, hfull⟩
  | ready hroom _ => exact Or.inl ⟨rfl, hroom⟩
  | waitUntil _ hslot =>
    have htat : m'.pacer.tat ≤ start + m := (hl.refresh hrefresh).tat_le hm le_rfl
    have hhead : front.scheduledAt = m'.pacer.nextAt (start + m) := (refresh_settled hl.lazy le_rfl hrefresh).head hp
    rw [hhead] at hslot
    exact absurd hslot (not_lt.mpr (max_le htat le_rfl))

/-! ## Endpoints without a dispatch that is due -/

variable {e e' : EndpointRuntime T F R} {es es' : List (EndpointRuntime T F R)} {cs cs' : List (Completion T)} {i : ℕ}

/-- The next dispatch of the endpoint, if it has one, is later. -/
def EndpointRuntime.Still (e : EndpointRuntime T F R) (now : T) : Prop :=
  ∀ t e', nextDispatchAt e now = some (some t, e') → now < t

theorem EndpointRuntime.Rests.still (h : e.Rests now) : e.Still now :=
  fun t _ hn => (nextDispatchAt_rests h hn).2 t rfl

/-- A head without inflight room has no next dispatch. -/
theorem still_of_full (hok : e.Ok) (hfull : e.controller.config.maxInflight ≤ e.controller.inflight) : e.Still now := by
  intro t e' hn
  unfold nextDispatchAt at hn
  split at hn
  · cases hn
  · rename_i r rest hp
    simp only [Option.bind_eq_bind, Option.bind_eq_some_iff] at hn
    obtain ⟨⟨s, c⟩, hcheck, hn⟩ := hn
    have hh := hok.heads hp
    obtain ⟨m', front, rest, hrefresh, -, -, hch⟩ := head_cases hh hcheck
    have ha := refresh_alike hrefresh
    rw [← ha.inflight, ← ha.config] at hfull
    cases hch with
    | inflightLimit _ => cases hn
    | ready hroom _ => exact absurd hfull (not_le.mpr hroom)
    | waitUntil hroom _ => exact absurd hfull (not_le.mpr hroom)

/-- At the end of the clock a round stops at a head without inflight room. -/
theorem driveOne_end {rest : List DispatchReservation} (hm : Time.room start = some m) (hok : e.Ok)
    (hl : Lived start (start + m) e.controller) (hp : e.pending = r :: rest)
    (h : driveOne i (start + m) r e cs = some (false, e', cs')) :
    e'.Ok ∧ e'.controller.config.maxInflight ≤ e'.controller.inflight := by
  have hh := hok.heads hp
  have stopped {c : EndpointController T F R} (ha : Alike e.controller c)
      (hfull : e.controller.config.maxInflight ≤ e.controller.inflight) :
      ({ e with controller := c } : EndpointRuntime T F R).Ok ∧ c.config.maxInflight ≤ c.inflight := by
    refine ⟨ha.ok hok, ?_⟩
    rw [ha.inflight, ha.config]
    exact hfull
  obtain ⟨s, c, hs, ⟨hne, -, rfl, -⟩ | ⟨rfl, available, worker, result, c', -, hd, hresult⟩⟩ := driveOne_check hok hp h
  · rcases check_end hm hl hh hs with ⟨rfl, -⟩ | ⟨-, hfull⟩
    · exact absurd rfl hne
    · exact stopped (check_alike hs) hfull
  · rcases hresult with ⟨s', rfl, -, rfl, -⟩ | ⟨-, -, hmore, -⟩
    · -- the check of the dispatch finds the head ready again
      have ha := check_alike hs
      obtain ⟨hne, hcheck⟩ := dispatch_fails hd
      have hh' : c.Heads r := ⟨hh.1.trans ha.controllerId.symm, by rw [ha.queue]; exact hh.2⟩
      rcases check_end hm (hl.check hs) hh' hcheck with ⟨rfl, -⟩ | ⟨-, hfull⟩
      · exact absurd rfl hne
      · rw [ha.inflight, ha.config] at hfull
        exact stopped (ha.trans (check_alike hcheck)) hfull
    · cases hmore

/-- Driving an endpoint leaves no dispatch that is due. -/
theorem drive_still {pending : List DispatchReservation} (hm : Time.room start = some m)
    (hin : Inside now ∨ now = start + m) (hok : e.Ok) (hl : Lived start now e.controller) (hp : e.pending = pending)
    (h : drive i now pending e cs = some (e', cs')) : e'.Still now := by
  obtain ⟨x, ys, hx, hlx, hend⟩ := drive_induct hok hp h (P := fun x _ => Lived start now x.controller) hl
    fun x r rest ys x' ys' _ _ hlx hone => driveOne_lived hlx hone
  rcases hend with ⟨hnil, rfl, rfl⟩ | ⟨r, rest, hp, hstop⟩
  · exact EndpointRuntime.Rests.still (Or.inl hnil)
  · rcases hin with hin | rfl
    · obtain ⟨s, c, hcheck, hheld, rfl, rfl⟩ := driveOne_stops hin hx hp hstop
      obtain ⟨-, hidle, hagain⟩ := check_again hin (hx.heads hp) hcheck
      exact EndpointRuntime.Rests.still (Or.inr ⟨r, rest, s, hp, hagain, hheld, hidle⟩)
    · obtain ⟨hok', hfull⟩ := driveOne_end hm hx hlx hp hstop
      exact still_of_full hok' hfull

theorem driveAllFrom_still (hm : Time.room start = some m) (hin : Inside now ∨ now = start + m) (hok : ∀ e ∈ es, e.Ok)
    (hl : AllLived start now es) (h : driveAllFrom now i es cs = some (es', cs')) : ∀ e ∈ es', e.Still now := by
  induction es generalizing i cs es' with
  | nil =>
    cases h
    exact fun e he => (by cases he)
  | cons e rest ih =>
    rw [driveAllFrom] at h
    simp only [Option.bind_eq_bind, Option.bind_eq_some_iff] at h
    obtain ⟨c, hc, ⟨e₁, cs₁⟩, hdrive, ⟨rest', cs₂⟩, hrest, h⟩ := h
    cases h
    have hlc : Lived start now c := (hl e List.mem_cons_self).refresh hc
    have hone := drive_still (e := { e with controller := c }) hm hin ((refresh_alike hc).ok (hok e List.mem_cons_self)) hlc
      rfl hdrive
    have hothers := ih (fun x hx => hok x (List.mem_cons_of_mem _ hx)) (fun x hx => hl x (List.mem_cons_of_mem _ hx)) hrest
    exact fun x hx => (List.mem_cons.mp hx).elim (fun heq => heq ▸ hone) (hothers x)

/-- The completions of the requests that are dispatched are not earlier. -/
theorem driveAllFrom_after (hok : ∀ e ∈ es, e.Ok) (hcs : ∀ q ∈ cs, now ≤ q.completionAt)
    (h : driveAllFrom now i es cs = some (es', cs')) : ∀ q ∈ cs', now ≤ q.completionAt := by
  induction es generalizing i cs es' with
  | nil =>
    cases h
    exact hcs
  | cons e rest ih =>
    rw [driveAllFrom] at h
    simp only [Option.bind_eq_bind, Option.bind_eq_some_iff] at h
    obtain ⟨c, hc, ⟨e₁, cs₁⟩, hdrive, ⟨rest', cs₂⟩, hrest, h⟩ := h
    cases h
    refine ih (fun x hx => hok x (List.mem_cons_of_mem _ hx)) ?_ hrest
    obtain ⟨x, ys, hx, hys, hend⟩ := drive_induct (e := { e with controller := c })
      ((refresh_alike hc).ok (hok e List.mem_cons_self)) rfl hdrive (P := fun _ ys => ∀ q ∈ ys, now ≤ q.completionAt) hcs
      fun x r rest ys x' ys' hx hxp hys hone q hq => by
        obtain ⟨available, job, rfl, hjob⟩ := driveOne_starts hx hxp hone
        rcases List.mem_append.mp hq with hq | hq
        · exact hys q hq
        · rw [List.mem_singleton.mp hq, hjob]
          exact (le_max_right _ _).trans (le_saturatingAdd _ _)
    rcases hend with ⟨-, rfl, rfl⟩ | ⟨r, rest, hp, hstop⟩
    · exact hys
    · have hround := driveOne_cases hx hp hstop
      generalize hb : false = b at hround
      cases hround with
      | stopped _ => exact hys
      | dispatched _ _ => cases hb

omit [Rng R F] in
/-- A completion that is due leaves the list. -/
theorem completeReady_fewer (h : completeReady now es cs = some (es', cs')) :
    cs'.length ≤ cs.length ∧ ((∃ q ∈ cs, q.completionAt ≤ now) → cs'.length < cs.length) := by
  induction cs generalizing es es' cs' with
  | nil =>
    cases h
    refine ⟨le_rfl, ?_⟩
    rintro ⟨q, hq, -⟩
    cases hq
  | cons q rest ih =>
    unfold completeReady at h
    split at h
    · simp only [Option.bind_eq_bind, Option.bind_eq_some_iff] at h
      obtain ⟨m, -, h⟩ := h
      have hle := (ih h).1
      exact ⟨by rw [List.length_cons]; omega, fun _ => by rw [List.length_cons]; omega⟩
    · rename_i hlater
      simp only [Option.bind_eq_bind, Option.bind_eq_some_iff] at h
      obtain ⟨⟨m, kept⟩, hm, h⟩ := h
      cases h
      obtain ⟨hle, hlt⟩ := ih hm
      refine ⟨Nat.succ_le_succ hle, ?_⟩
      rintro ⟨q', hq', hdue⟩
      rcases List.mem_cons.mp hq' with rfl | hq'
      · exact absurd hdue hlater
      · exact Nat.succ_lt_succ (hlt ⟨q', hq', hdue⟩)

omit [F64 F] [Secs T F] [Rng R F] in
/-- The work that is left does not grow without an arrival, and shrinks with the completions. -/
theorem Posts.work (h : Posts es cs 0 es' cs') :
    (books es' cs').work ≤ (books es cs).work ∧
      (cs'.length < cs.length → (books es' cs').work < (books es cs).work) := by
  obtain ⟨-, events, hcount, hr⟩ := h
  have hwork := run_work hr
  refine ⟨by omega, fun hlt => ?_⟩
  cases events with
  | nil =>
    have hjobs : (books es' cs').jobs.length = (books es cs).jobs.length := by rw [hr.nil_inv]
    rw [books, books, List.length_map, List.length_map] at hjobs
    exact absurd hjobs hlt.ne
  | cons event events =>
    rw [List.length_cons] at hwork
    omega

/-! ## Passes -/

namespace Simulation

variable [SeededRng R] {window : Window T} {s s' asked settled arrived : Simulation T F R} {rooms : List ℕ}

/-- No event is earlier than the cursor, and no dispatch is due at it. -/
structure Onward (s : Simulation T F R) : Prop where
  still : ∀ e ∈ s.endpoints, e.Still s.cursor
  later : ∀ q ∈ s.completions, s.cursor ≤ q.completionAt
  arrival : s.cursor ≤ s.nextArrival

omit [SeededRng R] in
/-- **The next event** is not before the cursor, and when it is at the cursor it is an arrival or a completion. -/
theorem Onward.event (ho : s.Onward) {event : Option T} (h : s.nextEvent = some (event, asked)) :
    ∃ now, event = some now ∧ s.cursor ≤ now ∧
      (s.cursor < now ∨ now = s.nextArrival ∨ ∃ q ∈ s.completions, q.completionAt = now) := by
  obtain ⟨now, answers, rfl, hanswers, -, -, -, hevent⟩ := nextEvent_cases h
  refine ⟨now, rfl, ?_⟩
  rcases hevent with harrival | ⟨q, hq, hat⟩ | ⟨⟨wake, e'⟩, hx, hwake⟩
  · exact ⟨harrival ▸ ho.arrival, Or.inr (Or.inl harrival)⟩
  · exact ⟨hat ▸ ho.later q hq, Or.inr (Or.inr ⟨q, hq, hat⟩)⟩
  · obtain rfl : wake = some now := hwake
    obtain ⟨e, he, hask⟩ := forall₂_mem (mapM_some hanswers) hx
    have hlt := ho.still e he now e' hask
    exact ⟨hlt.le, Or.inl hlt⟩

/-- **A pass leaves no dispatch that is due.** -/
theorem Turn.onward (hm : Time.room start = some m) (hD : 0 < window.arrivalInterval) (hstop : window.stop ≤ start + m)
    (h0 : start ≤ s.cursor) (ha : s.Accounts window rooms) (hl : s.Lives start)
    (ht : s.Turn window now asked settled arrived s') : s'.Onward := by
  obtain ⟨-, hcursor, -⟩ := ht.accounts ha
  obtain ⟨hc2, -, -, -⟩ := settled_counted ha.counted ht.event ht.settle
  obtain ⟨hc3, -, hcs, -, -, -⟩ := ht.arrives.spec hc2
  obtain ⟨hdrive, -⟩ := finish_drives ht.finish
  have hin := inside_or_end hm (h0.trans ht.cursor) (ht.inside.trans hstop)
  have hafter : ∀ q ∈ settled.completions, now ≤ q.completionAt := by
    obtain ⟨_, answers, -, hanswers, hasked, -⟩ := nextEvent_cases ht.event
    obtain ⟨⟨es, cs, hcomplete, hdrive⟩, -⟩ := settle_drives ht.settle
    have hasked : Tidy asked.endpoints ([] ++ asked.completions) := by
      rw [hasked]
      exact ha.counted.tidy.same (asked_same hanswers)
    exact driveAllFrom_after (completeReady_posts hasked hcomplete).tidy.ok
      (fun q hq => (completeReady_later hcomplete q hq).le) hdrive
  refine ⟨?_, ?_, ?_⟩
  · rw [hcursor]
    exact driveAllFrom_still hm hin hc3.tidy.ok (ht.arrived_lived hl).1 hdrive
  · rw [hcursor]
    exact driveAllFrom_after hc3.tidy.ok (by rw [hcs]; exact hafter) hdrive
  · rw [hcursor]
    exact (ht.next hD).le

/-- The nanoseconds that are left, twice, and one more for an arrival at the cursor; then the work that is left. -/
def toGo (window : Window T) (s : Simulation T F R) : ℕ ×ₗ ℕ :=
  toLex (2 * (Time.asNanos window.stop - Time.asNanos s.cursor) + (if s.cursor < s.nextArrival then 0 else 1),
    (books s.endpoints s.completions).work)

/-- **A pass makes progress.** -/
theorem Turn.progress (hm : Time.room start = some m) (hD : 0 < window.arrivalInterval) (ho : s.Onward)
    (ha : s.Accounts window rooms) (ht : s.Turn window now asked settled arrived s') : s'.toGo window < s.toGo window := by
  obtain ⟨-, hcursor, -⟩ := ht.accounts ha
  have hnext := ht.next hD
  have hstop : Time.asNanos now ≤ Time.asNanos window.stop := Time.asNanos_mono ht.inside
  obtain ⟨_, heq, -, hevent⟩ := ho.event ht.event
  obtain rfl := Option.some.inj heq
  unfold toGo
  rw [Prod.Lex.toLex_lt_toLex, hcursor, if_pos hnext]
  rcases lt_or_eq_of_le ht.cursor with hlt | heq
  · have hnanos := asNanos_strict hm hlt
    refine Or.inl ?_
    split <;> omega
  · by_cases harrival : now = s.nextArrival
    · refine Or.inl ?_
      rw [heq, if_neg (by rw [← harrival]; exact lt_irrefl _)]
      omega
    · -- a completion is handled at the cursor, and nothing arrives
      obtain ⟨q, hq, hat⟩ : ∃ q ∈ s.completions, q.completionAt = now := by
        rcases hevent with hlt | hnow | hq
        · exact absurd heq hlt.ne
        · exact absurd hnow harrival
        · exact hq
      obtain ⟨_, answers, hsome, hanswers, hasked, hle, -, -⟩ := nextEvent_cases ht.event
      obtain rfl := Option.some.inj hsome
      have hsn : settled.nextArrival = s.nextArrival := by rw [(settle_drives ht.settle).2, hasked]
      obtain rfl : arrived = settled := by
        cases ht.arrives with
        | none _ => rfl
        | offers hnow _ _ => exact absurd (hnow.trans hsn) harrival
      refine Or.inr ⟨?_, ?_⟩
      · rw [heq, if_pos (lt_of_le_of_ne hle harrival)]
      · have hp1 : Posts s.endpoints s.completions 0 asked.endpoints asked.completions := by
          rw [hasked]
          exact Posts.same ha.counted.tidy (asked_same hanswers)
        obtain ⟨⟨es, cs, hcomplete, hdrive⟩, -⟩ := settle_drives ht.settle
        have hp2 : Posts asked.endpoints asked.completions 0 es cs :=
          completeReady_posts (show Tidy asked.endpoints ([] ++ asked.completions) from hp1.tidy) hcomplete
        have hp3 := driveAll_posts hp2.tidy hdrive
        have hp4 := driveAll_posts hp3.tidy (finish_drives ht.finish).1
        have hcs : asked.completions = s.completions := by rw [hasked]
        have hfewer := hp2.work.2 ((completeReady_fewer hcomplete).2 ⟨q, hcs ▸ hq, hat.le⟩)
        exact (hp4.work.1.trans hp3.work.1).trans_lt (hfewer.trans_le hp1.work.1)

end Simulation

/-! ## Every run -/

variable [SeededRng R] {config : SimulationConfig T F} {controllerIds : ℕ → ℕ} {window : Window T}
variable {s s' s₀ asked settled arrived : Simulation T F R} {rooms : List ℕ}

/-- What every pass keeps: the accounts and the histories, and a cursor in the window. -/
structure Simulation.Going (start : T) (window : Window T) (rooms : List ℕ) (s : Simulation T F R) : Prop where
  accounts : s.Accounts window rooms
  lives : s.Lives start
  started : start ≤ s.cursor
  inside : s.cursor ≤ window.stop

theorem Simulation.Turn.going (hg : s.Going start window rooms)
    (ht : s.Turn window now asked settled arrived s') (hp : s.pass window = some (true, s')) :
    s'.Going start window rooms := by
  obtain ⟨ha, hcursor, -⟩ := ht.accounts hg.accounts
  refine ⟨ha, Simulation.pass_lived hg.lives hp, ?_, ?_⟩
  · rw [hcursor]
    exact hg.started.trans ht.cursor
  · rw [hcursor]
    exact ht.inside

theorem prepare_going (h : prepare config start controllerIds = some (window, s₀)) :
    s₀.Going start window (capacities config) ∧ s₀.Onward ∧ 0 < window.arrivalInterval ∧
      window.stop = saturatingAdd start config.duration := by
  obtain ⟨ha, hs⟩ := prepare_starts h
  have hl := prepare_lived h
  obtain ⟨interval, endpoints, hi, rfl, -, rfl⟩ := prepare_cases h
  exact ⟨⟨ha, hl, le_rfl, le_saturatingAdd start config.duration⟩,
    ⟨fun e he => (hs.rests e he).still, fun q hq => (hs.later q hq).le, hs.arrival⟩, arrivalInterval_pos hi, rfl⟩

theorem reaches_going (h : Reaches (Simulation.pass window) s₀ s) (h0 : s₀.Going start window rooms) :
    s.Going start window rooms := by
  refine h.invariant (P := fun s => s.Going start window rooms) h0 fun s s' hs hp => ?_
  rcases Simulation.pass_cases hp with ⟨hmore, -⟩ | ⟨-, now, asked, settled, arrived, ht⟩ | ⟨hmore, -⟩
  · cases hmore
  · exact ht.going hs hp
  · cases hmore

/-- On a clock with an end every pass leads on. -/
theorem pass_onward (hm : Time.room start = some m) (hD : 0 < window.arrivalInterval) (hstop : window.stop ≤ start + m)
    (hs : s.Going start window rooms ∧ s.Onward) (hp : s.pass window = some (true, s')) :
    (s'.Going start window rooms ∧ s'.Onward) ∧ s'.toGo window < s.toGo window := by
  rcases Simulation.pass_cases hp with ⟨hmore, -⟩ | ⟨-, now, asked, settled, arrived, ht⟩ | ⟨hmore, -⟩
  · cases hmore
  · exact ⟨⟨ht.going hs.1 hp, ht.onward hm hD hstop hs.1.started hs.1.accounts hs.1.lives⟩,
      ht.progress hm hD hs.2 hs.1.accounts⟩
  · cases hmore

theorem stop_le_end (hm : Time.room start = some m) (h : prepare config start controllerIds = some (window, s₀)) :
    window.stop ≤ start + m := by
  rw [(prepare_going h).2.2.2]
  exact saturatingAdd_le_end hm le_rfl le_self_add config.duration

/-- **The event loop ends** on a clock with an end. -/
theorem simulate_ends (hm : Time.room start = some m) :
    ∃ n, ∀ fuel, n ≤ fuel → simulate R fuel config start controllerIds ≠ some none := by
  cases hprepare : (prepare config start controllerIds : Option (Window T × Simulation T F R)) with
  | none =>
    refine ⟨0, fun fuel _ h => ?_⟩
    unfold simulate at h
    rw [hprepare] at h
    cases h
  | some x =>
    obtain ⟨window, s₀⟩ := x
    obtain ⟨hgoing, honward, hD, -⟩ := prepare_going hprepare
    obtain ⟨n, hn⟩ := loop_ends (P := fun s : Simulation T F R => s.Going start window (capacities config) ∧ s.Onward)
      (r := fun s' s => s'.toGo window < s.toGo window) (InvImage.wf (Simulation.toGo window) wellFounded_lt)
      (fun s s' hs hp => pass_onward hm hD (stop_le_end hm hprepare) hs hp) ⟨hgoing, honward⟩
    refine ⟨n, fun fuel hf h => ?_⟩
    unfold simulate at h
    simp only [hprepare, Option.bind_eq_bind, Option.bind_some, Option.bind_eq_some_iff] at h
    obtain ⟨left, hleft, h⟩ := h
    cases left with
    | none => exact hn fuel hf hleft
    | some s =>
      simp only [Option.bind_eq_some_iff] at h
      obtain ⟨r, -, h⟩ := h
      cases h

/-! ## The inner loop -/

/-- The inner loop of `drive_all` as the source has it: every round takes what is now the front of `pending`. -/
def drivePass (index : ℕ) (now : T) :
    EndpointRuntime T F R × List (Completion T) → Option (Bool × EndpointRuntime T F R × List (Completion T))
  | (e, completions) =>
    match e.pending with
    | [] => some (false, e, completions)
    | reservation :: _ => driveOne index now reservation e completions

omit [SeededRng R] in
/-- A round that goes on takes the front away. -/
theorem driveOne_pops {rest : List DispatchReservation} (hp : e.pending = r :: rest)
    (h : driveOne i now r e cs = some (true, e', cs')) : e'.pending = rest := by
  unfold driveOne at h
  simp only [Option.bind_eq_bind, Option.bind_eq_some_iff] at h
  obtain ⟨⟨s, c⟩, -, h⟩ := h
  cases s with
  | ready =>
    cases hworker : firstWorker e.availableAt with
    | none =>
      simp only [hworker] at h
      cases h
    | some x =>
      simp only [hworker, Option.bind_eq_some_iff] at h
      obtain ⟨⟨result, c'⟩, -, h⟩ := h
      cases result with
      | error s' => cases h
      | ok q =>
        cases h
        show e.pending.tail = rest
        rw [hp]
        rfl
  | cancelled =>
    cases h
    show e.pending.tail = rest
    rw [hp]
    rfl
  | waitUntil t => cases h
  | inflightLimit => cases h
  | waitForPrevious => cases h

omit [SeededRng R] in
/-- **The inner loop ends** after a round for each queued request and one more, with the result of `drive`. -/
theorem drive_loop {fuel : ℕ} (hf : e.pending.length < fuel) :
    loop (drivePass i now) fuel (e, cs) = (drive i now e.pending e cs).map some := by
  generalize hp : e.pending = pending at hf
  induction pending generalizing e cs fuel with
  | nil =>
    obtain ⟨fuel, rfl⟩ := Nat.exists_eq_succ_of_ne_zero (Nat.pos_iff_ne_zero.mp hf)
    rw [loop, drivePass, hp]
    rfl
  | cons r rest ih =>
    obtain ⟨fuel, rfl⟩ := Nat.exists_eq_succ_of_ne_zero (Nat.pos_iff_ne_zero.mp (Nat.zero_lt_of_lt hf))
    rw [loop, drivePass, hp, drive]
    dsimp only
    cases hone : driveOne i now r e cs with
    | none => rfl
    | some x =>
      obtain ⟨more, e', cs'⟩ := x
      cases more with
      | false => rfl
      | true =>
        simp only [Option.bind_eq_bind, Option.bind_some, if_true]
        exact ih (driveOne_pops hp hone) (Nat.lt_of_succ_lt_succ hf)

/-- **The progress of the simulator.** For every configuration and seed, on a clock that counts nanoseconds: the event loop
ends, and so does every inner loop; every pass selects an event that is not before the cursor, and one that handles neither
an arrival nor a completion moves the cursor on. -/
theorem simulator_progress (hm : Time.room start = some m) :
    (∃ n, ∀ fuel, n ≤ fuel → simulate R fuel config start controllerIds ≠ some none) ∧
    (∀ (i : ℕ) (now : T) (e : EndpointRuntime T F R) cs fuel, e.pending.length < fuel →
      loop (drivePass i now) fuel (e, cs) = (drive i now e.pending e cs).map some) ∧
    ∀ window (s₀ s : Simulation T F R) event asked, prepare config start controllerIds = some (window, s₀) →
      Reaches (Simulation.pass window) s₀ s → s.nextEvent = some (event, asked) →
      ∃ now, event = some now ∧ s.cursor ≤ now ∧
        (now ≠ s.nextArrival → (∀ q ∈ s.completions, now < q.completionAt) → s.cursor < now) := by
  refine ⟨simulate_ends hm, fun i now e cs fuel hf => drive_loop hf, fun window s₀ s event asked hprepare hr hevent => ?_⟩
  obtain ⟨hgoing, honward, hD, -⟩ := prepare_going hprepare
  have hs : s.Going start window (capacities config) ∧ s.Onward :=
    hr.invariant (P := fun s => s.Going start window (capacities config) ∧ s.Onward) ⟨hgoing, honward⟩
      fun s s' hs hp => (pass_onward hm hD (stop_le_end hm hprepare) hs hp).1
  obtain ⟨now, rfl, hle, hcases⟩ := hs.2.event hevent
  refine ⟨now, rfl, hle, fun hne hlater => ?_⟩
  rcases hcases with hlt | harrival | ⟨q, hq, hat⟩
  · exact hlt
  · exact absurd harrival hne
  · exact absurd (hlater q hq) (by rw [hat]; exact lt_irrefl _)

end

/-- The third event is a dispatch between two arrivals. -/
theorem simulator_progress_tail : ∃ window, ∃ s₀ s asked : Simulation ℕ ℚ ℕ,
    prepare (tailConfig 130000000) 0 id = some (window, s₀) ∧ Reaches (Simulation.pass window) s₀ s ∧
      s.nextEvent = some (some 100000000, asked) ∧ s.cursor < 100000000 := by
  have hp : (prepare (R := ℕ) (tailConfig 130000000) 0 id).bind (fun x => (Simulation.pass x.1 x.2).bind fun y =>
      (Simulation.pass x.1 y.2).bind fun z => z.2.nextEvent.map fun w => (y.1, z.1, w.1, decide (z.2.nextArrival ≠ 100000000),
        z.2.completions.all fun q => decide (100000000 < q.completionAt))) =
      some (true, true, some 100000000, true, true) := by decide +kernel
  simp only [Option.bind_eq_some_iff, Option.map_eq_some_iff, Prod.mk.injEq] at hp
  obtain ⟨⟨window, s₀⟩, hprepare, ⟨_, s₁⟩, h1, ⟨_, s⟩, h2, ⟨_, asked⟩, hevent, rfl, rfl, rfl, hne, hlater⟩ := hp
  have h1 : Simulation.pass window s₀ = some (true, s₁) := h1
  have h2 : Simulation.pass window s₁ = some (true, s) := h2
  have hr : Reaches (Simulation.pass window) s₀ s := (Reaches.start.next h1).next h2
  obtain ⟨now, hnow, -, hlt⟩ := (simulator_progress rfl).2.2 window s₀ s _ asked hprepare hr hevent
  obtain rfl := Option.some.inj hnow
  exact ⟨window, s₀, s, asked, hprepare, hr, hevent,
    hlt (Ne.symm (of_decide_eq_true hne)) fun q hq => of_decide_eq_true (List.all_eq_true.mp hlater q hq)⟩

end Loadpace.Simulator
