import Loadpace.Deadline

/-!
# Twice at one instant

A controller that was refreshed at an instant finds nothing to change when it is refreshed there again
(`refresh_refresh`), and so a check of the queue head repeats its answer (`check_again`), and so does a reading at every
place in a sequence of readings (`refresh_is_idempotent`). The clock must go on after that instant (`Inside`): at its end
every decision about a probe is due at once.
-/

namespace Loadpace

open EndpointController

section

variable {T F R : Type} [AddCommMonoid T] [LinearOrder T] [Sub T] [Time T]

/-! ## Instants inside the clock's range -/

/-- The clock goes on after the instant. -/
def Inside (now : T) : Prop := ∃ d, 0 < d ∧ (checkedAdd now d).isSome

/-- An instant inside the range has a later one at any distance. -/
theorem Inside.lt {now d : T} (h : Inside now) (h0 : 0 < d) (hd : d ≤ durationMax) : now < saturatingAdd now d := by
  obtain ⟨e, he, hsome⟩ := h
  cases hm : Time.room now with
  | none =>
    rw [saturatingAdd_none hm]
    exact lt_add_of_pos_right now h0
  | some m =>
    rw [saturatingAdd_some hm hd]
    have hle : e ≤ m := (checkedAdd_isSome_iff hm).mp hsome
    exact lt_add_of_pos_right now (lt_min h0 (he.trans_le hle))

theorem Inside.ahead {now t : T} (h : Inside now) (ha : Ahead now t) : now < t := by
  rcases ha with hlt | ⟨interval, hlo, hhi, rfl⟩
  · exact hlt
  · exact h.lt ((fromNanos_pos (by omega)).trans_le hlo) hhi

end

/-! ## A second refresh -/

section

variable {T F R : Type} [AddCommMonoid T] [LinearOrder T] [Sub T] [Time T] [F64 F] [Secs T F] [Rng R F]
variable {c c' m : EndpointController T F R} {r : DispatchReservation} {s : DispatchState T} {now : T}

/-- A controller that a refresh at `now` does not change. -/
structure Idle (c : EndpointController T F R) (now : T) : Prop where
  next : c.Undisturbed now
  scheduled : c.Scheduled
  interval : rateToInterval (c.rateAt now) = some c.pacer.interval
  head : ¬HeadExpired c.pending (c.pacer.nextAt now)

theorem Idle.refresh (h : Idle c now) : c.refresh now = some c := by
  have hupdate : c.updateRate now = some c := updateRate_idle h.next.active h.interval h.head
  unfold EndpointController.refresh
  rw [h.next.probeDecision h.scheduled]
  simp only [Option.bind_eq_bind, Option.bind_some, h.next.active, hupdate, ne_eq, not_true_eq_false, decide_false,
    Bool.or_false]

/-- A refresh leaves nothing to change. -/
theorem refresh_idle_after (hin : Inside now) (h : c.refresh now = some m) : Idle m now := by
  obtain ⟨m₁, hset, hrates⟩ := refresh_pacing h
  have hactive : m.probe.active now = m.probe := by rw [← hrates.probe, ProbeState.active_active]
  have hrate : m₁.rateAt now = m.rateAt now :=
    rateAt_congr hrates.gradient hrates.latency (hrates.probe.trans hactive.symm) hrates.epoch
  refine ⟨fun t ht => hin.ahead (refresh_next h ht), fun hd hnone hne => ?_, hrate ▸ (Gcra.setRate_cases hset).1, ?_⟩
  · obtain ⟨t, ht, -⟩ := refresh_scheduled h hd hnone
    rw [hne] at ht
    cases ht
  · intro hexpired
    unfold HeadExpired at hexpired
    cases hp : m.pending with
    | nil =>
      rw [hp] at hexpired
      cases hexpired
    | cons front rest =>
      rw [hp] at hexpired
      exact absurd (of_decide_eq_true hexpired) (not_lt.mpr (refresh_head h hp))

/-- **A second refresh at the same instant changes nothing.** -/
theorem refresh_refresh (hin : Inside now) (h : c.refresh now = some m) : m.refresh now = some m :=
  (refresh_idle_after hin h).refresh

omit [Rng R F] in
/-- The mark of a waiting queue head is nothing to change. -/
theorem Idle.waited {front : PendingReservation T} {rest : List (PendingReservation T)} (h : Idle m now)
    (hp : m.pending = front :: rest) : Idle (m.waited front rest) now := by
  obtain ⟨hdemand, hnext⟩ := waited_next hp
  refine ⟨fun t ht => h.next t (hnext ▸ ht), fun hd hnone => h.scheduled (hdemand ▸ hd) hnone, h.interval, ?_⟩
  have hhead := h.head
  unfold HeadExpired at hhead ⊢
  rw [hp] at hhead
  exact hhead

/-- **A check of the queue head repeats its answer**, and the second one changes nothing. -/
theorem check_again (hin : Inside now) (hh : c.Heads r) (h : c.dispatchState r now = some (s, c')) :
    c'.Heads r ∧ Idle c' now ∧ c'.dispatchState r now = some (s, c') := by
  obtain ⟨m, front, rest, hm, hp, hid, hch⟩ := head_cases hh h
  have hmh := hh.of_ledger (refresh_ledger hm)
  have hidle := refresh_idle_after hin hm
  cases hch with
  | inflightLimit hfull => exact ⟨hmh, hidle, dispatchState_head hmh hidle.refresh hp (.inflightLimit hfull)⟩
  | ready hroom hdue => exact ⟨hmh, hidle, dispatchState_head hmh hidle.refresh hp (.ready hroom hdue)⟩
  | waitUntil hroom hslot =>
    have hwh : (m.waited front rest).Heads r := ⟨hmh.1, by rw [← hid]; rfl⟩
    have hwidle := hidle.waited hp
    -- the head is marked already
    exact ⟨hwh, hwidle, dispatchState_head hwh hwidle.refresh rfl
      (.waitUntil hroom hslot)⟩

/-! ## Readings at one instant -/

/-- A reading depends on what the refresh leaves. -/
theorem exec_read_congr {call : Call T} (hr : call.IsRead) (hnow : call.now? = some now) (h : c'.refresh now = c.refresh now) :
    c'.exec call = c.exec call := by
  cases call with
  | refresh t =>
    cases hnow
    show (c'.refresh now).map _ = (c.refresh now).map _
    rw [h]
  | load t =>
    cases hnow
    show (c'.load now).map _ = (c.load now).map _
    unfold load predictedCompletion
    rw [h]
  | predictedCompletion t =>
    cases hnow
    show (c'.predictedCompletion now).map _ = (c.predictedCompletion now).map _
    unfold predictedCompletion
    rw [h]
  | snapshot t =>
    cases hnow
    show (c'.snapshot now).map _ = (c.snapshot now).map _
    unfold snapshot
    rw [h]
  | _ => exact hr.elim

/-- A reading of an idle controller leaves it as it is. -/
theorem Idle.read {call : Call T} (h : Idle m now) (hr : call.IsRead) (hnow : call.now? = some now) :
    ∃ reply, m.exec call = some (reply, m) :=
  exec_read hr hnow h.refresh h.next.active

theorem Idle.reads {calls : List (Call T)} (h : Idle m now) (hread : ∀ call ∈ calls, call.IsRead ∧ call.now? = some now) :
    ∃ tr, play m calls = some (tr, m) ∧ tr.map Entry.call = calls ∧ ∀ e ∈ tr, m.exec e.call = some (e.reply, m) := by
  induction calls with
  | nil => exact ⟨[], rfl, rfl, fun e he => by cases he⟩
  | cons call calls ih =>
    obtain ⟨hr, hnow⟩ := hread call List.mem_cons_self
    obtain ⟨reply, hexec⟩ := h.read hr hnow
    obtain ⟨tr, hplay, hcalls, hreplies⟩ := ih fun call hmem => hread call (List.mem_cons_of_mem _ hmem)
    refine ⟨{ call, reply, before := m, after := m } :: tr, ?_, ?_, ?_⟩
    · simp only [play, hexec, Option.bind_eq_bind, Option.bind_some, hplay]
    · rw [List.map_cons, hcalls]
    · exact List.forall_mem_cons.mpr ⟨hexec, hreplies⟩

theorem exec_read_panics {call : Call T} (hr : call.IsRead) (hnow : call.now? = some now) (h : c.refresh now = none) :
    c.exec call = none := by
  cases call with
  | refresh t =>
    cases hnow
    show (c.refresh now).map _ = none
    rw [h]
    rfl
  | load t =>
    cases hnow
    show (c.load now).map _ = none
    unfold load predictedCompletion
    rw [h]
    rfl
  | predictedCompletion t =>
    cases hnow
    show (c.predictedCompletion now).map _ = none
    unfold predictedCompletion
    rw [h]
    rfl
  | snapshot t =>
    cases hnow
    show (c.snapshot now).map _ = none
    unfold snapshot
    rw [h]
    rfl
  | _ => exact hr.elim

/-- **A refresh is idempotent at an instant** before the clock's last one, for every controller: the second one leaves the
state as it is, with its generator and its flags. So every sequence of readings at one instant leaves what a single refresh
leaves, a reading returns the same at every place in the sequence, and a head that was found ready is dispatched at that
instant with any readings in between. -/
theorem refresh_is_idempotent (hin : Inside now) :
    (∀ m, c.refresh now = some m → m.refresh now = some m) ∧
    (∀ calls, calls ≠ [] → (∀ call ∈ calls, call.IsRead ∧ call.now? = some now) →
      (∀ m, c.refresh now = some m → ∃ tr, play c calls = some (tr, m) ∧ tr.map Entry.call = calls ∧
        ∀ e ∈ tr, m.exec e.call = some (e.reply, m)) ∧
      (c.refresh now = none → play c calls = none)) ∧
    ∀ r m calls, c.dispatchState r now = some (.ready, m) → (∀ call ∈ calls, call.IsRead ∧ call.now? = some now) →
      ∃ tr q c', play m calls = some (tr, m) ∧ m.onDispatched r now = some (.ok q, c') := by
  refine ⟨fun m hm => refresh_refresh hin hm, fun calls hne hread => ?_, fun r m calls hready hread => ?_⟩
  · cases calls with
    | nil => exact absurd rfl hne
    | cons call rest =>
      obtain ⟨hr, hnow⟩ := hread call List.mem_cons_self
      refine ⟨fun m hm => ?_, fun hnone => ?_⟩
      · have hidle := refresh_idle_after hin hm
        obtain ⟨reply, hexec⟩ := hidle.read hr hnow
        obtain ⟨tr, hplay, hcalls, hreplies⟩ := hidle.reads fun call hmem => hread call (List.mem_cons_of_mem _ hmem)
        have hfirst : c.exec call = some (reply, m) := (exec_read_congr hr hnow (hm.trans hidle.refresh.symm)).trans hexec
        refine ⟨{ call, reply, before := c, after := m } :: tr, ?_, ?_, ?_⟩
        · simp only [play, hfirst, Option.bind_eq_bind, Option.bind_some, hplay]
        · rw [List.map_cons, hcalls]
        · exact List.forall_mem_cons.mpr ⟨hexec, hreplies⟩
      · have hfirst : c.exec call = none := exec_read_panics hr hnow hnone
        simp only [play, hfirst, Option.bind_eq_bind, Option.bind_none]
  · obtain ⟨hh, -, front, rest, hp, -, hroom, hdue⟩ := ready_cases hready
    obtain ⟨hmh, hidle, -⟩ := check_again hin hh hready
    obtain ⟨tr, hplay, -, -⟩ := hidle.reads hread
    exact ⟨tr, _, _, hplay, onDispatched_ok hmh hidle.refresh hp hroom hdue⟩

end

/-- What the calls leave of the sample. -/
def playSample (calls : List (Call ℕ)) : Option (EndpointController ℕ ℚ ℕ) := (play sample calls).map Prod.snd

/-- The first refresh makes the first decision about a probe. -/
theorem refresh_is_idempotent_two : ∃ c m : EndpointController ℕ ℚ ℕ,
    playSample [.reserve 0, .onDispatched ⟨7, 0⟩ 0, .reserve 0] = some c ∧ c.probe.nextProbeAt = none ∧
      c.refresh 20000000 = some m ∧ m.probe.nextProbeAt ≠ none ∧ m.refresh 20000000 = some m ∧
      (∃ tr, play c [.load 20000000, .snapshot 20000000, .load 20000000] = some (tr, m)) ∧
      ∃ tr q c', play m [.load 20000000] = some (tr, m) ∧ m.onDispatched ⟨7, 1⟩ 20000000 = some (.ok q, c') := by
  have hp : (playSample [.reserve 0, .onDispatched ⟨7, 0⟩ 0, .reserve 0]).bind (fun c => (c.refresh 20000000).bind fun m =>
      (c.dispatchState ⟨7, 1⟩ 20000000).map fun x => (c.probe.nextProbeAt, m.probe.nextProbeAt.isSome, x.1)) =
      some (none, true, .ready) := by decide +kernel
  simp only [Option.bind_eq_some_iff, Option.map_eq_some_iff, Prod.mk.injEq] at hp
  obtain ⟨c, hc, m, hm, ⟨s, m'⟩, hready, hnone, hsome, rfl⟩ := hp
  have hin : Inside 20000000 := ⟨1, by decide, by decide +kernel⟩
  obtain ⟨hagain, hreads, hdispatch⟩ := refresh_is_idempotent (c := c) hin
  obtain rfl : m' = m := Option.some.inj ((ready_cases hready).2.1.symm.trans hm)
  have hread : ∀ call ∈ [Call.load 20000000, .snapshot 20000000, .load 20000000],
      call.IsRead ∧ call.now? = some 20000000 := by
    intro call hmem
    simp only [List.mem_cons, List.not_mem_nil, or_false] at hmem
    rcases hmem with rfl | rfl | rfl
    · exact ⟨trivial, rfl⟩
    · exact ⟨trivial, rfl⟩
    · exact ⟨trivial, rfl⟩
  obtain ⟨tr, hplay, -, -⟩ := (hreads _ (List.cons_ne_nil _ _) hread).1 m' hm
  refine ⟨c, m', hc, hnone, hm, fun h => ?_, hagain m' hm, ⟨tr, hplay⟩, ?_⟩
  · rw [h] at hsome
    cases hsome
  · refine hdispatch ⟨7, 1⟩ m' [.load 20000000] hready fun call hmem => ?_
    rw [List.mem_singleton.mp hmem]
    exact ⟨trivial, rfl⟩

end Loadpace
