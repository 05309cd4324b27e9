import Loadpace.Accounting
import Loadpace.Exact
import Mathlib.Data.List.Infix

/-!
# Growth on evidence

The concurrency of an endpoint grows only on evidence that the endpoint was the bottleneck: a request that was seen to wait
for its slot (`run_waits`, a reservation's `wasPaced` is the history of its checks) succeeds while at least half the
concurrency is in flight (`Gradient2.onRtt_growth`). `growth_on_evidence` joins the two over whole histories, in exact
arithmetic.
-/

namespace Loadpace

open Systems EndpointController

/-! ## The operating point -/

namespace Gradient2

variable {T F : Type} [AddCommMonoid T] [LinearOrder T] [Sub T] [Time T]
variable [Field F] [LinearOrder F] [IsStrictOrderedRing F] [Powers F]

/-- The operating point is within its bounds. -/
structure Valid (g : Gradient2 T F) : Prop where
  min_pos : 0 < g.config.minConcurrency
  min_le : g.config.minConcurrency ≤ g.concurrency
  le_max : g.concurrency ≤ g.config.maxConcurrency
  factor_le : g.config.failureFactor ≤ 1

omit [Sub T] [Time T] in
theorem new_valid {config : Gradient2Config T F} {g : Gradient2 T F} (h : new config = some g) : g.Valid := by
  unfold new at h
  simp only [Option.bind_eq_bind, Option.bind_eq_some_iff, Option.guard_eq_some'] at h
  obtain ⟨_, ⟨-, hmin, -, -⟩, _, ⟨hlo, hhi⟩, _, -, _, -, _, -, _, ⟨⟨-, hf⟩, -⟩, h⟩ := h
  cases h
  have hmin : (0.0 : F) < config.minConcurrency := hmin
  have hf : config.failureFactor ≤ (1.0 : F) := hf
  norm_num at hmin hf
  exact ⟨hmin, hlo, hhi, hf⟩

/-- A failure keeps the bounds, and does not raise the operating point. -/
theorem onFailureAt_le {g : Gradient2 T F} (h : g.Valid) (now : T) :
    (g.onFailureAt now).Valid ∧ (g.onFailureAt now).concurrency ≤ g.concurrency := by
  have hlo := h.min_le
  have hmm : g.config.minConcurrency ≤ g.config.maxConcurrency := hlo.trans h.le_max
  have hc : (g.onFailureAt now).concurrency =
      max g.config.minConcurrency (min (g.concurrency * g.config.failureFactor) g.config.maxConcurrency) :=
    exact_clamp _ _ _ hmm
  have hpos : 0 ≤ g.concurrency := h.min_pos.le.trans hlo
  have hmul : g.concurrency * g.config.failureFactor ≤ g.concurrency :=
    mul_le_of_le_one_right hpos h.factor_le
  refine ⟨⟨h.min_pos, ?_, ?_, h.factor_le⟩, ?_⟩
  · exact (exact_clamp_bounds _ _ _ hmm).1
  · exact (exact_clamp_bounds _ _ _ hmm).2
  · rw [hc]; exact max_le hlo ((min_le_left _ _).trans hmul)

variable [Secs T F]

/-- A sample keeps the bounds, and it moves the operating point only when it was paced and half of the concurrency is in
flight. -/
theorem onRtt_growth {g : Gradient2 T F} (h : g.Valid) (currentRtt referenceRtt : T) (inflight : ℕ) (wasPaced : Bool)
    (now : T) : (g.onRttWithBaselineAt currentRtt referenceRtt inflight wasPaced now).2.Valid ∧
      ((g.onRttWithBaselineAt currentRtt referenceRtt inflight wasPaced now).2.concurrency ≠ g.concurrency →
        wasPaced = true ∧ g.concurrency / 2 ≤ inflight) := by
  have hmm : g.config.minConcurrency ≤ g.config.maxConcurrency := h.min_le.trans h.le_max
  unfold onRttWithBaselineAt onRttWithReferenceAt
  dsimp only
  split
  · exact ⟨h, fun hne => absurd rfl hne⟩
  · rename_i hpaced
    obtain ⟨hw, hi⟩ := not_or.mp hpaced
    have hw : wasPaced = true := by simpa using hw
    have hi : g.concurrency / (2.0 : F) ≤ (inflight : F) := not_lt.mp hi
    norm_num at hi
    split
    · exact ⟨⟨h.min_pos, h.min_le, h.le_max, h.factor_le⟩, fun hne => absurd rfl hne⟩
    · refine ⟨⟨h.min_pos, ?_, ?_, h.factor_le⟩, fun _ => ⟨hw, hi⟩⟩
      · exact (exact_clamp_bounds _ _ _ hmm).1
      · exact (exact_clamp_bounds _ _ _ hmm).2

end Gradient2

/-! ## Waits -/

section

variable {T F R : Type}

/-- The reservation that the call saw waiting. -/
def waitOf (call : Call T) (reply : Reply T F) : Option DispatchReservation :=
  match call.check?, reply.state? with
  | some (r, _), some (.waitUntil _) => some r
  | _, _ => none

def Entry.waited? (e : Entry T F R) : Option DispatchReservation := waitOf e.call e.reply

/-- The marks in the queue are the identities in `W`, all of them issued. -/
structure Ledger.Marks (l : Ledger T F) (W : ℕ → Prop) : Prop where
  marked : ∀ p ∈ l.entries, p.2 = true ↔ W p.1
  issued : ∀ n, W n → n < l.nextId

theorem Ledger.Marks.congr {l : Ledger T F} {W W' : ℕ → Prop} (h : l.Marks W) (hW : ∀ n, W' n ↔ W n) : l.Marks W' :=
  ⟨fun p hp => (h.marked p hp).trans (hW p.1).symm, fun n hn => h.issued n ((hW n).mp hn)⟩

variable [AddCommMonoid T] [LinearOrder T] [Sub T] [Time T] [F64 F] [Secs T F]

/-- A call marks the reservation that it saw waiting, and no other. -/
theorem LedgerStep.marks {l l' : Ledger T F} {call : Call T} {reply : Reply T F} {W : ℕ → Prop}
    (h : LedgerStep l call reply l') (hn : l.ids.Nodup) (hlt : ∀ n ∈ l.ids, n < l.nextId) (hm : l.Marks W) :
    l'.Marks fun n => W n ∨ waitOf call reply = some (token l.controllerId n) := by
  -- a call that sees nothing waiting
  have quiet (hw : waitOf call reply = none) {l' : Ledger T F} (h' : l'.Marks W) :
      l'.Marks fun n => W n ∨ waitOf call reply = some (token l.controllerId n) := by
    refine h'.congr fun n => ?_
    rw [hw]
    simp
  have same (hw : waitOf call reply = none) {l' : Ledger T F} (he : l'.entries = l.entries) (hi : l'.nextId = l.nextId) :
      l'.Marks fun n => W n ∨ waitOf call reply = some (token l.controllerId n) := by
    refine quiet hw ⟨fun p hp => hm.marked p (he ▸ hp), fun n hn => ?_⟩
    rw [hi]
    exact hm.issued n hn
  have unseen {s : DispatchState T} (hs : reply.state? = some s) (ht : ∀ t, s ≠ .waitUntil t) :
      waitOf call reply = none := by
    unfold waitOf
    rw [hs]
    cases call.check? with
    | none => rfl
    | some x => cases s <;> first | rfl | exact absurd rfl (ht _)
  have unchecked (hc : call.check? = none) : waitOf call reply = none := by
    unfold waitOf
    rw [hc]
  cases h with
  | reserved hroom hid =>
    refine quiet (unchecked rfl) ⟨fun p hp => ?_, fun n hw => (hm.issued n hw).trans (Nat.lt_succ_self _)⟩
    rcases List.mem_append.mp hp with hp | hp
    · exact hm.marked p hp
    · -- the new identity was never seen
      rw [List.mem_singleton.mp hp]
      exact ⟨fun h => (by cases h), fun h => absurd (hm.issued _ h) (Nat.lt_irrefl _)⟩
  | cancelled hh =>
    exact quiet (unchecked rfl) ⟨fun p hp => hm.marked p (List.mem_of_mem_eraseP hp), hm.issued⟩
  | unknown hc hs _ | waitForPrevious hc hs _ _ | inflightLimit hc hs _ _ =>
    exact same (unseen hs fun t h => by cases h) rfl rfl
  | @waitUntil call reply r now t waited rest hc hs hr he _ =>
    have hw : waitOf call reply = some r := by unfold waitOf; rw [hc, hs]
    have htok (n : ℕ) : waitOf call reply = some (token l.controllerId n) ↔ n = r.id := by
      rw [hw, Option.some.injEq]
      constructor
      · rintro rfl; rfl
      · rintro rfl; rw [← hr]; rfl
    have hids : (r.id :: rest.map Prod.fst).Nodup := by
      have := hn
      rwa [Ledger.ids, he] at this
    refine ⟨fun p hp => ?_, fun n hn => ?_⟩
    · rw [htok]
      rcases List.mem_cons.mp hp with rfl | hp
      · exact ⟨fun _ => Or.inr rfl, fun _ => rfl⟩
      · have hne : p.1 ≠ r.id := fun h => (List.nodup_cons.mp hids).1 (h ▸ List.mem_map_of_mem hp)
        rw [hm.marked p (he ▸ List.mem_cons_of_mem _ hp)]
        simp [hne]
    · rcases hn with hn | hn
      · exact hm.issued n hn
      · rw [(htok n).mp hn]
        exact hlt r.id (by rw [Ledger.ids, he]; exact List.mem_cons_self)
  | ready => exact same rfl rfl rfl
  | dispatched hc he _ =>
    refine quiet rfl ⟨fun p hp => hm.marked p (he ▸ List.mem_cons_of_mem _ hp), hm.issued⟩
  | foreign hc _ => exact same (unchecked (Call.check_of_release hc)) rfl rfl
  | @finished call q completion latency now hc _ _ =>
    refine same (unchecked (Call.check_of_release hc)) ?_ ?_
    · cases completion <;> rfl
    · cases completion <;> rfl
  | read hr => exact same (unchecked (Call.check_of_read hr)) rfl rfl
  | _ => exact same rfl rfl rfl

end

section

variable {T F R : Type} [AddCommMonoid T] [LinearOrder T] [Sub T] [Time T] [F64 F] [Secs T F] [Rng R F]
variable {c₀ c c' : EndpointController T F R} {e : Entry T F R} {tr : List (Entry T F R)}

/-- The marks in the queue are the reservations that the history saw waiting. -/
theorem run_marks (h0 : Fresh c₀) (h : Run Step c₀ tr c) :
    c.ledger.Marks fun n => ∃ e ∈ tr, e.waited? = some (token c.controllerId n) := by
  induction h with
  | nil =>
    obtain ⟨config, now, rng, controllerId, hn⟩ := h0
    obtain ⟨_, _, _, _, _, _, _, _, _, rfl⟩ := newWithRng_cases hn
    exact ⟨fun p hp => (by cases hp), fun n ⟨e, he, _⟩ => by cases he⟩
  | @snoc tr m e c hr he ih =>
    have ht := run_tickets h0 hr
    have hn : m.ledger.ids.Nodup := Tickets.waiting_nodup ht
    have hlt : ∀ n ∈ m.ledger.ids, n < m.ledger.nextId := fun n hn => Tickets.lt_next_of_waiting ht hn
    have hid : c.controllerId = m.controllerId := he.ledger.fixed.1
    refine (he.ledger.marks hn hlt ih).congr fun n => ?_
    have hown : m.ledger.controllerId = m.controllerId := rfl
    simp only [List.mem_append, List.mem_singleton, or_and_right, exists_or, exists_eq_left, hid, hown, Entry.waited?]

/-- **The pacing mark**: a dispatched request is marked exactly when some earlier check saw its reservation wait. -/
theorem run_waits (h0 : Fresh c₀) (h : Run Step c₀ tr c) (he : Step c e c') {r : DispatchReservation}
    {q : InFlightRequest T} (hd : e.dispatched? = some (r, q)) :
    q.wasPaced = true ↔ ∃ e ∈ tr, e.waited? = some r := by
  have hm := run_marks h0 h
  rcases he.ledger.kinds with ⟨r', q', waited, rest, now, -, hd', rfl, hc, hent, -, -⟩ | ⟨_, _, _, _, _, _, _, hd', _⟩ |
    ⟨_, _, hd', _⟩ | ⟨hd', _⟩
  · obtain ⟨rfl, rfl⟩ := Prod.mk.inj (Option.some.inj ((show e.dispatched? = _ from hd').symm.trans hd))
    have hr : token c.controllerId r'.id = r' := by
      rw [← show r'.controllerId = c.controllerId from hc]; rfl
    have := hm.marked (r'.id, waited) (by rw [hent]; exact List.mem_cons_self)
    rwa [hr] at this
  all_goals rw [Entry.dispatched?, hd'] at hd; cases hd

end

/-! ## Growth -/

section

variable {T F R : Type} [AddCommMonoid T] [LinearOrder T] [Sub T] [Time T]
variable [Field F] [LinearOrder F] [IsStrictOrderedRing F] [Powers F] [Secs T F]

/-- A call keeps the operating point within its bounds, and raises it only in a success of a paced request with half of the
concurrency in flight. -/
theorem LedgerStep.growth {l l' : Ledger T F} {call : Call T} {reply : Reply T F} (h : LedgerStep l call reply l')
    (hv : l.gradient.Valid) : l'.gradient.Valid ∧ (l.gradient.concurrency < l'.gradient.concurrency →
      ∃ q latency now, call.release? = some (q, .success, latency, now) ∧ q.controllerId = l.controllerId ∧
        q.wasPaced = true ∧ l.gradient.concurrency / 2 ≤ l.inflight) := by
  rcases h.kinds with ⟨r, q, waited, rest, now, -, -, -, -, -, -, rfl⟩ | ⟨q, completion, latency, now, hr, hq, hpos, -, rfl⟩ |
    ⟨now, -, -, rfl⟩ | ⟨-, -, -, hl⟩
  · exact ⟨hv, fun hlt => absurd hlt (lt_irrefl _)⟩
  · have hfail := Gradient2.onFailureAt_le hv now
    cases completion with
    | success =>
      have hg := Gradient2.onRtt_growth hv (l.latency.observeAt latency now).shortRtt
        (l.latency.observeAt latency now).baselineRtt l.inflight q.wasPaced now
      refine ⟨hg.1, fun hlt => ?_⟩
      obtain ⟨hw, hi⟩ := hg.2 hlt.ne'
      exact ⟨q, latency, now, hr, hq, hw, hi⟩
    | failure => exact ⟨hfail.1, fun hlt => absurd hlt (not_lt.mpr hfail.2)⟩
    | abandoned => exact ⟨hfail.1, fun hlt => absurd hlt (not_lt.mpr hfail.2)⟩
  · have hfail := Gradient2.onFailureAt_le hv now
    exact ⟨hfail.1, fun hlt => absurd hlt (not_lt.mpr hfail.2)⟩
  · rw [hl.gradient]
    exact ⟨hv, fun hlt => absurd hlt (lt_irrefl _)⟩

variable [Rng R F] {c₀ c : EndpointController T F R} {tr : List (Entry T F R)}

theorem run_valid (h0 : Fresh c₀) (h : Run Step c₀ tr c) : c.gradient.Valid := by
  refine h.invariant (P := fun c => c.gradient.Valid) ?_ fun _ _ _ hs hv => (hs.ledger.growth hv).1
  obtain ⟨config, now, rng, controllerId, hn⟩ := h0
  obtain ⟨_, _, _, _, _, _, _, hg, _, rfl⟩ := newWithRng_cases hn
  exact Gradient2.new_valid hg

variable {ι : Type} [DecidableEq ι] {cs₀ cs : ι → EndpointController T F R} {trs : List (ι × Entry T F R)}

/-- **Growth only on evidence.** In every history of controllers with distinct identities, a dispatched request is marked
as paced exactly when an earlier check saw its reservation wait; and the next call raises the concurrency only when it
is the success of a request of the controller that was dispatched before, after its reservation was seen to wait,
while at least half the concurrency is in flight. -/
theorem growth_on_evidence (h0 : FreshFleet cs₀) (h : Run (familyStep Step) cs₀ trs cs) (i : ι) :
    (∀ before e after r q, memberHistory i trs = before ++ e :: after → e.dispatched? = some (r, q) →
      (q.wasPaced = true ↔ ∃ e ∈ before, e.waited? = some r)) ∧
    ∀ e c', Step (cs i) e c' → Owned (trs.map Prod.snd ++ [e]) →
      (cs i).gradient.concurrency < c'.gradient.concurrency →
      ∃ q latency now, e.call.release? = some (q, .success, latency, now) ∧ q.controllerId = (cs i).controllerId ∧
        (cs i).gradient.concurrency / 2 ≤ (cs i).inflight ∧ q ∈ requestsIssued (memberHistory i trs) ∧
        ∀ before d after r, memberHistory i trs = before ++ d :: after → d.dispatched? = some (r, q) →
          ∃ e ∈ before, e.waited? = some r := by
  have hwaits {before after : List (Entry T F R)} {e : Entry T F R} {r : DispatchReservation} {q : InFlightRequest T}
      (hs : memberHistory i trs = before ++ e :: after) (hd : e.dispatched? = some (r, q)) :
      q.wasPaced = true ↔ ∃ e ∈ before, e.waited? = some r := by
    have hm := h.member i
    rw [hs] at hm
    obtain ⟨m, hbefore, hrest⟩ := hm.split
    obtain ⟨m', hstep, -⟩ := hrest.cons_inv
    exact run_waits (h0.1 i) hbefore hstep hd
  refine ⟨fun before e after r q hs hd => hwaits hs hd, fun e c' hstep hown hlt => ?_⟩
  obtain ⟨q, latency, now, hr, hq, hw, hi⟩ := (hstep.ledger.growth (run_valid (h0.1 i) (h.member i))).2 hlt
  have hissued : q ∈ requestsIssued (trs.map Prod.snd) := by
    have hle := hown.usable hr
    have hmem : q ∈ (requestsUsed (trs.map Prod.snd) : Multiset (InFlightRequest T)) + {q} :=
      Multiset.mem_add.mpr (Or.inr (Multiset.mem_singleton_self q))
    exact Multiset.mem_coe.mp (Multiset.mem_of_le hle hmem)
  have hid : (cs i).controllerId = (cs₀ i).controllerId := (run_fixed (h.member i)).1
  refine ⟨q, latency, now, hr, hq, hi, ?_, fun before d after r hs hd => (hwaits hs hd).mp hw⟩
  rw [← fleet_issued h0.2 h i]
  exact List.mem_filter.mpr ⟨hissued, by simpa using (show q.controllerId = _ from hq).trans hid⟩

end

/-- The second reservation is seen to wait, and its request succeeds. -/
def evidenceCalls : List (Bool × Call ℕ) :=
  [(true, .reserve 0), (true, .reserve 0), (true, .onDispatched ⟨7, 0⟩ 2), (true, .dispatchState ⟨7, 1⟩ 3),
    (true, .onDispatched ⟨7, 1⟩ 9000000)]

/-- Whether the history after the calls and one more is owned, and the concurrency before and after that one. -/
def evidenceResult (last : Call ℕ) : Option (Bool × ℚ × ℚ) := do
  let (tr, cs) ← playFleet sampleFleet evidenceCalls
  let (reply, c') ← (cs true).exec last
  let trs := tr.map Prod.snd ++ [{ call := last, reply, before := cs true, after := c' }]
  some (trs.inits.all fun p => decide ((requestsUsed p : Multiset (InFlightRequest ℕ)) ≤ requestsIssued p),
    (cs true).gradient.concurrency, c'.gradient.concurrency)

theorem growth_on_evidence_two : ∃ tr cs e c', playFleet sampleFleet evidenceCalls = some (tr, cs) ∧
    Step (cs true) e c' ∧ (cs true).gradient.concurrency = 2 ∧ c'.gradient.concurrency = 101 / 50 ∧
    ∃ q latency now, e.call.release? = some (q, .success, latency, now) ∧ (2 : ℚ) / 2 ≤ (cs true).inflight ∧
      ∀ before d after r, memberHistory true tr = before ++ d :: after → d.dispatched? = some (r, q) →
        ∃ e ∈ before, e.waited? = some r := by
  have hp : evidenceResult (.finish ⟨7, 9000000, true⟩ .success 19000000) = some (true, 2, 101 / 50) := by
    decide +kernel
  simp only [evidenceResult, Option.bind_eq_bind, Option.bind_eq_some_iff, Option.some.injEq, Prod.mk.injEq] at hp
  obtain ⟨⟨tr, cs⟩, hr, ⟨reply, c'⟩, he, howned, hbefore, hafter⟩ := hp
  have hstep : Step (cs true) { call := _, reply, before := cs true, after := c' } c' := ⟨rfl, rfl, he⟩
  have hlt : (cs true).gradient.concurrency < c'.gradient.concurrency := by
    rw [hbefore, hafter]; norm_num
  obtain ⟨q, latency, now, hrel, -, hi, -, hw⟩ :=
    (growth_on_evidence sampleFleet_fresh (playFleet_run hr) true).2 _ c' hstep
      (fun p hpre => of_decide_eq_true (List.all_eq_true.mp howned p ((List.mem_inits _ _).mpr hpre))) hlt
  exact ⟨tr, cs, _, c', hr, hstep, hbefore, hafter, q, latency, now, hrel, hbefore ▸ hi, hw⟩

end Loadpace
