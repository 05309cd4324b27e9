import Loadpace.Reservations
import Mathlib.Data.Multiset.Filter
import Mathlib.Data.Multiset.Count

/-!
# Inflight accounting

A dispatch issues an `InFlightRequest`, and `finish`, `onComplete` and `onAbandoned` use one up. The type has no copies, so
a history uses a request at most as often as it was issued (`Owned`). `inflight_accounting` counts what each controller
did, and shows that a request that can still be used finds its controller's inflight count positive.
-/

namespace Loadpace

open Systems EndpointController

section

variable {T F R : Type}

/-- The requests that a history issued. -/
def requestsIssued (tr : List (Entry T F R)) : List (InFlightRequest T) :=
  tr.filterMap fun e => e.dispatched?.map Prod.snd

variable [Sub T]

/-- The request that the call used up. -/
def Entry.used? (e : Entry T F R) : Option (InFlightRequest T) := e.call.release?.map Prod.fst

/-- How the controller's own request ended, when the call released one. -/
def Entry.ownRelease? (e : Entry T F R) : Option Completion := ownReleaseOf e.before.controllerId e.call

/-- The requests that a history used up. -/
def requestsUsed (tr : List (Entry T F R)) : List (InFlightRequest T) := tr.filterMap Entry.used?

/-- Each request is used up at most once, and after it was issued. -/
def Owned (tr : List (Entry T F R)) : Prop :=
  ∀ p, p <+: tr → (requestsUsed p : Multiset (InFlightRequest T)) ≤ requestsIssued p

/-- A request that an owned history uses up next was issued more often than it was used. -/
theorem Owned.usable {tr : List (Entry T F R)} {e : Entry T F R} {q : InFlightRequest T} {x : Completion × T × T}
    (h : Owned (tr ++ [e])) (hr : e.call.release? = some (q, x)) :
    (requestsUsed tr : Multiset (InFlightRequest T)) + {q} ≤ requestsIssued tr := by
  have hd : e.dispatched? = none := by
    unfold Entry.dispatched? dispatchedOf
    split
    · rename_i hc _
      rw [hc] at hr
      cases hr
    · rfl
  have hp := h _ (List.prefix_refl _)
  unfold requestsUsed requestsIssued at hp ⊢
  rw [List.filterMap_append, List.filterMap_append] at hp
  simpa [Entry.used?, hr, hd, ← Multiset.coe_add] using hp

/-- How the controller's own requests ended. -/
def releases (tr : List (Entry T F R)) : List Completion := tr.filterMap Entry.ownRelease?

end

variable {T F R : Type} [AddCommMonoid T] [LinearOrder T] [Sub T] [Time T] [F64 F] [Secs T F] [Rng R F]

/-- The counters of a controller and its history. -/
structure Accounts (tr : List (Entry T F R)) (c : EndpointController T F R) : Prop where
  inflight : c.inflight + (releases tr).length = (dispatched tr).length
  capped : c.inflight ≤ c.config.maxInflight
  completed : c.completed = (releases tr).count .success + (releases tr).count .failure
  samples : c.latency.samples = (releases tr).count .success
  failures : c.failures =
    (releases tr).count .failure + (releases tr).count .abandoned + tr.countP (fun e => e.call.isAdmissionFailure)

section Member

variable {c₀ c c' : EndpointController T F R} {tr : List (Entry T F R)} {e : Entry T F R}

/-- One call keeps the accounts. -/
theorem Accounts.step (ha : Accounts tr c) (h : Step c e c') : Accounts (tr ++ [e]) c' := by
  have hrel : releases (tr ++ [e]) = releases tr ++ e.ownRelease?.toList := by
    unfold releases
    rw [List.filterMap_append]
    cases hr : e.ownRelease? <;> simp [hr]
  have hdis : (dispatched (tr ++ [e])).length = (dispatched tr).length + e.dispatched?.toList.length := by
    unfold dispatched
    rw [List.filterMap_append]
    cases hd : e.dispatched? <;> simp [hd]
  have hadm : (tr ++ [e]).countP (fun e => e.call.isAdmissionFailure) =
      tr.countP (fun e => e.call.isAdmissionFailure) + (if e.call.isAdmissionFailure then 1 else 0) := by
    rw [List.countP_append]
    cases ha : e.call.isAdmissionFailure <;> simp [ha]
  have hconf : c'.config = c.config := h.ledger.fixed.2
  have hown : e.ownRelease? = ownReleaseOf c.controllerId e.call := by rw [Entry.ownRelease?, h.1]
  rcases h.ledger.kinds with ⟨r, q, waited, rest, now, hc, hd, -, -, -, hmax, hl⟩ |
    ⟨q, completion, latency, now, hr, hq, hpos, hd, hl⟩ | ⟨now, hc, hd, hl⟩ | ⟨hd, hr, hn, hl⟩
  · -- a dispatch
    have hnone : e.ownRelease? = none := by rw [hown, hc]; rfl
    have hadm0 : e.call.isAdmissionFailure = false := by rw [hc]; rfl
    have hi : c'.inflight = c.inflight + 1 := congrArg Ledger.inflight hl
    rw [hnone, Option.toList_none, List.append_nil] at hrel
    rw [Entry.dispatched?, hd] at hdis
    rw [hadm0] at hadm
    constructor
    · rw [hi, hrel, hdis, Option.toList_some, List.length_singleton, ← ha.inflight]; omega
    · rw [hi, hconf]; exact hmax
    · rw [hrel, ← ha.completed]; exact congrArg Ledger.completed hl
    · rw [hrel, ← ha.samples]; exact congrArg (fun l => l.latency.samples) hl
    · rw [hrel, hadm]; exact (congrArg Ledger.failures hl).trans ha.failures
  · -- the release of a request of the controller
    have hsome : e.ownRelease? = some completion := by
      rw [hown, ownReleaseOf, hr, Option.bind_some]
      exact if_pos hq
    have hadm0 : e.call.isAdmissionFailure = false := Call.of_release hr
    have hi : c'.inflight = c.inflight - 1 := by
      refine (congrArg Ledger.inflight hl).trans ?_
      cases completion <;> rfl
    have hpos : 0 < c.inflight := hpos
    rw [hsome, Option.toList_some] at hrel
    rw [Entry.dispatched?, hd, Option.toList_none, List.length_nil] at hdis
    rw [hadm0] at hadm
    have hcount (k : Completion) : (releases (tr ++ [e])).count k =
        (releases tr).count k + if completion = k then 1 else 0 := by
      rw [hrel, List.count_append, List.count_singleton]
      cases completion <;> cases k <;> rfl
    have hcompleted : c'.completed = c.completed + if completion = .abandoned then 0 else 1 := by
      refine (congrArg Ledger.completed hl).trans ?_
      cases completion <;> rfl
    have hsamples : c'.latency.samples = c.latency.samples + if completion = .success then 1 else 0 := by
      refine (congrArg (fun l => l.latency.samples) hl).trans ?_
      cases completion
      · exact (LatencyEstimator.observeAt_averages _ _ _).2.1
      · rfl
      · rfl
    have hfailures : c'.failures = c.failures + if completion = .success then 0 else 1 := by
      refine (congrArg Ledger.failures hl).trans ?_
      cases completion <;> rfl
    have hi0 := ha.inflight
    have hk0 := ha.completed
    have hs0 := ha.samples
    have hf0 := ha.failures
    constructor
    · rw [hi, hrel, hdis, List.length_append, List.length_singleton]; omega
    · rw [hi, hconf]; have := ha.capped; omega
    · rw [hcompleted, hcount, hcount]; cases completion <;> simp <;> omega
    · rw [hsamples, hcount]; cases completion <;> simp <;> omega
    · rw [hfailures, hcount, hcount, hadm]; cases completion <;> simp <;> omega
  · -- an admission failure
    have hnone : e.ownRelease? = none := by rw [hown, hc]; rfl
    have hadm1 : e.call.isAdmissionFailure = true := by rw [hc]; rfl
    rw [hnone, Option.toList_none, List.append_nil] at hrel
    rw [Entry.dispatched?, hd] at hdis
    rw [hadm1] at hadm
    constructor
    · rw [hrel, hdis]; exact (congrArg (fun l => l.inflight + _) hl).trans ha.inflight
    · rw [hconf]; exact (congrArg Ledger.inflight hl).trans_le ha.capped
    · rw [hrel, ← ha.completed]; exact congrArg Ledger.completed hl
    · rw [hrel, ← ha.samples]; exact congrArg (fun l => l.latency.samples) hl
    · rw [hrel, hadm, if_pos rfl, ← Nat.add_assoc, ← ha.failures]; exact congrArg Ledger.failures hl
  · -- everything else
    have hr : ownReleaseOf c.controllerId e.call = none := hr
    rw [hown, hr, Option.toList_none, List.append_nil] at hrel
    rw [Entry.dispatched?, hd] at hdis
    rw [hn] at hadm
    constructor
    · rw [hrel, hdis]; exact (congrArg (· + _) hl.inflight).trans ha.inflight
    · rw [hconf]; exact hl.inflight.trans_le ha.capped
    · rw [hrel, ← ha.completed]; exact hl.completed
    · rw [hrel, ← ha.samples]; exact congrArg LatencyEstimator.samples hl.latency
    · rw [hrel, hadm]; exact hl.failures.trans ha.failures

theorem run_accounts (h0 : Fresh c₀) (h : Run Step c₀ tr c) : Accounts tr c := by
  induction h with
  | nil =>
    obtain ⟨config, now, rng, controllerId, hn⟩ := h0
    obtain ⟨_, _, _, _, _, _, hl, _, _, rfl⟩ := newWithRng_cases hn
    refine ⟨rfl, Nat.zero_le _, rfl, ?_, rfl⟩
    unfold LatencyEstimator.new at hl
    simp only [Option.bind_eq_bind, Option.bind_eq_some_iff, Option.guard_eq_some'] at hl
    obtain ⟨_, _, _, _, _, _, _, _, _, _, hl⟩ := hl
    cases hl
    rfl
  | snoc _ he ih => exact ih.step he

omit [Rng R F] in
/-- A foreign request is refused, and nothing changes. -/
theorem foreign_request {q : InFlightRequest T} (hq : q.controllerId ≠ c.controllerId) (completion : Completion)
    (outcome : Outcome) (latency now : T) : c.finish q completion now = some (false, c) ∧
      c.onComplete q outcome latency now = some (false, c) ∧ c.onAbandoned q now = some (false, c) := by
  have hcomplete (outcome : Outcome) (latency : T) : c.onComplete q outcome latency now = some (false, c) := by
    unfold onComplete; rw [if_pos hq]
  have habandon : c.onAbandoned q now = some (false, c) := by unfold onAbandoned; rw [if_pos hq]
  refine ⟨?_, hcomplete _ _, habandon⟩
  unfold finish
  cases completion with
  | success => exact hcomplete _ _
  | failure => exact hcomplete _ _
  | abandoned => exact habandon

end Member

/-! ## Any number of controllers -/

section Fleet

variable {ι : Type} [DecidableEq ι] {cs₀ cs : ι → EndpointController T F R} {tr : List (ι × Entry T F R)}

/-- A dispatch issues a request of its own controller. -/
theorem fleet_issued_own (h : Run (familyStep Step) cs₀ tr cs) {i : ι} {e : Entry T F R} (he : (i, e) ∈ tr)
    {q : InFlightRequest T} (hq : e.dispatched?.map Prod.snd = some q) :
    q.controllerId = (cs₀ i).controllerId := by
  obtain ⟨_, _, m, _, _, hm, hs, _⟩ := (h.member i).of_mem (mem_memberHistory.mpr he)
  rw [← (run_fixed hm).1]
  rcases hs.ledger.kinds with ⟨_, _, _, _, _, _, hd, rfl, _⟩ | ⟨_, _, _, _, _, _, _, hd, _⟩ | ⟨_, _, hd, _⟩ | ⟨hd, _⟩
  · rw [Entry.dispatched?, hd] at hq
    cases hq
    rfl
  all_goals rw [Entry.dispatched?, hd] at hq; cases hq

/-- The requests of one identity were issued by the controller that has it. -/
theorem fleet_issued (hinj : Function.Injective fun i => (cs₀ i).controllerId) (h : Run (familyStep Step) cs₀ tr cs)
    (i : ι) : (requestsIssued (tr.map Prod.snd)).filter (fun q => q.controllerId = (cs₀ i).controllerId) =
      requestsIssued (memberHistory i tr) := by
  unfold requestsIssued memberHistory
  rw [List.filterMap_map, List.filter_filterMap, List.filterMap_filterMap]
  refine List.filterMap_congr fun x hx => ?_
  obtain ⟨j, e⟩ := x
  cases hq : e.dispatched?.map Prod.snd with
  | none => by_cases hj : j = i <;> simp [hj, hq]
  | some q =>
    have hc := fleet_issued_own h hx hq
    by_cases hj : j = i
    · subst hj
      simp [hq, hc]
    · have hn : q.controllerId ≠ (cs₀ i).controllerId := fun hi => hj (hinj (hc.symm.trans hi))
      simp [hq, hn, hj]

/-- A controller releases no more requests of its own than the history used up. -/
theorem fleet_releases (h : Run (familyStep Step) cs₀ tr cs) (i : ι) : (releases (memberHistory i tr)).length ≤
    ((requestsUsed (tr.map Prod.snd)).filter (fun q => q.controllerId = (cs₀ i).controllerId)).length := by
  unfold releases requestsUsed memberHistory
  rw [List.filterMap_map, List.filter_filterMap, List.filterMap_filterMap, List.length_filterMap_eq_countP,
    List.length_filterMap_eq_countP]
  refine List.countP_mono_left fun x hx hsome => ?_
  obtain ⟨j, e⟩ := x
  by_cases hj : j = i
  · subst hj
    obtain ⟨_, _, m, _, _, hm, hs, _⟩ := (h.member j).of_mem (mem_memberHistory.mpr hx)
    have hid : e.before.controllerId = (cs₀ j).controllerId := by rw [hs.1]; exact (run_fixed hm).1
    simp only [if_true, Option.bind_some, Entry.ownRelease?, ownReleaseOf, hid] at hsome
    simp only [Function.comp, Entry.used?]
    cases hr : e.call.release? with
    | none => rw [hr] at hsome; cases hsome
    | some q =>
      obtain ⟨q, completion, latency, now⟩ := q
      rw [hr] at hsome
      by_cases hc : q.controllerId = (cs₀ j).controllerId
      · simp [hc]
      · simp [hc] at hsome
  · simp [hj] at hsome

/-- **Inflight accounting.** In every history of controllers with distinct identities, the counters of each controller are
the counts of its history. While each request is used up at most once, a request of the controller that is used next
finds its inflight count positive, so the decrement does not underflow. A foreign request changes nothing. -/
theorem inflight_accounting (h0 : FreshFleet cs₀) (h : Run (familyStep Step) cs₀ tr cs) (i : ι) :
    Accounts (memberHistory i tr) (cs i) ∧
    (∀ e q x, e.call.release? = some (q, x) → q.controllerId = (cs i).controllerId →
      Owned (tr.map Prod.snd ++ [e]) → 0 < (cs i).inflight) ∧
    ∀ q, q.controllerId ≠ (cs i).controllerId → ∀ completion outcome latency now,
      (cs i).finish q completion now = some (false, cs i) ∧
      (cs i).onComplete q outcome latency now = some (false, cs i) ∧ (cs i).onAbandoned q now = some (false, cs i) := by
  have hacc := run_accounts (h0.1 i) (h.member i)
  refine ⟨hacc, fun e q x hr hq hown => ?_, fun q hq completion outcome latency now => foreign_request hq ..⟩
  have hid : (cs i).controllerId = (cs₀ i).controllerId := (run_fixed (h.member i)).1
  have hcard := Multiset.card_le_card
    (Multiset.filter_le_filter (fun q => q.controllerId = (cs₀ i).controllerId) (hown.usable hr))
  rw [Multiset.filter_add, Multiset.card_add, Multiset.filter_singleton, if_pos (hq.trans hid), Multiset.filter_coe,
    Multiset.filter_coe, Multiset.coe_card, Multiset.coe_card, Multiset.card_singleton, fleet_issued h0.2 h i] at hcard
  have hused := fleet_releases h i
  have hdis : (requestsIssued (memberHistory i tr)).length = (dispatched (memberHistory i tr)).length := by
    simp [requestsIssued, dispatched, List.length_filterMap_eq_countP]
  have hinflight := hacc.inflight
  omega

end Fleet

/-- One request is lost on a foreign controller, another succeeds. -/
def accountingCalls : List (Bool × Call ℕ) :=
  [(true, .reserve 0), (true, .reserve 0), (true, .onDispatched ⟨7, 0⟩ 2), (true, .onDispatched ⟨7, 1⟩ 9000000),
    (false, .finish ⟨7, 2, false⟩ .failure 9000001), (true, .onAdmissionFailure 9000002),
    (true, .finish ⟨7, 9000000, false⟩ .success 19000000)]

theorem inflight_accounting_two : ∃ tr cs, playFleet sampleFleet accountingCalls = some (tr, cs) ∧
    (cs true).inflight = 1 ∧ (cs true).failures = 1 ∧ Accounts (memberHistory true tr) (cs true) := by
  have hp : (playFleet sampleFleet accountingCalls).map (fun r => ((r.2 true).inflight, (r.2 true).failures)) =
      some (1, 1) := by decide +kernel
  obtain ⟨⟨tr, cs⟩, hr, hres⟩ := Option.map_eq_some_iff.mp hp
  obtain ⟨hi, hf⟩ := Prod.mk.inj hres
  exact ⟨tr, cs, hr, hi, hf, (inflight_accounting sampleFleet_fresh (playFleet_run hr) true).1⟩

end Loadpace
