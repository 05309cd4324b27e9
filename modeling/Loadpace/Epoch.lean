import Loadpace.Accounting

/-!
# The feedback epoch

The rate decays with the time since the endpoint last answered. That time is counted from the feedback epoch, which
`Entry.feedback?` reads off a history: an entry gives feedback when it dispatches the only request in flight, or when it
completes a request of the controller and leaves work in flight. `feedback_epoch_history` says that the epoch of a busy
controller is the last feedback of its history, that an idle controller has none, and that no other call moves it.
-/

namespace Loadpace

open Systems EndpointController

variable {T F R : Type} [AddCommMonoid T] [LinearOrder T] [Sub T] [Time T] [F64 F] [Secs T F] [Rng R F]

/-- The call took inflight from zero, or completed a request of the controller and left work in flight. -/
def Entry.GivesFeedback (e : Entry T F R) : Prop :=
  (e.dispatched?.isSome ∧ e.before.inflight = 0) ∨
    ((e.ownRelease? = some .success ∨ e.ownRelease? = some .failure) ∧ 0 < e.after.inflight)

instance (e : Entry T F R) : Decidable e.GivesFeedback := inferInstanceAs (Decidable (_ ∨ _))

/-- The instant of the feedback that a call gave, and the latency estimate right after it. -/
def Entry.feedback? (e : Entry T F R) : Option (FeedbackEpoch T) :=
  if e.GivesFeedback then
    e.call.now?.map fun now => { lastFeedbackAt := now, expectedRtt := e.after.latency.expectedRtt }
  else none

def feedbacks (tr : List (Entry T F R)) : List (FeedbackEpoch T) := tr.filterMap Entry.feedback?

/-- The calls that are no feedback. -/
inductive Entry.Silent (e : Entry T F R) : Prop
  | abandonment : e.ownRelease? = some .abandoned → 0 < e.after.inflight → Silent e
  | foreignRequest {q : InFlightRequest T} {x : Completion × T × T} : e.call.release? = some (q, x) →
      q.controllerId ≠ e.before.controllerId → Silent e
  | reservation {now : T} : e.call = .reserve now → Silent e
  | cancellation {r : DispatchReservation} {now : T} : e.call = .cancel r now → Silent e
  | check {x : DispatchReservation × T} : e.call.check? = some x → e.dispatched? = none → Silent e
  | furtherDispatch : e.dispatched?.isSome → 0 < e.before.inflight → Silent e
  | admissionFailure {now : T} : e.call = .onAdmissionFailure now → Silent e
  | read : e.call.IsRead → Silent e
  | takeChanges : e.call = .takeChanges → Silent e

section

variable {c₀ c c' : EndpointController T F R} {tr : List (Entry T F R)} {e : Entry T F R}

/-- The epoch is there while work is in flight, and it is the last feedback. -/
structure EpochIs (last : Option (FeedbackEpoch T)) (c : EndpointController T F R) : Prop where
  idle : c.inflight = 0 → c.feedbackEpoch = none
  busy : 0 < c.inflight → c.feedbackEpoch = last ∧ last.isSome

/-- A call either gives feedback and starts an epoch there, or gives none and keeps the epoch while work is in flight. -/
theorem Step.epoch (h : Step c e c') : (∃ epoch, e.feedback? = some epoch ∧ 0 < c'.inflight ∧
      c'.feedbackEpoch = some epoch) ∨
    (e.feedback? = none ∧ e.ownRelease?.isSome ∧ c'.inflight = 0 ∧ c'.feedbackEpoch = none) ∨
    (e.feedback? = none ∧ (0 < c'.inflight → 0 < c.inflight) ∧ (c'.inflight = 0 → c.inflight = 0) ∧
      c'.feedbackEpoch = c.feedbackEpoch) := by
  have hbefore := h.1
  have hafter := h.2.1
  have hown : e.ownRelease? = ownReleaseOf c.controllerId e.call := by rw [Entry.ownRelease?, hbefore]
  rcases h.ledger.kinds with ⟨r, q, waited, rest, now, hc, hd, -, -, -, hmax, hl⟩ |
    ⟨q, completion, latency, now, hr, hq, hpos, hd, hl⟩ | ⟨now, hc, hd, hl⟩ | ⟨hd, hr, -, hl⟩
  · -- a dispatch: an epoch starts when it is the first in flight
    have hdis : e.dispatched? = some (r, q) := hd
    have hnone : e.ownRelease? = none := by rw [hown, hc]; rfl
    have hi : c'.inflight = c.inflight + 1 := congrArg Ledger.inflight hl
    have he : c'.feedbackEpoch = if c.inflight = 0 then
        some { lastFeedbackAt := now, expectedRtt := c.latency.expectedRtt } else c.feedbackEpoch :=
      congrArg Ledger.feedbackEpoch hl
    have hlat : c'.latency = c.latency := congrArg Ledger.latency hl
    by_cases hz : c.inflight = 0
    · have hg : e.GivesFeedback := Or.inl ⟨by rw [hdis]; rfl, by rw [hbefore]; exact hz⟩
      refine Or.inl ⟨_, ?_, by omega, he.trans (if_pos hz)⟩
      rw [Entry.feedback?, if_pos hg, hc, hafter, hlat]
      rfl
    · have hg : ¬e.GivesFeedback := by
        rintro (⟨-, hb⟩ | ⟨ho | ho, -⟩)
        · exact hz (hbefore ▸ hb)
        · rw [hnone] at ho; cases ho
        · rw [hnone] at ho; cases ho
      refine Or.inr (Or.inr ⟨by rw [Entry.feedback?, if_neg hg], fun _ => by omega, fun _ => by omega, ?_⟩)
      exact he.trans (if_neg hz)
  · -- the release of a request of the controller
    have hdis : e.dispatched? = none := hd
    have hsome : e.ownRelease? = some completion := by
      rw [hown, ownReleaseOf, hr, Option.bind_some]
      exact if_pos hq
    have hpos : 0 < c.inflight := hpos
    have hi : c'.inflight = c.inflight - 1 := by
      refine (congrArg Ledger.inflight hl).trans ?_
      cases completion <;> rfl
    have hnow : e.call.now? = some now := Call.now_of_release hr
    by_cases hz : c'.inflight = 0
    · -- nothing is left in flight
      have hg : ¬e.GivesFeedback := by
        rintro (⟨hs, -⟩ | ⟨-, ha⟩)
        · rw [hdis] at hs; cases hs
        · rw [hafter] at ha; omega
      have hi0 : ¬0 < c.inflight - 1 := by omega
      refine Or.inr (Or.inl ⟨by rw [Entry.feedback?, if_neg hg], by rw [hsome]; rfl, hz, ?_⟩)
      refine (congrArg Ledger.feedbackEpoch hl).trans ?_
      cases completion with
      | success => exact if_neg hi0
      | failure => exact if_neg hi0
      | abandoned => exact if_pos (hi.symm.trans hz)
    · have hi1 : 0 < c.inflight - 1 := by omega
      have ha : 0 < e.after.inflight := by rw [hafter]; omega
      cases completion with
      | success =>
        have hg : e.GivesFeedback := Or.inr ⟨Or.inl hsome, ha⟩
        refine Or.inl ⟨_, ?_, by omega, (congrArg Ledger.feedbackEpoch hl).trans (if_pos hi1)⟩
        have hlat : c'.latency = c.latency.observeAt latency now := congrArg Ledger.latency hl
        rw [Entry.feedback?, if_pos hg, hnow, hafter, hlat]
        rfl
      | failure =>
        have hg : e.GivesFeedback := Or.inr ⟨Or.inr hsome, ha⟩
        refine Or.inl ⟨_, ?_, by omega, (congrArg Ledger.feedbackEpoch hl).trans (if_pos hi1)⟩
        have hlat : c'.latency = c.latency := congrArg Ledger.latency hl
        rw [Entry.feedback?, if_pos hg, hnow, hafter, hlat]
        rfl
      | abandoned =>
        have hg : ¬e.GivesFeedback := by
          rintro (⟨hs, -⟩ | ⟨ho | ho, -⟩)
          · rw [hdis] at hs; cases hs
          · rw [hsome] at ho; cases ho
          · rw [hsome] at ho; cases ho
        refine Or.inr (Or.inr ⟨by rw [Entry.feedback?, if_neg hg], fun _ => hpos, fun h0 => absurd h0 hz, ?_⟩)
        have hi2 : ¬c.inflight - 1 = 0 := by omega
        exact (congrArg Ledger.feedbackEpoch hl).trans (if_neg hi2)
  · -- an admission failure
    have hdis : e.dispatched? = none := hd
    have hnone : e.ownRelease? = none := by rw [hown, hc]; rfl
    have hi : c'.inflight = c.inflight := congrArg Ledger.inflight hl
    have hg : ¬e.GivesFeedback := by simp [Entry.GivesFeedback, hdis, hnone]
    refine Or.inr (Or.inr ⟨by rw [Entry.feedback?, if_neg hg], fun _ => by omega, fun _ => by omega, ?_⟩)
    exact congrArg Ledger.feedbackEpoch hl
  · -- everything else
    have hdis : e.dispatched? = none := hd
    have hnone : e.ownRelease? = none := hown.trans hr
    have hi : c'.inflight = c.inflight := hl.inflight
    have hg : ¬e.GivesFeedback := by simp [Entry.GivesFeedback, hdis, hnone]
    refine Or.inr (Or.inr ⟨by rw [Entry.feedback?, if_neg hg], fun _ => by omega, fun _ => by omega, ?_⟩)
    exact hl.feedbackEpoch

/-- One call keeps the epoch at the last feedback. -/
theorem EpochIs.step (he : EpochIs (feedbacks tr).getLast? c) (h : Step c e c') :
    EpochIs (feedbacks (tr ++ [e])).getLast? c' := by
  have happ : feedbacks (tr ++ [e]) = feedbacks tr ++ e.feedback?.toList := by
    unfold feedbacks
    rw [List.filterMap_append]
    cases hf : e.feedback? <;> simp [hf]
  rw [happ]
  rcases h.epoch with ⟨epoch, hf, hpos, hep⟩ | ⟨hf, -, hz, hep⟩ | ⟨hf, hpos, hz, hep⟩
  · rw [hf, Option.toList_some, List.getLast?_concat]
    exact ⟨fun h0 => by omega, fun _ => ⟨hep, rfl⟩⟩
  · rw [hf, Option.toList_none, List.append_nil]
    exact ⟨fun _ => hep, fun h0 => by omega⟩
  · rw [hf, Option.toList_none, List.append_nil]
    exact ⟨fun h0 => hep.trans (he.idle (hz h0)), fun h0 => by rw [hep]; exact he.busy (hpos h0)⟩

theorem run_epoch (h0 : Fresh c₀) (h : Run Step c₀ tr c) : EpochIs (feedbacks tr).getLast? c := by
  induction h with
  | nil =>
    obtain ⟨config, now, rng, controllerId, hn⟩ := h0
    obtain ⟨_, _, _, _, _, _, _, _, _, rfl⟩ := newWithRng_cases hn
    exact ⟨fun _ => rfl, fun h => absurd h (Nat.lt_irrefl 0)⟩
  | snoc _ he ih => exact ih.step he

omit [F64 F] [Secs T F] [AddCommMonoid T] [LinearOrder T] [Time T] [Rng R F] in
theorem Entry.of_dispatched (h : e.dispatched?.isSome) : ∃ r now, e.call = .onDispatched r now ∧ e.ownRelease? = none := by
  unfold Entry.dispatched? dispatchedOf at h
  split at h
  · rename_i r now q hc _
    exact ⟨r, now, hc, by rw [Entry.ownRelease?, ownReleaseOf, hc]; rfl⟩
  · cases h

omit [F64 F] [Secs T F] [AddCommMonoid T] [LinearOrder T] [Time T] [Rng R F] in
/-- A call that is no feedback gives none, and does not release the last request. -/
theorem Entry.Silent.quiet (hs : e.Silent) : ¬e.GivesFeedback ∧ (e.ownRelease?.isSome → 0 < e.after.inflight) := by
  -- a call that neither dispatches nor releases
  have idle (hd : e.dispatched? = none) (hr : e.ownRelease? = none) :
      ¬e.GivesFeedback ∧ (e.ownRelease?.isSome → 0 < e.after.inflight) := by
    refine ⟨?_, fun h => by rw [hr] at h; cases h⟩
    rintro (⟨h, -⟩ | ⟨h | h, -⟩)
    · rw [hd] at h; cases h
    · rw [hr] at h; cases h
    · rw [hr] at h; cases h
  have of_call (hc : e.call.release? = none) : e.ownRelease? = none := by
    rw [Entry.ownRelease?, ownReleaseOf, hc]; rfl
  have undispatched (hc : ∀ r now, e.call ≠ .onDispatched r now) : e.dispatched? = none := by
    by_contra hd
    obtain ⟨r, now, h, -⟩ := Entry.of_dispatched (Option.ne_none_iff_isSome.mp hd)
    exact hc r now h
  cases hs with
  | abandonment ho ha =>
    refine ⟨?_, fun _ => ha⟩
    rintro (⟨h, -⟩ | ⟨h | h, -⟩)
    · obtain ⟨_, _, -, hn⟩ := Entry.of_dispatched h
      rw [ho] at hn; cases hn
    · rw [ho] at h; cases h
    · rw [ho] at h; cases h
  | @foreignRequest q x hr hq =>
    have hn : e.ownRelease? = none := by
      rw [Entry.ownRelease?, ownReleaseOf, hr, Option.bind_some]
      exact if_neg hq
    exact idle (undispatched fun r now h => by rw [h] at hr; cases hr) hn
  | reservation hc => exact idle (undispatched fun r now h => by rw [h] at hc; cases hc) (of_call (by rw [hc]; rfl))
  | cancellation hc => exact idle (undispatched fun r now h => by rw [h] at hc; cases hc) (of_call (by rw [hc]; rfl))
  | check hc hd => exact idle hd (of_call (Call.of_check hc).1)
  | furtherDispatch hd hi =>
    obtain ⟨_, _, -, hn⟩ := Entry.of_dispatched hd
    refine ⟨?_, fun h => by rw [hn] at h; cases h⟩
    rintro (⟨-, h⟩ | ⟨h | h, -⟩)
    · omega
    · rw [hn] at h; cases h
    · rw [hn] at h; cases h
  | admissionFailure hc => exact idle (undispatched fun r now h => by rw [h] at hc; cases hc) (of_call (by rw [hc]; rfl))
  | read hc =>
    obtain ⟨hd, hr, -⟩ := Call.of_read e.reply hc
    exact idle hd (of_call hr)
  | takeChanges hc => exact idle (undispatched fun r now h => by rw [h] at hc; cases hc) (of_call (by rw [hc]; rfl))

/-- **The feedback epoch is the history it claims.** A controller has an epoch exactly while work is in flight; it is then
the last feedback of the history; and the other calls leave it as it is. -/
theorem feedback_epoch_history (h0 : Fresh c₀) (h : Run Step c₀ tr c) :
    (c.feedbackEpoch.isSome ↔ 0 < c.inflight) ∧
    (∀ epoch, c.feedbackEpoch = some epoch → (feedbacks tr).getLast? = some epoch) ∧
    ∀ e c', Step c e c' → e.Silent → c'.feedbackEpoch = c.feedbackEpoch := by
  have he := run_epoch h0 h
  have hsome : c.feedbackEpoch.isSome ↔ 0 < c.inflight := by
    rcases Nat.eq_zero_or_pos c.inflight with hz | hpos
    · rw [he.idle hz, hz]; simp
    · obtain ⟨h1, h2⟩ := he.busy hpos
      rw [h1]
      exact ⟨fun _ => hpos, fun _ => h2⟩
  refine ⟨hsome, fun epoch hep => ?_, fun e c' hst hs => ?_⟩
  · have hpos : 0 < c.inflight := hsome.mp (by rw [hep]; rfl)
    rw [← (he.busy hpos).1, hep]
  · obtain ⟨hg, hr⟩ := hs.quiet
    rcases hst.epoch with ⟨epoch, hf, -⟩ | ⟨-, ho, hz, -⟩ | ⟨-, -, -, hep⟩
    · rw [Entry.feedback?, if_neg hg] at hf; cases hf
    · have hpos := hr ho
      rw [hst.2.1] at hpos
      omega
    · exact hep

end

/-- Two requests: the first completes while the second is in flight, and the second is abandoned. -/
def epochCalls : List (Call ℕ) :=
  [.reserve 0, .reserve 0, .onDispatched ⟨7, 0⟩ 2, .onDispatched ⟨7, 1⟩ 9000000, .onAdmissionFailure 9500000,
    .finish ⟨7, 2, false⟩ .success 12000000, .reserve 13000000]

theorem feedback_epoch_history_two : ∃ tr c, play sample epochCalls = some (tr, c) ∧
    (c.feedbackEpoch.isSome ↔ 0 < c.inflight) ∧
    c.feedbackEpoch.map FeedbackEpoch.lastFeedbackAt = some 12000000 ∧
    (feedbacks tr).getLast? = c.feedbackEpoch := by
  have hp : (play sample epochCalls).map (fun r => r.2.feedbackEpoch.map FeedbackEpoch.lastFeedbackAt) =
      some (some 12000000) := by decide +kernel
  obtain ⟨⟨tr, c⟩, hr, hres⟩ := Option.map_eq_some_iff.mp hp
  obtain ⟨hsome, hlast, -⟩ := feedback_epoch_history sample_fresh (play_run hr)
  obtain ⟨epoch, hep, -⟩ := Option.map_eq_some_iff.mp hres
  exact ⟨tr, c, hr, hsome, hres, (hlast epoch hep).trans hep.symm⟩

end Loadpace
