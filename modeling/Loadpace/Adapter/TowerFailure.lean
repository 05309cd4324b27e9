import Loadpace.Accounting
import Loadpace.Adapter.TowerService

/-!
# The failure of the wrapped service

The first error of the wrapped service's readiness closes the endpoint: nothing is done with the service any more, nothing is
reserved or dispatched, and each request that is still queued goes to the error (`Move.closed`, `Queued.resolving`). Until then a
task that was told that there is room finds room when it calls (`Move.room`). `terminal_readiness_failure` puts this together.
-/

namespace Loadpace

open Systems EndpointController

/-! ## Counters -/

section

variable {T F R : Type}

/-- One of the controller's own requests failed, or was abandoned. -/
def Entry.isFailure [Sub T] (e : Entry T F R) : Bool :=
  match e.ownRelease? with
  | some .failure | some .abandoned => true
  | _ => false

variable [AddCommMonoid T] [LinearOrder T] [Sub T] [Time T] [F64 F] [Secs T F] [Rng R F]
variable {c c' : EndpointController T F R} {e : Entry T F R}

/-- What counts as a failure. -/
theorem Step.failures (h : Step c e c') : c'.failures =
    c.failures + (if e.call.isAdmissionFailure then 1 else 0) + if e.isFailure then 1 else 0 := by
  have hown : e.ownRelease? = ownReleaseOf c.controllerId e.call := by rw [Entry.ownRelease?, h.1]
  unfold Entry.isFailure
  rw [hown]
  rcases h.ledger.kinds with ⟨r, q, waited, rest, now, hc, -, -, -, -, -, hl⟩ | ⟨q, completion, latency, now, hr, hq, -, -, hl⟩ |
    ⟨now, hc, -, hl⟩ | ⟨-, hr, hn, hl⟩
  · rw [hc]
    exact congrArg Ledger.failures hl
  · have hsome : ownReleaseOf c.controllerId e.call = some completion := by
      rw [ownReleaseOf, hr, Option.bind_some]
      exact if_pos hq
    have hadm : e.call.isAdmissionFailure = false := Call.of_release hr
    rw [hsome, hadm]
    refine (congrArg Ledger.failures hl).trans ?_
    cases completion <;> rfl
  · rw [hc]
    exact congrArg Ledger.failures hl
  · have hr : ownReleaseOf c.controllerId e.call = none := hr
    rw [hr, hn]
    exact hl.failures

/-- Only a reservation makes the queue longer. -/
theorem LedgerStep.shrinks {l l' : Ledger T F} {call : Call T} {reply : Reply T F} (h : LedgerStep l call reply l')
    (hr : ∀ now, call ≠ .reserve now) : l'.entries.length ≤ l.entries.length := by
  cases h with
  | reserved _ _ => exact absurd rfl (hr _)
  | cancelled _ => exact List.length_eraseP_le
  | waitUntil _ _ _ he _ => exact (congrArg List.length he).ge
  | dispatched _ he _ => exact (Nat.le_succ _).trans (congrArg List.length he).ge
  | @finished _ _ completion _ _ _ _ _ => cases completion <;> exact le_rfl
  | _ => exact le_rfl

/-- Room stays. -/
theorem Step.room (h : Step c e c') (hr : ∀ now, e.call ≠ .reserve now) (hroom : c.maySchedule = true) :
    c'.maySchedule = true := by
  have hlen (m : EndpointController T F R) : m.ledger.entries.length = m.pending.length := List.length_map ..
  have hshrinks := h.ledger.shrinks hr
  rw [hlen, hlen] at hshrinks
  have hconfig : c'.config = c.config := h.ledger.fixed.2
  unfold maySchedule at hroom ⊢
  rw [hconfig]
  exact decide_eq_true (hshrinks.trans_lt (of_decide_eq_true hroom))

end

namespace Tower

/-! ## The wrapped service after its error -/

section

variable {T E : Type}

/-- The service is polled or called, or a request is dispatched to be called. -/
def Act.uses : Act T E → Bool
  | .poll _ _ | .dispatch _ _ | .call _ => true
  | .lock _ | .unlock _ => false

/-- The error of the service's readiness. -/
def Act.error? : Act T E → Option E
  | .poll _ (.ready (.error error)) => some error
  | _ => none

def Label.error? : Label T E → Option E
  | .pollInner _ (.ready (.error error)) => some error
  | _ => none

/-- The endpoint is called. -/
def Label.isCall : Label T E → Bool
  | .call => true
  | _ => false

/-- The errors of the service's readiness. -/
def Acts.errors (acts : Acts T E) : List E := acts.filterMap fun a => a.1.error?

theorem Acts.errors_snoc {acts : Acts T E} {a : Act T E × T} : errors (acts ++ [a]) = errors acts ++ a.1.error?.toList := by
  rw [errors, List.filterMap_append]
  cases h : a.1.error? <;> simp [errors, h]

theorem Act.uses_of_error {x : Act T E} {error : E} (h : x.error? = some error) : x.uses = true := by
  cases x with
  | poll _ _ => rfl
  | _ => cases h

end

namespace Endpoint

variable {T F R E : Type} [AddCommMonoid T] [LinearOrder T] [Sub T] [Time T] [F64 F] [Secs T F] [Rng R F]
variable {s s' : Endpoint T F R E} {ev : Event T F R} {e : Entry T F R} {i : ℕ} {l : Label T E} {acts : Acts T E}

omit [AddCommMonoid T] [LinearOrder T] [Sub T] [Time T] [F64 F] [Secs T F] [Rng R F] in
theorem act?_error (s : Endpoint T F R E) (l : Label T E) (ev : Event T F R) :
    (s.act? l ev).bind Act.error? = l.error? := by
  cases l with
  | run i =>
    unfold act?
    dsimp only
    split
    · rfl
    · cases ev.entries.findSome? Entry.dispatched? <;> rfl
    · rfl
    · rfl
    · rfl
  | pollInner i result =>
    cases result with
    | pending => rfl
    | ready value => cases value <;> rfl
  | unwind i =>
    unfold act?
    dsimp only
    split <;> rfl
  | _ => rfl

omit [AddCommMonoid T] [LinearOrder T] [Sub T] [Time T] [F64 F] [Secs T F] [Rng R F] in
/-- The last step of a request is no poll. -/
theorem Ends.error {place : Place T E} {completion : Completion} {outcome : Outcome E}
    (h : Ends s i l place completion outcome) : l.error? = none := by
  cases h <;> rfl

/-- An error of the service closes the endpoint, and nothing opens it again. -/
theorem Move.failed (h : Move s l ev s') : s'.shared.failed = (l.error? <|> s.shared.failed) := by
  cases h with
  | @read l e _ _ _ hl => rcases hl with rfl | rfl <;> exact (release_fields s e).2.2.1
  | @pollReady waker => exact (pollReady_fields s waker).2.2.1
  | @dispatch _ _ e _ _ _ _ _ => exact (release_fields s e).2.2.1
  | @retry _ _ e _ _ _ _ _ => exact (release_fields s e).2.2.1
  | @finish _ _ _ _ _ _ e _ hends _ _ =>
    rw [hends.error]
    exact (release_fields s e).2.2.1
  | finished _ hends =>
    rw [hends.error]
    rfl
  | _ => rfl

/-- **The service of a closed endpoint is left alone.** -/
theorem Move.uses (h : Move s l ev s') (ho : s.Orderly) {x : Act T E} (hact : s.act? l ev = some x)
    (hu : x.uses = true) : s.shared.failed = none := by
  cases h with
  | read _ _ _ hl => rcases hl with rfl | rfl <;> cases hact
  | @jump i state place place' _ hi hjump =>
    have huses := (ho.placed _ _ hi).uses
    simp only [act?, hi] at hact
    cases hjump with
    | call => exact huses rfl
    | lock _ | leave =>
      cases hact
      cases hu
    | _ => cases hact
  | check hi _ _ _ _ => simp [act?, hi] at hact
  | dispatch hi _ _ _ => exact (ho.placed _ _ hi).uses rfl
  | retry hi _ _ _ => exact (ho.placed _ _ hi).uses rfl
  | finish hi hends _ _ =>
    rw [hends.act? hi] at hact
    cases hact
  | finished hi hends =>
    rw [hends.act? hi] at hact
    cases hact
  | pending hi => exact (ho.placed _ _ hi).uses rfl
  | ready hi => exact (ho.placed _ _ hi).uses rfl
  | close hi _ _ => exact (ho.placed _ _ hi).uses rfl
  | unwind _ _ =>
    unfold act? at hact
    dsimp only at hact
    split at hact
    · cases hact
      cases hu
    · cases hact
  | _ => cases hact

/-- After its error nothing is done with the service. -/
structure Silenced (s : Endpoint T F R E) (acts : Acts T E) : Prop where
  errors : acts.errors = s.shared.failed.toList
  after : ∀ before x after, acts = before ++ x :: after → x.1.error? ≠ none → ∀ a ∈ after, a.1.uses = false

theorem Move.silenced (h : Move s l ev s') (ho : s.Orderly) (hs : s.Silenced acts) : s'.Silenced (s.watch acts l ev) := by
  have hfailed := h.failed
  rw [← act?_error s l ev] at hfailed
  cases hact : s.act? l ev with
  | none =>
    rw [hact] at hfailed
    rw [watch_none hact]
    exact ⟨hs.errors.trans (congrArg Option.toList hfailed.symm), hs.after⟩
  | some x =>
    rw [hact] at hfailed
    rw [watch_some hact]
    refine ⟨?_, fun before y after hacts hy a ha => ?_⟩
    · rw [Acts.errors_snoc, hs.errors, hfailed]
      cases he : x.error? with
      | none => simp [he]
      | some error =>
        rw [h.uses ho hact (Act.uses_of_error he)]
        simp [he]
    · rcases List.eq_nil_or_concat after with rfl | ⟨after, z, rfl⟩
      · cases ha
      · rw [List.concat_eq_append, ← List.cons_append, ← List.append_assoc] at hacts
        obtain ⟨hbefore, hz⟩ := List.append_inj' hacts rfl
        obtain rfl := (List.cons.inj hz).1
        rcases List.mem_append.mp (List.concat_eq_append ▸ ha) with ha | ha
        · exact hs.after before y after hbefore hy a ha
        · obtain rfl := List.mem_singleton.mp ha
          by_contra hu
          -- the service has failed already
          have hopen := h.uses ho hact (Bool.not_eq_false _ ▸ hu)
          have hnone := hs.errors
          rw [hopen, hbefore, Acts.errors, List.filterMap_append, List.filterMap_cons] at hnone
          cases he : y.1.error? with
          | none => exact hy he
          | some error => simp [he] at hnone

/-! ## Counters and room -/

/-- **What a step counts as failures**: the error of the service's readiness, and the dispatched requests that fail or are
abandoned. -/
theorem Move.failures (h : Move s l ev s') : s'.shared.controller.failures =
    s.shared.controller.failures + l.error?.toList.length + ev.entries.countP Entry.isFailure := by
  have called {e : Entry T F R} (hstep : Step s.shared.controller e e.after) (hadm : e.call.isAdmissionFailure = false) :
      e.after.failures = s.shared.controller.failures + [e].countP Entry.isFailure := by
    rw [hstep.failures, hadm, List.countP_singleton]
    rfl
  have released {e : Entry T F R} (hstep : Step s.shared.controller e e.after) (hadm : e.call.isAdmissionFailure = false) :
      (s.release e).shared.controller.failures = s.shared.controller.failures + [e].countP Entry.isFailure := by
    rw [release_controller]
    exact called hstep hadm
  cases h with
  | @read l e hstep hr _ hl => rcases hl with rfl | rfl <;> exact released hstep (Call.of_read e.reply hr).2.2
  | @pollReady waker => exact congrArg EndpointController.failures (pollReady_fields s waker).2.2.2.2.2
  | accept _ hstep hcall _ => exact called hstep (by rw [hcall]; rfl)
  | refuse _ hstep hcall _ => exact called hstep (by rw [hcall]; rfl)
  | check _ _ hstep hcall _ => exact called hstep (by rw [hcall]; rfl)
  | dispatch _ hstep hcall _ => exact released hstep (by rw [hcall]; rfl)
  | retry _ hstep hcall _ => exact released hstep (by rw [hcall]; rfl)
  | @finish i l state place completion outcome e _ hends hstep hrel =>
    rw [hends.error]
    refine released hstep ?_
    cases state with
    | finished => cases hrel
    | _ =>
      rw [← Option.some.inj hrel]
      rfl
  | finished _ hends =>
    rw [hends.error]
    rfl
  | @close i state error e _ hstep hcall =>
    show e.after.failures = s.shared.controller.failures + 1 + [e].countP Entry.isFailure
    rw [hstep.failures, List.countP_singleton, hcall]
    rfl
  | _ => rfl

/-- **Room stays until the next call.** -/
theorem Move.room (h : Move s l ev s') (hl : l ≠ .call) (hroom : s.shared.controller.maySchedule = true) :
    s'.shared.controller.maySchedule = true := by
  have released {e : Entry T F R} (hstep : Step s.shared.controller e e.after) (hr : ∀ now, e.call ≠ .reserve now) :
      (s.release e).shared.controller.maySchedule = true := by
    rw [release_controller]
    exact hstep.room hr hroom
  cases h with
  | @read l e hstep hr _ _ =>
    refine released hstep fun now hc => ?_
    rw [hc] at hr
    exact hr
  | @pollReady waker =>
    rw [(pollReady_fields s waker).2.2.2.2.2]
    exact hroom
  | accept _ _ _ _ => exact absurd rfl hl
  | refuse _ _ _ _ => exact absurd rfl hl
  | check _ _ hstep hcall _ => exact hstep.room (by rw [hcall]; rintro _ ⟨⟩) hroom
  | dispatch _ hstep hcall _ => exact released hstep (by rw [hcall]; rintro _ ⟨⟩)
  | retry _ hstep hcall _ => exact released hstep (by rw [hcall]; rintro _ ⟨⟩)
  | @finish i l state place completion outcome e _ _ hstep hrel =>
    refine released hstep ?_
    cases state with
    | finished => cases hrel
    | _ =>
      rw [← Option.some.inj hrel]
      rintro _ ⟨⟩
  | close _ hstep hcall => exact hstep.room (by rw [hcall]; rintro _ ⟨⟩) hroom
  | _ => exact hroom

/-! ## A closed endpoint -/

omit [AddCommMonoid T] [Sub T] [Time T] [F64 F] [Secs T F] [Rng R F] in
/-- A request that is done does not move. -/
theorem Jump.unfinished {state : RequestState T} {place place' : Place T E} {service : Option ℕ}
    (hjump : Jump s i state place place' service) (ho : s.Orderly) (hi : s.requests[i]? = some ⟨state, place⟩) :
    state ≠ .finished := by
  rintro rfl
  have hfits := (ho.placed i _ hi).fits
  cases hjump <;> cases hfits

/-- What steps with these labels can make of a request `j` of a closed endpoint. -/
inductive Passes (error : E) (labels : List (Label T E)) (j : ℕ) : Request T E → Request T E → Prop
  | stays {state : RequestState T} {place place' : Place T E} : (state = .finished → place' = place) →
      Passes error labels j ⟨state, place⟩ ⟨state, place'⟩
  | failed {reservation : DispatchReservation} {place : Place T E} :
      Passes error labels j ⟨.queued reservation, place⟩ ⟨.finished, .returned (.failed error)⟩
  | dropped {state : RequestState T} {place : Place T E} : state ≠ .finished → .drop j ∈ labels →
      Passes error labels j ⟨state, place⟩ ⟨.finished, .returned .dropped⟩
  | response {active : InFlightRequest T} {place : Place T E} {ok : Bool} : .respond j ok ∈ labels →
      Passes error labels j ⟨.inFlight active, place⟩ ⟨.finished, .returned (.response ok)⟩

omit [AddCommMonoid T] [LinearOrder T] [Sub T] [Time T] in
theorem Passes.snoc {error : E} {labels : List (Label T E)} {j : ℕ} {a b c : Request T E} (h : Passes error labels j a b)
    (h' : Passes error [l] j b c) : Passes error (labels ++ [l]) j a c := by
  cases h with
  | @stays state place place' hplace =>
    cases h' with
    | stays hplace' => exact .stays fun hs => (hplace' hs).trans (hplace hs)
    | failed => exact .failed
    | dropped hs hl => exact .dropped hs (List.mem_append_right _ hl)
    | response hl => exact .response (List.mem_append_right _ hl)
  | failed =>
    cases h' with
    | stays hplace =>
      rw [hplace rfl]
      exact .failed
    | dropped hs _ => exact absurd rfl hs
  | dropped hs hl =>
    cases h' with
    | stays hplace =>
      rw [hplace rfl]
      exact .dropped hs (List.mem_append_left _ hl)
    | dropped hs' _ => exact absurd rfl hs'
  | response hl =>
    cases h' with
    | stays hplace =>
      rw [hplace rfl]
      exact .response (List.mem_append_left _ hl)
    | dropped hs' _ => exact absurd rfl hs'

/-- A step of a closed endpoint. -/
structure Closing (error : E) (s : Endpoint T F R E) (l : Label T E) (ev : Event T F R) (s' : Endpoint T F R E) : Prop where
  silent : ∀ e ∈ ev.entries, e.issued? = none ∧ e.dispatched? = none
  length : s'.requests.length = s.requests.length
  passes : ∀ j a, s.requests[j]? = some a → ∃ b, s'.requests[j]? = some b ∧ Passes error [l] j a b

omit [AddCommMonoid T] [LinearOrder T] [Sub T] [Time T] [F64 F] [Secs T F] [Rng R F] in
theorem Closing.same {error : E} (hsilent : ∀ e ∈ ev.entries, e.issued? = none ∧ e.dispatched? = none)
    (hr : s'.requests = s.requests) : Closing error s l ev s' :=
  ⟨hsilent, congrArg List.length hr, fun _ a ha => ⟨a, hr ▸ ha, .stays fun _ => rfl⟩⟩

omit [AddCommMonoid T] [LinearOrder T] [Sub T] [Time T] [F64 F] [Secs T F] [Rng R F] in
theorem Closing.set {error : E} {a b : Request T E} (hsilent : ∀ e ∈ ev.entries, e.issued? = none ∧ e.dispatched? = none)
    (hi : s.requests[i]? = some a) (hr : s'.requests = s.requests.set i b) (hp : Passes error [l] i a b) :
    Closing error s l ev s' := by
  refine ⟨hsilent, by rw [hr, List.length_set], fun j c hc => ?_⟩
  rw [hr]
  by_cases hj : j = i
  · subst hj
    obtain rfl := Option.some.inj (hc.symm.trans hi)
    obtain ⟨hlt, -⟩ := List.getElem?_eq_some_iff.mp hi
    exact ⟨b, List.getElem?_set_self hlt, hp⟩
  · rw [List.getElem?_set_ne (Ne.symm hj)]
    exact ⟨c, hc, .stays fun _ => rfl⟩

/-- **A closed endpoint reserves and dispatches nothing**, and its requests end with the error, with their own response, or
where they are dropped. -/
theorem Move.closing {error : E} (h : Move s l ev s') (ho : s.Orderly) (hf : s.shared.failed = some error) :
    Closing error s l ev s' := by
  have unused {i : ℕ} {request : Request T E} (hi : s.requests[i]? = some request) (hu : request.place.uses = true) :
      False := by
    have hopen := (ho.placed i request hi).uses hu
    rw [hf] at hopen
    cases hopen
  have silent : ∀ e ∈ (Event.silent : Event T F R).entries, e.issued? = none ∧ e.dispatched? = none := by rintro _ ⟨⟩
  have single {e : Entry T F R} (hi : e.issued? = none) (hd : e.dispatched? = none) :
      ∀ x ∈ [e], x.issued? = none ∧ x.dispatched? = none := by
    intro x hx
    rw [List.mem_singleton.mp hx]
    exact ⟨hi, hd⟩
  have opened (hnone : s.shared.failed = none) : False := by
    rw [hf] at hnone
    cases hnone
  cases h with
  | tick _ => exact .same silent rfl
  | @read l e _ hr _ _ =>
    refine .same (single ?_ (Call.of_read e.reply hr).1) (release_fields s e).1
    unfold Entry.issued?
    split
    · rename_i hc _
      rw [hc] at hr
      exact hr.elim
    · rfl
  | @pollReady waker => exact .same silent (pollReady_fields s waker).1
  | closed _ => exact .same silent rfl
  | accept hopen _ _ _ => exact (opened hopen).elim
  | refuse hopen _ _ _ => exact (opened hopen).elim
  | jump hi hjump =>
    exact .set silent hi rfl (.stays fun hs => absurd hs (hjump.unfinished ho hi))
  | check _ hopen _ _ _ => exact (opened hopen).elim
  | dispatch hi _ _ _ => exact (unused hi rfl).elim
  | retry hi _ _ _ => exact (unused hi rfl).elim
  | @finish i l state place completion outcome e hi hends hstep hrel =>
    have hp := ho.placed i _ hi
    have hstate : state ≠ .finished := by
      rintro rfl
      cases hrel
    refine .set (single ?_ ?_) hi rfl ?_
    · cases state with
      | finished => exact absurd rfl hstate
      | _ => unfold Entry.issued?; rw [← Option.some.inj hrel]
    · cases state with
      | finished => exact absurd rfl hstate
      | _ => unfold Entry.dispatched? dispatchedOf; rw [← Option.some.inj hrel]
    · cases hends with
      | @fail _ error' =>
        obtain rfl : error = error' := Option.some.inj (hf.symm.trans (hp.error error' rfl))
        cases state with
        | queued _ => exact .failed
        | inFlight _ => cases hp.fits
        | finished => exact absurd rfl hstate
      | respond =>
        cases state with
        | inFlight _ => exact .response List.mem_cons_self
        | queued _ => cases hp.fits
        | finished => exact absurd rfl hstate
      | drop _ => exact .dropped hstate List.mem_cons_self
  | finished _ _ => exact .same silent rfl
  | pending hi => exact (unused hi rfl).elim
  | ready hi => exact (unused hi rfl).elim
  | close hi _ _ => exact (unused hi rfl).elim
  | @unwind i state place hi hlive =>
    refine .set silent hi rfl (.stays fun hs => ?_)
    subst hs
    have hfits := (ho.placed i _ hi).fits
    cases place with
    | returned _ => cases hlive
    | _ => cases hfits
  | wake _ => exact .same silent rfl
  | notifyDispatch _ =>
    refine ⟨silent, List.length_map .., fun j a ha => ?_⟩
    refine ⟨{ a with place := a.place.notify }, ?_, ?_⟩
    · show (s.requests.map _)[j]? = _
      rw [List.getElem?_map, ha]
      rfl
    · obtain ⟨state, place⟩ := a
      refine .stays fun hs => ?_
      subst hs
      have hfits := (ho.placed j _ ha).fits
      cases place <;> first | rfl | cases hfits

/-- **Each call of a closed endpoint returns a future that is ready with the error.** -/
theorem Move.refusals {error : E} (h : Move s l ev s') (hf : s.shared.failed = some error) :
    s'.refusals = s.refusals ++ if l.isCall then [.failed error] else [] := by
  have opened (hnone : s.shared.failed = none) : False := by
    rw [hf] at hnone
    cases hnone
  cases h with
  | @read l e _ _ _ hl => rcases hl with rfl | rfl <;> exact (List.append_nil _).symm
  | pollReady =>
    rw [Endpoint.pollReady, hf]
    exact (List.append_nil _).symm
  | @closed error' hf' =>
    obtain rfl : error = error' := Option.some.inj (hf.symm.trans hf')
    rfl
  | accept hopen _ _ _ => exact (opened hopen).elim
  | refuse hopen _ _ _ => exact (opened hopen).elim
  | finish _ hends _ _ => cases hends <;> exact (List.append_nil _).symm
  | finished _ hends => cases hends <;> exact (List.append_nil _).symm
  | _ => exact (List.append_nil _).symm

/-- How far a queued request of a closed endpoint is from its end. -/
def left : Place T E → ℕ
  | .waiting _ (.asleep _ _) | .locking => 4
  | .waiting _ .away | .locked => 3
  | .waiting _ (.enabled _) | .leaving _ => 2
  | .failing _ _ => 1
  | _ => 0

/-- A queued request of a closed endpoint comes nearer to the error with each step of its future; and it can take this step,
or a broadcast is owed to it, or it waits for the service lock of another that can take its step, or one of the two is being
dropped. -/
structure Resolving (error : E) (s : Endpoint T F R E) (j : ℕ) (reservation : DispatchReservation) (place : Place T E) :
    Prop where
  nearer : ∀ ev s', s.exec (.run j) = some (ev, s') →
    (∃ place', s'.requests[j]? = some ⟨.queued reservation, place'⟩ ∧ left place' < left place) ∨
      s'.requests[j]? = some ⟨.finished, .returned (.failed error)⟩
  able : (s.exec (.run j)).isSome ∨ place = .dropping ∨ ((∃ timer, place = .waiting .execute (.asleep false timer)) ∧ 0 < s.dispatch) ∨
    (place = .locking ∧ ∃ k request, k ≠ j ∧ s.service = some k ∧ s.requests[k]? = some request ∧
      (request.place = .dropping ∨ (s.exec (.run k)).isSome))

/-- In a closed endpoint the request that has the service lock gives it up. -/
theorem Orderly.holder_runs {error : E} (ho : s.Orderly) (hf : s.shared.failed = some error) {request : Request T E}
    (hi : s.requests[i]? = some request) (hserves : request.place.serves = true) : (s.exec (.run i)).isSome := by
  have hu := (ho.placed i _ hi).uses
  obtain ⟨state, place⟩ := request
  cases place with
  | locked => simp [exec, run, hi, hf]
  | leaving error' => simp [exec, run, hi]
  | waiting caller wait =>
    cases caller with
    | execute => cases hserves
    | start =>
      rw [hu rfl] at hf
      cases hf
  | polling | dispatching | calling =>
    rw [hu rfl] at hf
    cases hf
  | _ => cases hserves

/-- **The queued requests of a closed endpoint go to the error.** -/
theorem Orderly.resolving {error : E} (ho : s.Orderly) (hf : s.shared.failed = some error) {j : ℕ}
    {reservation : DispatchReservation} {place : Place T E} (hj : s.requests[j]? = some ⟨.queued reservation, place⟩) :
    Resolving error s j reservation place := by
  have hp := ho.placed j _ hj
  have unused (hu : place.uses = true) : False := by
    have hopen := hp.uses hu
    rw [hf] at hopen
    cases hopen
  obtain ⟨hlt, -⟩ := List.getElem?_eq_some_iff.mp hj
  constructor
  · intro ev s' he
    generalize hl : Label.run j = l at he
    have hm := exec_move he
    cases hm with
    | @jump i state place₁ place₂ service hi hjump =>
      cases hl
      obtain ⟨rfl, rfl⟩ : state = .queued reservation ∧ place₁ = place := by
        have heq := Option.some.inj (hi.symm.trans hj)
        exact ⟨congrArg Request.state heq, congrArg Request.place heq⟩
      refine Or.inl ⟨place₂, List.getElem?_set_self hlt, ?_⟩
      cases hjump with
      | failStart _ => exact (unused rfl).elim
      | poll hopen =>
        rw [hf] at hopen
        cases hopen
      | call => exact (unused rfl).elim
      | _ => exact Nat.lt_succ_self _
    | check _ hopen _ _ _ =>
      rw [hf] at hopen
      cases hopen
    | @dispatch i _ _ _ hi _ _ _ =>
      cases hl
      obtain rfl := congrArg Request.place (Option.some.inj (hi.symm.trans hj))
      exact (unused rfl).elim
    | @retry i _ _ _ hi _ _ _ =>
      cases hl
      obtain rfl := congrArg Request.place (Option.some.inj (hi.symm.trans hj))
      exact (unused rfl).elim
    | @finish i l state place₁ completion outcome e hi hends _ _ =>
      cases hends with
      | @fail _ error' =>
        cases hl
        obtain rfl := congrArg Request.place (Option.some.inj (hi.symm.trans hj))
        obtain rfl : error = error' := Option.some.inj (hf.symm.trans (hp.error error' rfl))
        exact Or.inr (List.getElem?_set_self hlt)
      | respond => cases hl
      | drop _ => cases hl
    | finished hi hends =>
      cases hends with
      | fail =>
        cases hl
        cases congrArg Request.state (Option.some.inj (hi.symm.trans hj))
      | respond => cases hl
      | drop _ => cases hl
    | read _ _ _ hl' => rcases hl' with rfl | rfl <;> cases hl
    | _ => cases hl
  · cases place with
    | waiting caller wait =>
      cases caller with
      | start => exact (unused rfl).elim
      | execute =>
        cases wait with
        | away => exact Or.inl (by simp [exec, run, hj])
        | enabled notified => exact Or.inl (by simp [exec, run, hj, check, hf])
        | asleep notified timer =>
          cases notified with
          | true => exact Or.inl (by simp [exec, run, hj])
          | false => exact Or.inr (Or.inr (Or.inl ⟨⟨timer, rfl⟩, hp.woken _ _ rfl (by simp [hf])⟩))
    | locking =>
      cases hs : s.service with
      | none => exact Or.inl (by simp [exec, run, hj, hs])
      | some k =>
        obtain ⟨request, hk, hserves⟩ := ho.holder k hs
        refine Or.inr (Or.inr (Or.inr ⟨rfl, k, request, ?_, rfl, hk, ?_⟩))
        · rintro rfl
          obtain rfl := Option.some.inj (hk.symm.trans hj)
          simp at hserves
        · exact hserves.symm.imp_right fun hserves => ho.holder_runs hf hk hserves
    | locked => exact Or.inl (ho.holder_runs hf hj rfl)
    | leaving error' => exact Or.inl (ho.holder_runs hf hj rfl)
    | failing completion error' => exact Or.inl (by simp [exec, run, hj, finish, withController, perform, EndpointController.exec])
    | dropping => exact Or.inr (Or.inl rfl)
    | polling | dispatching | calling => exact (unused rfl).elim
    | responding | returned _ => cases hp.fits

/-! ## Runs -/

variable {c₀ : EndpointController T F R} {start : T} {tr tr' : List (Label T E × Event T F R)}

/-- The calls of the controller in a history. -/
def calls (tr : List (Label T E × Event T F R)) : List (Entry T F R) := tr.flatMap fun x => x.2.entries

omit [AddCommMonoid T] [LinearOrder T] [Sub T] [Time T] [F64 F] [Secs T F] [Rng R F] in
/-- The errors after a step. -/
theorem errors_watch : (s.watch acts l ev).errors.length = acts.errors.length + l.error?.toList.length := by
  rw [← act?_error s l ev]
  cases hact : s.act? l ev with
  | none =>
    rw [watch_none hact]
    rfl
  | some x =>
    rw [watch_some hact, Acts.errors_snoc, List.length_append]
    rfl

/-- **Every run** leaves the service alone after its error, and counts this error once. -/
theorem run_silenced (h0 : Fresh c₀) (h : Run (system T F R E).Step ((system T F R E).start c₀ start) tr s) :
    ∃ acts, Run Watched ((system T F R E).start c₀ start, []) tr (s, acts) ∧ s.Sound acts ∧ s.Silenced acts ∧
      s.shared.controller.failures = acts.errors.length + (calls tr).countP Entry.isFailure := by
  induction h with
  | nil =>
    obtain ⟨acts, hw, hs⟩ := run_watched (E := E) h0 (@Run.nil _ _ _ ((system T F R E).start c₀ start))
    obtain ⟨rfl⟩ : acts = [] := congrArg Prod.snd hw.nil_inv
    refine ⟨[], hw, hs, ⟨rfl, by simp⟩, ?_⟩
    obtain ⟨config, t, rng, controllerId, hn⟩ := h0
    obtain ⟨_, _, _, _, _, _, _, _, _, rfl⟩ := newWithRng_cases hn
    rfl
  | @snoc tr m x s _ he ih =>
    obtain ⟨acts, hw, hs, hsilenced, hfailures⟩ := ih
    have hm := exec_move he
    refine ⟨m.watch acts x.1 x.2, hw.snoc ⟨he, rfl⟩, hm.sound hs, hm.silenced hs.orderly hsilenced, ?_⟩
    have hcalls : calls (tr ++ [x]) = calls tr ++ x.2.entries := by simp [calls]
    have hcount := hm.failures
    have herrors : (m.watch acts x.1 x.2).errors.length = acts.errors.length + (Label.error? x.1).toList.length :=
      errors_watch
    rw [hcalls, List.countP_append, herrors]
    omega

/-- What a closed endpoint, and what is left of it after more steps, have in common. -/
structure Closed (error : E) (s : Endpoint T F R E) (tr : List (Label T E × Event T F R)) (s' : Endpoint T F R E) :
    Prop where
  failed : s'.shared.failed = some error
  /-- Each call has returned a future that is ready with the error. -/
  refusals : s'.refusals = s.refusals ++ List.replicate (tr.countP fun x => x.1.isCall) (.failed error)
  silent : ∀ e ∈ calls tr, e.issued? = none ∧ e.dispatched? = none
  length : s'.requests.length = s.requests.length
  passes : ∀ j a, s.requests[j]? = some a → ∃ b, s'.requests[j]? = some b ∧ Passes error (tr.map Prod.fst) j a b

/-- **A closed endpoint stays closed.** -/
theorem run_closed {error : E} (hs : s.Sound acts) (hf : s.shared.failed = some error)
    (h : Run (system T F R E).Step s tr s') : Closed error s tr s' ∧ ∃ acts', s'.Sound acts' := by
  induction h with
  | nil =>
    exact ⟨⟨hf, (List.append_nil _).symm, by rintro _ ⟨⟩, rfl, fun j a ha => ⟨a, ha, .stays fun _ => rfl⟩⟩, acts, hs⟩
  | @snoc tr m x s' _ he ih =>
    obtain ⟨⟨hfailed, hrefusals, hsilent, hlength, hpasses⟩, acts', hm⟩ := ih
    have hmove := exec_move he
    obtain ⟨hsilent', hlength', hpasses'⟩ := hmove.closing hm.orderly hfailed
    refine ⟨⟨?_, ?_, fun e he => ?_, hlength'.trans hlength, fun j a ha => ?_⟩, _, hmove.sound hm⟩
    · rw [hmove.failed, hfailed]
      cases herror : x.1.error? with
      | none => rfl
      | some error' =>
        -- a second error would need a poll
        have hopen : m.shared.failed = none := by
          have hact := act?_error m x.1 x.2
          rw [herror] at hact
          obtain ⟨act, hact, huses⟩ := Option.bind_eq_some_iff.mp hact
          exact hmove.uses hm.orderly hact (Act.uses_of_error huses)
        rw [hfailed] at hopen
        cases hopen
    · rw [hmove.refusals hfailed, hrefusals, List.countP_append, List.countP_singleton, List.replicate_add,
        List.append_assoc]
      cases Label.isCall x.1 <;> rfl
    · have hcalls : calls (tr ++ [x]) = calls tr ++ x.2.entries := by simp [calls]
      rw [hcalls] at he
      rcases List.mem_append.mp he with he | he
      · exact hsilent e he
      · exact hsilent' e he
    · obtain ⟨b, hb, hab⟩ := hpasses j a ha
      obtain ⟨c, hc, hbc⟩ := hpasses' j b hb
      refine ⟨c, hc, ?_⟩
      rw [List.map_append]
      exact hab.snoc hbc

/-- A queued request that is finished in a closed endpoint was cancelled, which counts as nothing. -/
theorem released_uncounted (h0 : Fresh c₀)
    (h : Run (system T F R E).Step ((system T F R E).start c₀ start) tr s) (h' : Run (system T F R E).Step s tr' s')
    (hsilent : ∀ e ∈ calls tr', e.issued? = none ∧ e.dispatched? = none) {j : ℕ} {reservation : DispatchReservation}
    {place place' : Place T E} (hj : s.requests[j]? = some ⟨.queued reservation, place⟩)
    (hj' : s'.requests[j]? = some ⟨.finished, place'⟩) :
    ∃ e, deeds (entriesOf j ((tr ++ tr').map Prod.snd)) = ⟨[reservation], [], [e]⟩ ∧ e.cancelled? = some reservation ∧
      e.after.completed = e.before.completed ∧ e.after.failures = e.before.failures := by
  have hlife := (system_sound.run h0 h).2.1 j
  have hlife' := (system_sound.run h0 (h.append h')).2.1 j
  rw [show ((system T F R E).view s).clients[j]? = _ from view_queued hj] at hlife
  obtain ⟨x, hx, hfinished⟩ := client_finished hj'
  rw [show ((system T F R E).view s').clients[j]? = _ from hx] at hlife'
  -- nothing is reserved or dispatched after the error
  have hquiet : ∀ e ∈ entriesOf j (tr'.map Prod.snd), e.issued? = none ∧ e.dispatched? = none := by
    intro e he
    obtain ⟨ev, hev, he⟩ := List.mem_flatMap.mp he
    obtain ⟨x, hx, rfl⟩ := List.mem_map.mp hev
    split at he
    · exact hsilent e (List.mem_flatMap.mpr ⟨x, hx, he⟩)
    · cases he
  have hentries : entriesOf j ((tr ++ tr').map Prod.snd) =
      entriesOf j (tr.map Prod.snd) ++ entriesOf j (tr'.map Prod.snd) := by
    rw [List.map_append, entriesOf, List.flatMap_append]
    rfl
  have hlife : Life (.queued reservation) (deeds (entriesOf j (tr.map Prod.snd))) := hlife
  have hlife' : Life x.purpose (deeds (entriesOf j ((tr ++ tr').map Prod.snd))) := hlife'
  have hold : deeds (entriesOf j (tr.map Prod.snd)) = ⟨[reservation], [], []⟩ := by
    generalize deeds (entriesOf j (tr.map Prod.snd)) = d at hlife
    cases hlife
    rfl
  have hdeeds : deeds (entriesOf j ((tr ++ tr').map Prod.snd)) =
      ⟨[reservation], [], (deeds (entriesOf j (tr'.map Prod.snd))).releases⟩ := by
    rw [hentries, deeds_append, hold]
    have hacc : (deeds (entriesOf j (tr'.map Prod.snd))).accepted = [] :=
      List.filterMap_eq_nil_iff.mpr fun e he => (hquiet e he).1
    have hdis : (deeds (entriesOf j (tr'.map Prod.snd))).dispatches = [] :=
      List.filterMap_eq_nil_iff.mpr fun e he => (hquiet e he).2
    rw [hacc, hdis]
    rfl
  rw [hdeeds, hfinished] at hlife'
  rw [hdeeds]
  generalize (deeds (entriesOf j (tr'.map Prod.snd))).releases = releases at hlife'
  cases hlife' with
  | cancelled _ e hcancelled hcompleted hfailures => exact ⟨e, rfl, hcancelled, hcompleted, hfailures⟩

/-- A task that was told that there is room. -/
def Admitted (s : Endpoint T F R E) : Prop :=
  (∃ error, s.shared.failed = some error ∧
      s.call = some (.silent, { s with refusals := s.refusals ++ [.failed error] })) ∨
    (s.shared.failed = none ∧ (s.shared.controller.nextId = u64Max ∨ ∃ e reservation s',
      s.call = some (⟨some s.requests.length, [e], .none⟩, s') ∧ e.issued? = some reservation ∧
      s'.requests = s.requests ++ [⟨.queued reservation, .waiting .execute .away⟩] ∧
      ids s'.shared.controller.pending = ids s.shared.controller.pending ++ [reservation.id]))

/-- A call that finds room reserves. -/
theorem admitted_of_room (hroom : s.shared.controller.maySchedule = true) : s.Admitted := by
  cases hf : s.shared.failed with
  | some error => exact Or.inl ⟨error, hf, by simp [call, hf]⟩
  | none =>
    refine Or.inr ⟨hf, ?_⟩
    by_cases hid : s.shared.controller.nextId = u64Max
    · exact Or.inl hid
    · have hok := reserve_ok s.shared.controller s.clock (of_decide_eq_true hroom) hid
      have hcall : ∃ e s', s.call = some (⟨some s.requests.length, [e], .none⟩, s') ∧
          e.issued? = some { controllerId := s.shared.controller.controllerId, id := s.shared.controller.nextId } ∧
          s'.requests = s.requests ++ [⟨.queued { controllerId := s.shared.controller.controllerId
                                                  id := s.shared.controller.nextId }, .waiting .execute .away⟩] ∧
          s'.shared.controller = (s.shared.controller.reserve s.clock).2 := by
        simp only [call, hf, perform, EndpointController.exec, Option.map_some, Option.bind_eq_bind, Option.bind_some, hok]
        exact ⟨_, _, rfl, rfl, rfl, rfl⟩
      obtain ⟨e, s', hcall, hissued, hrequests, hcontroller⟩ := hcall
      refine Or.inr ⟨e, _, s', hcall, hissued, hrequests, ?_⟩
      rw [hcontroller, hok]
      exact List.map_append ..

/-- A task that was told that there is room, and has not called since. -/
theorem run_room (h : Run (system T F R E).Step s tr s') (hcall : ∀ x ∈ tr, x.1 ≠ .call)
    (hroom : s.shared.controller.maySchedule = true) : s'.shared.controller.maySchedule = true := by
  induction h with
  | nil => exact hroom
  | @snoc tr m x s' _ he ih =>
    refine (exec_move he).room (hcall x (List.mem_append_right _ List.mem_cons_self)) ?_
    exact ih fun y hy => hcall y (List.mem_append_left _ hy)

omit [AddCommMonoid T] [LinearOrder T] [Sub T] [Time T] [F64 F] [Secs T F] [Rng R F] in
theorem pollReady_room {waker : ℕ} (h : (s.pollReady waker).1 = .ready (.ok ())) :
    s.shared.controller.maySchedule = true := by
  unfold pollReady ControllerState.pollAdmission at h
  split at h
  · cases h
  · split at h
    · rename_i hp
      split at hp
      · assumption
      · split at hp <;> cases hp
    · cases h

end Endpoint

section

variable {T F R E : Type} [AddCommMonoid T] [LinearOrder T] [Sub T] [Time T] [F64 F] [Secs T F] [Rng R F]
variable {c₀ : EndpointController T F R} {start : T} {tr : List (Label T E × Event T F R)} {s : Endpoint T F R E}

/-- **A readiness error of the wrapped service is terminal.** In every run, whatever the futures do and whenever they are
dropped, nothing is done with the service after its error, which counts as one failure, beside those of dispatched requests.
From then on, however the run goes on, every readiness poll gives the error; every call reserves nothing, and gives a future
that is ready with the error; nothing is dispatched; each queued request goes to the error unless it is dropped, and its
release counts as nothing; and each dispatched one ends with its own response, or is dropped. And a task that was told that
there is room, and has not called since, can call: it reserves, or the endpoint has been closed, or the identities are used
up. -/
theorem terminal_readiness_failure (h0 : Fresh c₀)
    (h : Run (system T F R E).Step ((system T F R E).start c₀ start) tr s) :
    (∃ acts, Run Endpoint.Watched ((system T F R E).start c₀ start, []) tr (s, acts) ∧
      acts.errors = s.shared.failed.toList ∧
      (∀ before x after, acts = before ++ x :: after → x.1.error? ≠ none → ∀ a ∈ after, a.1.uses = false) ∧
      s.shared.controller.failures = acts.errors.length + (Endpoint.calls tr).countP Entry.isFailure) ∧
    (∀ error, s.shared.failed = some error → ∀ (tr' : List (Label T E × Event T F R)) (s' : Endpoint T F R E),
      Run (system T F R E).Step s tr' s' →
      Endpoint.Closed error s tr' s' ∧ (∀ waker, (s'.pollReady waker).1 = .ready (.error error)) ∧
      s'.call = some (.silent, { s' with refusals := s'.refusals ++ [.failed error] }) ∧
      (∀ j reservation place, s'.requests[j]? = some ⟨.queued reservation, place⟩ →
        Endpoint.Resolving error s' j reservation place) ∧
      ∀ j reservation place place', s.requests[j]? = some ⟨.queued reservation, place⟩ →
        s'.requests[j]? = some ⟨.finished, place'⟩ → ∃ e,
          deeds (entriesOf j ((tr ++ tr').map Prod.snd)) = ⟨[reservation], [], [e]⟩ ∧ e.cancelled? = some reservation ∧
          e.after.completed = e.before.completed ∧ e.after.failures = e.before.failures) ∧
    ∀ waker, (s.pollReady waker).1 = .ready (.ok ()) → ∀ (tr' : List (Label T E × Event T F R)) (s' : Endpoint T F R E),
      Run (system T F R E).Step (s.pollReady waker).2 tr' s' → (∀ x ∈ tr', x.1 ≠ .call) → s'.Admitted := by
  obtain ⟨acts, hw, hs, hsilenced, hfailures⟩ := Endpoint.run_silenced h0 h
  refine ⟨⟨acts, hw, hsilenced.errors, hsilenced.after, hfailures⟩, fun error hf tr' s' h' => ?_, ?_⟩
  · obtain ⟨hclosed, acts', hs'⟩ := Endpoint.run_closed hs hf h'
    have hf' := hclosed.failed
    refine ⟨hclosed, fun waker => ?_, ?_, fun j reservation place hj => hs'.orderly.resolving hf' hj,
      fun j reservation place place' hj hj' => Endpoint.released_uncounted h0 h h' hclosed.silent hj hj'⟩
    · simp [Endpoint.pollReady, hf']
    · simp [Endpoint.call, hf']
  · intro waker hready tr' s' h' hcall
    refine Endpoint.admitted_of_room (Endpoint.run_room h' hcall ?_)
    rw [(Endpoint.pollReady_fields s waker).2.2.2.2.2]
    exact Endpoint.pollReady_room hready

end

/-- Two requests of an endpoint: the second sleeps while the first finds that the service has failed. -/
def failureLabels : List (Label ℕ ℕ) :=
  [.pollReady 5, .call, .call, .run 0, .run 0, .run 1, .run 1, .run 0, .run 0, .pollInner 0 (.ready (.error 9))]

/-- The second request goes to the error, and so does the next call. -/
theorem terminal_readiness_failure_two : ∃ tr s place, (system ℕ ℚ ℕ ℕ).play ((system ℕ ℚ ℕ ℕ).start sample 0) failureLabels =
    some (tr, s) ∧ s.shared.controller.failures = 1 ∧ (∀ waker, (s.pollReady waker).1 = .ready (.error 9)) ∧
    s.call = some (.silent, { s with refusals := s.refusals ++ [.failed 9] }) ∧ Endpoint.Resolving 9 s 1 ⟨7, 1⟩ place := by
  have hp : ((system ℕ ℚ ℕ ℕ).play ((system ℕ ℚ ℕ ℕ).start sample 0) failureLabels).any (fun x =>
      let s : Endpoint ℕ ℚ ℕ ℕ := x.2
      decide (s.shared.failed = some 9 ∧ s.shared.controller.failures = 1 ∧
        s.view.clients[1]?.map Notify.Waiter.purpose = some (.queued ⟨7, 1⟩))) = true := by decide +kernel
  obtain ⟨⟨tr, s⟩, hr, hres⟩ := (Option.any_eq_true _ _).mp hp
  obtain ⟨hfailed, hfailures, hqueued⟩ := of_decide_eq_true hres
  obtain ⟨-, hclosed, -⟩ := terminal_readiness_failure sample_fresh (System.play_run hr)
  obtain ⟨-, hpoll, hcall, hresolving, -⟩ := hclosed 9 hfailed [] s .nil
  obtain ⟨x, hx, hpurpose⟩ := Option.map_eq_some_iff.mp hqueued
  obtain ⟨⟨state, place⟩, hi, rfl⟩ := Option.map_eq_some_iff.mp ((List.getElem?_map ..).symm.trans hx)
  cases state with
  | queued reservation =>
    obtain rfl := Hold.queued.inj hpurpose
    exact ⟨tr, s, place, hr, hfailures, hpoll, hcall, hresolving 1 _ place hi⟩
  | inFlight _ => cases hpurpose
  | finished => cases hpurpose

end Tower

end Loadpace
