import Loadpace.Lib.Spacing
import Loadpace.Machine
import Loadpace.Wakeup

/-!
# Probes are gated by time

However often a schedule is consulted (`ProbeCall`), its random decisions are `minInterval` apart, a probe runs for
`duration` and is neither extended nor replaced while it runs, and nothing but a decision draws from the generator
(`probe_gating`).
-/

namespace Loadpace

open Systems Spacing

/-- The calls that look at a probe state. -/
inductive ProbeCall (T F : Type)
  | maybeStart (now : T)
  | active (now : T)
  | effectiveRate (base : F) (now : T)

def ProbeCall.now {T F : Type} : ProbeCall T F → T
  | .maybeStart now | .active now | .effectiveRate _ now => now

/-- One call, with the probe state and the generator before and after it. -/
structure ProbeEntry (T F R : Type) where
  call : ProbeCall T F
  before : ProbeState T F × R
  after : ProbeState T F × R

/-- The instant of the random decision that the call made: no probe is active, and the decision is due. -/
def ProbeEntry.decision? {T F R : Type} [LinearOrder T] (e : ProbeEntry T F R) : Option T :=
  match e.call with
  | .maybeStart now =>
    if (e.before.1.active now).current.isNone ∧ e.before.1.nextProbeAt.getD now ≤ now then some now else none
  | .active _ => none
  | .effectiveRate _ _ => none

/-- The instants of the decisions of a history. -/
def decisions {T F R : Type} [LinearOrder T] (tr : List (ProbeEntry T F R)) : List T := tr.filterMap ProbeEntry.decision?

section

variable {T F R : Type} [AddCommMonoid T] [LinearOrder T] [Sub T] [Time T] [F64 F] [Secs T F] [Rng R F]

namespace ProbeSchedule

def exec (p : ProbeSchedule T F) (x : ProbeState T F × R) : ProbeCall T F → Option (ProbeState T F × R)
  | .maybeStart now => p.maybeStart x.1 x.2 now
  | .active now => some (x.1.active now, x.2)
  | .effectiveRate base now => some ((x.1.effectiveRate base now).2, x.2)

/-- One call, at an instant that the clock has not passed. -/
def Step (p : ProbeSchedule T F) : (ProbeState T F × R) × T → ProbeEntry T F R → (ProbeState T F × R) × T → Prop :=
  timedStep (fun e => some e.call.now) fun x e x' => e.before = x ∧ e.after = x' ∧ p.exec x e.call = some x'

/-- The clock can represent the end of a probe and every next decision. -/
def Room (p : ProbeSchedule T F) (now : T) : Prop :=
  (checkedAdd now p.maxInterval).isSome ∧ (checkedAdd now p.duration).isSome

variable {p : ProbeSchedule T F} {x x' : ProbeState T F × R} {e : ProbeEntry T F R} {tr : List (ProbeEntry T F R)}
variable {clock clock' start : T} {rng : R} {probe : Probe T F}

omit [Secs T F] in
/-- What a validated schedule has. -/
theorem validate_intervals (h : p.validate = some ()) : 0 < p.duration ∧ p.minInterval ≤ p.maxInterval := by
  unfold validate at h
  simp only [Option.bind_eq_bind, Option.bind_eq_some_iff, Option.guard_eq_some'] at h
  obtain ⟨-, -, -, -, -, -, -, hduration, -, hle⟩ := h
  exact ⟨pos_iff_ne_zero.mpr hduration, hle⟩

/-- **One call**: it drops the probe that has expired, or makes a decision. -/
theorem Step.cases (hp : p.minInterval ≤ p.maxInterval) (h : p.Step (x, clock) e (x', clock')) :
    clock ≤ e.call.now ∧ clock' = e.call.now ∧
      ((e.decision? = none ∧ x'.1 = x.1.active e.call.now ∧ x'.2 = x.2) ∨
        (e.decision? = some e.call.now ∧ (x.1.active e.call.now).current = none ∧
          (∀ due, x.1.nextProbeAt = some due → due ≤ e.call.now) ∧ ∃ interval, p.minInterval ≤ interval ∧
          interval ≤ p.maxInterval ∧ x'.1.nextProbeAt = some (saturatingAdd e.call.now interval) ∧
          (x'.1.current = none ∨ ∃ kind, p.Starts kind ∧
            x'.1.current = some { kind, expiry := saturatingAdd e.call.now p.duration }))) := by
  obtain ⟨⟨rfl, rfl, hx⟩, hle, rfl⟩ := h
  refine ⟨hle, rfl, ?_⟩
  obtain ⟨call, ⟨s, rng⟩, ⟨s', rng'⟩⟩ := e
  cases call with
  | active now =>
    have hx : some (s.active now, rng) = some (s', rng') := hx
    obtain ⟨rfl, rfl⟩ := Prod.mk.inj (Option.some.inj hx)
    exact Or.inl ⟨rfl, rfl, rfl⟩
  | effectiveRate base now =>
    have hx : some ((s.effectiveRate base now).2, rng) = some (s', rng') := hx
    obtain ⟨rfl, rfl⟩ := Prod.mk.inj (Option.some.inj hx)
    exact Or.inl ⟨rfl, s.effectiveRate_snd base now, rfl⟩
  | maybeStart now =>
    have hx : p.maybeStart s rng now = some (s', rng') := hx
    unfold ProbeEntry.decision?
    dsimp only [ProbeCall.now]
    rcases maybeStart_cases hx with ⟨rfl, rfl, hkept⟩ | ⟨hnone, hdue, interval, rng₁, hi, hnext, hcurrent⟩
    · refine Or.inl ⟨if_neg ?_, rfl, rfl⟩
      rintro ⟨hnone, hdue⟩
      rcases hkept with hlive | hlater
      · exact hlive (Option.isNone_iff_eq_none.mp hnone)
      · exact absurd hlater (not_lt.mpr hdue)
    · obtain ⟨hlo, hhi⟩ := randomInterval_bounds hp hi
      refine Or.inr ⟨if_pos ⟨Option.isNone_iff_eq_none.mpr hnone, hdue⟩, hnone, fun due hd => ?_, interval, hlo, hhi, hnext,
        hcurrent⟩
      rw [hd] at hdue
      exact hdue

/-- The decisions so far are `minInterval` apart, and so is the next one. -/
structure Gated (p : ProbeSchedule T F) (tr : List (ProbeEntry T F R)) (s : ProbeState T F) : Prop where
  apart : (decisions tr).Pairwise fun a b => a + p.minInterval ≤ b
  due : ∀ a ∈ decisions tr, ∃ due, s.nextProbeAt = some due ∧ a + p.minInterval ≤ due

theorem Step.gated (hp : p.minInterval ≤ p.maxInterval) (hroom : p.Room e.call.now) (hg : p.Gated tr x.1)
    (h : p.Step (x, clock) e (x', clock')) : p.Gated (tr ++ [e]) x'.1 := by
  have hsnoc : decisions (tr ++ [e]) = decisions tr ++ e.decision?.toList := by
    rw [decisions, List.filterMap_append, List.filterMap_cons, List.filterMap_nil]
    cases e.decision? <;> rfl
  obtain ⟨-, -, ⟨hnone, hs, -⟩ | ⟨hsome, -, hdue, interval, hlo, hhi, hnext, -⟩⟩ := Step.cases hp h
  · rw [hnone, Option.toList_none, List.append_nil] at hsnoc
    refine ⟨hsnoc ▸ hg.apart, fun a ha => ?_⟩
    obtain ⟨due, hd, hle⟩ := hg.due a (hsnoc ▸ ha)
    exact ⟨due, by rw [hs, ProbeState.active_nextProbeAt]; exact hd, hle⟩
  · rw [hsome] at hsnoc
    have hearlier : ∀ a ∈ decisions tr, a + p.minInterval ≤ e.call.now := fun a ha => by
      obtain ⟨due, hd, hle⟩ := hg.due a ha
      exact hle.trans (hdue due hd)
    have hlater : e.call.now + p.minInterval ≤ saturatingAdd e.call.now interval := by
      rw [saturatingAdd_exact (checkedAdd_mono hhi hroom.1)]
      exact add_le_add_right hlo _
    refine ⟨?_, fun a ha => ⟨_, hnext, ?_⟩⟩
    · rw [hsnoc]
      refine List.pairwise_append.mpr ⟨hg.apart, List.pairwise_singleton _ _, fun a ha b hb => ?_⟩
      rw [List.mem_singleton.mp hb]
      exact hearlier a ha
    · rw [hsnoc] at ha
      rcases List.mem_append.mp ha with ha | ha
      · exact (hearlier a ha).trans (le_self_add.trans hlater)
      · rw [List.mem_singleton.mp ha]
        exact hlater

theorem run_gated (hp : p.minInterval ≤ p.maxInterval) (hroom : ∀ e ∈ tr, p.Room e.call.now)
    (h : Run p.Step ((ProbeState.new, rng), start) tr (x, clock)) : p.Gated tr x.1 := by
  generalize hy : (x, clock) = y at h
  induction h generalizing x clock with
  | nil =>
    cases hy
    refine ⟨.nil, fun a ha => ?_⟩
    cases ha
  | @snoc tr m e y hr he ih =>
    subst hy
    exact he.gated hp (hroom e (List.mem_append_right _ List.mem_cons_self))
      (ih (fun e he => hroom e (List.mem_append_left _ he)) rfl)

/-- **A running probe** is kept by every call, and no decision is made. -/
theorem run_running (hp : p.minInterval ≤ p.maxInterval) (hc : x.1.current = some probe)
    (h : Run p.Step (x, clock) tr (x', clock')) (hlt : clock' < probe.expiry) :
    x'.1.current = some probe ∧ clock ≤ clock' ∧ ∀ e ∈ tr, e.decision? = none := by
  generalize hy : (x', clock') = y at h
  induction h generalizing x' clock' with
  | nil =>
    cases hy
    exact ⟨hc, le_rfl, fun e he => by cases he⟩
  | @snoc tr m e y hr he ih =>
    subst hy
    obtain ⟨hle, hclock, hcases⟩ := Step.cases hp he
    obtain ⟨hm, hstart, hnone⟩ := ih (hle.trans_lt (hclock ▸ hlt)) rfl
    have hlive : m.1.1.active e.call.now = m.1.1 := by
      unfold ProbeState.active
      rw [if_neg]
      rw [hm]
      simpa using hclock ▸ hlt
    rcases hcases with ⟨hdecision, hs, -⟩ | ⟨-, hfree, -⟩
    · refine ⟨by rw [hs, hlive]; exact hm, hstart.trans (hclock ▸ hle), fun e' he' => ?_⟩
      rcases List.mem_append.mp he' with he' | he'
      · exact hnone e' he'
      · rw [List.mem_singleton.mp he']
        exact hdecision
    · rw [hlive, hm] at hfree
      cases hfree

/-- A call that finds the probe expired drops it; only a decision may start another. -/
theorem Step.expired (hp : p.minInterval ≤ p.maxInterval) (hc : x.1.current = some probe)
    (hle : probe.expiry ≤ e.call.now) (h : p.Step (x, clock) e (x', clock')) :
    x'.1.current = none ∨ (e.decision? = some e.call.now ∧
      ∃ kind, p.Starts kind ∧ x'.1.current = some { kind, expiry := saturatingAdd e.call.now p.duration }) := by
  obtain ⟨-, -, ⟨-, hs, -⟩ | ⟨hsome, -, -, -, -, -, -, hcurrent⟩⟩ := Step.cases hp h
  · left
    rw [hs, ProbeState.active, if_pos (by rw [hc]; exact decide_eq_true hle)]
  · exact hcurrent.imp id fun hstarted => ⟨hsome, hstarted⟩

/-- The probe runs from `t` for `duration` through the calls that follow, and no longer. -/
structure Runs (p : ProbeSchedule T F) (t : T) (probe : Probe T F) (later : List (ProbeEntry T F R)) : Prop where
  starts : p.Starts probe.kind
  expiry : probe.expiry = t + p.duration
  kept : ∀ e ∈ later, e.call.now < t + p.duration → e.decision? = none ∧ e.after.1.current = some probe
  dropped : ∀ mid e rest, later = mid ++ e :: rest → (∀ e' ∈ mid, e'.call.now < t + p.duration) →
    t + p.duration ≤ e.call.now → e.after.1.current = none ∨ (e.decision? = some e.call.now ∧
      ∃ kind, p.Starts kind ∧ e.after.1.current = some { kind, expiry := e.call.now + p.duration })

/-- A probe that a decision starts. -/
theorem Step.runs (hp : p.minInterval ≤ p.maxInterval) (hpos : 0 < p.duration) {t : T} {later : List (ProbeEntry T F R)}
    {y : ProbeState T F × R} {final : T} (hroom : ∀ e' ∈ e :: later, p.Room e'.call.now)
    (h : p.Step (x, clock) e (x', clock')) (ht : e.decision? = some t) (hc : x'.1.current = some probe)
    (hl : Run p.Step (x', clock') later (y, final)) : p.Runs t probe later := by
  have hexpires : ∀ e' ∈ e :: later, saturatingAdd e'.call.now p.duration = e'.call.now + p.duration :=
    fun e' he' => saturatingAdd_exact (hroom e' he').2
  obtain ⟨-, hclock, ⟨hnone, -⟩ | ⟨hsome, -, -, -, -, -, -, hcurrent⟩⟩ := Step.cases hp h
  · rw [hnone] at ht
    cases ht
  rw [hsome] at ht
  obtain rfl := Option.some.inj ht
  obtain ⟨kind, hkind, hstarted⟩ := hcurrent.resolve_left (by rw [hc]; exact Option.some_ne_none _)
  obtain rfl := Option.some.inj (hc.symm.trans hstarted)
  have hexpiry := hexpires e List.mem_cons_self
  refine ⟨hkind, hexpiry, fun e' he' hlt => ?_, fun mid e' rest hmid hearly hle => ?_⟩
  · obtain ⟨a, b, ⟨m, mclock⟩, ⟨m', mclock'⟩, rfl, hr, he, -⟩ := hl.of_mem he'
    obtain ⟨-, rfl, -⟩ := Step.cases hp he
    obtain ⟨hkept, -, hnone⟩ := run_running hp hc (hr.snoc he) (hexpiry ▸ hlt)
    exact ⟨hnone e' (List.mem_append_right _ List.mem_cons_self), he.1.2.1 ▸ hkept⟩
  · subst hmid
    obtain ⟨⟨m, mclock⟩, hr, hrest⟩ := hl.split
    obtain ⟨⟨m', mclock'⟩, he, -⟩ := hrest.cons_inv
    have hbefore : mclock < e.call.now + p.duration := by
      rcases List.eq_nil_or_concat mid with rfl | ⟨mid, last, rfl⟩
      · cases hr.nil_inv
        rw [hclock]
        exact lt_add_of_pos_right _ hpos
      · rw [List.concat_eq_append] at hr hearly
        obtain ⟨⟨_, _⟩, -, hlast⟩ := hr.snoc_inv
        obtain ⟨-, rfl, -⟩ := Step.cases hp hlast
        exact hearly last (List.mem_append_right _ List.mem_cons_self)
    obtain ⟨hkept, -, -⟩ := run_running hp hc hr (hexpiry ▸ hbefore)
    have hdropped := he.expired hp hkept (hexpiry ▸ hle)
    rw [hexpires e' (by simp)] at hdropped
    exact he.1.2.1 ▸ hdropped

end ProbeSchedule

open ProbeSchedule

variable {p : ProbeSchedule T F} {x : ProbeState T F × R} {tr : List (ProbeEntry T F R)} {start clock : T} {rng : R}

/-- **Probe gating**: over every history of a schedule that passes validation, however often it is consulted and
whatever the generator draws. -/
theorem probe_gating (hp : p.validate = some ()) (hroom : ∀ e ∈ tr, p.Room e.call.now)
    (h : Run p.Step ((ProbeState.new, rng), start) tr (x, clock)) :
    -- the decisions are `minInterval` apart, and a window of length `L` has at most one more than it has intervals
    ((decisions tr).Pairwise fun a b => a + p.minInterval ≤ b) ∧
    (∀ lo L k, L < (k + 1) • p.minInterval → (decisions tr).countP (fun t => lo ≤ t ∧ t ≤ lo + L) ≤ k + 1) ∧
    -- a decision finds no probe active, and no other call draws from the generator or starts a probe
    (∀ e ∈ tr, (e.decision? = some e.call.now ∧ (e.before.1.active e.call.now).current = none) ∨
      (e.decision? = none ∧ e.after.2 = e.before.2 ∧ e.after.1.current = (e.before.1.active e.call.now).current)) ∧
    -- the probe that a decision starts runs for `duration`
    ∀ before e later t probe, tr = before ++ e :: later → e.decision? = some t → e.after.1.current = some probe →
      p.Runs t probe later := by
  obtain ⟨hpos, hle⟩ := validate_intervals hp
  have hgated := run_gated hle hroom h
  refine ⟨hgated.apart, fun lo L k hk => count_apart hgated.apart (add_lt_add_right hk lo), fun e he => ?_,
    fun before e later t probe htr ht hc => ?_⟩
  · obtain ⟨_, _, ⟨_, _⟩, ⟨_, _⟩, -, -, hstep, -⟩ := h.of_mem he
    obtain ⟨rfl, rfl, -⟩ := hstep.1
    obtain ⟨-, -, ⟨hnone, hs, hdraws⟩ | ⟨hsome, hfree, -⟩⟩ := Step.cases hle hstep
    · exact Or.inr ⟨hnone, hdraws, congrArg ProbeState.current hs⟩
    · exact Or.inl ⟨hsome, hfree⟩
  · subst htr
    obtain ⟨⟨_, _⟩, -, hrest⟩ := h.split
    obtain ⟨⟨_, _⟩, hstep, hlater⟩ := hrest.cons_inv
    exact hstep.runs hle hpos (fun e' he' => hroom e' (List.mem_append_right _ he')) ht (by rw [← hc]; exact congrArg (fun x => x.1.current) hstep.1.2.1.symm) hlater

end

/-- A probe that starts at the first call, is still there a nanosecond before its end, and is gone a call later. -/
theorem probe_gating_three : ∃ tr x, ∃ probe : Probe ℕ ℚ, Run (ProbeSchedule.default : ProbeSchedule ℕ ℚ).Step
    ((ProbeState.new, 0), 0) tr (x, 1000000000) ∧ x.1.current = none ∧ probe.expiry = 1000000000 ∧
      (decisions tr).countP (fun t => 0 ≤ t ∧ t ≤ 0 + 999999999) ≤ 1 := by
  have hplay : ((ProbeSchedule.default : ProbeSchedule ℕ ℚ).exec (ProbeState.new, 0) (.maybeStart 0)).bind (fun x₁ =>
      (ProbeSchedule.default.exec x₁ (.effectiveRate 50 999999999)).bind fun x₂ =>
        (ProbeSchedule.default.exec x₂ (.active 1000000000)).map fun x₃ =>
          (x₁.1.current.isSome, x₂.1.current.isSome, x₃.1.current.isNone)) = some (true, true, true) := by decide +kernel
  simp only [Option.bind_eq_some_iff, Option.map_eq_some_iff, Prod.mk.injEq] at hplay
  obtain ⟨x₁, h₁, x₂, h₂, x₃, h₃, hstarted, -, hgone⟩ := hplay
  obtain ⟨probe, hc⟩ := Option.isSome_iff_exists.mp hstarted
  have hrun : Run (ProbeSchedule.default : ProbeSchedule ℕ ℚ).Step ((ProbeState.new, 0), 0)
      [{ call := .maybeStart 0, before := (ProbeState.new, 0), after := x₁ },
        { call := .effectiveRate 50 999999999, before := x₁, after := x₂ },
        { call := .active 1000000000, before := x₂, after := x₃ }] (x₃, 1000000000) :=
    Run.cons (s := (x₁, 0)) ⟨⟨rfl, rfl, h₁⟩, le_refl 0, rfl⟩
      (Run.cons (s := (x₂, 999999999)) ⟨⟨rfl, rfl, h₂⟩, Nat.zero_le 999999999, rfl⟩
        (Run.single ⟨⟨rfl, rfl, h₃⟩, Nat.le_succ 999999999, rfl⟩))
  have hroom : ∀ now ∈ [0, 999999999, 1000000000], (ProbeSchedule.default : ProbeSchedule ℕ ℚ).Room now := by
    unfold ProbeSchedule.Room
    decide +kernel
  obtain ⟨-, hcount, -, hprobe⟩ := probe_gating (by decide +kernel) (fun e he => by
    refine hroom e.call.now ?_
    simp only [List.mem_cons, List.not_mem_nil, or_false] at he ⊢
    rcases he with rfl | rfl | rfl
    · exact Or.inl rfl
    · exact Or.inr (Or.inl rfl)
    · exact Or.inr (Or.inr rfl)) hrun
  have hdecides : ({ call := .maybeStart 0, before := (ProbeState.new, 0), after := x₁ } : ProbeEntry ℕ ℚ ℕ).decision? =
      some 0 := rfl
  have hruns := hprobe [] _ _ 0 probe rfl hdecides hc
  exact ⟨_, x₃, probe, hrun, Option.isNone_iff_eq_none.mp hgone, hruns.expiry, hcount 0 999999999 0 (by decide)⟩

end Loadpace
