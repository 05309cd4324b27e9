import Loadpace.Gcra
import Mathlib.Data.Option.Basic

/-!
# Probes (`probe.rs`)

A probe perturbs the rate for a while. `ProbeSchedule.maybeStart` makes a random decision when one is due and none is
active; expiry is lazy, inside `ProbeState.active`.
-/

namespace Loadpace

inductive ProbeKind (F : Type)
  | positive (deltaRate : F)
  | negative (factor : F)

structure Probe (T F : Type) where
  kind : ProbeKind F
  expiry : T

structure ProbeState (T F : Type) where
  current : Option (Probe T F)
  nextProbeAt : Option T

structure ProbeSchedule (T F : Type) where
  positiveProbability : F
  negativeProbability : F
  positiveRateDelta : F
  negativeFactor : F
  duration : T
  minInterval : T
  maxInterval : T

namespace ProbeState

variable {T F : Type} [LinearOrder T] [F64 F]

def new : ProbeState T F := { current := none, nextProbeAt := none }

def startPositive (s : ProbeState T F) (deltaRate : F) (expiry : T) : Option (ProbeState T F) := do
  guard (F64.isFinite deltaRate ∧ 0.0 < deltaRate)
  some { s with current := some { kind := .positive deltaRate, expiry } }

def startNegative (s : ProbeState T F) (factor : F) (expiry : T) : Option (ProbeState T F) := do
  guard (F64.isFinite factor ∧ 0.0 ≤ factor ∧ factor < 1.0)
  some { s with current := some { kind := .negative factor, expiry } }

/-- `ProbeState::active` drops an expired probe; the result is then `current`. -/
def active (s : ProbeState T F) (now : T) : ProbeState T F :=
  if s.current.any (fun probe => probe.expiry ≤ now) then { s with current := none } else s

/-- `ProbeState::effective_rate`, after `active`. -/
def effectiveRate (s : ProbeState T F) (base : F) (now : T) : F × ProbeState T F :=
  let s := s.active now
  match s.current with
  | none => (base, s)
  | some { kind := .positive deltaRate, .. } => (base + deltaRate, s)
  | some { kind := .negative factor, .. } => (base * factor, s)

theorem effectiveRate_snd (s : ProbeState T F) (base : F) (now : T) : (s.effectiveRate base now).2 = s.active now := by
  unfold effectiveRate
  dsimp only
  split <;> rfl

omit [F64 F] in
theorem active_cases (s : ProbeState T F) (now : T) :
    (∃ probe, s.current = some probe ∧ probe.expiry ≤ now ∧ s.active now = { s with current := none }) ∨
      s.active now = s := by
  unfold active
  split
  · rename_i h
    cases hc : s.current with
    | none => rw [hc] at h; cases h
    | some probe =>
      rw [hc] at h
      exact Or.inl ⟨probe, rfl, of_decide_eq_true h, rfl⟩
  · exact Or.inr rfl

omit [F64 F] in
/-- A probe that `active` leaves was there before. -/
theorem active_some {s : ProbeState T F} {now : T} {probe : Probe T F} (h : (s.active now).current = some probe) :
    s.current = some probe := by
  rcases s.active_cases now with ⟨_, -, -, heq⟩ | heq
  · rw [heq] at h
    cases h
  · rwa [heq] at h

omit [F64 F] in
theorem active_nextProbeAt (s : ProbeState T F) (now : T) : (s.active now).nextProbeAt = s.nextProbeAt := by
  rcases s.active_cases now with ⟨_, -, -, heq⟩ | heq
  · rw [heq]
  · rw [heq]

omit [F64 F] in
/-- A decision that is not due yet was set before. -/
theorem due_of_lt {s : ProbeState T F} {now : T} (h : now < s.nextProbeAt.getD now) :
    ∃ due, s.nextProbeAt = some due ∧ now < due := by
  cases hn : s.nextProbeAt with
  | none =>
    rw [hn] at h
    exact absurd h (lt_irrefl _)
  | some due =>
    rw [hn] at h
    exact ⟨due, rfl, h⟩

omit [F64 F] in
theorem active_active (s : ProbeState T F) (now : T) : (s.active now).active now = s.active now := by
  rcases s.active_cases now with ⟨_, -, -, heq⟩ | heq
  · rw [heq]
    rfl
  · rw [heq, heq]

end ProbeState

namespace ProbeSchedule

variable {T F R : Type} [AddCommMonoid T] [LinearOrder T] [Sub T] [Time T] [F64 F] [Secs T F] [Rng R F]

def default : ProbeSchedule T F where
  positiveProbability := 0.10
  negativeProbability := 0.05
  positiveRateDelta := 20.0
  negativeFactor := 0.8
  duration := fromSecs 1
  minInterval := fromSecs 1
  maxInterval := fromSecs 5

/-- `ProbeSchedule::validate`; `none` is its panic. -/
def validate (p : ProbeSchedule T F) : Option Unit := do
  guard (F64.isFinite p.positiveProbability ∧ 0.0 ≤ p.positiveProbability ∧ F64.isFinite p.negativeProbability ∧
    0.0 ≤ p.negativeProbability ∧ p.positiveProbability + p.negativeProbability ≤ 1.0)
  guard (F64.isFinite p.positiveRateDelta ∧ 0.0 < p.positiveRateDelta)
  guard (F64.isFinite p.negativeFactor ∧ 0.0 ≤ p.negativeFactor ∧ p.negativeFactor < 1.0)
  guard (p.duration ≠ 0)
  guard (p.minInterval ≠ 0 ∧ p.minInterval ≤ p.maxInterval)

def randomInterval (p : ProbeSchedule T F) (rng : R) : Option (T × R) :=
  let span := p.maxInterval - p.minInterval
  if span = 0 then
    some (p.minInterval, rng)
  else do
    let (draw, rng) : F × R := Rng.random rng
    let jitter ← tryFromSecsF64 (asSecsF64 span * draw)
    some (p.minInterval + min jitter span, rng)

/-- `ProbeSchedule::maybe_start`; the probe it returns is `current` afterwards. -/
def maybeStart (p : ProbeSchedule T F) (s : ProbeState T F) (rng : R) (now : T) : Option (ProbeState T F × R) :=
  let s := s.active now
  match s.current with
  | some _ => some (s, rng)
  | none =>
    let dueAt := s.nextProbeAt.getD now
    let s := { s with nextProbeAt := some dueAt }
    if now < dueAt then
      some (s, rng)
    else do
      let (interval, rng) ← p.randomInterval rng
      let s := { s with nextProbeAt := some (saturatingAdd now interval) }
      let (draw, rng) : F × R := Rng.random rng
      if draw < p.positiveProbability then
        let s ← s.startPositive p.positiveRateDelta (saturatingAdd now p.duration)
        some (s, rng)
      else if draw < p.positiveProbability + p.negativeProbability then
        let s ← s.startNegative p.negativeFactor (saturatingAdd now p.duration)
        some (s, rng)
      else
        some (s, rng)

/-- The kind of a probe that the schedule starts. -/
def Starts (p : ProbeSchedule T F) (kind : ProbeKind F) : Prop :=
  kind = .positive p.positiveRateDelta ∨ kind = .negative p.negativeFactor

/-- **What `maybe_start` does**: nothing while a probe is active or no decision is due, and a decision otherwise. -/
theorem maybeStart_cases {p : ProbeSchedule T F} {s s' : ProbeState T F} {rng rng' : R} {now : T}
    (h : p.maybeStart s rng now = some (s', rng')) :
    (s' = s.active now ∧ rng' = rng ∧ ((s.active now).current ≠ none ∨ now < s.nextProbeAt.getD now)) ∨
      ((s.active now).current = none ∧ s.nextProbeAt.getD now ≤ now ∧ ∃ interval rng₁,
        p.randomInterval rng = some (interval, rng₁) ∧ s'.nextProbeAt = some (saturatingAdd now interval) ∧
        (s'.current = none ∨
          ∃ kind, p.Starts kind ∧ s'.current = some { kind, expiry := saturatingAdd now p.duration })) := by
  have hnext := s.active_nextProbeAt now
  unfold maybeStart at h
  dsimp only at h
  cases hc : (s.active now).current with
  | some probe =>
    rw [hc] at h
    cases h
    exact Or.inl ⟨rfl, rfl, Or.inl (by rintro ⟨⟩)⟩
  | none =>
    rw [hc, hnext] at h
    dsimp only at h
    split at h
    · rename_i hdue
      cases h
      obtain ⟨due, hn, -⟩ := ProbeState.due_of_lt hdue
      refine Or.inl ⟨?_, rfl, Or.inr hdue⟩
      rw [hn, Option.getD_some, ← hn, ← hnext, ← hc]
    · rename_i hdue
      simp only [Option.bind_eq_bind, Option.bind_eq_some_iff] at h
      obtain ⟨⟨interval, rng₁⟩, hi, h⟩ := h
      refine Or.inr ⟨rfl, not_lt.mp hdue, interval, rng₁, hi, ?_⟩
      split at h
      · simp only [ProbeState.startPositive, Option.bind_eq_bind, Option.bind_eq_some_iff, Option.guard_eq_some'] at h
        obtain ⟨_, ⟨_, -, h⟩, h'⟩ := h
        cases h
        cases h'
        exact ⟨rfl, Or.inr ⟨_, Or.inl rfl, rfl⟩⟩
      · split at h
        · simp only [ProbeState.startNegative, Option.bind_eq_bind, Option.bind_eq_some_iff, Option.guard_eq_some'] at h
          obtain ⟨_, ⟨_, -, h⟩, h'⟩ := h
          cases h
          cases h'
          exact ⟨rfl, Or.inr ⟨_, Or.inr rfl, rfl⟩⟩
        · cases h
          exact ⟨rfl, Or.inl rfl⟩

end ProbeSchedule

end Loadpace
