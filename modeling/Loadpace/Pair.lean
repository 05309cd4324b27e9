import Loadpace.Ledger

/-!
# Pairs (`p2c.rs`)

`reservePair` reserves the cheaper of two endpoints, or the other one if the cheaper one has no room. `reservePair_cases`
says once what it does to the two controllers; `reservePair_swap` that only a tie depends on the order of its arguments.
-/

namespace Loadpace

open EndpointController

inductive PairChoice
  | first
  | second
  deriving DecidableEq, Repr

namespace PairChoice

/-- The argument that is chosen. -/
def of {α : Type} (first second : α) : PairChoice → α
  | .first => first
  | .second => second

/-- The choice between the arguments in the other order. -/
def swap : PairChoice → PairChoice
  | .first => .second
  | .second => .first

end PairChoice

/-- The numbers of seconds are ordered: none of them is a NaN. -/
class OrderedSecs (T F : Type) [F64 F] [Secs T F] : Prop where
  le_total : ∀ a b : T, (asSecsF64 a : F) ≤ asSecsF64 b ∨ (asSecsF64 b : F) ≤ asSecsF64 a
  le_antisymm : ∀ a b : T, (asSecsF64 a : F) ≤ asSecsF64 b → (asSecsF64 b : F) ≤ asSecsF64 a →
    (asSecsF64 a : F) = asSecsF64 b

section

variable {T F R : Type} [AddCommMonoid T] [LinearOrder T] [Sub T] [Time T]

/-- The end of `reserve_pair`: the preferred controller, then the other. -/
def reservePreferred (preferredChoice fallbackChoice : PairChoice) (preferred fallback : EndpointController T F R) (now : T) :
    Except ScheduleError (PairChoice × DispatchReservation) × EndpointController T F R × EndpointController T F R :=
  match preferred.reserve now with
  | (.ok reservation, preferred) => (.ok (preferredChoice, reservation), preferred, fallback)
  | (.error _, preferred) =>
    match fallback.reserve now with
    | (.ok reservation, fallback) => (.ok (fallbackChoice, reservation), preferred, fallback)
    | (.error error, fallback) => (.error error, preferred, fallback)

/-- The queue has room, and there is an identity left. -/
def EndpointController.HasRoom (c : EndpointController T F R) : Prop :=
  c.pending.length < c.config.queueCapacity ∧ c.nextId ≠ u64Max

instance (c : EndpointController T F R) : Decidable c.HasRoom := inferInstanceAs (Decidable (_ ∧ _))

/-- The ledger after a reservation. -/
def Ledger.reserved (l : Ledger T F) : Ledger T F :=
  { l with nextId := l.nextId + 1, entries := l.entries ++ [(l.nextId, false)] }

variable {first second preferred fallback c c' first' second' preferred' fallback' : EndpointController T F R} {now : T}
variable {result : Except ScheduleError (PairChoice × DispatchReservation)}

theorem reserve_room (now : T) (h : c.HasRoom) : ∃ c',
    c.reserve now = (.ok { controllerId := c.controllerId, id := c.nextId }, c') ∧ c'.ledger = c.ledger.reserved := by
  obtain ⟨hroom, hid⟩ := h
  refine ⟨_, reserve_ok c now hroom hid, ?_⟩
  simp only [ledger, Ledger.reserved, List.map_append]
  rfl

theorem reserve_no_room (now : T) (h : ¬c.HasRoom) : ∃ error, c.reserve now = (.error error, c) := by
  rcases Nat.lt_or_ge c.pending.length c.config.queueCapacity with hroom | hfull
  · exact ⟨_, reserve_exhausted c now hroom (not_not.mp fun hid => h ⟨hroom, hid⟩)⟩
  · exact ⟨_, reserve_full c now hfull⟩

omit [AddCommMonoid T] [LinearOrder T] [Sub T] [Time T] in
/-- Room is part of the ledger. -/
theorem hasRoom_congr (h : c'.ledger = c.ledger) : c'.HasRoom ↔ c.HasRoom := by
  have hlen (c : EndpointController T F R) : c.ledger.entries.length = c.pending.length := List.length_map _
  have hconfig : c'.config = c.config := congrArg Ledger.config h
  have hid : c'.nextId = c.nextId := congrArg Ledger.nextId h
  unfold HasRoom
  rw [hconfig, hid, ← hlen, ← hlen, h]

/-- **One reservation**, on the preferred controller if it has room, and otherwise on the other if that has room. -/
inductive Reserves (preferredChoice fallbackChoice : PairChoice) (preferred fallback preferred' fallback' :
    EndpointController T F R) : Except ScheduleError (PairChoice × DispatchReservation) → Prop
  | preferred : preferred.HasRoom → preferred'.ledger = preferred.ledger.reserved → fallback'.ledger = fallback.ledger →
    Reserves preferredChoice fallbackChoice preferred fallback preferred' fallback'
      (.ok (preferredChoice, { controllerId := preferred.controllerId, id := preferred.nextId }))
  | fallback : ¬preferred.HasRoom → fallback.HasRoom → preferred'.ledger = preferred.ledger →
    fallback'.ledger = fallback.ledger.reserved → Reserves preferredChoice fallbackChoice preferred fallback preferred' fallback'
      (.ok (fallbackChoice, { controllerId := fallback.controllerId, id := fallback.nextId }))
  | neither {error : ScheduleError} : ¬preferred.HasRoom → ¬fallback.HasRoom → preferred'.ledger = preferred.ledger →
    fallback'.ledger = fallback.ledger → Reserves preferredChoice fallbackChoice preferred fallback preferred' fallback'
      (.error error)

theorem reservePreferred_cases {preferredChoice fallbackChoice : PairChoice}
    (h : reservePreferred preferredChoice fallbackChoice preferred fallback now = (result, preferred', fallback')) :
    Reserves preferredChoice fallbackChoice preferred fallback preferred' fallback' result := by
  unfold reservePreferred at h
  by_cases hp : preferred.HasRoom
  · obtain ⟨m, hm, hl⟩ := reserve_room now hp
    rw [hm] at h
    cases h
    exact .preferred hp hl rfl
  · obtain ⟨_, hm⟩ := reserve_no_room now hp
    rw [hm] at h
    by_cases hf : fallback.HasRoom
    · obtain ⟨m, hm, hl⟩ := reserve_room now hf
      rw [hm] at h
      cases h
      exact .fallback hp hf rfl hl
    · obtain ⟨_, hm⟩ := reserve_no_room now hf
      rw [hm] at h
      cases h
      exact .neither hp hf rfl rfl

omit [AddCommMonoid T] [LinearOrder T] [Sub T] [Time T] in
/-- The ledgers before the loads are those after them. -/
theorem Reserves.congr {a b : PairChoice} {m n : EndpointController T F R} (hm : m.ledger = preferred.ledger)
    (hn : n.ledger = fallback.ledger) (h : Reserves a b m n preferred' fallback' result) :
    Reserves a b preferred fallback preferred' fallback' result := by
  have hmid : m.controllerId = preferred.controllerId := congrArg Ledger.controllerId hm
  have hnid : n.controllerId = fallback.controllerId := congrArg Ledger.controllerId hn
  have hmnext : m.nextId = preferred.nextId := congrArg Ledger.nextId hm
  have hnnext : n.nextId = fallback.nextId := congrArg Ledger.nextId hn
  cases h with
  | preferred hroom hl hl' =>
    rw [hmid, hmnext]
    exact .preferred ((hasRoom_congr hm).mp hroom) (hm ▸ hl) (hl'.trans hn)
  | fallback hno hroom hl hl' =>
    rw [hnid, hnnext]
    exact .fallback (mt (hasRoom_congr hm).mpr hno) ((hasRoom_congr hn).mp hroom) (hl.trans hm) (hn ▸ hl')
  | neither hno hno' hl hl' =>
    exact .neither (mt (hasRoom_congr hm).mpr hno) (mt (hasRoom_congr hn).mpr hno') (hl.trans hm) (hl'.trans hn)

/-- The result, for the arguments in the other order. -/
def swapResult (result : Except ScheduleError (PairChoice × DispatchReservation)) :
    Except ScheduleError (PairChoice × DispatchReservation) :=
  result.map fun (choice, reservation) => (choice.swap, reservation)

theorem reservePreferred_swap (a b : PairChoice) (preferred fallback : EndpointController T F R) (now : T) :
    reservePreferred a.swap b.swap preferred fallback now =
      (swapResult (reservePreferred a b preferred fallback now).1, (reservePreferred a b preferred fallback now).2) := by
  unfold reservePreferred
  rcases preferred.reserve now with ⟨_ | _, _⟩
  · rcases fallback.reserve now with ⟨_ | _, _⟩
    · rfl
    · rfl
  · rfl

/-! ## Two endpoints -/

variable [F64 F] [Secs T F] [Rng R F]

/-- `reserve_pair`, with the two controllers after it. -/
def reservePair (first second : EndpointController T F R) (now : T) : Option
    (Except ScheduleError (PairChoice × DispatchReservation) × EndpointController T F R × EndpointController T F R) := do
  let (firstLoad, first) ← first.load now
  let (secondLoad, second) ← second.load now
  if firstLoad ≤ secondLoad then
    some (reservePreferred .first .second first second now)
  else
    let (result, second, first) := reservePreferred .second .first second first now
    some (result, first, second)

/-- **What `reserve_pair` does**: it refreshes both loads, and prefers the lower one. -/
theorem reservePair_cases (h : reservePair first second now = some (result, first', second')) :
    ∃ firstLoad secondLoad m₁ m₂, first.load now = some (firstLoad, m₁) ∧ second.load now = some (secondLoad, m₂) ∧
      ((firstLoad ≤ secondLoad ∧ Reserves .first .second first second first' second' result) ∨
        (¬firstLoad ≤ secondLoad ∧ Reserves .second .first second first second' first' result)) := by
  unfold reservePair at h
  simp only [Option.bind_eq_bind, Option.bind_eq_some_iff] at h
  obtain ⟨⟨firstLoad, m₁⟩, h₁, ⟨secondLoad, m₂⟩, h₂, h⟩ := h
  have hl₁ := refresh_ledger (load_cases h₁).1
  have hl₂ := refresh_ledger (load_cases h₂).1
  refine ⟨firstLoad, secondLoad, m₁, m₂, h₁, h₂, ?_⟩
  dsimp only at h
  split at h
  · rename_i hle
    exact Or.inl ⟨hle, (reservePreferred_cases (Option.some.inj h)).congr hl₁ hl₂⟩
  · rename_i hle
    obtain ⟨rfl, rfl, rfl⟩ := Option.some.inj h
    exact Or.inr ⟨hle, (reservePreferred_cases rfl).congr hl₂ hl₁⟩

theorem reservePair_isSome :
    (reservePair first second now).isSome ↔ (first.load now).isSome ∧ (second.load now).isSome := by
  unfold reservePair
  cases first.load now with
  | none => simp
  | some x =>
    cases second.load now with
    | none => simp
    | some y =>
      simp only [Option.bind_eq_bind, Option.bind_some, Option.isSome_some, and_self, iff_true]
      split
      · rfl
      · rfl

/-- The lower load is preferred, and the first of a tie. -/
def preferredChoice (firstLoad secondLoad : F) : PairChoice :=
  if firstLoad ≤ secondLoad then .first else .second

/-- **The outcome of a pair**, one of whose arguments is preferred. -/
structure Selects (preferred : PairChoice) (first second first' second' : EndpointController T F R)
    (result : Except ScheduleError (PairChoice × DispatchReservation)) : Prop where
  ok_iff : (∃ choice token, result = .ok (choice, token)) ↔ first.HasRoom ∨ second.HasRoom
  ok {choice : PairChoice} {token : DispatchReservation} : result = .ok (choice, token) →
    choice = (if (preferred.of first second).HasRoom then preferred else preferred.swap) ∧
    token = { controllerId := (choice.of first second).controllerId, id := (choice.of first second).nextId } ∧
    (choice.of first' second').ledger = (choice.of first second).ledger.reserved ∧
    (choice.swap.of first' second').ledger = (choice.swap.of first second).ledger
  error {error : ScheduleError} : result = .error error → first'.ledger = first.ledger ∧ second'.ledger = second.ledger

omit [AddCommMonoid T] [LinearOrder T] [Sub T] [Time T] [F64 F] [Secs T F] [Rng R F] in
theorem Reserves.selects {a : PairChoice}
    (h : Reserves a a.swap (a.of first second) (a.swap.of first second) (a.of first' second') (a.swap.of first' second')
      result) : Selects a first second first' second' result := by
  have hroom : (a.of first second).HasRoom ∨ (a.swap.of first second).HasRoom ↔ first.HasRoom ∨ second.HasRoom := by
    cases a with
    | first => exact Iff.rfl
    | second => exact or_comm
  have hswap : a.swap.swap = a := by cases a <;> rfl
  cases h with
  | preferred hp hl hl' =>
    refine ⟨⟨fun _ => hroom.mp (.inl hp), fun _ => ⟨_, _, rfl⟩⟩, fun h => ?_, nofun⟩
    cases h
    exact ⟨(if_pos hp).symm, rfl, hl, hl'⟩
  | fallback hp hf hl hl' =>
    refine ⟨⟨fun _ => hroom.mp (.inr hf), fun _ => ⟨_, _, rfl⟩⟩, fun h => ?_, nofun⟩
    cases h
    rw [hswap]
    exact ⟨(if_neg hp).symm, rfl, hl', hl⟩
  | neither hp hf hl hl' =>
    refine ⟨⟨nofun, fun h => ((hroom.mpr h).elim hp hf).elim⟩, nofun, fun _ => ?_⟩
    cases a with
    | first => exact ⟨hl, hl'⟩
    | second => exact ⟨hl', hl⟩

/-- **What a pair reserves.** -/
theorem reservePair_selects (h : reservePair first second now = some (result, first', second')) :
    ∃ firstLoad secondLoad m₁ m₂, first.load now = some (firstLoad, m₁) ∧ second.load now = some (secondLoad, m₂) ∧
      Selects (preferredChoice firstLoad secondLoad) first second first' second' result := by
  obtain ⟨firstLoad, secondLoad, m₁, m₂, h₁, h₂, hres⟩ := reservePair_cases h
  refine ⟨firstLoad, secondLoad, m₁, m₂, h₁, h₂, ?_⟩
  rcases hres with ⟨hle, hres⟩ | ⟨hle, hres⟩
  · rw [preferredChoice, if_pos hle]
    exact Reserves.selects (a := .first) hres
  · rw [preferredChoice, if_neg hle]
    exact Reserves.selects (a := .second) hres

/-- The result of a pair in the other order, with the controllers. -/
def swapPair (x : Except ScheduleError (PairChoice × DispatchReservation) × EndpointController T F R ×
    EndpointController T F R) : Except ScheduleError (PairChoice × DispatchReservation) × EndpointController T F R ×
    EndpointController T F R :=
  (swapResult x.1, x.2.2, x.2.1)

/-- **Only a tie depends on the order of the arguments.** -/
theorem reservePair_swap [OrderedSecs T F]
    (h : ∀ x y, first.load now = some x → second.load now = some y → x.1 ≠ y.1) :
    reservePair second first now = (reservePair first second now).map swapPair := by
  unfold reservePair
  cases h₁ : first.load now with
  | none => cases second.load now <;> rfl
  | some x =>
    cases h₂ : second.load now with
    | none => rfl
    | some y =>
      obtain ⟨a, ha⟩ : ∃ a : T, x.1 = asSecsF64 a := ⟨_, (load_cases h₁).2⟩
      obtain ⟨b, hb⟩ : ∃ b : T, y.1 = asSecsF64 b := ⟨_, (load_cases h₂).2⟩
      have hne := h x y h₁ h₂
      simp only [Option.bind_eq_bind, Option.bind_some]
      by_cases hle : x.1 ≤ y.1
      · have hlt : ¬y.1 ≤ x.1 := fun hge => hne (by
          rw [ha, hb] at hle hge ⊢
          exact OrderedSecs.le_antisymm a b hle hge)
        have hswap := reservePreferred_swap .first .second x.2 y.2 now
        rw [if_pos hle, if_neg hlt, show reservePreferred .second .first x.2 y.2 now = _ from hswap]
        rfl
      · have hge : y.1 ≤ x.1 := by
          rw [ha, hb] at hle ⊢
          exact (OrderedSecs.le_total a b).resolve_left hle
        have hswap := reservePreferred_swap .second .first y.2 x.2 now
        rw [if_neg hle, if_pos hge, show reservePreferred .first .second y.2 x.2 now = _ from hswap]
        rfl

/-! ## Two locks -/

/-- `reserve_pair` on two controllers that are locked in a stable order, as both adapters call it: `firstIsLower` tells which
argument the lower one is. -/
def reserveOrdered (firstIsLower : Bool) (lower upper : EndpointController T F R) (now : T) : Option
    (Except ScheduleError (PairChoice × DispatchReservation) × EndpointController T F R × EndpointController T F R) :=
  if firstIsLower then
    reservePair lower upper now
  else do
    let (result, upper, lower) ← reservePair upper lower now
    some (result, lower, upper)

end

end Loadpace
