import Mathlib.Algebra.GroupWithZero.Nat
import Mathlib.Data.List.Sort
import Mathlib.Order.Fin.Basic

/-!
# The addresses of an answer set (`loadpace-rama/src/dns.rs`)

`DnsCache::resolve` collects the addresses of the answers in the order of the mode, sorts them and removes the duplicates.
`pairwise_addressesOf`: the result is strictly ascending. `mem_addressesOf`: it holds the resolved addresses and no others.
-/

namespace Loadpace.Dns

/-- Numerals denote `IpAddr::V4` addresses. -/
instance (priority := high) addressNeZero : NeZero (2 ^ 32) := ⟨by decide⟩

/-- `IpAddr`. -/
inductive IpAddr
  | v4 (address : Fin (2 ^ 32))
  | v6 (address : Fin (2 ^ 128))

/-- The addresses of version 4 come before those of version 6. -/
def IpAddr.rank : IpAddr → ℕ
  | .v4 address => address
  | .v6 address => 2 ^ 32 + address

theorem IpAddr.rank_injective : Function.Injective IpAddr.rank := by
  intro a b h
  cases a with
  | v4 x =>
    cases b with
    | v4 y => exact congrArg IpAddr.v4 (Fin.ext h)
    | v6 y =>
      have hx := x.isLt
      simp only [rank] at h
      omega
  | v6 x =>
    cases b with
    | v4 y =>
      have hy := y.isLt
      simp only [rank] at h
      omega
    | v6 y => exact congrArg IpAddr.v6 (Fin.ext (by simp only [rank] at h; omega))

/-- `impl Ord for IpAddr`. -/
instance IpAddr.instLinearOrder : LinearOrder IpAddr := LinearOrder.lift' IpAddr.rank IpAddr.rank_injective

/-- `DnsResolveIpMode`. -/
inductive DnsResolveIpMode
  | singleIpV4
  | singleIpV6
  | dual
  | dualPreferIpV4
  deriving DecidableEq

/-- What a resolver answers, each answer an address or an error (`none`). -/
structure Answers where
  v4 : List (Option (Fin (2 ^ 32)))
  v6 : List (Option (Fin (2 ^ 128)))

/-- `DnsCache::collect_v4`. -/
def collectV4 (answers : Answers) (output : List IpAddr) : List IpAddr :=
  output ++ (answers.v4.filterMap id).map .v4

/-- `DnsCache::collect_v6`. -/
def collectV6 (answers : Answers) (output : List IpAddr) : List IpAddr :=
  output ++ (answers.v6.filterMap id).map .v6

/-- The addresses that are resolved in a mode. -/
def collect (mode : DnsResolveIpMode) (answers : Answers) : List IpAddr :=
  match mode with
  | .singleIpV4 => collectV4 answers []
  | .singleIpV6 => collectV6 answers []
  | .dual => collectV4 answers (collectV6 answers [])
  | .dualPreferIpV4 => collectV6 answers (collectV4 answers [])

/-- `Vec::dedup`. -/
def dedup {α : Type} [DecidableEq α] : List α → List α
  | [] => []
  | [a] => [a]
  | a :: b :: rest => if a = b then dedup (b :: rest) else a :: dedup (b :: rest)

/-- The addresses of `resolve`, sorted and without duplicates. -/
def addressesOf (mode : DnsResolveIpMode) (answers : Answers) : List IpAddr :=
  dedup ((collect mode answers).insertionSort (· ≤ ·))

/-! ## What is collected -/

theorem mem_dedup {α : Type} [DecidableEq α] {l : List α} {a : α} : a ∈ dedup l ↔ a ∈ l := by
  fun_induction dedup l with
  | case1 => exact Iff.rfl
  | case2 b => exact Iff.rfl
  | case3 b rest ih =>
    rw [ih]
    simp
  | case4 b c rest hne ih => rw [List.mem_cons, ih, ← List.mem_cons]

theorem pairwise_dedup {α : Type} [LinearOrder α] {l : List α} (h : l.Pairwise (· ≤ ·)) :
    (dedup l).Pairwise (· < ·) := by
  fun_induction dedup l with
  | case1 => exact .nil
  | case2 a => exact List.pairwise_singleton _ _
  | case3 a rest ih => exact ih h.of_cons
  | case4 a b rest hne ih =>
    refine List.pairwise_cons.mpr ⟨fun c hc => ?_, ih h.of_cons⟩
    have hab : a ≤ b := List.rel_of_pairwise_cons h List.mem_cons_self
    have hbc : b ≤ c := by
      rcases List.mem_cons.mp (mem_dedup.mp hc) with rfl | hc
      · exact le_rfl
      · exact List.rel_of_pairwise_cons h.of_cons hc
    exact (lt_of_le_of_ne hab hne).trans_le hbc

theorem pairwise_addressesOf (mode : DnsResolveIpMode) (answers : Answers) :
    (addressesOf mode answers).Pairwise (· < ·) := pairwise_dedup (List.pairwise_insertionSort _ _)

/-- Whether a mode asks for the addresses of version 4, and for those of version 6. -/
def DnsResolveIpMode.asks : DnsResolveIpMode → Bool × Bool
  | .singleIpV4 => (true, false)
  | .singleIpV6 => (false, true)
  | .dual | .dualPreferIpV4 => (true, true)

/-- An address is successfully resolved. -/
def Answers.Resolved (answers : Answers) (mode : DnsResolveIpMode) : IpAddr → Prop
  | .v4 address => mode.asks.1 = true ∧ some address ∈ answers.v4
  | .v6 address => mode.asks.2 = true ∧ some address ∈ answers.v6

theorem mem_collect {mode : DnsResolveIpMode} {answers : Answers} {ip : IpAddr} :
    ip ∈ collect mode answers ↔ answers.Resolved mode ip := by
  cases mode <;> cases ip <;> simp [collect, collectV4, collectV6, Answers.Resolved, DnsResolveIpMode.asks]

/-- **Exactly the resolved addresses.** -/
theorem mem_addressesOf {mode : DnsResolveIpMode} {answers : Answers} {ip : IpAddr} :
    ip ∈ addressesOf mode answers ↔ answers.Resolved mode ip := by
  rw [addressesOf, mem_dedup, List.mem_insertionSort, mem_collect]

end Loadpace.Dns
