import Bandchain.Lib.Balances

/-!
# Coins and accounts

Coins are a list of denominations with an amount each.  The accounts are those of the modules, which
the chain itself holds, and those with an address that someone has the key of.
-/

namespace Bandchain.Bank

abbrev Denom : Type := String

/-- `sdk.Coins`: amounts of different denominations, none of them zero. -/
structure Coins where
  coins : List (Denom × ℕ)
  nodup : (coins.map Prod.fst).Nodup
  pos : ∀ c ∈ coins, 0 < c.2

namespace Coins

def amountOf (amt : Coins) (denom : Denom) : ℕ :=
  (amt.coins.lookup denom).getD 0

/-- No coin has an amount. -/
def isZero (amt : Coins) : Bool :=
  amt.coins.all fun c => c.2 == 0

/-- A single coin. -/
def single (denom : Denom) (n : ℕ) (h : 0 < n) : Coins where
  coins := [(denom, n)]
  nodup := by simp
  pos := by simpa using h

lemma lookup_of_mem (amt : Coins) {c : Denom × ℕ} (hc : c ∈ amt.coins) :
    amt.coins.lookup c.1 = some c.2 := by
  obtain ⟨l₁, l₂, hl⟩ := List.append_of_mem hc
  refine List.lookup_eq_some_iff.mpr ⟨l₁, l₂, hl, fun p hp => ?_⟩
  have hnodup := amt.nodup
  rw [hl, List.map_append, List.map_cons] at hnodup
  have hne : p.1 ≠ c.1 := fun h =>
    List.disjoint_of_nodup_append hnodup (List.mem_map_of_mem hp) (h ▸ List.mem_cons_self)
  simpa using hne.symm

/-- All coins are covered if those with an amount are. -/
lemma amountOf_le_iff {amt : Coins} {f : Denom → ℕ} :
    amt.amountOf ≤ f ↔ ∀ c ∈ amt.coins, c.2 ≤ f c.1 := by
  constructor
  · intro h c hc
    have hle := h c.1
    rwa [amountOf, lookup_of_mem amt hc, Option.getD_some] at hle
  · intro h denom
    rw [amountOf]
    cases hl : amt.coins.lookup denom with
    | none => exact Nat.zero_le _
    | some n =>
      obtain ⟨l₁, l₂, hmem, -⟩ := List.lookup_eq_some_iff.mp hl
      exact h (denom, n) (by simp [hmem])

instance (amt : Coins) (f : Denom → ℕ) : Decidable (amt.amountOf ≤ f) :=
  decidable_of_iff _ amountOf_le_iff.symm

lemma amountOf_eq_zero_of_isZero {amt : Coins} (h : amt.isZero = true) : amt.amountOf = 0 := by
  have hnil : amt.coins = [] := by
    refine List.eq_nil_iff_forall_not_mem.mpr fun c hc => ?_
    have hzero : c.2 = 0 := by simpa using List.all_eq_true.mp h c hc
    exact (amt.pos c hc).ne' hzero
  ext denom
  show (amt.coins.lookup denom).getD 0 = 0
  rw [hnil]
  rfl

end Coins

/-- `sdk.DecCoins`: the amount of every denomination, in units of 10⁻¹⁸. -/
abbrev DecCoins : Type := Denom → ℕ

/-- `sdk.NewDecCoinsFromCoins`. -/
def newDecCoinsFromCoins (amt : Coins) : DecCoins := fun denom => amt.amountOf denom * 10 ^ 18

inductive Account (Address : Type)
  | module (name : String)
  | address (a : Address)
  deriving DecidableEq

end Bandchain.Bank
