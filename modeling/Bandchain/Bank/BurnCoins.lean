import Bandchain.Bank.Coins
import Bandchain.Lib.Exec
import Bandchain.Lib.Run

/-!
# Burning coins

The chain wraps the bank so that burned coins go to the community pool.  The coins are held by the
account of the distribution module, and the pool is a number that this module keeps of its own.
The two move together as long as the module that burns has what it burns: the wrapper does not look
at whether the transfer succeeded.
-/

namespace Bandchain.Bank

open Exec

inductive Err
  | insufficientFunds
  | panic (reason : String)
  deriving DecidableEq

/-- The state that an operation leaves behind, whether it fails or not. -/
def resultState {ε σ α : Type} : EStateM.Result ε σ α → σ
  | .ok _ s => s
  | .error _ s => s

section Keeper

/-- `types.Burner`. -/
def burner : String := "burner"

/-- `distr.ModuleName`. -/
def distrModuleName : String := "distribution"

/-- The bank of the chain's framework, over the states `B` of its store. -/
structure BankKeeper (B Address : Type) where
  balance : B → Account Address → Denom → ℕ
  supply : B → Denom → ℕ
  sendCoinsFromModuleToModule (sender recipient : String) (amt : Coins) : EStateM Err B Unit
  burnCoins (moduleName : String) (amt : Coins) : EStateM Err B Unit

variable {B Address : Type}

/-- A transfer between two modules moves the coins if the sender has them, and fails without an
effect if not. -/
structure BankKeeper.Lawful [DecidableEq Address] (bk : BankKeeper B Address) : Prop where
  send_of_le {m n : String} {amt : Coins} {b : B} : m ≠ n →
    amt.amountOf ≤ bk.balance b (.module m) →
    ∃ b', (bk.sendCoinsFromModuleToModule m n amt).run b = .ok () b' ∧
      bk.balance b' = transfer (bk.balance b) (.module m) (.module n) amt.amountOf ∧
      bk.supply b' = bk.supply b
  send_of_not_le {m n : String} {amt : Coins} {b : B} : m ≠ n →
    ¬amt.amountOf ≤ bk.balance b (.module m) →
    ∃ e, (bk.sendCoinsFromModuleToModule m n amt).run b = .error e b

/-- The state of the bank and the community pool of the distribution module. -/
structure State (B : Type) where
  bank : B
  communityPool : DecCoins

/-- The wrapper: the bank, the permissions of the accounts that modules have, and whether the
distribution module has been set. -/
structure WrappedBankKeeper (B Address : Type) where
  keeper : BankKeeper B Address
  getModuleAccount (moduleName : String) : Option (List String)
  distrKeeper : Bool

/-- An operation of the bank, beside the pool. -/
def onBank (x : EStateM Err B Unit) : EStateM Err (State B) Unit := fun s =>
  match x.run s.bank with
  | .ok u b => .ok u { s with bank := b }
  | .error e b => .error e { s with bank := b }

/-- The error of a call whose result is not assigned is lost. -/
def ignoreError (x : EStateM Err B Unit) : EStateM Err B Unit := fun b =>
  .ok () (resultState (x.run b))

def WrappedBankKeeper.burnCoins (k : WrappedBankKeeper B Address) (moduleName : String)
    (amt : Coins) : EStateM Err (State B) Unit :=
  if k.distrKeeper = false ∨ moduleName = distrModuleName then
    onBank (k.keeper.burnCoins moduleName amt)
  else
    match k.getModuleAccount moduleName with
    | none => throw (.panic s!"module account {moduleName} does not exist")
    | some permissions =>
      if burner ∉ permissions then
        throw (.panic
          s!"module account {moduleName} does not have permissions to burn tokens")
      else do
        onBank (ignoreError (k.keeper.sendCoinsFromModuleToModule moduleName distrModuleName amt))
        modify fun s => { s with communityPool := s.communityPool + newDecCoinsFromCoins amt }

variable {k : WrappedBankKeeper B Address} {s t : State B} {m : String} {amt : Coins}

/-- A module other than the distribution module that may burn, with the distribution module set. -/
def WrappedBankKeeper.MayBurn (k : WrappedBankKeeper B Address) (m : String) : Prop :=
  k.distrKeeper = true ∧ m ≠ distrModuleName ∧ ∃ ps, k.getModuleAccount m = some ps ∧ burner ∈ ps

/-- The module has what it burns. -/
def WrappedBankKeeper.Funded (k : WrappedBankKeeper B Address) (s : State B) (m : String)
    (amt : Coins) : Prop :=
  ∀ denom, amt.amountOf denom ≤ k.keeper.balance s.bank (.module m) denom

/-- The coins went from the module to the distribution module and its pool. -/
structure WrappedBankKeeper.Moves (k : WrappedBankKeeper B Address) (s : State B) (m : String)
    (amt : Coins) (t : State B) : Prop where
  burned : ∀ d, k.keeper.balance t.bank (.module m) d + amt.amountOf d =
    k.keeper.balance s.bank (.module m) d
  received : ∀ d, k.keeper.balance t.bank (.module distrModuleName) d =
    k.keeper.balance s.bank (.module distrModuleName) d + amt.amountOf d
  pooled : ∀ d, t.communityPool d = s.communityPool d + amt.amountOf d * 10 ^ 18
  supply : k.keeper.supply t.bank = k.keeper.supply s.bank
  others : ∀ a, a ≠ .module m → a ≠ .module distrModuleName →
    k.keeper.balance t.bank a = k.keeper.balance s.bank a

/-- What a burn should do: move the coins and succeed, or fail and leave the state as it is. -/
def WrappedBankKeeper.Sound (k : WrappedBankKeeper B Address) (s : State B) (m : String)
    (amt : Coins) : Prop :=
  (∃ t, (k.burnCoins m amt).run s = .ok () t ∧ k.Moves s m amt t) ∨
    ∃ e, (k.burnCoins m amt).run s = .error e s

/-! ## One burn -/

/-- Every burn of a module that may burn succeeds. -/
lemma burnCoins_eq (hm : k.MayBurn m) :
    (k.burnCoins m amt).run s = .ok ()
      { bank := resultState
          ((k.keeper.sendCoinsFromModuleToModule m distrModuleName amt).run s.bank)
        communityPool := s.communityPool + newDecCoinsFromCoins amt } := by
  obtain ⟨hset, hne, ps, hacc, hps⟩ := hm
  have hthrough : ¬(k.distrKeeper = false ∨ m = distrModuleName) := by simp [hset, hne]
  rw [WrappedBankKeeper.burnCoins, if_neg hthrough, hacc]
  show ((if burner ∉ ps then _ else _ : EStateM Err (State B) Unit)).run s = _
  rw [if_neg (not_not_intro hps)]
  rfl

lemma funded_of_moves (h : k.Moves s m amt t) : k.Funded s m amt := by
  intro d
  have hd := h.burned d
  omega

/-- What the distribution module holds beyond its pool. -/
def WrappedBankKeeper.margin (k : WrappedBankKeeper B Address) (s : State B) (denom : Denom) : ℤ :=
  k.keeper.balance s.bank (.module distrModuleName) denom * 10 ^ 18 - s.communityPool denom

lemma margin_eq_of_moves (h : k.Moves s m amt t) : k.margin t = k.margin s := by
  ext d
  rw [WrappedBankKeeper.margin, WrappedBankKeeper.margin, h.received, h.pooled]
  push_cast
  ring

variable [DecidableEq Address]

lemma moves_of_funded (hk : k.keeper.Lawful) (hm : k.MayBurn m) (h : k.Funded s m amt) :
    ∃ t, (k.burnCoins m amt).run s = .ok () t ∧ k.Moves s m amt t := by
  have hne : (.module m : Account Address) ≠ .module distrModuleName := by
    simpa using hm.2.1
  obtain ⟨b', hsend, hbalance, hsupply⟩ := hk.send_of_le hm.2.1 h
  refine ⟨_, burnCoins_eq hm, ?_⟩
  rw [hsend]
  constructor
  · intro d
    show k.keeper.balance b' _ d + _ = _
    rw [hbalance]
    exact congrFun (transfer_sender_add (x := amt.amountOf) h hne) d
  · intro d
    show k.keeper.balance b' _ d = _
    rw [hbalance, transfer_receiver hne]
    rfl
  · exact fun d => rfl
  · exact hsupply
  · intro a ha hd
    show k.keeper.balance b' a = _
    rw [hbalance, transfer_of_ne ha hd]

/-- A burn that is not funded changes nothing but the pool. -/
lemma burnCoins_of_not_funded (hk : k.keeper.Lawful) (hm : k.MayBurn m) (h : ¬k.Funded s m amt) :
    (k.burnCoins m amt).run s =
      .ok () { s with communityPool := s.communityPool + newDecCoinsFromCoins amt } := by
  obtain ⟨e, hsend⟩ := hk.send_of_not_le (n := distrModuleName) hm.2.1 h
  rw [burnCoins_eq hm, hsend]
  rfl

lemma sound_iff (hk : k.keeper.Lawful) (hm : k.MayBurn m) : k.Sound s m amt ↔ k.Funded s m amt := by
  constructor
  · rintro (⟨t, -, hmoves⟩ | ⟨e, he⟩)
    · exact funded_of_moves hmoves
    · rw [burnCoins_eq hm] at he
      cases he
  · exact fun h => .inl (moves_of_funded hk hm h)

/-! ## A sequence of burns -/

/-- A burn of some amount by some module, whatever its result is. -/
def WrappedBankKeeper.Burns (k : WrappedBankKeeper B Address) (s : State B)
    (burn : String × Coins) (t : State B) : Prop :=
  t = resultState ((k.burnCoins burn.1 burn.2).run s)

/-- A burn is as it should be exactly if it is funded, and funded burns keep the pool in step with
what the distribution module holds. -/
theorem burnCoins_sound_iff (hk : k.keeper.Lawful) :
    (∀ s m amt, k.MayBurn m → (k.Sound s m amt ↔ k.Funded s m amt)) ∧
      ∀ s burns t,
        RunWhere k.Burns (fun s burn => k.MayBurn burn.1 ∧ k.Funded s burn.1 burn.2) s burns t →
        k.margin t = k.margin s := by
  refine ⟨fun s m amt hm => sound_iff hk hm, fun s burns t hrun => ?_⟩
  refine hrun.invariant (I := fun u => k.margin u = k.margin s) ?_ rfl
  rintro u ⟨m, amt⟩ v ⟨hm, hfunded⟩ hburn hu
  obtain ⟨w, hrun, hmoves⟩ := moves_of_funded hk hm hfunded
  obtain rfl : v = w := by rw [hburn, hrun, resultState]
  exact (margin_eq_of_moves hmoves).trans hu

/-! ## A bank -/

/-- A bank that keeps balances and the supply. -/
structure Ledger (Address : Type) where
  balance : Account Address → Denom → ℕ
  supply : Denom → ℕ

/-- Transfers take place if the coins are there. -/
def ledgerKeeper : BankKeeper (Ledger Address) Address where
  balance := Ledger.balance
  supply := Ledger.supply
  sendCoinsFromModuleToModule sender recipient amt := fun b =>
    if amt.amountOf ≤ b.balance (.module sender) then
      .ok () { b with
        balance := transfer b.balance (.module sender) (.module recipient) amt.amountOf }
    else .error .insufficientFunds b
  burnCoins moduleName amt := fun b =>
    if amt.amountOf ≤ b.balance (.module moduleName) then
      .ok () { balance := fun a =>
                 if a = .module moduleName then b.balance a - amt.amountOf else b.balance a
               supply := b.supply - amt.amountOf }
    else .error .insufficientFunds b

lemma lawful_ledgerKeeper : (ledgerKeeper : BankKeeper (Ledger Address) Address).Lawful where
  send_of_le _ hle := ⟨_, if_pos hle, rfl, rfl⟩
  send_of_not_le _ hle := ⟨_, if_neg hle⟩

/-- The wrapper over such a bank, with the permissions that the chain gives to the account of the
staking module. -/
def stakingBank : WrappedBankKeeper (Ledger Address) Address where
  keeper := ledgerKeeper
  getModuleAccount moduleName :=
    if moduleName = "bonded_tokens_pool" then some [burner, "staking"] else none
  distrKeeper := true

lemma mayBurn_stakingBank :
    (stakingBank : WrappedBankKeeper (Ledger Address) Address).MayBurn "bonded_tokens_pool" :=
  ⟨rfl, by decide, [burner, "staking"], rfl, by simp⟩

end Keeper

/-- Five bonded coins, one of which is burned. -/
theorem burnCoins_sound_iff_sample :
    let bonded : Account ℕ := .module "bonded_tokens_pool"
    let coin : Coins := .single "uband" 1 Nat.one_pos
    let s : State (Ledger ℕ) :=
      { bank := { balance := fun a _ => if a = bonded then 5 else 0, supply := fun _ => 5 }
        communityPool := 0 }
    stakingBank.Sound s "bonded_tokens_pool" coin ∧
      ∃ t, stakingBank.Burns s ("bonded_tokens_pool", coin) t ∧
        stakingBank.margin t = stakingBank.margin s := by
  intro bonded coin s
  have hfunded : stakingBank.Funded s "bonded_tokens_pool" coin :=
    Coins.amountOf_le_iff.mpr (by
      simp [coin, s, bonded, Coins.single, stakingBank, ledgerKeeper])
  have h := burnCoins_sound_iff (k := stakingBank) (@lawful_ledgerKeeper ℕ _)
  exact ⟨(h.1 s "bonded_tokens_pool" coin mayBurn_stakingBank).mpr hfunded, _, rfl,
    h.2 s [("bonded_tokens_pool", coin)] _ (.single ⟨mayBurn_stakingBank, hfunded⟩ rfl)⟩

/-- The module has nothing, and the pool grows by a coin that nobody has. -/
theorem not_burnCoins_sound :
    ¬(stakingBank : WrappedBankKeeper (Ledger ℕ) ℕ).Sound
      { bank := { balance := fun _ _ => 0, supply := fun _ => 0 }, communityPool := 0 }
      "bonded_tokens_pool" (.single "uband" 1 Nat.one_pos) := by
  rw [sound_iff lawful_ledgerKeeper mayBurn_stakingBank]
  intro h
  exact absurd (h "uband") (by decide)

end Bandchain.Bank
