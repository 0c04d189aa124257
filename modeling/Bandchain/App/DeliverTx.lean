import Bandchain.Bank.Coins
import Bandchain.Lib.Exec
import Bandchain.Lib.Run
import Bandchain.Oracle.Msgs

/-!
# Delivering transactions

The application delivers a transaction through the base application of the framework, which takes
the fee before it runs the messages.  It then pays the fee back if the transaction succeeded and has
nothing but reports.  A refund that fails would bring the node down.
-/

namespace Bandchain.App

open Bank Exec

abbrev AccAddress : Type := Oracle.AccAddress

/-- A message: a report, or a message of which only its signers are read. -/
inductive Msg
  | reportData (m : Oracle.MsgReportData)
  | other (signers : List AccAddress)

def Msg.getSigners : Msg → List AccAddress
  | reportData m => [m.reporter]
  | other signers => signers

def Msg.isReportData : Msg → Bool
  | reportData _ => true
  | other _ => false

/-- `auth.StdTx`. -/
structure StdTx where
  msgs : List Msg
  fee : Coins

/-- The signers of all messages, each of them once. -/
def StdTx.getSigners (tx : StdTx) : List AccAddress :=
  (tx.msgs.flatMap Msg.getSigners).eraseDups

/-- `auth.FeeCollectorName`. -/
def feeCollectorName : String := "fee_collector"

/-- What the base application did with a transaction: the code of its response, the state in which
the messages started if the ante handler let the transaction through, and the state at the end. -/
structure Delivery (S : Type) where
  code : ℕ
  charged : Option S
  state : S

/-- `ResponseDeliverTx.IsOK`. -/
def Delivery.isOK {S : Type} (d : Delivery S) : Bool := d.code == 0

/-- The framework below the application, over the states `S` of the block being delivered. -/
structure BaseApp (S : Type) where
  balance : S → Account AccAddress → Denom → ℕ
  txDecoder (raw : Bytes) : Except String StdTx
  deliverTx (raw : Bytes) (s : S) : Delivery S
  sendCoinsFromModuleToAccount (sender : String) (recipient : AccAddress) (amt : Coins) :
    EStateM String S Unit

variable {S : Type}

/-- What the fee collector holds. -/
def BaseApp.collected (app : BaseApp S) (s : S) : Denom → ℕ :=
  app.balance s (.module feeCollectorName)

/-- The ante handler moves the fee from the first signer to the fee collector, the messages withdraw
nothing from there, and a module can send what it has. -/
structure BaseApp.Lawful (app : BaseApp S) : Prop where
  charged_of_isOK {raw : Bytes} {s : S} : (app.deliverTx raw s).isOK = true →
    ∃ s₁, (app.deliverTx raw s).charged = some s₁
  ante {raw : Bytes} {s s₁ : S} : (app.deliverTx raw s).charged = some s₁ →
    ∃ tx payer, app.txDecoder raw = .ok tx ∧ tx.getSigners.head? = some payer ∧
      app.balance s₁ = transfer (app.balance s) (.address payer) (.module feeCollectorName)
        tx.fee.amountOf
  rejected {raw : Bytes} {s : S} : (app.deliverTx raw s).charged = none →
    app.collected (app.deliverTx raw s).state = app.collected s
  messages {raw : Bytes} {s s₁ : S} : (app.deliverTx raw s).charged = some s₁ →
    app.collected s₁ ≤ app.collected (app.deliverTx raw s).state
  send {m : String} {a : AccAddress} {amt : Coins} {s : S} :
    amt.amountOf ≤ app.balance s (.module m) →
    ∃ t, (app.sendCoinsFromModuleToAccount m a amt).run s = .ok () t ∧
      app.balance t = transfer (app.balance s) (.module m) (.address a) amt.amountOf

/-- The fee goes back if there is one and all messages are reports. -/
def refund (app : BaseApp S) (raw : Bytes) : EStateM String S Unit :=
  match app.txDecoder raw with
  | .error e => throw e
  | .ok tx =>
    if tx.msgs.all Msg.isReportData && !tx.fee.isZero then
      match tx.getSigners with
      | [] => throw "index out of range"
      | signer :: _ => app.sendCoinsFromModuleToAccount feeCollectorName signer tx.fee
    else pure ()

/-- An error is a panic: whatever goes wrong here stops the node. -/
def deliverTx (app : BaseApp S) (raw : Bytes) : EStateM String S (Delivery S) := do
  let response ← modifyGet fun s => (app.deliverTx raw s, (app.deliverTx raw s).state)
  if response.isOK then
    refund app raw
  return response

/-! ## Where the fee goes -/

/-- The fee that a transaction declares. -/
def feeOf (app : BaseApp S) (raw : Bytes) : Denom → ℕ :=
  match app.txDecoder raw with
  | .error _ => 0
  | .ok tx => tx.fee.amountOf

/-- The transaction has nothing but reports. -/
def onlyReports (app : BaseApp S) (raw : Bytes) : Bool :=
  match app.txDecoder raw with
  | .error _ => false
  | .ok tx => tx.msgs.all Msg.isReportData

/-- The fee of a transaction that was charged, unless it succeeded with nothing but reports. -/
def keptFee (app : BaseApp S) (raw : Bytes) (d : Delivery S) : Denom → ℕ :=
  if d.charged.isSome && !(d.isOK && onlyReports app raw) then feeOf app raw else 0

/-- What the messages of a transaction paid to the fee collector. -/
def paidIn (app : BaseApp S) (d : Delivery S) : Denom → ℕ :=
  match d.charged with
  | none => 0
  | some s₁ => app.collected d.state - app.collected s₁

/-- A transaction is delivered, with what the base application did. -/
def Delivers (app : BaseApp S) (s : S) (l : Bytes × Delivery S) (t : S) : Prop :=
  (deliverTx app l.1).run s = .ok l.2 t

variable {app : BaseApp S} {raw : Bytes} {s t u : S} {d : Delivery S}

/-- The base application leaves the whole fee with the collector. -/
lemma collected_deliverTx (happ : app.Lawful) {s₁ : S}
    (h : (app.deliverTx raw s).charged = some s₁) :
    app.collected (app.deliverTx raw s).state =
      app.collected s + feeOf app raw + paidIn app (app.deliverTx raw s) := by
  obtain ⟨tx, payer, htx, -, hbalance⟩ := happ.ante h
  have hne : (.address payer : Account AccAddress) ≠ .module feeCollectorName := nofun
  have hs₁ : app.collected s₁ = app.collected s + feeOf app raw := by
    rw [BaseApp.collected, hbalance, transfer_receiver hne, feeOf, htx]
    rfl
  have hpaid : paidIn app (app.deliverTx raw s) =
      app.collected (app.deliverTx raw s).state - app.collected s₁ := by
    rw [paidIn, h]
  rw [hpaid, ← hs₁, add_tsub_cancel_of_le (happ.messages h)]

lemma refund_run (happ : app.Lawful) (hfee : feeOf app raw ≤ app.collected t)
    {tx : StdTx} {payer : AccAddress} (htx : app.txDecoder raw = .ok tx)
    (hpayer : tx.getSigners.head? = some payer) :
    ∃ u, (refund app raw).run t = .ok () u ∧
      app.collected u + (if onlyReports app raw then feeOf app raw else 0) = app.collected t := by
  have hfee' : feeOf app raw = tx.fee.amountOf := by rw [feeOf, htx]
  have hreports : onlyReports app raw = tx.msgs.all Msg.isReportData := by rw [onlyReports, htx]
  obtain ⟨signers, hsigners⟩ : ∃ signers, tx.getSigners = payer :: signers :=
    List.head?_eq_some_iff.mp hpayer
  rw [hfee', hreports]
  rw [hfee'] at hfee
  rw [refund, htx]
  by_cases hback : (tx.msgs.all Msg.isReportData && !tx.fee.isZero) = true
  · -- the fee collector has the fee of this transaction at least
    obtain ⟨u, hu, hbalance⟩ := happ.send (a := payer) hfee
    refine ⟨u, ?_, ?_⟩
    · simp only [hback, if_true, hsigners]
      exact hu
    · have hne : (.module feeCollectorName : Account AccAddress) ≠ .address payer := nofun
      have hle : tx.fee.amountOf ≤ app.balance t (.module feeCollectorName) := hfee
      rw [if_pos (Bool.and_eq_true_iff.mp hback).1, BaseApp.collected, hbalance,
        transfer_sender_add hle hne, BaseApp.collected]
  · refine ⟨t, ?_, ?_⟩
    · simp only [hback, Bool.false_eq_true, if_false]
      rfl
    · split_ifs with hall
      · have hzero : tx.fee.isZero = true := by simpa [hall] using hback
        rw [Coins.amountOf_eq_zero_of_isZero hzero, add_zero]
      · exact add_zero _

/-- One transaction: nothing panics, and the fee collector gains what is kept and paid in. -/
lemma deliverTx_run (happ : app.Lawful) (raw : Bytes) (s : S) :
    ∃ t, (deliverTx app raw).run s = .ok (app.deliverTx raw s) t ∧
      app.collected t = app.collected s +
        (keptFee app raw (app.deliverTx raw s) + paidIn app (app.deliverTx raw s)) := by
  set d := app.deliverTx raw s with hd
  have hrun : (deliverTx app raw).run s =
      ((if d.isOK then refund app raw else pure ()) >>= fun _ => pure d :
        EStateM String S (Delivery S)).run d.state := by
    have hbase : (modifyGet fun s => (app.deliverTx raw s, (app.deliverTx raw s).state) :
        EStateM String S (Delivery S)).run s = .ok d d.state := rfl
    refine (run_bind_of_ok hbase).trans ?_
    cases d.isOK <;> rfl
  rw [hrun]
  cases hcharged : d.charged with
  | none =>
    have hfail : d.isOK = false := by
      rw [Bool.eq_false_iff]
      intro hok
      obtain ⟨s₁, hs₁⟩ := happ.charged_of_isOK hok
      rw [← hd, hcharged] at hs₁
      cases hs₁
    refine ⟨d.state, by rw [hfail]; rfl, ?_⟩
    rw [keptFee, paidIn, hcharged]
    simpa using happ.rejected hcharged
  | some s₁ =>
    have hstate := collected_deliverTx happ hcharged
    rw [← hd] at hstate
    cases hok : d.isOK with
    | false =>
      refine ⟨d.state, rfl, ?_⟩
      rw [hstate, keptFee, hcharged, hok, add_assoc]
      simp
    | true =>
      obtain ⟨tx, payer, htx, hpayer, -⟩ := happ.ante hcharged
      have hfee : feeOf app raw ≤ app.collected d.state := by
        rw [hstate, add_right_comm]
        exact le_add_self
      obtain ⟨t, ht, hcollected⟩ := refund_run happ hfee htx hpayer
      refine ⟨t, bind_eq_ok.mpr ⟨(), t, ht, rfl⟩, ?_⟩
      rw [hstate] at hcollected
      rw [keptFee, hcharged, hok]
      cases hreports : onlyReports app raw with
      | true =>
        rw [hreports, if_pos rfl, add_right_comm] at hcollected
        simpa using add_right_cancel hcollected
      | false =>
        rw [hreports] at hcollected
        simpa [add_assoc] using hcollected

/-- Delivering a transaction never panics, and after any number of them the fee collector has gained
the fees that were kept and what the messages themselves paid to it. -/
theorem deliverTx_collects (happ : app.Lawful) :
    (∀ raw s, ∃ d t, (deliverTx app raw).run s = .ok d t) ∧
      ∀ s ls t, Run (Delivers app) s ls t →
        app.collected t =
          app.collected s + (ls.map fun l => keptFee app l.1 l.2 + paidIn app l.2).sum := by
  constructor
  · intro raw s
    obtain ⟨t, ht, -⟩ := deliverTx_run happ raw s
    exact ⟨_, t, ht⟩
  · intro s ls t hrun
    refine hrun.sum ?_
    rintro u ⟨raw, d⟩ v - hdeliver
    obtain ⟨w, hw, hcollected⟩ := deliverTx_run happ raw u
    have heq : EStateM.Result.ok (app.deliverTx raw u) w = .ok d v := hw.symm.trans hdeliver
    cases heq
    exact hcollected

/-! ## A chain with two transactions -/

def payer : AccAddress := List.replicate 20 1

/-- A report, with a fee. -/
def reportTx : StdTx where
  msgs := [.reportData { requestID := 1, rawReports := [], validator := payer, reporter := payer }]
  fee := .single "uband" 2 (by decide)

/-- A message of the crisis module, which has the sender pay a constant fee to the fee collector
when it runs. -/
def verifyInvariantTx : StdTx where
  msgs := [.other [payer]]
  fee := .single "uband" 2 (by decide)

def constantFee : Coins := .single "uband" 1 Nat.one_pos

/-- The balances after the ante handler. -/
def chargedState (s : Account AccAddress → Denom → ℕ) : Account AccAddress → Denom → ℕ :=
  transfer s (.address payer) (.module feeCollectorName) reportTx.fee.amountOf

def sampleDelivery (raw : Bytes) (s : Account AccAddress → Denom → ℕ) :
    Delivery (Account AccAddress → Denom → ℕ) :=
  if reportTx.fee.amountOf ≤ s (.address payer) then
    if raw = [] then
      { code := 0, charged := some (chargedState s), state := chargedState s }
    else if constantFee.amountOf ≤ chargedState s (.address payer) then
      { code := 0, charged := some (chargedState s),
        state := transfer (chargedState s) (.address payer) (.module feeCollectorName)
          constantFee.amountOf }
    else
      { code := 5, charged := some (chargedState s), state := chargedState s }
  else
    { code := 5, charged := none, state := s }

lemma sampleDelivery_cases (raw : Bytes) (s : Account AccAddress → Denom → ℕ) :
    sampleDelivery raw s = { code := 5, charged := none, state := s } ∨
      (sampleDelivery raw s).charged = some (chargedState s) ∧
        chargedState s (.module feeCollectorName) ≤
          (sampleDelivery raw s).state (.module feeCollectorName) := by
  unfold sampleDelivery
  split_ifs
  · exact .inr ⟨rfl, le_rfl⟩
  · have hne : (.address payer : Account AccAddress) ≠ .module feeCollectorName := nofun
    refine .inr ⟨rfl, ?_⟩
    show _ ≤ transfer (chargedState s) _ _ constantFee.amountOf _
    rw [transfer_receiver hne]
    exact le_self_add
  · exact .inr ⟨rfl, le_rfl⟩
  · exact .inl rfl

/-- A chain whose state is its balances; the empty transaction is the report. -/
def sampleApp : BaseApp (Account AccAddress → Denom → ℕ) where
  balance s := s
  txDecoder raw := .ok (if raw = [] then reportTx else verifyInvariantTx)
  deliverTx := sampleDelivery
  sendCoinsFromModuleToAccount sender recipient amt := fun s =>
    if amt.amountOf ≤ s (.module sender) then
      .ok () (transfer s (.module sender) (.address recipient) amt.amountOf)
    else .error "insufficient funds" s

lemma lawful_sampleApp : sampleApp.Lawful where
  charged_of_isOK {raw s} h := by
    rcases sampleDelivery_cases raw s with hd | ⟨hd, -⟩
    · change (sampleDelivery raw s).isOK = true at h
      rw [hd] at h
      cases h
    · exact ⟨_, hd⟩
  ante {raw s s₁} h := by
    refine ⟨if raw = [] then reportTx else verifyInvariantTx, payer, rfl, ?_, ?_⟩
    · split_ifs <;> rfl
    · have hfee : (if raw = [] then reportTx else verifyInvariantTx).fee = reportTx.fee := by
        split_ifs <;> rfl
      rw [hfee]
      rcases sampleDelivery_cases raw s with hd | ⟨hd, -⟩
      · change (sampleDelivery raw s).charged = some s₁ at h
        rw [hd] at h
        cases h
      · exact (Option.some.inj (hd.symm.trans h)).symm
  rejected {raw s} h := by
    rcases sampleDelivery_cases raw s with hd | ⟨hd, -⟩
    · exact congrArg (fun d => d.state (.module feeCollectorName)) hd
    · cases hd.symm.trans h
  messages {raw s s₁} h := by
    rcases sampleDelivery_cases raw s with hd | ⟨hd, hle⟩
    · change (sampleDelivery raw s).charged = some s₁ at h
      rw [hd] at h
      cases h
    · rw [← Option.some.inj (hd.symm.trans h)]
      exact hle
  send h := ⟨_, if_pos h, rfl⟩

/-- A payer with ten coins. -/
def funded : Account AccAddress → Denom → ℕ := fun a _ => if a = .address payer then 10 else 0

/-- The transaction that checks an invariant succeeds, and its message pays one coin. -/
lemma sampleDelivery_funded :
    sampleDelivery [0] funded =
      { code := 0, charged := some (chargedState funded),
        state := transfer (chargedState funded) (.address payer) (.module feeCollectorName)
          constantFee.amountOf } := by
  have hfee : reportTx.fee.amountOf ≤ funded (.address payer) := by decide
  have hconstant : constantFee.amountOf ≤ chargedState funded (.address payer) := by decide
  rw [sampleDelivery, if_pos hfee, if_neg (by simp), if_pos hconstant]

/-- Of the two coins of a fee and one coin that the message pays, none is paid back. -/
theorem deliverTx_collects_sample :
    ∃ d t, Delivers sampleApp funded ([0], d) t ∧ sampleApp.collected t =
      sampleApp.collected funded + (keptFee sampleApp [0] d + paidIn sampleApp d) := by
  have h := deliverTx_collects lawful_sampleApp
  obtain ⟨d, t, ht⟩ := h.1 [0] funded
  refine ⟨d, t, ht, ?_⟩
  simpa using h.2 funded [([0], d)] t (.single trivial ht)

/-- A message that pays to the fee collector leaves more there than the fees that were kept. -/
theorem not_collects_keptFee :
    ¬∀ app : BaseApp (Account AccAddress → Denom → ℕ), app.Lawful →
      ∀ s ls t, Run (Delivers app) s ls t →
        app.collected t = app.collected s + (ls.map fun l => keptFee app l.1 l.2).sum := by
  intro h
  obtain ⟨t, ht, hcollected⟩ := deliverTx_run lawful_sampleApp [0] funded
  have hkept := h sampleApp lawful_sampleApp funded [([0], sampleApp.deliverTx [0] funded)] t
    (.single trivial ht)
  rw [hcollected] at hkept
  have hpaid : paidIn sampleApp (sampleApp.deliverTx [0] funded) = 0 := by simpa using hkept
  have huband := congrFun hpaid "uband"
  change paidIn sampleApp (sampleDelivery [0] funded) "uband" = 0 at huband
  rw [sampleDelivery_funded] at huband
  revert huband
  decide

end Bandchain.App
