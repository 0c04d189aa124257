import Bandchain.Bridge.Relay
import Bandchain.Lib.Exec
import Bandchain.Lib.Quorum

/-!
# The validator powers of the bridge

The total power that the contract keeps is the sum of the powers of all addresses, in every
storage that calls can lead to.  So the subtraction in `updateValidatorPowers`, which takes the
old power of a validator off the total, never reverts.
-/

namespace Bandchain.Bridge

open Exec

variable {platform : Platform} {s t : Storage}

instance : Finite Address := Finite.of_equiv _ BitVec.equivFin.symm.toEquiv

/-! ## One power -/

namespace Storage

/-- The power of an address, as a number. -/
def power (s : Storage) (a : Address) : ℕ := (s.validatorPowers a).toNat

/-- The total is the sum of the powers. -/
def Balanced (s : Storage) : Prop := s.totalValidatorPower.toNat = Quorum.total s.power

/-- The power of one validator is set, and the total follows. -/
structure SetPower (s : Storage) (v : ValidatorWithPower) (t : Storage) : Prop where
  owner : t.owner = s.owner
  oracleStates : t.oracleStates = s.oracleStates
  validatorPowers : t.validatorPowers = Function.update s.validatorPowers v.addr v.power
  total : t.totalValidatorPower.toNat + s.power v.addr =
    s.totalValidatorPower.toNat + v.power.toNat

lemma SetPower.power {v : ValidatorWithPower} (h : SetPower s v t) :
    t.power = Function.update s.power v.addr v.power.toNat := by
  ext a
  rw [Storage.power, h.validatorPowers]
  by_cases ha : a = v.addr
  · subst ha
    rw [Function.update_self, Function.update_self]
  · rw [Function.update_of_ne ha, Function.update_of_ne ha, Storage.power]

lemma SetPower.balanced {v : ValidatorWithPower} (h : SetPower s v t) (hs : s.Balanced) :
    t.Balanced := by
  have htotal := Quorum.total_update (Set.toFinite (Function.support s.power)) v.addr v.power.toNat
  have hset := h.total
  rw [Balanced] at hs ⊢
  rw [h.power]
  omega

lemma Balanced.power_le (hs : s.Balanced) (a : Address) :
    s.power a ≤ s.totalValidatorPower.toNat := by
  rw [hs]
  exact Quorum.le_total (Set.toFinite _) a

end Storage

/-! ## The loops -/

lemma initValidator_eq_ok {v : ValidatorWithPower} (h : initValidator platform s v = .ok t) :
    s.SetPower v t := by
  simp only [initValidator, except_bind_eq_ok, require_eq_ok, platform.add_eq_ok] at h
  obtain ⟨_, hzero, total, htotal, h⟩ := h
  obtain rfl := Except.ok.inj h
  refine ⟨rfl, rfl, rfl, ?_⟩
  have hpower : s.power v.addr = 0 := by
    rw [Storage.power, hzero]
    rfl
  rw [hpower]
  exact htotal.symm

lemma updateValidator_eq_ok {v : ValidatorWithPower} (h : updateValidator platform s v = .ok t) :
    s.SetPower v t := by
  simp only [updateValidator, except_bind_eq_ok, platform.add_eq_ok, platform.sub_eq_ok] at h
  obtain ⟨rest, hrest, total, htotal, h⟩ := h
  obtain rfl := Except.ok.inj h
  refine ⟨rfl, rfl, rfl, ?_⟩
  show total.toNat + (s.validatorPowers v.addr).toNat = _
  omega

/-- The old power of a validator can always be taken off the total. -/
lemma exists_sub_eq_ok (platform : Platform) (hs : s.Balanced) (a : Address) :
    ∃ rest, platform.sub s.totalValidatorPower (s.validatorPowers a) = .ok rest := by
  have hle := hs.power_le a
  rw [Storage.power] at hle
  refine ⟨s.totalValidatorPower - s.validatorPowers a, platform.sub_eq_ok.mpr ?_⟩
  rw [BitVec.toNat_sub_of_le hle]
  omega

lemma balanced_of_updateValidators {vs : List ValidatorWithPower}
    (h : vs.foldlM (updateValidator platform) s = .ok t) (hs : s.Balanced) : t.Balanced :=
  foldlM_invariant h (fun _ hstep => (updateValidator_eq_ok hstep).balanced) hs

lemma balanced_blank (sender : Address) : (Storage.blank sender).Balanced :=
  Quorum.total_zero.symm

lemma balanced_of_deployed (h : Deployed platform s) : s.Balanced := by
  obtain ⟨sender, vs, h⟩ := h
  exact foldlM_invariant h (fun _ hstep => (initValidator_eq_ok hstep).balanced)
    (balanced_blank sender)

/-! ## Calls -/

/-- What a relay that is accepted has checked, and what it writes. -/
lemma relayOracleState_eq_ok {args : RelayArgs} (h : relayOracleState platform args s = .ok t) :
    ∃ blockHeader last sum,
      args.merkleParts.getBlockHeader args.multiStore.getAppHash args.blockHeight =
        .ok blockHeader ∧
      args.signatures.foldlM (countSignature platform s blockHeader args.signedDataPrefix) (0, 0) =
        .ok (last, sum) ∧
      2 * s.totalValidatorPower.toNat < 3 * sum.toNat ∧
      t = { s with
        oracleStates := Function.update s.oracleStates args.blockHeight
          args.multiStore.oracleIAVLStateHash } := by
  simp only [relayOracleState, except_bind_eq_ok, require_eq_ok, platform.mul_eq_ok] at h
  obtain ⟨blockHeader, hheader, ⟨last, sum⟩, hsum, three, hthree, two, htwo, _, hlt, h⟩ := h
  refine ⟨blockHeader, last, sum, hheader, hsum, ?_, (Except.ok.inj h).symm⟩
  have hlt' : two.toNat < three.toNat := hlt
  rw [← hthree, ← htwo] at hlt'
  change s.totalValidatorPower.toNat * 2 < sum.toNat * 3 at hlt'
  omega

lemma callOrRevert_eq_ok {α β : Type} {data : Option α} {f : α → Except Revert β}
    {message : String} {b : β} (h : callOrRevert data f message = .ok b) :
    ∃ a, data = some a ∧ f a = .ok b := by
  rw [callOrRevert] at h
  rcases data with _ | a
  · cases h
  · rcases hf : f a with e | b'
    · simp [hf] at h
    · simp only [Option.map_some, hf] at h
      exact ⟨a, rfl, hf.trans h⟩

/-- All that a call that does not revert can do. -/
lemma exec_eq_ok {c : Call} (h : c.exec platform s = .ok t) :
    (∃ sender vs, c = .updateValidatorPowers sender vs ∧ sender = s.owner ∧
      vs.foldlM (updateValidator platform) s = .ok t) ∨
    (∃ args, relayOracleState platform args s = .ok t) ∨
    ∃ newOwner, t = { s with owner := newOwner } := by
  cases c with
  | updateValidatorPowers sender vs =>
    change (require (sender = s.owner) _ >>= _) = _ at h
    rw [except_bind_eq_ok] at h
    obtain ⟨_, howner, h⟩ := h
    exact .inl ⟨sender, vs, rfl, require_eq_ok.mp howner, h⟩
  | relayOracleState args => exact .inr (.inl ⟨args, h⟩)
  | relayAndVerify relayData verifyData =>
    rcases hboth : relayAndVerify platform relayData verifyData s with e | out
    · simp [Call.exec, hboth, Except.map] at h
    · simp only [Call.exec, hboth, Except.map, Except.ok.injEq] at h
      simp only [relayAndVerify, except_bind_eq_ok] at hboth
      obtain ⟨s', hrelay, _, _, hout⟩ := hboth
      obtain ⟨args, _, hargs⟩ := callOrRevert_eq_ok hrelay
      rw [← Except.ok.inj hout] at h
      subst h
      exact .inr (.inl ⟨args, hargs⟩)
  | setOwner newOwner => exact .inr (.inr ⟨newOwner, (Except.ok.inj h).symm⟩)

/-- A call succeeds, or it changes nothing. -/
lemma Step.cases {c : Call} (h : Step platform s c t) : c.exec platform s = .ok t ∨ t = s := by
  rw [Step] at h
  rcases hexec : c.exec platform s with e | t'
  · simp only [hexec] at h
    exact .inr h
  · simp only [hexec] at h
    exact .inl (by rw [h]; rfl)

lemma Step.balanced {c : Call} (h : Step platform s c t) (hs : s.Balanced) : t.Balanced := by
  rcases h.cases with h | rfl
  · rcases exec_eq_ok h with ⟨_, vs, _, _, h⟩ | ⟨args, h⟩ | ⟨newOwner, rfl⟩
    · exact balanced_of_updateValidators h hs
    · obtain ⟨_, _, _, _, _, _, rfl⟩ := relayOracleState_eq_ok h
      exact hs
    · exact hs
  · exact hs

lemma Live.balanced (h : Live platform s) : s.Balanced :=
  Reachable.invariant h balanced_of_deployed Step.balanced

/-- **The total power is the sum of the powers.**  In every storage that calls lead to, the total
is the sum of the powers of all addresses.  While `updateValidatorPowers` goes through any list of
validators from there, the subtraction of the next old power does not revert. -/
theorem totalValidatorPower_eq_sum (h : Live platform s) :
    s.totalValidatorPower.toNat = ∑ᶠ a : Address, (s.validatorPowers a).toNat ∧
      ∀ (done : List ValidatorWithPower) (next : ValidatorWithPower) (t : Storage),
        done.foldlM (updateValidator platform) s = .ok t →
          ∃ rest, platform.sub t.totalValidatorPower (t.validatorPowers next.addr) = .ok rest :=
  ⟨h.balanced, fun _ next _ hdone =>
    exists_sub_eq_ok platform (balanced_of_updateValidators hdone h.balanced) next.addr⟩

/-! ## Four validators -/

namespace Sample

/-- The operations of SafeMath. -/
def checked (n : ℕ) (message : String) : Except Revert UInt256 :=
  if n < 2 ^ 256 then .ok (BitVec.ofNat 256 n) else .error (.require message)

lemma checked_eq_ok {n : ℕ} {message : String} {c : UInt256} :
    checked n message = .ok c ↔ n = c.toNat := by
  rw [checked]
  constructor
  · intro h
    split_ifs at h with hn
    rw [← Except.ok.inj h, BitVec.toNat_ofNat, Nat.mod_eq_of_lt hn]
  · rintro rfl
    rw [if_pos c.isLt, BitVec.ofNat_toNat, BitVec.setWidth_eq]

def checkedSub (a b : UInt256) : Except Revert UInt256 :=
  if b.toNat ≤ a.toNat then .ok (a - b) else .error (.require "SafeMath: subtraction overflow")

lemma checkedSub_eq_ok {a b c : UInt256} :
    checkedSub a b = .ok c ↔ a.toNat = c.toNat + b.toNat := by
  rw [checkedSub]
  constructor
  · intro h
    split_ifs at h with hle
    rw [← Except.ok.inj h, BitVec.toNat_sub_of_le hle]
    omega
  · intro h
    rw [if_pos (by omega)]
    congr 1
    apply BitVec.eq_of_toNat_eq
    rw [BitVec.toNat_sub_of_le (show b.toNat ≤ a.toNat by omega)]
    omega

/-- SafeMath, with any recovery of signers. -/
def evm (ecrecover : Bytes32 → UInt8 → Bytes32 → Bytes32 → Address) : Platform where
  ecrecover := ecrecover
  add a b := checked (a.toNat + b.toNat) "SafeMath: addition overflow"
  sub := checkedSub
  mul a b := checked (a.toNat * b.toNat) "SafeMath: multiplication overflow"
  add_eq_ok := checked_eq_ok
  sub_eq_ok := checkedSub_eq_ok
  mul_eq_ok := checked_eq_ok

def validators : List ValidatorWithPower :=
  [⟨0x652D89a66Eb4eA55366c45b1f9ACfc8e2179E1c5, 100⟩,
   ⟨0x88e1cd00710495EEB93D4f522d16bC8B87Cb00FE, 100⟩,
   ⟨0xaAA22E077492CbaD414098EBD98AA8dc1C7AE8D9, 100⟩,
   ⟨0xB956589b6fC5523eeD0d9eEcfF06262Ce84ff260, 100⟩]

def owner : Address := 0x7e5f4552091a69125d5dfcb7b8c2659029395bdf

/-- The bridge with four validators. -/
def deployed (ecrecover : Bytes32 → UInt8 → Bytes32 → Bytes32 → Address) : Storage :=
  (constructor (evm ecrecover) owner validators).toOption.getD (.blank owner)

lemma deployed_deployed (ecrecover : Bytes32 → UInt8 → Bytes32 → Bytes32 → Address) :
    Deployed (evm ecrecover) (deployed ecrecover) :=
  ⟨owner, validators, rfl⟩

end Sample

/-- The four powers add up to the total; recovery of signers plays no part. -/
theorem totalValidatorPower_eq_sum_sample :
    400 = ∑ᶠ a : Address, ((Sample.deployed fun _ _ _ _ => 0).validatorPowers a).toNat := by
  have htotal : (Sample.deployed fun _ _ _ _ => 0).totalValidatorPower.toNat = 400 := by
    decide +kernel
  rw [← htotal]
  exact (totalValidatorPower_eq_sum (.of_init (Sample.deployed_deployed _))).1

end Bandchain.Bridge
