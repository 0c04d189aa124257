import Bandchain.Bridge.Contract
import Bandchain.Lib.Run

/-!
# The relay of oracle states

The part of the bridge contract that keeps the validator powers and takes oracle states from
relayers: the Merkle hashes of `MultiStore` and `BlockHeaderMerkleParts`, the recovery of
signers in `TMSignature`, and the calls of `Bridge` that write to its storage.
-/

namespace Bandchain.Bridge

/-! ## Merkle hashes -/

namespace Utils

def merkleLeafHash (value : Bytes) : Bytes32 := sha256Digest ([0] ++ value)

def merkleInnerHash (left right : Bytes32) : Bytes32 := sha256Digest ([1] ++ left.1 ++ right.1)

end Utils

namespace MultiStore

structure Data where
  accToMemCapStoresMerkleHash : Bytes32
  mintStoresMerkleHash : Bytes32
  oracleIAVLStateHash : Bytes32
  paramsAndSlashingStoresMerkleHash : Bytes32
  stakingAndUpgradeStoresMerkleHash : Bytes32
deriving DecidableEq

/-- The leaf of the oracle store: its name and the double hash of its root, with lengths. -/
def Data.oracleLeaf (self : Data) : Bytes :=
  [0x06, 0x6f, 0x72, 0x61, 0x63, 0x6c, 0x65, 0x20] ++
    (sha256Digest (sha256Digest self.oracleIAVLStateHash.1).1).1

def Data.getAppHash (self : Data) : Bytes32 :=
  Utils.merkleInnerHash self.accToMemCapStoresMerkleHash
    (Utils.merkleInnerHash
      (Utils.merkleInnerHash
        (Utils.merkleInnerHash self.mintStoresMerkleHash (Utils.merkleLeafHash self.oracleLeaf))
        self.paramsAndSlashingStoresMerkleHash)
      self.stakingAndUpgradeStoresMerkleHash)

end MultiStore

namespace BlockHeaderMerkleParts

structure Data where
  versionAndChainIdHash : Bytes32
  timeHash : Bytes32
  lastBlockIDAndOther : Bytes32
  nextValidatorHashAndConsensusHash : Bytes32
  lastResultsHash : Bytes32
  evidenceAndProposerHash : Bytes32
deriving DecidableEq

/-- The height is written as a varint, so the call reverts for height zero. -/
def Data.getBlockHeader (self : Data) (appHash : Bytes32) (blockHeight : UInt256) :
    Except Revert Bytes32 := do
  let encodedHeight ← Utils.encodeVarintUnsigned blockHeight
  return Utils.merkleInnerHash
    (Utils.merkleInnerHash
      (Utils.merkleInnerHash self.versionAndChainIdHash
        (Utils.merkleInnerHash (Utils.merkleLeafHash encodedHeight) self.timeHash))
      self.lastBlockIDAndOther)
    (Utils.merkleInnerHash
      (Utils.merkleInnerHash self.nextValidatorHashAndConsensusHash
        (Utils.merkleInnerHash (Utils.merkleLeafHash ([32] ++ appHash.1)) self.lastResultsHash))
      self.evidenceAndProposerHash)

end BlockHeaderMerkleParts

/-! ## Signatures -/

/-- An account of the contract platform. -/
abbrev Address : Type := BitVec 160

/-- What the contract gets from elsewhere: the recovery of signers, a precompiled contract of the
platform, and the arithmetic of the SafeMath package, which is exact or reverts. -/
structure Platform where
  ecrecover : Bytes32 → UInt8 → Bytes32 → Bytes32 → Address
  add : UInt256 → UInt256 → Except Revert UInt256
  sub : UInt256 → UInt256 → Except Revert UInt256
  mul : UInt256 → UInt256 → Except Revert UInt256
  add_eq_ok : ∀ {a b c : UInt256}, add a b = .ok c ↔ a.toNat + b.toNat = c.toNat
  sub_eq_ok : ∀ {a b c : UInt256}, sub a b = .ok c ↔ a.toNat = c.toNat + b.toNat
  mul_eq_ok : ∀ {a b c : UInt256}, mul a b = .ok c ↔ a.toNat * b.toNat = c.toNat

namespace TMSignature

structure Data where
  r : Bytes32
  s : Bytes32
  v : UInt8
  signedDataSuffix : Bytes
deriving DecidableEq

/-- What the signer has signed. -/
def Data.signedData (self : Data) (blockHash : Bytes32) (signedDataPrefix : Bytes) : Bytes :=
  signedDataPrefix ++ blockHash.1 ++ self.signedDataSuffix

def Data.recoverSigner (self : Data) (platform : Platform) (blockHash : Bytes32)
    (signedDataPrefix : Bytes) : Address :=
  platform.ecrecover (sha256Digest (self.signedData blockHash signedDataPrefix)) self.v self.r
    self.s

end TMSignature

/-! ## The storage and the calls -/

structure ValidatorWithPower where
  addr : Address
  power : UInt256
deriving DecidableEq

/-- The storage of the bridge; `owner` belongs to the Ownable package. -/
structure Storage where
  owner : Address
  oracleStates : UInt256 → Bytes32
  validatorPowers : Address → UInt256
  totalValidatorPower : UInt256

/-- The arguments of a call of `relayOracleState`. -/
structure RelayArgs where
  blockHeight : UInt256
  multiStore : MultiStore.Data
  merkleParts : BlockHeaderMerkleParts.Data
  signedDataPrefix : Bytes
  signatures : List TMSignature.Data

section Calls

variable (platform : Platform)

/-- The body of the loop of the constructor. -/
def initValidator (s : Storage) (validator : ValidatorWithPower) : Except Revert Storage := do
  require (s.validatorPowers validator.addr = 0) "DUPLICATION_IN_INITIAL_VALIDATOR_SET"
  let total ← platform.add s.totalValidatorPower validator.power
  return { s with
    validatorPowers := Function.update s.validatorPowers validator.addr validator.power
    totalValidatorPower := total }

/-- The storage before the constructor runs; the sender becomes the owner. -/
def Storage.blank (sender : Address) : Storage where
  owner := sender
  oracleStates := fun _ => ⟨List.replicate 32 0, List.length_replicate⟩
  validatorPowers := fun _ => 0
  totalValidatorPower := 0

def constructor (sender : Address) (validators : List ValidatorWithPower) :
    Except Revert Storage :=
  validators.foldlM (initValidator platform) (.blank sender)

/-- The body of the loop of `updateValidatorPowers`. -/
def updateValidator (s : Storage) (validator : ValidatorWithPower) : Except Revert Storage := do
  let rest ← platform.sub s.totalValidatorPower (s.validatorPowers validator.addr)
  let total ← platform.add rest validator.power
  return { s with
    validatorPowers := Function.update s.validatorPowers validator.addr validator.power
    totalValidatorPower := total }

def updateValidatorPowers (sender : Address) (validators : List ValidatorWithPower)
    (s : Storage) : Except Revert Storage := do
  require (sender = s.owner) "Ownable: caller is not the owner"
  validators.foldlM (updateValidator platform) s

/-- The body of the loop of `relayOracleState`: the last signer and the power counted so far. -/
def countSignature (s : Storage) (blockHeader : Bytes32) (signedDataPrefix : Bytes)
    (acc : Address × UInt256) (signature : TMSignature.Data) :
    Except Revert (Address × UInt256) := do
  let signer := signature.recoverSigner platform blockHeader signedDataPrefix
  require (acc.1 < signer) "INVALID_SIGNATURE_SIGNER_ORDER"
  let sumVotingPower ← platform.add acc.2 (s.validatorPowers signer)
  return (signer, sumVotingPower)

def relayOracleState (args : RelayArgs) (s : Storage) : Except Revert Storage := do
  let appHash := args.multiStore.getAppHash
  let blockHeader ← args.merkleParts.getBlockHeader appHash args.blockHeight
  let (_, sumVotingPower) ← args.signatures.foldlM
    (countSignature platform s blockHeader args.signedDataPrefix) (0, 0)
  let three ← platform.mul sumVotingPower 3
  let two ← platform.mul s.totalValidatorPower 2
  require (two < three) "INSUFFICIENT_VALIDATOR_SIGNATURES"
  return { s with
    oracleStates := Function.update s.oracleStates args.blockHeight
      args.multiStore.oracleIAVLStateHash }

/-- A failed call inside another one reverts with the message of the outer one; `none` stands for
data that does not decode to arguments of the inner call. -/
def callOrRevert {α β : Type} (data : Option α) (f : α → Except Revert β) (message : String) :
    Except Revert β :=
  match data.map f with
  | some (.ok b) => .ok b
  | _ => .error (.require message)

def relayAndVerify (relayData : Option RelayArgs) (verifyData : Option VerifyArgs) (s : Storage) :
    Except Revert (Storage × RequestPacket × ResponsePacket) := do
  let s' ← callOrRevert relayData (relayOracleState platform · s) "RELAY_ORACLE_STATE_FAILED"
  let packets ← callOrRevert verifyData (·.verify s'.oracleStates) "VERIFY_ORACLE_DATA_FAILED"
  return (s', packets)

end Calls

/-- A call from outside.  The functions of the Ownable package write the owner only. -/
inductive Call
  | updateValidatorPowers (sender : Address) (validators : List ValidatorWithPower)
  | relayOracleState (args : RelayArgs)
  | relayAndVerify (relayData : Option RelayArgs) (verifyData : Option VerifyArgs)
  | setOwner (newOwner : Address)

def Call.exec (platform : Platform) (s : Storage) : Call → Except Revert Storage
  | updateValidatorPowers sender validators =>
      Bridge.updateValidatorPowers platform sender validators s
  | relayOracleState args => Bridge.relayOracleState platform args s
  | relayAndVerify relayData verifyData =>
      (Bridge.relayAndVerify platform relayData verifyData s).map Prod.fst
  | setOwner newOwner => .ok { s with owner := newOwner }

/-- One call.  A call that reverts leaves the storage as it was. -/
def Step (platform : Platform) (s : Storage) (c : Call) (t : Storage) : Prop :=
  t = (c.exec platform s).toOption.getD s

/-- The storage after a constructor call that does not revert. -/
def Deployed (platform : Platform) (s : Storage) : Prop :=
  ∃ sender validators, constructor platform sender validators = .ok s

/-- The storages that the contract can have. -/
abbrev Live (platform : Platform) : Storage → Prop := Reachable (Step platform) (Deployed platform)

end Bandchain.Bridge
