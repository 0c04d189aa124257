import Bandchain.Lib.Sha256

/-!
# The verification of oracle data

The part of the bridge contract that checks oracle data against a relayed state: the varint
encoding of `Utils`, the hashing steps of `IAVLMerklePath` and `Packets`, and
`Bridge.verifyOracleData`.  A call that reverts returns an error.
-/

namespace Bandchain.Bridge

abbrev UInt256 : Type := BitVec 256

/-- Why a call reverts. -/
inductive Revert
  | require (message : String)
  /-- An index out of range. -/
  | invalidOpcode
deriving DecidableEq, Repr

/-- Revert with the message unless the condition holds. -/
def require (c : Prop) [Decidable c] (message : String) : Except Revert Unit :=
  if c then .ok () else .error (.require message)

lemma require_eq_ok {c : Prop} [Decidable c] {message : String} {u : Unit} :
    require c message = .ok u ↔ c := by
  by_cases h : c <;> simp [require, h]

lemma require_eq_error {c : Prop} [Decidable c] {message : String} {e : Revert} :
    require c message = .error e ↔ ¬c ∧ e = .require message := by
  by_cases h : c <;> simp [require, h, eq_comm]

/-! ## Utils -/

namespace Utils

/-- `while (tempValue > 0) { ++size; tempValue >>= 7; }`. -/
def varintSize (tempValue : ℕ) : ℕ :=
  if tempValue > 0 then varintSize (tempValue >>> 7) + 1 else 0
termination_by tempValue
decreasing_by
  rw [Nat.shiftRight_eq_div_pow]
  exact Nat.div_lt_self ‹_› (by decide)

/-- The loop that fills the buffer: seven bits to a byte, with the high bit set. -/
def fillVarint : ℕ → ℕ → Bytes
  | 0, _ => []
  | size + 1, tempValue =>
    (128 ||| UInt8.ofNat (tempValue &&& 127)) :: fillVarint size (tempValue >>> 7)

/-- The high bit of the last byte is dropped at the end; there is no last byte for zero. -/
def encodeVarintUnsigned (value : UInt256) : Except Revert Bytes :=
  let size := varintSize value.toNat
  let result := fillVarint size value.toNat
  if size = 0 then .error .invalidOpcode
  else .ok (result.modify (size - 1) (· &&& 127))

def encodeVarintSigned (value : UInt256) : Except Revert Bytes := encodeVarintUnsigned (value * 2)

end Utils

/-! ## Merkle paths -/

namespace IAVLMerklePath

structure Data where
  isDataOnRight : Bool
  subtreeHeight : UInt8
  subtreeSize : UInt256
  subtreeVersion : UInt256
  siblingHash : Bytes32
deriving DecidableEq

def Data.getParentHash (self : Data) (dataSubtreeHash : Bytes32) : Except Revert Bytes32 := do
  let leftSubtree := if self.isDataOnRight then self.siblingHash else dataSubtreeHash
  let rightSubtree := if self.isDataOnRight then dataSubtreeHash else self.siblingHash
  let size ← Utils.encodeVarintSigned self.subtreeSize
  let version ← Utils.encodeVarintSigned self.subtreeVersion
  return sha256Digest ([self.subtreeHeight <<< 1] ++ size ++ version ++ [32] ++ leftSubtree.1 ++
    [32] ++ rightSubtree.1)

end IAVLMerklePath

/-! ## Packets -/

structure RequestPacket where
  clientId : Bytes
  oracleScriptId : UInt64
  params : Bytes
  askCount : UInt64
  minCount : UInt64
deriving DecidableEq, Repr

structure ResponsePacket where
  clientId : Bytes
  requestId : UInt64
  ansCount : UInt64
  requestTime : UInt64
  resolveTime : UInt64
  resolveStatus : UInt8
  result : Bytes
deriving DecidableEq, Repr

namespace Packets

def marshalRequestPacket (self : RequestPacket) : Bytes :=
  Bytes.be 4 self.clientId.length ++ self.clientId ++ Bytes.be 8 self.oracleScriptId.toNat ++
    Bytes.be 4 self.params.length ++ self.params ++ Bytes.be 8 self.askCount.toNat ++
    Bytes.be 8 self.minCount.toNat

def marshalResponsePacket (self : ResponsePacket) : Bytes :=
  Bytes.be 4 self.clientId.length ++ self.clientId ++ Bytes.be 8 self.requestId.toNat ++
    Bytes.be 8 self.ansCount.toNat ++ Bytes.be 8 self.requestTime.toNat ++
    Bytes.be 8 self.resolveTime.toNat ++ Bytes.be 4 self.resolveStatus.toNat ++
    Bytes.be 4 self.result.length ++ self.result

def getResultHash (req : RequestPacket) (res : ResponsePacket) : Bytes32 :=
  sha256Digest ((sha256Digest (marshalRequestPacket req)).1 ++
    (sha256Digest (marshalResponsePacket res)).1)

end Packets

/-! ## The bridge -/

/-- The hash with which the climb to the root starts. -/
def leafHash (dataHash : Bytes32) (requestId : UInt64) (encodedVarint : Bytes) : Bytes32 :=
  sha256Digest ([0] ++ [2] ++ encodedVarint ++ [9] ++ [255] ++ Bytes.be 8 requestId.toNat ++
    [32] ++ dataHash.1)

def verifyOracleData (oracleStates : UInt256 → Bytes32) (blockHeight : UInt256)
    (requestPacket : RequestPacket) (responsePacket : ResponsePacket) (version : UInt256)
    (merklePaths : List IAVLMerklePath.Data) : Except Revert (RequestPacket × ResponsePacket) := do
  let oracleStateRoot := oracleStates blockHeight
  require (oracleStateRoot.1 ≠ List.replicate 32 0) "NO_ORACLE_ROOT_STATE_DATA"
  let encodedVarint ← Utils.encodeVarintSigned version
  let dataHash := sha256Digest (Packets.getResultHash requestPacket responsePacket).1
  let leaf := leafHash dataHash responsePacket.requestId encodedVarint
  let currentMerkleHash ← merklePaths.foldlM (fun hash path => path.getParentHash hash) leaf
  require (currentMerkleHash = oracleStateRoot) "INVALID_ORACLE_DATA_PROOF"
  return (requestPacket, responsePacket)

/-- The arguments of a call of `verifyOracleData`. -/
structure VerifyArgs where
  blockHeight : UInt256
  requestPacket : RequestPacket
  responsePacket : ResponsePacket
  version : UInt256
  merklePaths : List IAVLMerklePath.Data

def VerifyArgs.verify (a : VerifyArgs) (oracleStates : UInt256 → Bytes32) :
    Except Revert (RequestPacket × ResponsePacket) :=
  verifyOracleData oracleStates a.blockHeight a.requestPacket a.responsePacket a.version
    a.merklePaths

end Bandchain.Bridge
