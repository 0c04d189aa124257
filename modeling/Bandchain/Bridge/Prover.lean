import Bandchain.Bridge.Relay
import Bandchain.Lib.Leb128
import Bandchain.Lib.Merkle
import Bandchain.Oracle.Packets

/-!
# The prover

The Go side of the bridge, `client/proof`: it takes apart what a node returns, the header of a
block, the proof of the multistore and the proof of a value in an IAVL tree, and packs it for
the contract.
-/

namespace Bandchain.Bridge

/-- `common.BytesToHash`: the last 32 bytes, with zeros in front if there are fewer. -/
def bytesToHash (b : Bytes) : Bytes32 :=
  ⟨List.replicate (32 - b.length) 0 ++ b.drop (b.length - 32), by
    rw [List.length_append, List.length_replicate, List.length_drop]
    omega⟩

/-- `merkle.SimpleHashFromByteSlices` of Tendermint. -/
def simpleHashFromByteSlices (items : List Bytes) : Bytes := Merkle.root sha256Digest items

/-! ## Block headers -/

structure BlockID where
  hash : Bytes
  partsTotal : ℤ
  partsHash : Bytes

/-- A block header of Tendermint; the version has a number for the block format and one for the
application, a time has seconds and nanoseconds. -/
structure Header where
  version : UInt64 × UInt64
  chainID : Bytes
  height : Int64
  time : ℤ × ℕ
  lastBlockID : BlockID
  lastCommitHash : Bytes
  dataHash : Bytes
  validatorsHash : Bytes
  nextValidatorsHash : Bytes
  consensusHash : Bytes
  appHash : Bytes
  lastResultsHash : Bytes
  evidenceHash : Bytes
  proposerAddress : Bytes

/-- A field of a header, as it is given to the codec. -/
inductive Item
  | version (v : UInt64 × UInt64)
  | string (s : Bytes)
  | int64 (n : Int64)
  | time (t : ℤ × ℕ)
  | blockID (id : BlockID)
  | bytes (b : Bytes)

/-- The field is a string or a slice of length zero. -/
def Item.isEmpty : Item → Bool
  | string s => s.isEmpty
  | bytes b => b.isEmpty
  | _ => false

/-- The amino codec.  It writes a positive number as an unsigned varint, and a byte string behind
its length. -/
structure Codec where
  mustMarshalBinaryBare : Item → Bytes
  marshal_int64 : ∀ n : Int64, 0 < n.toInt →
    mustMarshalBinaryBare (.int64 n) = Leb128.encode n.toInt.toNat
  marshal_bytes : ∀ b : Bytes, b ≠ [] →
    mustMarshalBinaryBare (.bytes b) = Leb128.encode b.length ++ b

def cdcEncode (cdc : Codec) (item : Item) : Bytes :=
  if item.isEmpty then [] else cdc.mustMarshalBinaryBare item

/-- The hash of a header: the Merkle root of its fields. -/
def Header.hash (cdc : Codec) (h : Header) : Bytes :=
  simpleHashFromByteSlices
    [cdcEncode cdc (.version h.version), cdcEncode cdc (.string h.chainID),
     cdcEncode cdc (.int64 h.height), cdcEncode cdc (.time h.time),
     cdcEncode cdc (.blockID h.lastBlockID), cdcEncode cdc (.bytes h.lastCommitHash),
     cdcEncode cdc (.bytes h.dataHash), cdcEncode cdc (.bytes h.validatorsHash),
     cdcEncode cdc (.bytes h.nextValidatorsHash), cdcEncode cdc (.bytes h.consensusHash),
     cdcEncode cdc (.bytes h.appHash), cdcEncode cdc (.bytes h.lastResultsHash),
     cdcEncode cdc (.bytes h.evidenceHash), cdcEncode cdc (.bytes h.proposerAddress)]

namespace Proof

structure BlockHeaderMerkleParts where
  versionAndChainIdHash : Bytes
  timeHash : Bytes
  lastBlockIDAndOther : Bytes
  nextValidatorHashAndConsensusHash : Bytes
  lastResultsHash : Bytes
  evidenceAndProposerHash : Bytes

def BlockHeaderMerkleParts.encodeToEthFormat (bp : BlockHeaderMerkleParts) :
    Bridge.BlockHeaderMerkleParts.Data where
  versionAndChainIdHash := bytesToHash bp.versionAndChainIdHash
  timeHash := bytesToHash bp.timeHash
  lastBlockIDAndOther := bytesToHash bp.lastBlockIDAndOther
  nextValidatorHashAndConsensusHash := bytesToHash bp.nextValidatorHashAndConsensusHash
  lastResultsHash := bytesToHash bp.lastResultsHash
  evidenceAndProposerHash := bytesToHash bp.evidenceAndProposerHash

def getBlockHeaderMerkleParts (cdc : Codec) (block : Header) : BlockHeaderMerkleParts where
  versionAndChainIdHash := simpleHashFromByteSlices
    [cdcEncode cdc (.version block.version), cdcEncode cdc (.string block.chainID)]
  timeHash := simpleHashFromByteSlices [cdcEncode cdc (.time block.time)]
  lastBlockIDAndOther := simpleHashFromByteSlices
    [cdcEncode cdc (.blockID block.lastBlockID), cdcEncode cdc (.bytes block.lastCommitHash),
     cdcEncode cdc (.bytes block.dataHash), cdcEncode cdc (.bytes block.validatorsHash)]
  nextValidatorHashAndConsensusHash := simpleHashFromByteSlices
    [cdcEncode cdc (.bytes block.nextValidatorsHash), cdcEncode cdc (.bytes block.consensusHash)]
  lastResultsHash := simpleHashFromByteSlices [cdcEncode cdc (.bytes block.lastResultsHash)]
  evidenceAndProposerHash := simpleHashFromByteSlices
    [cdcEncode cdc (.bytes block.evidenceHash), cdcEncode cdc (.bytes block.proposerAddress)]

/-! ## Multistores -/

/-- A store of a commit, with its name and its root hash. -/
structure StoreInfo where
  name : Bytes
  hash : Bytes
deriving DecidableEq

/-- The names of the stores of the application. -/
def storeNames : List Bytes :=
  ["acc", "bank", "capability", "distribution", "evidence", "gov", "ibc", "mem_capability", "mint",
   "oracle", "params", "slashing", "staking", "upgrade"].map Bytes.ascii

/-- The leaf of a store in the Merkle tree of a commit. -/
def StoreInfo.leaf (info : StoreInfo) : Bytes :=
  Leb128.encode info.name.length ++ info.name ++ Leb128.encode 32 ++ sha256 (sha256 info.hash)

/-- The app hash of a commit: the Merkle root of its stores, sorted by name. -/
def appHash (infos : List StoreInfo) : Bytes :=
  simpleHashFromByteSlices ((infos.mergeSort fun a b => a.name ≤ b.name).map StoreInfo.leaf)

def encodeStoreMerkleHash (key value : Bytes) : Bytes :=
  [UInt8.ofNat key.length] ++ key ++ ([32] ++ sha256 (sha256 value))

structure MultiStoreProof where
  accToMemCapStoresMerkleHash : Bytes
  mintStoresMerkleHash : Bytes
  oracleIAVLStateHash : Bytes
  paramsAndSlashingStoresMerkleHash : Bytes
  stakingAndUpgradeStoresMerkleHash : Bytes

def MultiStoreProof.encodeToEthFormat (m : MultiStoreProof) : MultiStore.Data where
  accToMemCapStoresMerkleHash := bytesToHash m.accToMemCapStoresMerkleHash
  mintStoresMerkleHash := bytesToHash m.mintStoresMerkleHash
  oracleIAVLStateHash := bytesToHash m.oracleIAVLStateHash
  paramsAndSlashingStoresMerkleHash := bytesToHash m.paramsAndSlashingStoresMerkleHash
  stakingAndUpgradeStoresMerkleHash := bytesToHash m.stakingAndUpgradeStoresMerkleHash

/-- The hash under each name; a name that is missing has the empty hash. -/
def storeHashes (infos : List StoreInfo) : Bytes → Bytes :=
  infos.foldl (fun m info => Function.update m info.name info.hash) fun _ => []

def getMultiStoreProof (infos : List StoreInfo) : MultiStoreProof :=
  let m (name : String) := storeHashes infos (Bytes.ascii name)
  let leaf (name : String) := encodeStoreMerkleHash (Bytes.ascii name) (m name)
  { accToMemCapStoresMerkleHash := simpleHashFromByteSlices
      [leaf "acc", leaf "bank", leaf "capability", leaf "distribution", leaf "evidence",
       leaf "gov", leaf "ibc", leaf "mem_capability"]
    mintStoresMerkleHash := simpleHashFromByteSlices [leaf "mint"]
    oracleIAVLStateHash := m "oracle"
    paramsAndSlashingStoresMerkleHash := simpleHashFromByteSlices
      [leaf "params", leaf "slashing"]
    stakingAndUpgradeStoresMerkleHash := simpleHashFromByteSlices
      [leaf "staking", leaf "upgrade"] }

/-! ## IAVL proofs -/

/-- An inner node on the way from the root to a leaf; the side where the leaf is, is empty. -/
structure ProofInnerNode where
  height : Int8
  size : Int64
  version : Int64
  left : Bytes
  right : Bytes

structure IAVLMerklePath where
  isDataOnRight : Bool
  subtreeHeight : UInt8
  subtreeSize : UInt64
  subtreeVersion : UInt64
  siblingHash : Bytes

def IAVLMerklePath.encodeToEthFormat (merklePath : IAVLMerklePath) :
    Bridge.IAVLMerklePath.Data where
  isDataOnRight := merklePath.isDataOnRight
  subtreeHeight := merklePath.subtreeHeight
  subtreeSize := BitVec.ofInt 256 merklePath.subtreeSize.toInt64.toInt
  subtreeVersion := BitVec.ofInt 256 merklePath.subtreeVersion.toInt64.toInt
  siblingHash := bytesToHash merklePath.siblingHash

/-- One round of the loop of `GetIAVLMerklePaths`. -/
def ProofInnerNode.merklePath (path : ProofInnerNode) : IAVLMerklePath where
  isDataOnRight := path.right.length = 0
  subtreeHeight := path.height.toUInt8
  subtreeSize := path.size.toUInt64
  subtreeVersion := path.version.toUInt64
  siblingHash := if path.right.length = 0 then path.left else path.right

/-- The loop goes from the last node to the first. -/
def getIAVLMerklePaths (leftPath : List ProofInnerNode) : List IAVLMerklePath :=
  leftPath.reverse.map ProofInnerNode.merklePath

/-! ## Packets -/

def transformRequestPacket (p : Oracle.OracleRequestPacketData) : RequestPacket where
  clientId := p.clientID
  oracleScriptId := (Int64.ofInt p.oracleScriptID).toUInt64
  params := p.calldata
  askCount := p.askCount
  minCount := p.minCount

def transformResponsePacket (p : Oracle.OracleResponsePacketData) : ResponsePacket where
  clientId := p.clientID
  requestId := (Int64.ofInt p.requestID).toUInt64
  ansCount := p.ansCount
  requestTime := (Int64.ofInt p.requestTime).toUInt64
  resolveTime := (Int64.ofInt p.resolveTime).toUInt64
  resolveStatus := UInt8.ofNat p.resolveStatus.toNat
  result := p.result

end Proof

end Bandchain.Bridge
