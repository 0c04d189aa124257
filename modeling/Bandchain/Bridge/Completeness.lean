import Bandchain.Bridge.Prover
import Bandchain.Bridge.Soundness

/-!
# Honest proofs are accepted

The packets that the prover sends have the hash that the chain stores, and the path that it makes
from the existence proof of a result leads the contract from the leaf to the root of the tree.
-/

namespace Bandchain.Bridge

open Exec Iavl Proof

/-! ## Packets -/

/-- A length is written in 32 bits on both sides. -/
lemma encodeBytes_eq (v : Bytes) : Obi.encodeBytes v = Bytes.be 4 v.length ++ v := by
  have hmod : Bytes.be 4 (UInt32.ofNat v.length).toNat = Bytes.be 4 v.length := by
    rw [UInt32.toNat_ofNat']
    exact Bytes.be_mod 4 v.length
  rw [Obi.encodeBytes, Obi.encodeUnsigned32, hmod]

lemma encodeString_eq (v : Bytes) : Obi.encodeString v = Bytes.be 4 v.length ++ v :=
  encodeBytes_eq v

lemma marshalRequestPacket_transform (p : Oracle.OracleRequestPacketData) :
    Packets.marshalRequestPacket (transformRequestPacket p) = Oracle.mustEncode p.toObi := by
  have hencode : Oracle.mustEncode p.toObi =
      Obi.encodeString p.clientID ++ (Obi.encodeSigned64 (Int64.ofInt p.oracleScriptID) ++
        (Obi.encodeBytes p.calldata ++ (Obi.encodeUnsigned64 p.askCount ++
          (Obi.encodeUnsigned64 p.minCount ++ [])))) := rfl
  rw [hencode, encodeString_eq, encodeBytes_eq, List.append_nil]
  simp only [Packets.marshalRequestPacket, transformRequestPacket, Obi.encodeSigned64,
    Obi.encodeUnsigned64, List.append_assoc]

/-- A status is an 8-bit number for the contract and a signed 32-bit one for the chain. -/
lemma be_resolveStatus (status : Oracle.ResolveStatus) :
    Bytes.be 4 (UInt8.ofNat status.toNat).toNat =
      Obi.encodeSigned32 (Int32.ofInt status.toNat) := by
  cases status <;> rfl

lemma marshalResponsePacket_transform (p : Oracle.OracleResponsePacketData) :
    Packets.marshalResponsePacket (transformResponsePacket p) = Oracle.mustEncode p.toObi := by
  have hencode : Oracle.mustEncode p.toObi =
      Obi.encodeString p.clientID ++ (Obi.encodeSigned64 (Int64.ofInt p.requestID) ++
        (Obi.encodeUnsigned64 p.ansCount ++ (Obi.encodeSigned64 (Int64.ofInt p.requestTime) ++
          (Obi.encodeSigned64 (Int64.ofInt p.resolveTime) ++
            (Obi.encodeSigned32 (Int32.ofInt p.resolveStatus.toNat) ++
              (Obi.encodeBytes p.result ++ [])))))) := rfl
  rw [hencode, encodeString_eq, encodeBytes_eq, List.append_nil, ← be_resolveStatus]
  simp only [Packets.marshalResponsePacket, transformResponsePacket, Obi.encodeSigned64,
    Obi.encodeUnsigned64, List.append_assoc]

/-- The fields of the packet fit their types, and its byte fields their lengths. -/
structure FitsRequest (p : Oracle.OracleRequestPacketData) : Prop where
  clientID : p.clientID.length < 2 ^ 32
  calldata : p.calldata.length < 2 ^ 32
  oracleScriptID : -2 ^ 63 ≤ p.oracleScriptID ∧ p.oracleScriptID < 2 ^ 63

/-- The fields of the packet fit their types, and its byte fields their lengths. -/
structure FitsResponse (p : Oracle.OracleResponsePacketData) : Prop where
  clientID : p.clientID.length < 2 ^ 32
  result : p.result.length < 2 ^ 32
  requestID : -2 ^ 63 ≤ p.requestID ∧ p.requestID < 2 ^ 63
  requestTime : -2 ^ 63 ≤ p.requestTime ∧ p.requestTime < 2 ^ 63
  resolveTime : -2 ^ 63 ≤ p.resolveTime ∧ p.resolveTime < 2 ^ 63

lemma int64_inj {a b : ℤ} (ha : -2 ^ 63 ≤ a ∧ a < 2 ^ 63) (hb : -2 ^ 63 ≤ b ∧ b < 2 ^ 63)
    (h : (Int64.ofInt a).toUInt64 = (Int64.ofInt b).toUInt64) : a = b := by
  have h' : Int64.ofInt a = Int64.ofInt b := by
    simpa using congrArg UInt64.toInt64 h
  have := congrArg Int64.toInt h'
  rwa [Int64.toInt_ofInt_of_le ha.1 ha.2, Int64.toInt_ofInt_of_le hb.1 hb.2] at this

lemma transformRequestPacket_inj {p q : Oracle.OracleRequestPacketData} (hp : FitsRequest p)
    (hq : FitsRequest q) (h : transformRequestPacket p = transformRequestPacket q) : p = q := by
  simp only [transformRequestPacket, RequestPacket.mk.injEq] at h
  obtain ⟨hclient, hscript, hparams, hask, hmin⟩ := h
  have hscript' := int64_inj hp.oracleScriptID hq.oracleScriptID hscript
  cases p
  cases q
  simp_all

lemma transformResponsePacket_inj {p q : Oracle.OracleResponsePacketData} (hp : FitsResponse p)
    (hq : FitsResponse q) (h : transformResponsePacket p = transformResponsePacket q) :
    p = q := by
  simp only [transformResponsePacket, ResponsePacket.mk.injEq] at h
  obtain ⟨hclient, hid, hans, hreq, hres, hstatus, hresult⟩ := h
  have hid' := int64_inj hp.requestID hq.requestID hid
  have hreq' := int64_inj hp.requestTime hq.requestTime hreq
  have hres' := int64_inj hp.resolveTime hq.resolveTime hres
  have hstatus' : p.resolveStatus = q.resolveStatus := by
    revert hstatus
    cases p.resolveStatus <;> cases q.resolveStatus <;> decide
  cases p
  cases q
  simp_all

/-- The strings that are hashed for a result. -/
def resultHashed (req : Oracle.OracleRequestPacketData) (res : Oracle.OracleResponsePacketData) :
    List Bytes :=
  [Oracle.mustEncode req.toObi, Oracle.mustEncode res.toObi,
   sha256 (Oracle.mustEncode req.toObi) ++ sha256 (Oracle.mustEncode res.toObi)]

/-- The result hash determines the encodings of the packets. -/
lemma mustEncode_inj {req req' : Oracle.OracleRequestPacketData}
    {res res' : Oracle.OracleResponsePacketData}
    (hinj : Set.InjOn sha256Digest
      { m | m ∈ resultHashed req res ∨ m ∈ resultHashed req' res' })
    (h : Oracle.calculateResultHash req res = Oracle.calculateResultHash req' res') :
    Oracle.mustEncode req.toObi = Oracle.mustEncode req'.toObi ∧
      Oracle.mustEncode res.toObi = Oracle.mustEncode res'.toObi := by
  have hpair := hinj (.inl (by simp [resultHashed])) (.inr (by simp [resultHashed]))
    (Subtype.ext h : sha256Digest (sha256 _ ++ sha256 _) = sha256Digest (sha256 _ ++ sha256 _))
  obtain ⟨hreq, hres⟩ := List.append_inj hpair (by rw [length_sha256, length_sha256])
  exact ⟨hinj (.inl (by simp [resultHashed])) (.inr (by simp [resultHashed])) (Subtype.ext hreq),
    hinj (.inl (by simp [resultHashed])) (.inr (by simp [resultHashed])) (Subtype.ext hres)⟩

/-- **Both sides hash packets alike.**  The contract marshals the transformed packets to the bytes
that the chain hashes, so the result hashes are the same.  Packets that fit their types are
determined by their result hash, if no two of the strings hashed for them collide. -/
theorem getResultHash_eq_calculateResultHash (req : Oracle.OracleRequestPacketData)
    (res : Oracle.OracleResponsePacketData) :
    Packets.marshalRequestPacket (transformRequestPacket req) = Oracle.mustEncode req.toObi ∧
    Packets.marshalResponsePacket (transformResponsePacket res) = Oracle.mustEncode res.toObi ∧
    (Packets.getResultHash (transformRequestPacket req) (transformResponsePacket res)).1 =
      Oracle.calculateResultHash req res ∧
    ∀ (req' : Oracle.OracleRequestPacketData) (res' : Oracle.OracleResponsePacketData),
      FitsRequest req → FitsResponse res → FitsRequest req' → FitsResponse res' →
      Set.InjOn sha256Digest { m | m ∈ resultHashed req res ∨ m ∈ resultHashed req' res' } →
      Oracle.calculateResultHash req res = Oracle.calculateResultHash req' res' →
        req = req' ∧ res = res' := by
  have hreq := marshalRequestPacket_transform req
  have hres := marshalResponsePacket_transform res
  refine ⟨hreq, hres, ?_, fun req' res' hfit hfit₂ hfit' hfit₂' hinj h => ?_⟩
  · rw [Packets.getResultHash, hreq, hres]
    rfl
  · obtain ⟨hreq', hres'⟩ := mustEncode_inj hinj h
    rw [← marshalRequestPacket_transform, ← marshalRequestPacket_transform] at hreq'
    rw [← marshalResponsePacket_transform, ← marshalResponsePacket_transform] at hres'
    exact ⟨transformRequestPacket_inj hfit hfit' (marshalRequestPacket_inj
        ⟨hfit.clientID, hfit.calldata⟩ ⟨hfit'.clientID, hfit'.calldata⟩ hreq'),
      transformResponsePacket_inj hfit₂ hfit₂' (marshalResponsePacket_inj
        ⟨hfit₂.clientID, hfit₂.result⟩ ⟨hfit₂'.clientID, hfit₂'.result⟩ hres')⟩

/-! ## Paths -/

/-- The heights are below 128, the sizes and versions positive and below `2 ^ 63`. -/
def Bounded : Tree → Prop
  | .leaf version _ _ => 1 ≤ version ∧ version < 2 ^ 63
  | .inner height size version left right =>
      height < 128 ∧ (1 ≤ size ∧ size < 2 ^ 63) ∧ (1 ≤ version ∧ version < 2 ^ 63) ∧
        Bounded left ∧ Bounded right

/-- The path of an existence proof: the inner nodes from the root to a leaf, each with the hash of
the child on the other side. -/
inductive PathToLeaf : Tree → List ProofInnerNode → ℕ → Bytes → Bytes → Prop
  | leaf (version : ℕ) (key value : Bytes) :
      PathToLeaf (.leaf version key value) [] version key value
  | left {height size version v : ℕ} {left right : Tree} {path : List ProofInnerNode}
      {key value : Bytes} : PathToLeaf left path v key value →
      PathToLeaf (.inner height size version left right)
        (⟨Int8.ofNat height, Int64.ofNat size, Int64.ofNat version, [],
          (right.hash sha256Digest).1⟩ :: path) v key value
  | right {height size version v : ℕ} {left right : Tree} {path : List ProofInnerNode}
      {key value : Bytes} : PathToLeaf right path v key value →
      PathToLeaf (.inner height size version left right)
        (⟨Int8.ofNat height, Int64.ofNat size, Int64.ofNat version,
          (left.hash sha256Digest).1, []⟩ :: path) v key value

/-- Every entry of a tree has an existence proof. -/
lemma exists_pathToLeaf {t : Tree} {key value : Bytes} (h : (key, value) ∈ t.entries) :
    ∃ path version, PathToLeaf t path version key value := by
  induction t with
  | leaf version k v =>
    obtain ⟨rfl, rfl⟩ := Prod.mk.inj (List.mem_singleton.mp h)
    exact ⟨[], version, .leaf version key value⟩
  | inner height size version left right ihl ihr =>
    rcases List.mem_append.mp h with h | h
    · obtain ⟨path, v, hpath⟩ := ihl h
      exact ⟨_, v, .left hpath⟩
    · obtain ⟨path, v, hpath⟩ := ihr h
      exact ⟨_, v, .right hpath⟩

lemma Bounded.version {t : Tree} {path : List ProofInnerNode} {version : ℕ} {key value : Bytes}
    (ht : Bounded t) (h : PathToLeaf t path version key value) :
    1 ≤ version ∧ version < 2 ^ 63 := by
  induction h with
  | leaf version key value => exact ht
  | left _ ih => exact ih ht.2.2.2.1
  | right _ ih => exact ih ht.2.2.2.2

/-- A digest goes through the packing unchanged. -/
@[simp] lemma bytesToHash_digest (d : Bytes32) : bytesToHash d.1 = d := by
  apply Subtype.ext
  simp [bytesToHash, d.2]

/-- A positive number is written doubled. -/
lemma encodeVarintSigned_ofNat {n : ℕ} (hpos : 1 ≤ n) (hlt : n < 2 ^ 63) :
    Utils.encodeVarintSigned (BitVec.ofNat 256 n) = .ok (Leb128.encode (2 * n)) := by
  have hdouble : (BitVec.ofNat 256 n * 2).toNat = 2 * n := by
    have hn : (BitVec.ofNat 256 n).toNat = n := by
      rw [BitVec.toNat_ofNat, Nat.mod_eq_of_lt (by omega)]
    rw [BitVec.toNat_mul, hn]
    show n * 2 % 2 ^ 256 = _
    omega
  have hne : BitVec.ofNat 256 n * 2 ≠ 0 := by
    intro hzero
    rw [hzero] at hdouble
    change 0 = _ at hdouble
    omega
  rw [Utils.encodeVarintSigned, Utils.encodeVarintUnsigned_eq, if_neg hne, hdouble]

/-- A size or a version goes through the packing unchanged. -/
lemma ofInt_toInt64_ofNat {n : ℕ} (hlt : n < 2 ^ 63) :
    BitVec.ofInt 256 (Int64.ofNat n).toUInt64.toInt64.toInt = BitVec.ofNat 256 n := by
  rw [Int64.toInt64_toUInt64, Int64.toInt_ofNat_of_lt hlt, BitVec.ofInt_natCast]

lemma ofNat_shiftLeft_one {height : ℕ} (hlt : height < 128) :
    (Int8.ofNat height).toUInt8 <<< 1 = UInt8.ofNat (2 * height) := by
  interval_cases height <;> rfl

/-- One step from a child to its parent; `onRight` tells which child it is. -/
lemma getParentHash_inner {height size version : ℕ} {left right : Tree} (onRight : Bool)
    (ht : Bounded (.inner height size version left right)) :
    (IAVLMerklePath.encodeToEthFormat
        { isDataOnRight := onRight
          subtreeHeight := (Int8.ofNat height).toUInt8
          subtreeSize := (Int64.ofNat size).toUInt64
          subtreeVersion := (Int64.ofNat version).toUInt64
          siblingHash := if onRight then (left.hash sha256Digest).1
            else (right.hash sha256Digest).1 }).getParentHash
      (if onRight then right.hash sha256Digest else left.hash sha256Digest) =
        .ok ((Tree.inner height size version left right).hash sha256Digest) := by
  obtain ⟨hheight, hsize, hversion, _⟩ := ht
  simp only [IAVLMerklePath.encodeToEthFormat, Bridge.IAVLMerklePath.Data.getParentHash,
    ofInt_toInt64_ofNat hsize.2, ofInt_toInt64_ofNat hversion.2,
    encodeVarintSigned_ofNat hsize.1 hsize.2, encodeVarintSigned_ofNat hversion.1 hversion.2,
    ofNat_shiftLeft_one hheight]
  cases onRight <;>
    simp [bind, Except.bind, pure, Except.pure, Tree.hash, Tree.bytes, innerBytes]

/-- The path of an existence proof leads from the hash of the leaf to the hash of the tree. -/
lemma foldlM_getIAVLMerklePaths {t : Tree} {path : List ProofInnerNode} {version : ℕ}
    {key value : Bytes} (ht : Bounded t) (h : PathToLeaf t path version key value) :
    ((getIAVLMerklePaths path).map IAVLMerklePath.encodeToEthFormat).foldlM
        (fun hash path => path.getParentHash hash)
        ((Tree.leaf version key value).hash sha256Digest) =
      .ok (t.hash sha256Digest) := by
  induction h with
  | leaf version key value => rfl
  | @left height size version v left right path key value hpath ih =>
    -- the loop of the prover reverses the path, so the root comes last
    simp only [getIAVLMerklePaths, List.reverse_cons, List.map_append, List.foldlM_append]
    simp only [getIAVLMerklePaths] at ih
    rw [ih ht.2.2.2.1]
    have hright : (right.hash sha256Digest).1.length ≠ 0 := by
      rw [(right.hash sha256Digest).2]
      decide
    have hstep := getParentHash_inner false ht
    simp only [Bool.false_eq_true, if_false] at hstep
    simp only [List.map_cons, List.map_nil, List.foldlM_cons, List.foldlM_nil,
      ProofInnerNode.merklePath, hright, decide_false, if_false]
    show (Bridge.IAVLMerklePath.Data.getParentHash _ _ >>= _) = _
    rw [hstep]
    rfl
  | @right height size version v left right path key value hpath ih =>
    simp only [getIAVLMerklePaths, List.reverse_cons, List.map_append, List.foldlM_append]
    simp only [getIAVLMerklePaths] at ih
    rw [ih ht.2.2.2.2]
    have hstep := getParentHash_inner true ht
    simp only [if_true] at hstep
    simp only [List.map_cons, List.map_nil, List.foldlM_cons, List.foldlM_nil,
      ProofInnerNode.merklePath, List.length_nil, decide_true, if_true]
    show (Bridge.IAVLMerklePath.Data.getParentHash _ _ >>= _) = _
    rw [hstep]
    rfl

/-- The leaf of the contract is the leaf of the tree. -/
lemma leafHash_eq_hash (req : RequestPacket) (res : ResponsePacket) (version : ℕ) :
    leafHash (sha256Digest (Packets.getResultHash req res).1) res.requestId
        (Leb128.encode (2 * version)) =
      (Tree.leaf version (0xff :: Bytes.be 8 res.requestId.toNat)
        (Packets.getResultHash req res).1).hash sha256Digest := by
  have hlen : Leb128.encode (0xff :: Bytes.be 8 res.requestId.toNat : Bytes).length = [9] := by
    rw [List.length_cons, Bytes.length_be, Leb128.encode_of_lt (by decide)]
    rfl
  rw [leafHash, Tree.hash, Tree.bytes, leafBytes, hlen]
  simp

/-- **Honest proofs are accepted.**  Let a tree hold the hash of two packets under the key of the
result of their request.  There is an existence proof for it, and for every existence proof the
path that the prover makes leads from the leaf to the root of the tree; so the contract accepts
the packets against that root (a root of zeros, which stands for a state that was not relayed,
apart). -/
theorem verifyOracleData_complete {t : Tree} {req : RequestPacket} {res : ResponsePacket}
    (ht : Bounded t) (hmem : (0xff :: Bytes.be 8 res.requestId.toNat,
      (Packets.getResultHash req res).1) ∈ t.entries) :
    (∃ path version, PathToLeaf t path version (0xff :: Bytes.be 8 res.requestId.toNat)
      (Packets.getResultHash req res).1) ∧
    ∀ (path : List ProofInnerNode) (version : ℕ),
      PathToLeaf t path version (0xff :: Bytes.be 8 res.requestId.toNat)
        (Packets.getResultHash req res).1 →
      ((getIAVLMerklePaths path).map IAVLMerklePath.encodeToEthFormat).foldlM
          (fun hash path => path.getParentHash hash)
          (leafHash (sha256Digest (Packets.getResultHash req res).1) res.requestId
            (Leb128.encode (2 * version))) =
        .ok (t.hash sha256Digest) ∧
      ∀ (oracleStates : UInt256 → Bytes32) (blockHeight : UInt256),
        oracleStates blockHeight = t.hash sha256Digest →
        (t.hash sha256Digest).1 ≠ List.replicate 32 0 →
        verifyOracleData oracleStates blockHeight req res (BitVec.ofNat 256 version)
            ((getIAVLMerklePaths path).map IAVLMerklePath.encodeToEthFormat) =
          .ok (req, res) := by
  refine ⟨exists_pathToLeaf hmem, fun path version hpath => ?_⟩
  have hversion := ht.version hpath
  have hfold := foldlM_getIAVLMerklePaths ht hpath
  rw [← leafHash_eq_hash] at hfold
  refine ⟨hfold, fun oracleStates blockHeight hroot hne => ?_⟩
  simp only [verifyOracleData, except_bind_eq_ok, require_eq_ok, hroot]
  exact ⟨(), hne, _, encodeVarintSigned_ofNat hversion.1 hversion.2, _, hfold, (), rfl, rfl⟩

/-- A proof of the result of request 1 in a tree with two leaves. -/
theorem verifyOracleData_complete_sample :
    ∃ path version,
      PathToLeaf Sample.tree path version (0xff :: Bytes.be 8 1)
        (Packets.getResultHash Sample.requestPacket Sample.responsePacket).1 ∧
      ((getIAVLMerklePaths path).map IAVLMerklePath.encodeToEthFormat).foldlM
          (fun hash path => path.getParentHash hash)
          (leafHash (sha256Digest (Packets.getResultHash Sample.requestPacket
            Sample.responsePacket).1) 1 (Leb128.encode (2 * version))) =
        .ok (Sample.tree.hash sha256Digest) := by
  have ht : Bounded Sample.tree := by
    refine ⟨by decide, by decide, by decide, ?_, ?_⟩ <;> exact ⟨by decide, by decide⟩
  have hmem : (0xff :: Bytes.be 8 Sample.responsePacket.requestId.toNat,
      (Packets.getResultHash Sample.requestPacket Sample.responsePacket).1) ∈
        Sample.tree.entries :=
    List.mem_append_right _ (List.mem_singleton.mpr rfl)
  obtain ⟨⟨path, version, hpath⟩, hall⟩ := verifyOracleData_complete ht hmem
  exact ⟨path, version, hpath, (hall path version hpath).1⟩

end Bandchain.Bridge
