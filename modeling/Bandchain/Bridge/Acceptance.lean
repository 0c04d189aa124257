import Bandchain.Bridge.Provenance
import Bandchain.Bridge.Signatures

/-!
# What the oracle module produces is accepted

The prover makes a call from the header of a block, the commit of the stores, the votes of the
validators and the existence proof of a result.  If the voters have more than two thirds of the
power, the bridge accepts it.
-/

namespace Bandchain.Bridge

open Exec Iavl Proof
open Oracle (World)

variable {k : Oracle.Keeper} {w : World} {platform : Platform} {st : Storage} {crypto : Crypto}
  {info : SignedHeader}

/-- On increasing signers the loop of the bridge counts all powers, if their sum fits. -/
lemma exists_foldlM_countSignature {blockHeader : Bytes32} {signedDataPrefix : Bytes}
    {signatures : List TMSignature.Data} {acc : Address × UInt256}
    (hsorted : (acc.1 ::
      signatures.map (·.recoverSigner platform blockHeader signedDataPrefix)).Pairwise (· < ·))
    (hsum : acc.2.toNat + ((signatures.map
      (·.recoverSigner platform blockHeader signedDataPrefix)).map st.power).sum < 2 ^ 256) :
    ∃ acc', signatures.foldlM (countSignature platform st blockHeader signedDataPrefix) acc =
      .ok acc' := by
  induction signatures generalizing acc with
  | nil => exact ⟨acc, rfl⟩
  | cons signature signatures ih =>
    rw [List.map_cons] at hsorted hsum
    rw [List.map_cons, List.sum_cons] at hsum
    obtain ⟨hlt, hsorted⟩ := List.pairwise_cons.mp hsorted
    set signer := signature.recoverSigner platform blockHeader signedDataPrefix with hsigner
    set sum := BitVec.ofNat 256 (acc.2.toNat + st.power signer) with hsumdef
    have hnat : sum.toNat = acc.2.toNat + st.power signer := by
      rw [hsumdef, BitVec.toNat_ofNat, Nat.mod_eq_of_lt (by omega)]
    have hstep : countSignature platform st blockHeader signedDataPrefix acc signature =
        .ok (signer, sum) := by
      simp only [countSignature, except_bind_eq_ok, require_eq_ok]
      exact ⟨(), hlt _ List.mem_cons_self, sum, platform.add_eq_ok.mpr hnat.symm, rfl⟩
    obtain ⟨acc', hrest⟩ := @ih (signer, sum) hsorted (by
      show sum.toNat + _ < _
      omega)
    refine ⟨acc', ?_⟩
    rw [List.foldlM_cons, hstep]
    exact hrest

/-- The power that the bridge gives to the signer of a vote, by the address under which Tendermint
knows him. -/
def KnowsPowers (crypto : Crypto) (st : Storage) (power : Bytes → ℕ) : Prop :=
  ∀ pub : crypto.PubKey, st.power (addressOf (crypto.pubkeyToAddress pub)) =
    power (crypto.tmAddress (crypto.compressPubkey pub))

/-- The signatures that the prover makes of votes with more than two thirds of the power are
accepted with the proofs that it makes of the block. -/
lemma exists_relay_of_votes {cdc : Codec} {b : Block} {power : Bytes → ℕ}
    {signatures : List TMSignature} {signedPrefix : Bytes} (hbalanced : st.Balanced)
    (hagrees : Agrees crypto platform) (hheader : info.blockHash = (b.hash cdc).1)
    (hdistinct : (info.votes.map (·.1.validatorAddress)).Nodup)
    (hstart : ∀ vote ∈ info.votes, ¬info.blockHash <+: info.voteSignBytes vote.2)
    (hinj : Function.Injective crypto.pubkeyToAddress)
    (hsignatures : getSignaturesAndPrefix crypto info = .ok (signatures, signedPrefix))
    (hknows : KnowsPowers crypto st power) (hbound : st.totalValidatorPower.toNat * 3 < 2 ^ 256)
    (hquorum : 2 * st.totalValidatorPower.toNat <
      3 * (info.votes.map fun vote => power vote.1.validatorAddress).sum) :
    ∃ st', relayOracleState platform (b.relayArgs cdc signedPrefix
        (signatures.map TMSignature.encodeToEthFormat)) st = .ok st' := by
  have hnodup : ∀ {es : List Entry}, (∀ e ∈ es, e.Valid crypto info) →
      es.map Entry.vote = info.votes → (es.map Entry.addr).Nodup := by
    intro es hes hvotes
    refine nodup_addrs hinj hes ?_
    rw [← hvotes, List.map_map] at hdistinct
    exact hdistinct
  obtain ⟨es, hvotes, hvalid, hleft, rfl⟩ := getSignaturesAndPrefix_eq_ok hstart hnodup hsignatures
  have hperm : (sortEntries es).Perm es := List.mergeSort_perm _ _
  have hsigner : ∀ e ∈ sortEntries es,
      e.signature.encodeToEthFormat.recoverSigner platform (b.hash cdc) signedPrefix =
        addressOf e.addr := fun e he =>
    (hvalid e (hperm.mem_iff.mp he)).recoverSigner_eq hagrees hheader.symm
      (hleft e (hperm.mem_iff.mp he))
  have hmap : (((sortEntries es).map Entry.signature).map TMSignature.encodeToEthFormat).map
      (·.recoverSigner platform (b.hash cdc) signedPrefix) =
        (sortEntries es).map fun e => addressOf e.addr := by
    rw [List.map_map, List.map_map]
    exact List.map_congr_left hsigner
  have hincreasing : ((sortEntries es).map fun e => addressOf e.addr).Pairwise (· < ·) := by
    rw [List.pairwise_map]
    refine (pairwise_sortEntries (hnodup hvalid hvotes)).imp_of_mem fun {d e} hd he hlt => ?_
    rw [addressOf_lt_iff (hvalid d (hperm.mem_iff.mp hd)).length_addr
      (hvalid e (hperm.mem_iff.mp he)).length_addr]
    exact hlt
  have hpos : ∀ a ∈ (sortEntries es).map fun e => addressOf e.addr, (0 : Address) < a := by
    intro a ha
    obtain ⟨e, he, rfl⟩ := List.mem_map.mp ha
    obtain ⟨pub, _, haddr⟩ := (hvalid e (hperm.mem_iff.mp he)).exists_pub
    rw [haddr]
    exact Nat.pos_of_ne_zero fun hzero => hagrees.ne_zero pub (BitVec.eq_of_toNat_eq hzero)
  -- the powers of the signers are those of the votes
  have hpowers : (((sortEntries es).map fun e => addressOf e.addr).map st.power).sum =
      (info.votes.map fun vote => power vote.1.validatorAddress).sum := by
    rw [← hvotes, List.map_map, List.map_map]
    refine ((hperm.map _).sum_eq).trans (congrArg List.sum (List.map_congr_left fun e he => ?_))
    obtain ⟨pub, htm, haddr⟩ := (hvalid e he).exists_pub
    rw [Function.comp_apply, Function.comp_apply, haddr, hknows, htm]
  have hle : (((sortEntries es).map fun e => addressOf e.addr).map st.power).sum ≤
      st.totalValidatorPower.toNat := by
    rw [hbalanced, Quorum.sum_map_eq _ (hincreasing.imp fun hab => BitVec.ne_of_lt hab)]
    exact Quorum.sum_le_total (Set.toFinite _) _
  have hsorted := List.pairwise_cons.mpr ⟨hpos, hincreasing⟩
  rw [← hmap] at hsorted hle hpowers
  obtain ⟨⟨last, sum⟩, hfold⟩ := @exists_foldlM_countSignature _ st _ _ _ (0, 0) hsorted (by
    show 0 + _ < _
    omega)
  have hsum : sum.toNat = 0 + _ := (foldlM_countSignature hfold rfl).2
  refine exists_relayOracleState_eq_ok (b.blockHeader_relayArgs _ _) hfold ?_ ?_ <;> omega

lemma getResultHash_transform (req : Oracle.OracleRequestPacketData)
    (res : Oracle.OracleResponsePacketData) :
    (Packets.getResultHash (transformRequestPacket req) (transformResponsePacket res)).1 =
      Oracle.calculateResultHash req res := by
  rw [Packets.getResultHash, marshalRequestPacket_transform, marshalResponsePacket_transform]
  rfl

/-- **What was produced is accepted.**  Let validators with more than two thirds of the power have
voted for a block of the chain that stands for a state of the oracle module.  For every result in
that state there is an existence proof, and whatever existence proof the prover gets, the bridge
accepts the call that the prover makes: it takes the state of the block, and it returns packets
that were produced for the request. -/
theorem relayAndVerify_complete {cdc : Codec} {b : Block} {t : Tree} {power : Bytes → ℕ}
    {signatures : List TMSignature} {signedPrefix : Bytes} {id : Int64} {x : Bytes}
    (hst : Live platform st) (hagrees : Agrees crypto platform)
    (hheader : info.blockHash = (b.hash cdc).1)
    (hdistinct : (info.votes.map (·.1.validatorAddress)).Nodup)
    (hstart : ∀ vote ∈ info.votes, ¬info.blockHash <+: info.voteSignBytes vote.2)
    (hinj : Function.Injective crypto.pubkeyToAddress)
    (hsignatures : getSignaturesAndPrefix crypto info = .ok (signatures, signedPrefix))
    (hknows : KnowsPowers crypto st power) (hbound : st.totalValidatorPower.toNat * 3 < 2 ^ 256)
    (hquorum : 2 * st.totalValidatorPower.toNat <
      3 * (info.votes.map fun vote => power vote.1.validatorAddress).sum)
    (hsnap : Snapshot k b w t) (hne : b.oracleRoot.1 ≠ List.replicate 32 0)
    (hx : w.store.results[id.toInt]? = some x) :
    ∃ p s req res, s.id = id.toInt ∧ Produced w p s req res ∧
      (∃ path version, PathToLeaf t path version (Oracle.resultStoreKey id.toInt) x) ∧
      ∀ (path : List ProofInnerNode) (version : ℕ),
        PathToLeaf t path version (Oracle.resultStoreKey id.toInt) x →
          relayAndVerify platform
              (some (b.relayArgs cdc signedPrefix (signatures.map TMSignature.encodeToEthFormat)))
              (some
                { blockHeight := b.height
                  requestPacket := req
                  responsePacket := res
                  version := BitVec.ofNat 256 version
                  merklePaths :=
                    (getIAVLMerklePaths path).map IAVLMerklePath.encodeToEthFormat }) st =
            .ok (⟨st.owner, Function.update st.oracleStates b.height b.oracleRoot,
              st.validatorPowers, st.totalValidatorPower⟩, req, res) := by
  obtain ⟨p, s, r, hid, -, -, hhash, hproduced⟩ := exists_produced hsnap.reachable hx
  obtain ⟨st', hrelay⟩ := exists_relay_of_votes hst.balanced hagrees hheader hdistinct hstart hinj
    hsignatures hknows hbound hquorum
  have hst' : st' = { st with
      oracleStates := Function.update st.oracleStates b.height b.oracleRoot } := by
    obtain ⟨_, _, _, h⟩ := quorate_of_relayOracleState hrelay
    exact h
  subst hst'
  refine ⟨p, s, _, _, hid, hproduced, exists_pathToLeaf ((hsnap.results id x).mpr hx), ?_⟩
  intro path version hpath
  have hkey : Oracle.resultStoreKey id.toInt =
      0xff :: Bytes.be 8 (transformResponsePacket (savedResponse s r)).requestId.toNat := by
    have hrequest : (transformResponsePacket (savedResponse s r)).requestId = id.toUInt64 := by
      show (Int64.ofInt s.id).toUInt64 = _
      rw [hid, Int64.ofInt_toInt]
    rw [hrequest, Oracle.resultStoreKey, uint64ToBigEndian_toInt]
    rfl
  rw [hhash, ← getResultHash_transform, hkey] at hpath
  have hroot : Function.update st.oracleStates b.height b.oracleRoot b.height =
      t.hash sha256Digest := by
    rw [Function.update_self, hsnap.root]
  have hverify := verify_of_path hsnap.bounded hpath hroot (by rwa [← hsnap.root])
  simp only [relayAndVerify, except_bind_eq_ok]
  refine ⟨_, ?_, _, ?_, rfl⟩
  · rw [callOrRevert, Option.map_some, hrelay]
  · rw [callOrRevert, Option.map_some, hverify]

/-! ## The sample block -/

namespace Sample

lemma storeHashes_commit_eq (root : Bytes32) {name : Bytes} (h : name ∈ storeNames) :
    storeHashes (commit root.1) name = if name = Bytes.ascii "oracle" then root.1 else [] := by
  have hmem : (⟨name, if name = Bytes.ascii "oracle" then root.1 else []⟩ : StoreInfo) ∈
      commit root.1 := List.mem_map_of_mem h
  exact storeHashes_of_mem (by rw [map_name_commit]; exact nodup_storeNames) hmem

/-- The app hash of a commit in which only the oracle store is not empty. -/
lemma appHash_commit (root : Bytes32) :
    appHash (commit root.1) =
      (emptyTree (encodeStoreMerkleHash (Bytes.ascii "oracle") root.1)).1 := by
  have hstores : storeNames.map (fun name =>
        encodeStoreMerkleHash name (storeHashes (commit root.1) name)) =
      storeNames.map fun name => encodeStoreMerkleHash name
        (if name = Bytes.ascii "oracle" then root.1 else []) :=
    List.map_congr_left fun name h => by rw [storeHashes_commit_eq root h]
  obtain ⟨-, hacc, hmint, hparams, hstaking, -⟩ := hashes_empty
  rw [appHash_eq (by rw [map_name_commit]), hstores, ← rootHash_val (by simp [storeNames]),
    storeNames]
  simp only [List.map_cons, List.map_nil]
  have hother : ∀ name ∈ ["acc", "bank", "capability", "distribution", "evidence", "gov", "ibc",
      "mem_capability", "mint", "params", "slashing", "staking", "upgrade"],
      Bytes.ascii name ≠ Bytes.ascii "oracle" := by decide +kernel
  simp only [List.forall_mem_cons] at hother
  simp only [hother, if_true, if_false, encodeStoreMerkleHash_nil]
  rw [rootHash_multiStore, hacc, hmint, hparams, hstaking]
  rfl

/-- The hash of the block. -/
def resultBlockHash : Bytes32 :=
  word 0xa976d5760ac4ee7ecb61248a129e09e21ab741584f4b251c39b55de77012e4da

lemma hash_block : (block resultRoot).hash codec = resultBlockHash := by
  show rootHash _ = _
  simp only [block, appHash_commit]
  rw [rootHash_header]
  simp only [rootHash_four, rootHash_two, rootHash_singleton, emptyTree, encodeStoreMerkleHash,
    Utils.merkleInnerHash, Utils.merkleLeafHash, sha256_eq_sha256Nat,
    sha256Digest_eq_sha256DigestNat]
  decide +kernel

def resultR : Bytes32 :=
  word 0xbb91773df86b7d7deb42cc8c96eae9f566c021c1a4304f62278f0dc2db223414

def resultS : Bytes32 :=
  word 0x653a2f0f3a10bc207b9e12f82cb20f6d5136ccbf86aa1ec354c20e1b0bda8f94

/-- The compressed key of the validator with private key 1, and its Tendermint address. -/
def compressedKey : Bytes :=
  Bytes.be 33 0x0279be667ef9dcbbac55a06295ce870b07029bfcdb2dce28d959f2815b16f81798

def validatorAddress : Bytes := Bytes.be 20 0x751e76e8199196d454941c45d1b3a323f1433bd6

/-- The cryptography on the signature of the precommit. -/
def precommitCrypto : Crypto where
  PubKey := Unit
  sigToPub digest sig :=
    if sig = resultR.1 ++ resultS.1 ++ [0] ∧
      digest = sha256Digest (precommitFor resultBlockHash.1).signBytes then some () else none
  compressPubkey _ := compressedKey
  tmAddress b := if b = compressedKey then validatorAddress else []
  pubkeyToAddress _ := Bytes.be 20 owner.toNat
  length_sig := by
    intro digest sig p h
    rw [Option.ite_none_right_eq_some] at h
    rw [h.1.1, List.length_append, List.length_append, resultR.2, resultS.2]
    rfl
  length_address _ := Bytes.length_be _ _

/-- The block with the one vote for it. -/
def precommitHeader : SignedHeader where
  blockHash := resultBlockHash.1
  signatures := [⟨true, validatorAddress, resultR.1 ++ resultS.1⟩]
  voteSignBytes _ := (precommitFor resultBlockHash.1).signBytes

lemma precommitHeader_facts :
    (∀ vote ∈ precommitHeader.votes,
      ¬precommitHeader.blockHash <+: precommitHeader.voteSignBytes vote.2) ∧
    (getSignaturesAndPrefix precommitCrypto precommitHeader).toOption =
      some ([⟨resultR.1, resultS.1, 27, (precommitFor resultBlockHash.1).after⟩],
        (precommitFor resultBlockHash.1).before) := by
  decide +kernel

lemma addressOf_owner : addressOf (Bytes.be 20 owner.toNat) = owner := rfl

lemma agrees_precommit : Agrees precommitCrypto
    (evm (ecrecoverPrecommit resultRoot resultR resultS 27)) where
  ecrecover digest r s i p hi h := by
    obtain ⟨hsig, hdigest⟩ := (Option.ite_none_right_eq_some.mp h).1
    obtain ⟨hrs, hbit⟩ := List.append_inj' hsig rfl
    obtain ⟨hr, hs⟩ := List.append_inj hrs (by rw [r.2, resultR.2])
    obtain rfl := List.singleton_inj.mp hbit
    obtain rfl := Subtype.ext hr
    obtain rfl := Subtype.ext hs
    show ecrecoverPrecommit _ _ _ _ _ _ _ _ = addressOf (Bytes.be 20 owner.toNat)
    rw [addressOf_owner, ecrecoverPrecommit, if_pos]
    refine ⟨rfl, rfl, rfl, ?_⟩
    rw [signedData_precommit, precommit, hash_block, hdigest]
  ne_zero _ := by
    show addressOf (Bytes.be 20 owner.toNat) ≠ 0
    rw [addressOf_owner]
    decide

/-- The storage of the bridge with one validator. -/
lemma deployedPrecommit_eq (root r s : Bytes32) (v : UInt8) :
    (deployedPrecommit root r s v).totalValidatorPower = 1 ∧
      (deployedPrecommit root r s v).validatorPowers = Function.update (fun _ => 0) owner 1 :=
  ⟨rfl, rfl⟩

end Sample

/-- The bridge with one validator takes the state of the block, and the result of the sample
world. -/
theorem relayAndVerify_complete_sample : ∃ st path version relayData verifyData,
    relayAndVerify (Sample.evm (Sample.ecrecoverPrecommit Sample.resultRoot Sample.resultR
        Sample.resultS 27)) (some relayData) (some verifyData)
      (Sample.deployedPrecommit Sample.resultRoot Sample.resultR Sample.resultS 27) =
        .ok (st, verifyData.requestPacket, verifyData.responsePacket) ∧
      st.oracleStates 381837 = Sample.resultRoot ∧
      PathToLeaf Sample.resultTree path version (Oracle.resultStoreKey 1) Sample.result.1 := by
  obtain ⟨w, hw, hresults, hpackets⟩ := Sample.exists_world
  have hsnap := Sample.snapshot_of_facts hw hresults hpackets
  obtain ⟨hstart, hsignatures⟩ := Sample.precommitHeader_facts
  have hx : w.store.results[(1 : Int64).toInt]? = some Sample.result.1 := by
    rw [← Std.ExtTreeMap.mem_toList_iff_getElem?_eq_some, hresults]
    exact List.mem_singleton.mpr rfl
  have hheader : Sample.precommitHeader.blockHash =
      ((Sample.block Sample.resultRoot).hash Sample.codec).1 := by
    rw [Sample.hash_block]
    rfl
  have hdistinct : (Sample.precommitHeader.votes.map (·.1.validatorAddress)).Nodup :=
    (List.nodup_singleton Sample.validatorAddress :)
  obtain ⟨htotal, hpowers⟩ := Sample.deployedPrecommit_eq Sample.resultRoot Sample.resultR
    Sample.resultS 27
  have hknows : KnowsPowers Sample.precommitCrypto
      (Sample.deployedPrecommit Sample.resultRoot Sample.resultR Sample.resultS 27)
      fun _ => 1 := by
    intro _
    show Storage.power _ (addressOf (Bytes.be 20 Sample.owner.toNat)) = 1
    rw [Sample.addressOf_owner, Storage.power, hpowers, Function.update_self]
    rfl
  obtain ⟨p, s, req, res, _, _, ⟨path, version, hpath⟩, haccept⟩ := relayAndVerify_complete
    (.of_init (Sample.deployed_deployedPrecommit _ _ _ _)) Sample.agrees_precommit hheader
    hdistinct hstart (fun _ _ _ => rfl) (toOption_eq_some.mp hsignatures) hknows
    (by rw [htotal]; decide) (by rw [htotal]; decide) hsnap
    (by rw [Sample.oracleRoot_block]; decide) hx
  refine ⟨_, path, version, _, _, haccept path version hpath, ?_, hpath⟩
  have hheight : (Sample.block Sample.resultRoot).height = 381837 :=
    (by decide : BitVec.ofInt 256 (381837 : Int64).toInt = 381837)
  rw [hheight, Sample.oracleRoot_block]
  simp only [Function.update_self]

end Bandchain.Bridge
