import Bandchain.Bridge.Powers
import Bandchain.Lib.Sha256Nat

/-!
# The signers of a relay

An accepted relay is signed by different validators with more than two thirds of the total
power, so two relays that are accepted under the same powers have signers with more than one
third of the power in common.
-/

namespace Bandchain.Bridge

open Exec

variable {platform : Platform} {s t : Storage}

/-- The block header that the signatures of a relay are checked against. -/
def RelayArgs.blockHeader (args : RelayArgs) : Except Revert Bytes32 :=
  args.merkleParts.getBlockHeader args.multiStore.getAppHash args.blockHeight

/-- The addresses recovered from the signatures of a relay. -/
def RelayArgs.signers (platform : Platform) (args : RelayArgs) (blockHeader : Bytes32) :
    List Address :=
  args.signatures.map fun signature =>
    platform.ecrecover
      (sha256Digest (args.signedDataPrefix ++ blockHeader.1 ++ signature.signedDataSuffix))
      signature.v signature.r signature.s

/-! ## The loop over the signatures -/

lemma countSignature_eq_ok {blockHeader : Bytes32} {signedDataPrefix : Bytes}
    {acc acc' : Address × UInt256} {signature : TMSignature.Data}
    (h : countSignature platform s blockHeader signedDataPrefix acc signature = .ok acc') :
    acc'.1 = signature.recoverSigner platform blockHeader signedDataPrefix ∧ acc.1 < acc'.1 ∧
      acc'.2.toNat = acc.2.toNat + s.power acc'.1 := by
  simp only [countSignature, except_bind_eq_ok, require_eq_ok, platform.add_eq_ok] at h
  obtain ⟨_, hlt, sum, hsum, h⟩ := h
  obtain rfl := Except.ok.inj h
  exact ⟨rfl, hlt, hsum.symm⟩

/-- The signers that are counted come in increasing order, above the last signer before them, and
their powers are added to the sum. -/
lemma foldlM_countSignature {blockHeader : Bytes32} {signedDataPrefix : Bytes}
    {acc acc' : Address × UInt256} {signatures : List TMSignature.Data}
    (h : signatures.foldlM (countSignature platform s blockHeader signedDataPrefix) acc =
      .ok acc') {signers : List Address}
    (hsigners : signatures.map (·.recoverSigner platform blockHeader signedDataPrefix) =
      signers) :
    (acc.1 :: signers).Pairwise (· < ·) ∧
      acc'.2.toNat = acc.2.toNat + (signers.map s.power).sum := by
  induction signatures generalizing acc signers with
  | nil =>
    obtain rfl := Except.ok.inj h
    subst hsigners
    simp
  | cons signature signatures ih =>
    rw [List.foldlM_cons, except_bind_eq_ok] at h
    obtain ⟨mid, hmid, h⟩ := h
    obtain ⟨hsigner, hlt, hsum⟩ := countSignature_eq_ok hmid
    obtain ⟨hsorted, hrest⟩ := ih h rfl
    rw [List.map_cons, ← hsigner] at hsigners
    subst hsigners
    constructor
    · refine List.pairwise_cons.mpr ⟨fun a ha => ?_, hsorted⟩
      rcases List.mem_cons.mp ha with rfl | ha
      · exact hlt
      · exact BitVec.lt_trans hlt ((List.pairwise_cons.mp hsorted).1 a ha)
    · rw [List.map_cons, List.sum_cons, hrest, hsum]
      omega

/-- What is known of the signers of an accepted relay. -/
structure Quorate (platform : Platform) (s : Storage) (args : RelayArgs) (blockHeader : Bytes32) :
    Prop where
  nodup : (args.signers platform blockHeader).Nodup
  zero_notMem : 0 ∉ args.signers platform blockHeader
  two_thirds : 2 * s.totalValidatorPower.toNat <
    3 * ((args.signers platform blockHeader).map s.power).sum

lemma quorate_of_relayOracleState {args : RelayArgs}
    (h : relayOracleState platform args s = .ok t) :
    ∃ blockHeader, args.blockHeader = .ok blockHeader ∧ Quorate platform s args blockHeader ∧
      t = { s with
        oracleStates := Function.update s.oracleStates args.blockHeight
          args.multiStore.oracleIAVLStateHash } := by
  obtain ⟨blockHeader, last, sum, hheader, hcount, hlt, ht⟩ := relayOracleState_eq_ok h
  have hsigners : args.signatures.map (·.recoverSigner platform blockHeader args.signedDataPrefix) =
      args.signers platform blockHeader := rfl
  obtain ⟨hsorted, hsum⟩ := foldlM_countSignature hcount hsigners
  obtain ⟨hpos, hsorted⟩ := List.pairwise_cons.mp hsorted
  refine ⟨blockHeader, hheader, ⟨?_, ?_, ?_⟩, ht⟩
  · exact hsorted.imp fun hab => BitVec.ne_of_lt hab
  · intro hzero
    exact BitVec.lt_irrefl _ (hpos 0 hzero)
  · change sum.toNat = 0 + _ at hsum
    rw [hsum, Nat.zero_add] at hlt
    exact hlt

/-- A relay is accepted if its signers have more than two thirds of the total power. -/
lemma exists_relayOracleState_eq_ok {args : RelayArgs} {blockHeader : Bytes32} {last : Address}
    {sum : UInt256} (hheader : args.blockHeader = .ok blockHeader)
    (hcount : args.signatures.foldlM (countSignature platform s blockHeader args.signedDataPrefix)
      (0, 0) = .ok (last, sum))
    (hsum : sum.toNat * 3 < 2 ^ 256)
    (hlt : s.totalValidatorPower.toNat * 2 < sum.toNat * 3) :
    ∃ t, relayOracleState platform args s = .ok t := by
  have hthree : platform.mul sum 3 = .ok (BitVec.ofNat 256 (sum.toNat * 3)) := by
    rw [platform.mul_eq_ok, BitVec.toNat_ofNat, Nat.mod_eq_of_lt hsum]
    rfl
  have htwo : platform.mul s.totalValidatorPower 2 =
      .ok (BitVec.ofNat 256 (s.totalValidatorPower.toNat * 2)) := by
    rw [platform.mul_eq_ok, BitVec.toNat_ofNat, Nat.mod_eq_of_lt (hlt.trans hsum)]
    rfl
  have hpower : BitVec.ofNat 256 (s.totalValidatorPower.toNat * 2) <
      BitVec.ofNat 256 (sum.toNat * 3) := by
    rw [BitVec.lt_def, BitVec.toNat_ofNat, BitVec.toNat_ofNat, Nat.mod_eq_of_lt hsum,
      Nat.mod_eq_of_lt (hlt.trans hsum)]
    exact hlt
  refine ⟨{ s with
    oracleStates := Function.update s.oracleStates args.blockHeight
      args.multiStore.oracleIAVLStateHash }, ?_⟩
  simp only [relayOracleState, except_bind_eq_ok, require_eq_ok]
  exact ⟨blockHeader, hheader, (last, sum), hcount, _, hthree, _, htwo, (), hpower, rfl⟩

/-- Two relays accepted under the same powers share signers. -/
lemma third_lt_common_signers {s' : Storage} {args args' : RelayArgs}
    {blockHeader blockHeader' : Bytes32} (hs : s.Balanced) (hs' : s'.Balanced)
    (hpowers : s'.validatorPowers = s.validatorPowers)
    (h : Quorate platform s args blockHeader) (h' : Quorate platform s' args' blockHeader') :
    s.totalValidatorPower.toNat <
      3 * (((args.signers platform blockHeader).filter
        (· ∈ args'.signers platform blockHeader')).map s.power).sum := by
  have hpower : s'.power = s.power := by
    ext a
    rw [Storage.power, Storage.power, hpowers]
  have hthirds := h.two_thirds
  have hthirds' := h'.two_thirds
  rw [hs'] at hthirds'
  rw [hs] at hthirds ⊢
  rw [hpower] at hthirds'
  exact Quorum.third_lt_common (Set.toFinite _) h.nodup h'.nodup hthirds hthirds'

/-- **The quorum of a relay.**  In any storage that calls lead to, the signers of an accepted relay
are different and not zero, each is recovered from the hash of the prefix, the block header and
its suffix, and they have more than two thirds of the total power.  The relay writes the oracle
state of its height and nothing else.  A relay that is accepted in another such storage with the
same powers has signers with more than one third of the power in common with it. -/
theorem relayOracleState_quorum {args : RelayArgs} (hs : Live platform s)
    (h : relayOracleState platform args s = .ok t) :
    ∃ blockHeader,
      args.merkleParts.getBlockHeader args.multiStore.getAppHash args.blockHeight =
        .ok blockHeader ∧
      (args.signers platform blockHeader).Nodup ∧
      (∀ a ∈ args.signers platform blockHeader, a ≠ 0) ∧
      2 * s.totalValidatorPower.toNat <
        3 * ((args.signers platform blockHeader).map fun a => (s.validatorPowers a).toNat).sum ∧
      t = { s with
        oracleStates := Function.update s.oracleStates args.blockHeight
          args.multiStore.oracleIAVLStateHash } ∧
      ∀ (s' t' : Storage) (args' : RelayArgs), Live platform s' →
        s'.validatorPowers = s.validatorPowers → relayOracleState platform args' s' = .ok t' →
          ∃ blockHeader',
            args'.merkleParts.getBlockHeader args'.multiStore.getAppHash args'.blockHeight =
              .ok blockHeader' ∧
            s.totalValidatorPower.toNat <
              3 * (((args.signers platform blockHeader).filter
                (· ∈ args'.signers platform blockHeader')).map
                  fun a => (s.validatorPowers a).toNat).sum := by
  obtain ⟨blockHeader, hheader, hquorate, ht⟩ := quorate_of_relayOracleState h
  refine ⟨blockHeader, hheader, hquorate.nodup, ?_, hquorate.two_thirds, ht, ?_⟩
  · rintro a ha rfl
    exact hquorate.zero_notMem ha
  · intro s' t' args' hs' hpowers h'
    obtain ⟨blockHeader', hheader', hquorate', _⟩ := quorate_of_relayOracleState h'
    exact ⟨blockHeader', hheader',
      third_lt_common_signers hs.balanced hs'.balanced hpowers hquorate hquorate'⟩

/-! ## A relay signed by three of four validators -/

namespace Sample

/-- The 32-byte string of a number. -/
def word (n : ℕ) : Bytes32 := ⟨Bytes.be 32 n, Bytes.length_be 32 n⟩

def multiStore : MultiStore.Data where
  accToMemCapStoresMerkleHash :=
    word 0x2B14E5AB19A88F23B3F6C694659374DF21E21935A7C0B8565C4E7B43AAB3BB43
  mintStoresMerkleHash :=
    word 0x06223635C7D081E76F30998DA7D601AB9AB8602C9AE7095E319C68F4CE2F5F73
  oracleIAVLStateHash :=
    word 0xC744B497E2569517AA2F053E2A4E09C67427DC0FD8840048C607AF8F17D9100C
  paramsAndSlashingStoresMerkleHash :=
    word 0xAE658B0EA9B1C87323D0FA810ADBE9DB91BE0BAEA62D29F376488666ECA9BBEB
  stakingAndUpgradeStoresMerkleHash :=
    word 0xAA66B682A3FE96C372A095A43F2E73B33E89D835DB3BBF2496546328A7BD4961

def merkleParts : BlockHeaderMerkleParts.Data where
  versionAndChainIdHash :=
    word 0x32FA694879095840619F5E49380612BD296FF7E950EAFB66FF654D99CA70869E
  timeHash :=
    word 0x9F667F22196CFEBD590E3B178148942EF40C5B693336BF20608D5F21AA679ABC
  lastBlockIDAndOther :=
    word 0xF665C04557D07EAACFC46F2E5B5D267C3B2C4EEAF395784F30CC84266816A89D
  nextValidatorHashAndConsensusHash :=
    word 0xE3BB39F3B621939B734AF396D7CF5CCFDEDD4A3D16F139FD481874BC6F6E52B4
  lastResultsHash :=
    word 0x6E340B9CFFB37A989CA544E6BB780A2C78901D3FB33738768511A30617AFA01D
  evidenceAndProposerHash :=
    word 0xD991DA4D4E69473CC75A4B819F9E07D4956671A6F4A74DF4CC16596FCBE68137

/-- The end of what a validator signs: the rest of the block ID, the time, which differs from
validator to validator, and the name of the chain. -/
def suffix (nanos : Bytes) : Bytes :=
  [0x12, 0x24, 0x0A, 0x20] ++
    Bytes.be 32 0x5F339FD218803D4B7BCBEC09FB24D1BCEAE0938FA20FD028C2993D9731690CBB ++
    [0x10, 0x01, 0x2A, 0x0C, 0x08, 0xDF, 0xD6, 0xA0, 0xF5, 0x05, 0x10] ++ nanos ++
    [0x32, 0x09] ++ Bytes.ascii "bandchain"

def signatures : List TMSignature.Data :=
  [{ r := word 0x62A900783D67A397A0CE36C82108122B97ACF88034CA917209937E2FF29EDB1C
     s := word 0x378595FF3223971F63946D133DE29189497BC800F26370AF44512DDC3B02A1F1
     v := 27
     signedDataSuffix := suffix [0xD1, 0xE2, 0xE1, 0x91, 0x03] },
   { r := word 0x97009E1695FBD0FA6708C08C31EF92D28FA1AC64C6E6346193DE375AD377DE44
     s := word 0x54DB42DFE62EC6B2C755DB707D7DF48EF49485EF8282C91054B728F052E452AC
     v := 28
     signedDataSuffix := suffix [0x84, 0xA2, 0xF8, 0x91, 0x03] },
   { r := word 0x950C0D5475AB4D2E7257811A4F304201D6CC52F7F5D06B8CDBB53922C4BCD140
     s := word 0x4C747F4985569E59401E450F12F37933AED9EB9FB2F20CF022DAC9D31B9AADDC
     v := 28
     signedDataSuffix := suffix [0x96, 0x85, 0xE2, 0x91, 0x03] }]

def relayArgs : RelayArgs where
  blockHeight := 63407
  multiStore := multiStore
  merkleParts := merkleParts
  signedDataPrefix := Bytes.be 16 0x6E080211AFF700000000000022480A20
  signatures := signatures

/-- The hash of the block header of the relay. -/
def header : Bytes32 := word 0x7474910e2d633a7ff884c523e208ad247f9e7b47cbe083eb3dc44f69c470e474

/-- The recovery of signers on the three signatures. -/
def ecrecover (digest : Bytes32) (v : UInt8) (r s : Bytes32) : Address :=
  ((signatures.zip ((validators.map ValidatorWithPower.addr).drop 1)).find? fun p =>
    p.1.v = v ∧ p.1.r = r ∧ p.1.s = s ∧
      sha256Digest (p.1.signedData header relayArgs.signedDataPrefix) = digest).elim 0 Prod.snd

/-- The block header, the power of the three signers, and the power of all validators. -/
lemma relay_facts :
    relayArgs.blockHeader.toOption = some header ∧
      (signatures.foldlM (countSignature (evm ecrecover) (deployed ecrecover) header
        relayArgs.signedDataPrefix) (0, 0)).toOption =
          some (0xB956589b6fC5523eeD0d9eEcfF06262Ce84ff260, 300) ∧
      (deployed ecrecover).totalValidatorPower = 400 := by
  -- bring every digest to the surface, to have it computed on natural numbers
  unfold countSignature TMSignature.Data.recoverSigner ecrecover
  simp only [RelayArgs.blockHeader, BlockHeaderMerkleParts.Data.getBlockHeader,
    MultiStore.Data.getAppHash, MultiStore.Data.oracleLeaf, Utils.merkleInnerHash,
    Utils.merkleLeafHash]
  rw [sha256Digest_eq_sha256DigestNat]
  decide +kernel

lemma blockHeader_relayArgs : relayArgs.blockHeader = .ok header :=
  toOption_eq_some.mp relay_facts.1

/-- The relay is accepted by the bridge with four validators. -/
lemma accepted :
    ∃ t, relayOracleState (evm ecrecover) relayArgs (deployed ecrecover) = .ok t := by
  obtain ⟨-, hcount, htotal⟩ := relay_facts
  refine exists_relayOracleState_eq_ok blockHeader_relayArgs (toOption_eq_some.mp hcount)
    (by decide) ?_
  rw [htotal]
  decide

end Sample

/-- The three signers are different validators. -/
theorem relayOracleState_quorum_sample :
    ∃ blockHeader, Sample.relayArgs.blockHeader = .ok blockHeader ∧
      (Sample.relayArgs.signers (Sample.evm Sample.ecrecover) blockHeader).Nodup := by
  obtain ⟨t, ht⟩ := Sample.accepted
  obtain ⟨blockHeader, hheader, hnodup, _⟩ :=
    relayOracleState_quorum (.of_init (Sample.deployed_deployed _)) ht
  exact ⟨blockHeader, hheader, hnodup⟩

end Bandchain.Bridge
