import Bandchain.Bridge.Signers
import Bandchain.Bridge.Soundness
import Bandchain.Lib.Merkle

/-!
# What a block header determines

A relayer opens a few leaves of two Merkle trees, the block header and the multistore, and gives
the hashes of all other subtrees as it likes.  The hash of the header still determines the height
and the app hash, and the app hash the root of the oracle store; so relays for one block header
write the same value to the same place.
-/

namespace Bandchain.Bridge

open Exec Merkle

/-! ## The opened trees -/

/-- The part of the tree of the multistore that is opened. -/
def MultiStore.Data.tree (self : MultiStore.Data) : Tree :=
  .node (.digest self.accToMemCapStoresMerkleHash)
    (.node
      (.node (.node (.digest self.mintStoresMerkleHash) (.leaf self.oracleLeaf))
        (.digest self.paramsAndSlashingStoresMerkleHash))
      (.digest self.stakingAndUpgradeStoresMerkleHash))

/-- The part of the tree of a block header that is opened. -/
def BlockHeaderMerkleParts.Data.tree (self : BlockHeaderMerkleParts.Data) (appHash : Bytes32)
    (blockHeight : UInt256) : Tree :=
  .node
    (.node
      (.node (.digest self.versionAndChainIdHash)
        (.node (.leaf (Leb128.encode blockHeight.toNat)) (.digest self.timeHash)))
      (.digest self.lastBlockIDAndOther))
    (.node
      (.node (.digest self.nextValidatorHashAndConsensusHash)
        (.node (.leaf ([32] ++ appHash.1)) (.digest self.lastResultsHash)))
      (.digest self.evidenceAndProposerHash))

lemma getBlockHeader_eq (p : BlockHeaderMerkleParts.Data) (appHash : Bytes32)
    {blockHeight : UInt256} (h : 1 ≤ blockHeight.toNat) :
    p.getBlockHeader appHash blockHeight =
      .ok ((p.tree appHash blockHeight).hash sha256Digest) := by
  have hne : blockHeight ≠ 0 := by
    rintro rfl
    exact absurd h (by decide)
  rw [BlockHeaderMerkleParts.Data.getBlockHeader, Utils.encodeVarintUnsigned_eq, if_neg hne]
  rfl

/-- The strings that are hashed for the multistore. -/
def MultiStore.Data.hashed (self : MultiStore.Data) : List Bytes :=
  self.oracleIAVLStateHash.1 :: (sha256Digest self.oracleIAVLStateHash.1).1 ::
    self.tree.hashed sha256Digest

/-- The strings that are hashed for the block header of a relay. -/
def RelayArgs.hashed (args : RelayArgs) : List Bytes :=
  args.multiStore.hashed ++
    (args.merkleParts.tree args.multiStore.getAppHash args.blockHeight).hashed sha256Digest

/-! ## Binding -/

/-- The app hash determines the root of the oracle store. -/
lemma oracleIAVLStateHash_eq_of_apart {m m' : MultiStore.Data}
    (hapart : Apart sha256Digest m.hashed m'.hashed) (h : m.getAppHash = m'.getAppHash) :
    m.oracleIAVLStateHash = m'.oracleIAVLStateHash := by
  have hleaves : [m.oracleLeaf] = [m'.oracleLeaf] :=
    Tree.leaves_eq_of_apart (t := m.tree) (u := m'.tree)
      ⟨trivial, ⟨⟨trivial, trivial⟩, trivial⟩, trivial⟩ hapart.tail.tail h
  have hleaf := (List.cons.inj hleaves).1
  rw [MultiStore.Data.oracleLeaf, MultiStore.Data.oracleLeaf, List.append_cancel_left_eq] at hleaf
  -- the leaf holds the root under two hashes
  have houter := hapart.tail.head (Subtype.ext hleaf)
  exact Subtype.ext (hapart.head (Subtype.ext houter))

lemma oracleIAVLStateHash_inj {m m' : MultiStore.Data}
    (hinj : Set.InjOn sha256Digest { x | x ∈ m.hashed ∨ x ∈ m'.hashed })
    (h : m.getAppHash = m'.getAppHash) : m.oracleIAVLStateHash = m'.oracleIAVLStateHash :=
  oracleIAVLStateHash_eq_of_apart (.of_injOn hinj) h

/-- The hash of a header determines the height and the app hash. -/
lemma height_and_appHash_eq_of_apart {p p' : BlockHeaderMerkleParts.Data}
    {appHash appHash' : Bytes32} {height height' : UInt256}
    (hapart : Apart sha256Digest ((p.tree appHash height).hashed sha256Digest)
      ((p'.tree appHash' height').hashed sha256Digest))
    (h : (p.tree appHash height).hash sha256Digest = (p'.tree appHash' height').hash sha256Digest) :
    height = height' ∧ appHash = appHash' := by
  have hleaves : [Leb128.encode height.toNat, [32] ++ appHash.1] =
      [Leb128.encode height'.toNat, [32] ++ appHash'.1] :=
    Tree.leaves_eq_of_apart (t := p.tree appHash height) (u := p'.tree appHash' height')
      ⟨⟨⟨trivial, trivial, trivial⟩, trivial⟩, ⟨⟨trivial, trivial, trivial⟩, trivial⟩⟩ hapart h
  simp only [List.cons.injEq, and_true, List.append_cancel_left_eq] at hleaves
  obtain ⟨hheight, happ⟩ := hleaves
  have hnat := Leb128.encode_append_inj (x := []) (y := []) (by simpa using hheight)
  exact ⟨BitVec.eq_of_toNat_eq hnat.1, Subtype.ext happ⟩

lemma height_and_appHash_inj {p p' : BlockHeaderMerkleParts.Data} {appHash appHash' : Bytes32}
    {height height' : UInt256}
    (hinj : Set.InjOn sha256Digest { x | x ∈ (p.tree appHash height).hashed sha256Digest ∨
      x ∈ (p'.tree appHash' height').hashed sha256Digest })
    (h : (p.tree appHash height).hash sha256Digest = (p'.tree appHash' height').hash sha256Digest) :
    height = height' ∧ appHash = appHash' :=
  height_and_appHash_eq_of_apart (.of_injOn hinj) h

/-- **Relays are bound by the block header.**  Take the data of two relays with positive heights,
and let no two different strings that are hashed for them collide.  If both give the same block
header, the heights and the app hashes are the same; if both give the same app hash, the oracle
roots are the same; so if both are accepted and give the same block header, they write the same
value to the same oracle state. -/
theorem relay_bound_by_blockHeader {a b : RelayArgs}
    (hinj : Set.InjOn sha256Digest { x | x ∈ a.hashed ∨ x ∈ b.hashed })
    (ha : 1 ≤ a.blockHeight.toNat) (hb : 1 ≤ b.blockHeight.toNat) :
    (a.merkleParts.getBlockHeader a.multiStore.getAppHash a.blockHeight =
        b.merkleParts.getBlockHeader b.multiStore.getAppHash b.blockHeight →
      a.blockHeight = b.blockHeight ∧ a.multiStore.getAppHash = b.multiStore.getAppHash) ∧
    (a.multiStore.getAppHash = b.multiStore.getAppHash →
      a.multiStore.oracleIAVLStateHash = b.multiStore.oracleIAVLStateHash) ∧
    ∀ (platform : Platform) (s t s' t' : Storage), relayOracleState platform a s = .ok t →
      relayOracleState platform b s' = .ok t' →
      a.merkleParts.getBlockHeader a.multiStore.getAppHash a.blockHeight =
        b.merkleParts.getBlockHeader b.multiStore.getAppHash b.blockHeight →
      ∃ height value, t.oracleStates = Function.update s.oracleStates height value ∧
        t'.oracleStates = Function.update s'.oracleStates height value := by
  have hheader : a.merkleParts.getBlockHeader a.multiStore.getAppHash a.blockHeight =
        b.merkleParts.getBlockHeader b.multiStore.getAppHash b.blockHeight →
      a.blockHeight = b.blockHeight ∧ a.multiStore.getAppHash = b.multiStore.getAppHash := by
    intro h
    rw [getBlockHeader_eq _ _ ha, getBlockHeader_eq _ _ hb] at h
    exact height_and_appHash_inj (hinj.mono fun x hx =>
      hx.imp (List.mem_append_right _) (List.mem_append_right _)) (Except.ok.inj h)
  have happ : a.multiStore.getAppHash = b.multiStore.getAppHash →
      a.multiStore.oracleIAVLStateHash = b.multiStore.oracleIAVLStateHash := by
    intro h
    exact oracleIAVLStateHash_inj (hinj.mono fun x hx =>
      hx.imp (List.mem_append_left _) (List.mem_append_left _)) h
  refine ⟨hheader, happ, fun platform s t s' t' h h' hsame => ?_⟩
  obtain ⟨hheight, hhash⟩ := hheader hsame
  obtain ⟨_, _, _, _, _, _, rfl⟩ := relayOracleState_eq_ok h
  obtain ⟨_, _, _, _, _, _, rfl⟩ := relayOracleState_eq_ok h'
  exact ⟨a.blockHeight, a.multiStore.oracleIAVLStateHash, rfl, by rw [hheight, happ hhash]⟩

namespace Sample

/-- No two of the strings hashed for the relay collide. -/
lemma injOn_relayArgs_hashed :
    Set.InjOn sha256Digest { x | x ∈ relayArgs.hashed ∨ x ∈ relayArgs.hashed } := by
  have hnodup : (relayArgs.hashed.map sha256Digest).Nodup := by
    simp only [RelayArgs.hashed, MultiStore.Data.hashed, MultiStore.Data.getAppHash,
      MultiStore.Data.tree, MultiStore.Data.oracleLeaf, Utils.merkleInnerHash,
      Utils.merkleLeafHash, sha256Digest_eq_sha256DigestNat]
    decide +kernel
  intro x hx y hy h
  simp only [Set.mem_ofPred_eq, or_self] at hx hy
  exact List.inj_on_of_nodup_map hnodup hx hy h

end Sample

/-- The relay can be repeated: it is accepted, and writes the same oracle state each time. -/
theorem relay_bound_by_blockHeader_sample :
    ∃ t, relayOracleState (Sample.evm Sample.ecrecover) Sample.relayArgs
        (Sample.deployed Sample.ecrecover) = .ok t ∧
      ∃ height value, t.oracleStates =
        Function.update (Sample.deployed Sample.ecrecover).oracleStates height value := by
  obtain ⟨t, ht⟩ := Sample.accepted
  obtain ⟨height, value, hwrite, _⟩ :=
    (relay_bound_by_blockHeader Sample.injOn_relayArgs_hashed (by decide) (by decide)).2.2
      _ _ _ _ _ ht ht rfl
  exact ⟨t, ht, height, value, hwrite⟩

end Bandchain.Bridge
