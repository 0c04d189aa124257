import Bandchain.Bridge.Binding
import Bandchain.Bridge.Completeness
import Bandchain.Lib.Amino

/-!
# Header and multistore proofs fit the contract

The prover hashes the parts of the two Merkle trees that the contract does not open, and the
contract puts them together with what it opens.  The result is the hash of the block header, and
the app hash of the commit.
-/

namespace Bandchain.Bridge

open Exec Proof

/-! ## Roots as 32-byte values -/

/-- The root of a list, as the contract gets it. -/
def rootHash (items : List Bytes) : Bytes32 := bytesToHash (simpleHashFromByteSlices items)

lemma rootHash_val {items : List Bytes} (h : items ≠ []) :
    (rootHash items).1 = simpleHashFromByteSlices items := by
  have hlen : (simpleHashFromByteSlices items).length = 32 := Merkle.length_root h
  exact congrArg Subtype.val (bytesToHash_digest ⟨simpleHashFromByteSlices items, hlen⟩)

lemma rootHash_singleton (item : Bytes) : rootHash [item] = Utils.merkleLeafHash item := by
  apply Subtype.ext
  rw [rootHash_val (List.cons_ne_nil _ _), simpleHashFromByteSlices, Merkle.root_singleton]
  rfl

/-- The root of a list that is split at a power of two. -/
lemma rootHash_append {k : ℕ} {l r : List Bytes} (hl : l.length = 2 ^ k) (hr : 1 ≤ r.length)
    (hle : r.length ≤ 2 ^ k) :
    rootHash (l ++ r) = Utils.merkleInnerHash (rootHash l) (rootHash r) := by
  have hl' : l ≠ [] := by
    rintro rfl
    have := Nat.two_pow_pos k
    rw [List.length_nil] at hl
    omega
  have hr' : r ≠ [] := by
    rintro rfl
    simp at hr
  apply Subtype.ext
  rw [rootHash_val (List.append_ne_nil_of_left_ne_nil hl' r), simpleHashFromByteSlices,
    Merkle.root_append hl hr hle, Utils.merkleInnerHash, rootHash_val hl', rootHash_val hr']
  rfl

lemma rootHash_two (a b : Bytes) :
    rootHash [a, b] = Utils.merkleInnerHash (rootHash [a]) (rootHash [b]) :=
  rootHash_append (k := 0) (l := [a]) (r := [b]) rfl (by simp) (by simp)

lemma rootHash_four (a b c d : Bytes) :
    rootHash [a, b, c, d] = Utils.merkleInnerHash (rootHash [a, b]) (rootHash [c, d]) :=
  rootHash_append (k := 1) (l := [a, b]) (r := [c, d]) rfl (by simp) (by simp)

/-- The tree over six items, and the tree over fourteen, are not balanced. -/
lemma rootHash_six (a b c d e f : Bytes) :
    rootHash [a, b, c, d, e, f] =
      Utils.merkleInnerHash (rootHash [a, b, c, d]) (rootHash [e, f]) :=
  rootHash_append (k := 2) (l := [a, b, c, d]) (r := [e, f]) rfl (by simp) (by simp)

lemma rootHash_eight (f₀ f₁ f₂ f₃ f₄ f₅ f₆ f₇ : Bytes) :
    rootHash [f₀, f₁, f₂, f₃, f₄, f₅, f₆, f₇] =
      Utils.merkleInnerHash (rootHash [f₀, f₁, f₂, f₃]) (rootHash [f₄, f₅, f₆, f₇]) :=
  rootHash_append (k := 2) (l := [f₀, f₁, f₂, f₃]) (r := [f₄, f₅, f₆, f₇]) rfl (by simp) (by simp)

lemma rootHash_fourteen (f₀ f₁ f₂ f₃ f₄ f₅ f₆ f₇ f₈ f₉ fa fb fc fd : Bytes) :
    rootHash [f₀, f₁, f₂, f₃, f₄, f₅, f₆, f₇, f₈, f₉, fa, fb, fc, fd] =
      Utils.merkleInnerHash (rootHash [f₀, f₁, f₂, f₃, f₄, f₅, f₆, f₇])
        (rootHash [f₈, f₉, fa, fb, fc, fd]) :=
  rootHash_append (k := 3) (l := [f₀, f₁, f₂, f₃, f₄, f₅, f₆, f₇])
    (r := [f₈, f₉, fa, fb, fc, fd]) rfl (by simp) (by simp)

/-- The tree over fourteen items, opened as the block header is. -/
lemma rootHash_header (f₀ f₁ f₂ f₃ f₄ f₅ f₆ f₇ f₈ f₉ fa fb fc fd : Bytes) :
    rootHash [f₀, f₁, f₂, f₃, f₄, f₅, f₆, f₇, f₈, f₉, fa, fb, fc, fd] =
      Utils.merkleInnerHash
        (Utils.merkleInnerHash
          (Utils.merkleInnerHash (rootHash [f₀, f₁])
            (Utils.merkleInnerHash (Utils.merkleLeafHash f₂) (rootHash [f₃])))
          (rootHash [f₄, f₅, f₆, f₇]))
        (Utils.merkleInnerHash
          (Utils.merkleInnerHash (rootHash [f₈, f₉])
            (Utils.merkleInnerHash (Utils.merkleLeafHash fa) (rootHash [fb])))
          (rootHash [fc, fd])) := by
  rw [rootHash_fourteen, rootHash_eight, rootHash_six, rootHash_four f₀, rootHash_four f₈,
    rootHash_two f₂, rootHash_two fa, rootHash_singleton f₂, rootHash_singleton fa]

/-- The tree over fourteen items, opened as the multistore is. -/
lemma rootHash_multiStore (f₀ f₁ f₂ f₃ f₄ f₅ f₆ f₇ f₈ f₉ fa fb fc fd : Bytes) :
    rootHash [f₀, f₁, f₂, f₃, f₄, f₅, f₆, f₇, f₈, f₉, fa, fb, fc, fd] =
      Utils.merkleInnerHash (rootHash [f₀, f₁, f₂, f₃, f₄, f₅, f₆, f₇])
        (Utils.merkleInnerHash
          (Utils.merkleInnerHash
            (Utils.merkleInnerHash (rootHash [f₈]) (Utils.merkleLeafHash f₉)) (rootHash [fa, fb]))
          (rootHash [fc, fd])) := by
  rw [rootHash_fourteen, rootHash_six, rootHash_four, rootHash_two f₈, rootHash_singleton f₉]

/-! ## Block headers -/

/-- The leaf of the height. -/
lemma encode_height {height : Int64} (h : 0 < height.toInt) :
    Leb128.encode (BitVec.ofInt 256 height.toInt).toNat = Leb128.encode height.toInt.toNat := by
  have hlt : height.toInt < 2 ^ 63 := height.toInt_lt
  rw [BitVec.toNat_ofInt, Int.emod_eq_of_lt (by omega) (by omega)]

/-- The contract computes the hash of a header from the parts that the prover makes of it. -/
lemma getBlockHeader_getBlockHeaderMerkleParts (cdc : Codec) (h : Header)
    (happ : h.appHash.length = 32) (hheight : 0 < h.height.toInt) :
    (getBlockHeaderMerkleParts cdc h).encodeToEthFormat.getBlockHeader (bytesToHash h.appHash)
        (BitVec.ofInt 256 h.height.toInt) =
      .ok (bytesToHash (h.hash cdc)) := by
  have hlt : h.height.toInt < 2 ^ 63 := h.height.toInt_lt
  have hpos : 1 ≤ (BitVec.ofInt 256 h.height.toInt).toNat := by
    rw [BitVec.toNat_ofInt, Int.emod_eq_of_lt (by omega) (by omega)]
    omega
  have hne : h.appHash ≠ [] := by
    intro hnil
    rw [hnil] at happ
    cases happ
  have hleaf : cdcEncode cdc (.bytes h.appHash) = [32] ++ (bytesToHash h.appHash).1 := by
    have hval : (bytesToHash h.appHash).1 = h.appHash :=
      congrArg Subtype.val (bytesToHash_digest ⟨h.appHash, happ⟩)
    rw [cdcEncode, Item.isEmpty, List.isEmpty_eq_false_iff.mpr hne, cdc.marshal_bytes _ hne, hval,
      happ, Leb128.encode_of_lt (by decide)]
    rfl
  have hheightLeaf : cdcEncode cdc (.int64 h.height) =
      Leb128.encode (BitVec.ofInt 256 h.height.toInt).toNat := by
    rw [encode_height hheight]
    exact cdc.marshal_int64 _ hheight
  rw [getBlockHeader_eq _ _ hpos]
  refine congrArg _ ?_
  show _ = rootHash _
  rw [rootHash_header, hleaf, hheightLeaf]
  rfl

/-! ## Multistores -/

/-- The hash under the name of a store, if no other store has that name. -/
lemma storeHashes_of_mem {infos : List StoreInfo} (hnodup : (infos.map StoreInfo.name).Nodup)
    {info : StoreInfo} (h : info ∈ infos) : storeHashes infos info.name = info.hash := by
  rw [storeHashes]
  generalize (fun _ => [] : Bytes → Bytes) = m
  induction infos generalizing m with
  | nil => cases h
  | cons i infos ih =>
    rw [List.map_cons, List.nodup_cons] at hnodup
    rw [List.foldl_cons]
    rcases List.mem_cons.mp h with rfl | h
    · -- the stores after this one have other names
      have hother : ∀ (l : List StoreInfo) (m : Bytes → Bytes), info.name ∉ l.map StoreInfo.name →
          l.foldl (fun m i => Function.update m i.name i.hash) m info.name = m info.name := by
        intro l
        induction l with
        | nil => exact fun _ _ => rfl
        | cons j l ih =>
          intro m hnot
          rw [List.map_cons, List.mem_cons, not_or] at hnot
          rw [List.foldl_cons, ih _ hnot.2, Function.update_of_ne hnot.1]
      rw [hother _ _ hnodup.1, Function.update_self]
    · exact ih hnodup.2 h _

/-- The names of the stores come in order, and their lengths take one byte. -/
lemma storeNames_sorted :
    storeNames.Pairwise (· < ·) ∧ ∀ name ∈ storeNames, name.length < 128 := by
  decide +kernel

lemma nodup_storeNames : storeNames.Nodup := by
  apply storeNames_sorted.1.imp
  rintro a _ h rfl
  exact List.lt_irrefl a h

/-- Sorting the stores of the application puts their names in order. -/
lemma map_name_mergeSort {infos : List StoreInfo}
    (h : (infos.map StoreInfo.name).Perm storeNames) :
    (infos.mergeSort fun a b => a.name ≤ b.name).map StoreInfo.name = storeNames := by
  refine List.Perm.eq_of_pairwise (fun a b _ _ hab hba => List.le_antisymm hab hba) ?_
    (storeNames_sorted.1.imp fun h => List.le_of_lt h)
    (((List.mergeSort_perm infos _).map _).trans h)
  rw [List.pairwise_map]
  have hsorted : (infos.mergeSort fun a b => a.name ≤ b.name).Pairwise
      (fun a b => decide (a.name ≤ b.name) = true) := by
    refine List.pairwise_mergeSort (fun a b c hab hbc => ?_) (fun a b => ?_) infos
    · rw [decide_eq_true_eq] at hab hbc ⊢
      exact List.le_trans hab hbc
    · rw [Bool.or_eq_true, decide_eq_true_eq, decide_eq_true_eq]
      exact List.le_total _ _
  exact hsorted.imp fun hab => of_decide_eq_true hab

/-- The leaf of a store of the application, as both sides write it. -/
lemma leaf_eq_encodeStoreMerkleHash {info : StoreInfo} (h : info.name ∈ storeNames) :
    info.leaf = encodeStoreMerkleHash info.name info.hash := by
  rw [StoreInfo.leaf, encodeStoreMerkleHash, Leb128.encode_of_lt (storeNames_sorted.2 _ h),
    Leb128.encode_of_lt (by decide : 32 < 128)]
  simp

/-- The app hash of a commit over the stores of the application. -/
lemma appHash_eq {infos : List StoreInfo} (h : (infos.map StoreInfo.name).Perm storeNames) :
    appHash infos = simpleHashFromByteSlices
      (storeNames.map fun name => encodeStoreMerkleHash name (storeHashes infos name)) := by
  have hnodup : (infos.map StoreInfo.name).Nodup := h.nodup_iff.mpr nodup_storeNames
  rw [appHash, ← map_name_mergeSort h, List.map_map]
  congr 1
  refine List.map_congr_left fun info hinfo => ?_
  rw [List.mem_mergeSort] at hinfo
  have hname : info.name ∈ storeNames := h.subset (List.mem_map_of_mem hinfo)
  rw [Function.comp_apply, leaf_eq_encodeStoreMerkleHash hname, storeHashes_of_mem hnodup hinfo]

/-- The leaf that the contract makes of the root of the oracle store. -/
lemma oracleLeaf_getMultiStoreProof (infos : List StoreInfo) :
    (getMultiStoreProof infos).encodeToEthFormat.oracleLeaf =
      encodeStoreMerkleHash (Bytes.ascii "oracle")
        (bytesToHash (storeHashes infos (Bytes.ascii "oracle"))).1 := by
  have hname : [UInt8.ofNat (Bytes.ascii "oracle").length] ++ Bytes.ascii "oracle" ++ [32] =
      [0x06, 0x6f, 0x72, 0x61, 0x63, 0x6c, 0x65, 0x20] := by decide +kernel
  rw [MultiStore.Data.oracleLeaf, encodeStoreMerkleHash, ← List.append_assoc, hname]
  rfl

/-- The contract computes the app hash of a commit from the proof that the prover makes of it, if
the root of the oracle store has 32 bytes. -/
lemma getAppHash_getMultiStoreProof {infos : List StoreInfo}
    (h : (infos.map StoreInfo.name).Perm storeNames)
    (horacle : (storeHashes infos (Bytes.ascii "oracle")).length = 32) :
    (getMultiStoreProof infos).encodeToEthFormat.getAppHash = bytesToHash (appHash infos) := by
  have hval : (bytesToHash (storeHashes infos (Bytes.ascii "oracle"))).1 =
      storeHashes infos (Bytes.ascii "oracle") :=
    congrArg Subtype.val (bytesToHash_digest ⟨_, horacle⟩)
  have hleaf := oracleLeaf_getMultiStoreProof infos
  rw [hval] at hleaf
  rw [appHash_eq h]
  show _ = rootHash _
  rw [storeNames]
  simp only [List.map_cons, List.map_nil]
  rw [rootHash_multiStore, ← hleaf]
  rfl

/-! ## Both proofs -/

/-- **The proofs fit the contract.**  For every header with an app hash of 32 bytes and a positive
height, the contract computes the hash of the header from the parts that the prover makes of it.
For every commit over the stores of the application in which the root of the oracle store has 32
bytes, it computes the app hash. -/
theorem proofs_fit_contract (cdc : Codec) :
    (∀ h : Header, h.appHash.length = 32 → 1 ≤ h.height.toInt →
      ∃ blockHeader,
        (getBlockHeaderMerkleParts cdc h).encodeToEthFormat.getBlockHeader
            (bytesToHash h.appHash) (BitVec.ofInt 256 h.height.toInt) = .ok blockHeader ∧
          blockHeader.1 = h.hash cdc) ∧
    ∀ infos : List StoreInfo, (infos.map StoreInfo.name).Perm storeNames →
      (∀ info ∈ infos, info.name = Bytes.ascii "oracle" → info.hash.length = 32) →
        (getMultiStoreProof infos).encodeToEthFormat.getAppHash.1 = appHash infos := by
  constructor
  · intro h happ hheight
    exact ⟨_, getBlockHeader_getBlockHeaderMerkleParts cdc h happ hheight,
      rootHash_val (List.cons_ne_nil _ _)⟩
  · intro infos hnames horacle
    have hmem : Bytes.ascii "oracle" ∈ infos.map StoreInfo.name :=
      hnames.mem_iff.mpr (by simp [storeNames])
    obtain ⟨info, hinfo, hname⟩ := List.mem_map.mp hmem
    have hnodup : (infos.map StoreInfo.name).Nodup := hnames.nodup_iff.mpr nodup_storeNames
    have hhash : storeHashes infos (Bytes.ascii "oracle") = info.hash := by
      rw [← hname, storeHashes_of_mem hnodup hinfo]
    rw [getAppHash_getMultiStoreProof hnames (by rw [hhash]; exact horacle info hinfo hname),
      appHash_eq hnames]
    exact rootHash_val (List.cons_ne_nil _ _)

namespace Sample

/-- The encoding of the fields of a header. -/
def marshal : Item → Bytes
  | .version v => Amino.varintField 0x08 v.1.toNat ++ Amino.varintField 0x10 v.2.toNat
  | .string s => Amino.lengthPrefixed s
  | .int64 n => Leb128.encode n.toUInt64.toNat
  | .time t =>
    Amino.varintField 0x08 (Int64.ofInt t.1).toUInt64.toNat ++ Amino.varintField 0x10 t.2
  | .blockID id =>
    Amino.bytesField 0x0A id.hash ++ Amino.bytesField 0x12
      (Amino.varintField 0x08 (Int64.ofInt id.partsTotal).toUInt64.toNat ++
        Amino.bytesField 0x12 id.partsHash)
  | .bytes b => Amino.lengthPrefixed b

def codec : Codec where
  mustMarshalBinaryBare := marshal
  marshal_int64 n hn := by
    have hcond := n.toBitVec.toInt_eq_toNat_cond
    have hnat : n.toUInt64.toNat = n.toInt.toNat := by
      show n.toBitVec.toNat = n.toBitVec.toInt.toNat
      change 0 < n.toBitVec.toInt at hn
      omega
    rw [marshal, hnat]
  marshal_bytes _ _ := rfl

/-- The header of block 381837 of the chain. -/
def header381837 : Header where
  version := (10, 0)
  chainID := Bytes.ascii "bandchain"
  height := 381837
  time := (1587353430, 143851745)
  lastBlockID :=
    { hash := Bytes.be 32 0xF633B30D4FBEC862F4A041311E2CB7DFAD63D57930B065A563299449D25BD9CE
      partsTotal := 1
      partsHash :=
        Bytes.be 32 0x7F334B7EE4F8AAC5E70F07FEB9A58A72F120E9AC046167851FC94BC4F2729550 }
  lastCommitHash := Bytes.be 32 0x561D0BB2B6A6E58E20A6BED0F16C8FF5E333BB5A93C69A8E7F3C13542A84DB60
  dataHash := []
  validatorsHash := Bytes.be 32 0x3AEB137B43144B229F0CA7AC43033E03FCEE25877A3661E88848E436C3D6DD65
  nextValidatorsHash :=
    Bytes.be 32 0x3AEB137B43144B229F0CA7AC43033E03FCEE25877A3661E88848E436C3D6DD65
  consensusHash := Bytes.be 32 0xAD82B220C509602720D74FD75BCE7CFE9B148039958F236D8894E00EB1599E04
  appHash := Bytes.be 32 0x1CCD765C80D0DC1705BB7B6BE616DAD3CF2E6439BB9A9B776D5BD183F89CA141
  lastResultsHash := []
  evidenceHash := []
  proposerAddress := Bytes.be 20 0xF23391B5DBF982E37FB7DADEA64AAE21CAE4C172

/-- A commit in which the stores other than the oracle store are empty. -/
def commit (oracleHash : Bytes) : List StoreInfo :=
  storeNames.map fun name => ⟨name, if name = Bytes.ascii "oracle" then oracleHash else []⟩

lemma map_name_commit (oracleHash : Bytes) :
    (commit oracleHash).map StoreInfo.name = storeNames := by
  rw [commit, List.map_map]
  exact List.map_id _

end Sample

/-- A header of the chain, and a commit whose oracle store is not empty. -/
theorem proofs_fit_contract_sample :
    (∃ blockHeader,
      (getBlockHeaderMerkleParts Sample.codec Sample.header381837).encodeToEthFormat.getBlockHeader
          (bytesToHash Sample.header381837.appHash) 381837 = .ok blockHeader ∧
        blockHeader.1 = Sample.header381837.hash Sample.codec) ∧
    (getMultiStoreProof (Sample.commit Sample.header.1)).encodeToEthFormat.getAppHash.1 =
      appHash (Sample.commit Sample.header.1) := by
  obtain ⟨hheader, hcommit⟩ := proofs_fit_contract Sample.codec
  refine ⟨hheader Sample.header381837 (Bytes.length_be 32 _) (by decide), ?_⟩
  refine hcommit _ (by rw [Sample.map_name_commit]) fun info hinfo hname => ?_
  obtain ⟨name, -, rfl⟩ := List.mem_map.mp hinfo
  rw [if_pos hname]
  exact Sample.header.2

/-! ## An empty oracle store -/

namespace Sample

lemma storeHashes_commit_nil : storeHashes (commit []) = fun _ => [] := by
  have hfold : ∀ l : List StoreInfo, (∀ info ∈ l, info.hash = []) →
      l.foldl (fun m info => Function.update m info.name info.hash) (fun _ => ([] : Bytes)) =
        fun _ => [] := by
    intro l
    induction l with
    | nil => exact fun _ => rfl
    | cons info l ih =>
      intro hl
      rw [List.foldl_cons, hl info List.mem_cons_self, Function.update_eq_self_iff.mpr rfl]
      exact ih fun i hi => hl i (List.mem_cons_of_mem _ hi)
  refine hfold _ fun info hinfo => ?_
  obtain ⟨name, -, rfl⟩ := List.mem_map.mp hinfo
  exact ite_self _

/-- The leaf of an empty store, with the double hash of the empty string. -/
def emptyLeaf (name : String) : Bytes :=
  [UInt8.ofNat (Bytes.ascii name).length] ++ Bytes.ascii name ++ ([32] ++
    (word 0x5df6e0e2761359d30a8275058e299fcc0381534545f55cf43e41983f5d4c9456).1)

/-- The tree of a commit over empty stores, with any leaf for the oracle store. -/
def emptyTree (oracleLeaf : Bytes) : Bytes32 :=
  Utils.merkleInnerHash
    (word 0xffe8de0e3308f1a0c509b82a8f7f8d210661647c938dc0291cc51a373e00bb15)
    (Utils.merkleInnerHash
      (Utils.merkleInnerHash
        (Utils.merkleInnerHash
          (word 0x8a735c64f5ef5f34186673fc943bf134b117ea30798441dc05c44fde01b6a586)
          (Utils.merkleLeafHash oracleLeaf))
        (word 0xf7e6dd22578be724e76f445bacdf375e21b957555570311975426aae06439f96))
      (word 0x92c9990138f316666e8e6885564e10bcdc92b1bc5e22a7eebc10a711550e4a5b))

/-- The hashes in the two trees. -/
lemma hashes_empty :
    sha256 (sha256 []) =
      (word 0x5df6e0e2761359d30a8275058e299fcc0381534545f55cf43e41983f5d4c9456).1 ∧
    rootHash [emptyLeaf "acc", emptyLeaf "bank", emptyLeaf "capability", emptyLeaf "distribution",
      emptyLeaf "evidence", emptyLeaf "gov", emptyLeaf "ibc", emptyLeaf "mem_capability"] =
        word 0xffe8de0e3308f1a0c509b82a8f7f8d210661647c938dc0291cc51a373e00bb15 ∧
    rootHash [emptyLeaf "mint"] =
      word 0x8a735c64f5ef5f34186673fc943bf134b117ea30798441dc05c44fde01b6a586 ∧
    rootHash [emptyLeaf "params", emptyLeaf "slashing"] =
      word 0xf7e6dd22578be724e76f445bacdf375e21b957555570311975426aae06439f96 ∧
    rootHash [emptyLeaf "staking", emptyLeaf "upgrade"] =
      word 0x92c9990138f316666e8e6885564e10bcdc92b1bc5e22a7eebc10a711550e4a5b ∧
    emptyTree (encodeStoreMerkleHash (Bytes.ascii "oracle") (word 0).1) ≠
      emptyTree (emptyLeaf "oracle") := by
  simp only [rootHash_eight, rootHash_four, rootHash_two, rootHash_singleton, emptyTree,
    encodeStoreMerkleHash, Utils.merkleInnerHash, Utils.merkleLeafHash, sha256_eq_sha256Nat,
    sha256Digest_eq_sha256DigestNat]
  decide +kernel

lemma encodeStoreMerkleHash_nil (name : String) :
    encodeStoreMerkleHash (Bytes.ascii name) [] = emptyLeaf name := by
  rw [encodeStoreMerkleHash, hashes_empty.1, emptyLeaf]

/-- The app hash of the commit over empty stores. -/
lemma appHash_commit_nil : appHash (commit []) = (emptyTree (emptyLeaf "oracle")).1 := by
  rw [appHash_eq (by rw [map_name_commit]), storeHashes_commit_nil, storeNames]
  simp only [List.map_cons, List.map_nil, encodeStoreMerkleHash_nil]
  obtain ⟨-, hacc, hmint, hparams, hstaking, -⟩ := hashes_empty
  rw [← rootHash_val (List.cons_ne_nil _ _), rootHash_multiStore, hacc, hmint, hparams, hstaking]
  rfl

/-- For the contract, the empty root of the oracle store is the string of 32 zeros. -/
lemma getAppHash_commit_nil :
    (getMultiStoreProof (commit [])).encodeToEthFormat.getAppHash =
      emptyTree (encodeStoreMerkleHash (Bytes.ascii "oracle") (word 0).1) := by
  have hroot : (bytesToHash []).1 = (word 0).1 := rfl
  rw [MultiStore.Data.getAppHash, oracleLeaf_getMultiStoreProof, getMultiStoreProof,
    storeHashes_commit_nil, hroot]
  simp only [encodeStoreMerkleHash_nil]
  show Utils.merkleInnerHash (rootHash _) (Utils.merkleInnerHash (Utils.merkleInnerHash
    (Utils.merkleInnerHash (rootHash _) _) (rootHash _)) (rootHash _)) = _
  obtain ⟨-, hacc, hmint, hparams, hstaking, -⟩ := hashes_empty
  rw [hacc, hmint, hparams, hstaking]
  rfl

end Sample

/-- The app hash of a commit whose oracle store is empty is not the one that the contract computes
from its proof. -/
theorem not_getAppHash_of_empty_oracle :
    ¬ ∀ infos : List StoreInfo, (infos.map StoreInfo.name).Perm storeNames →
      (getMultiStoreProof infos).encodeToEthFormat.getAppHash.1 = appHash infos := by
  intro h
  have hempty := h (Sample.commit []) (by rw [Sample.map_name_commit])
  rw [Sample.getAppHash_commit_nil, Sample.appHash_commit_nil] at hempty
  obtain ⟨-, -, -, -, -, hne⟩ := Sample.hashes_empty
  exact hne (Subtype.ext hempty)

end Bandchain.Bridge
