import Bandchain.Bridge.Prover
import Bandchain.Bridge.Signers
import Bandchain.Lib.Hex
import Bandchain.Lib.Table

/-!
# The signatures of a relay

How the prover turns the votes of a signed header into the signatures of a relay: it splits what
every validator has signed at the block hash, finds the bit by which the signer can be recovered,
and sorts the signatures by the Ethereum addresses of the signers.  The bridge accepts their
order.
-/

namespace Bandchain.Bridge

open Exec

/-! ## The cryptography -/

/-- What the prover gets from elsewhere.  Recovery takes a signature of 64 bytes with one more
byte for the choice between two keys. -/
structure Crypto where
  PubKey : Type
  /-- `crypto.SigToPub`. -/
  sigToPub : Bytes32 → Bytes → Option PubKey
  /-- `crypto.CompressPubkey`. -/
  compressPubkey : PubKey → Bytes
  /-- The Tendermint address of a compressed key. -/
  tmAddress : Bytes → Bytes
  /-- `crypto.PubkeyToAddress`. -/
  pubkeyToAddress : PubKey → Bytes
  length_sig : ∀ {digest : Bytes32} {sig : Bytes} {p : PubKey},
    sigToPub digest sig = some p → sig.length = 65
  length_address : ∀ p : PubKey, (pubkeyToAddress p).length = 20

/-- The number of a 20-byte address. -/
def addressOf (b : Bytes) : Address := BitVec.ofNat 160 (Bytes.ofBe b)

/-- The precompiled contract recovers the same signer as the prover, and zero for none. -/
structure Agrees (crypto : Crypto) (platform : Platform) : Prop where
  ecrecover : ∀ (digest r s : Bytes32) (i : UInt8) (p : crypto.PubKey), i < 2 →
    crypto.sigToPub digest (r.1 ++ s.1 ++ [i]) = some p →
    platform.ecrecover digest (27 + i) r s = addressOf (crypto.pubkeyToAddress p)
  ne_zero : ∀ p : crypto.PubKey, addressOf (crypto.pubkeyToAddress p) ≠ 0

/-! ## Votes and signatures -/

structure CommitSig where
  forBlock : Bool
  validatorAddress : Bytes
  signature : Bytes
deriving DecidableEq

/-- The part of a signed header that the prover reads. -/
structure SignedHeader where
  /-- The hash in the block ID of the commit. -/
  blockHash : Bytes
  signatures : List CommitSig
  /-- `Commit.VoteSignBytes`: what the validator with the given index has signed. -/
  voteSignBytes : ℕ → Bytes

/-- The votes for the block, with their indices. -/
def SignedHeader.votes (info : SignedHeader) : List (CommitSig × ℕ) :=
  info.signatures.zipIdx.filter (·.1.forBlock)

structure TMSignature where
  r : Bytes
  s : Bytes
  v : UInt8
  signedDataSuffix : Bytes
deriving DecidableEq

def TMSignature.encodeToEthFormat (signature : TMSignature) : TMSignature.Data where
  r := bytesToHash signature.r
  s := bytesToHash signature.s
  v := signature.v
  signedDataSuffix := signature.signedDataSuffix

/-! ## The prover -/

inductive ProverError
  | splitBlockHash
  | inconsistentPrefix
  | sigToPub
  | noMatchAddress
  | noValidPrecommit
  | panic
deriving DecidableEq, Repr

section Prover

variable (crypto : Crypto)

/-- The loop of `recoverETHAddress`, from the bit `i` on. -/
def recoverFrom (msg sig signer : Bytes) : List UInt8 → Except ProverError (Bytes × UInt8)
  | [] => .error .noMatchAddress
  | i :: is =>
    match crypto.sigToPub (sha256Digest msg) (sig ++ [i]) with
    | none => .error .sigToPub
    | some pubuc =>
      if signer = crypto.tmAddress (crypto.compressPubkey pubuc) then
        .ok (crypto.pubkeyToAddress pubuc, 27 + i)
      else recoverFrom msg sig signer is

def recoverETHAddress (msg sig signer : Bytes) : Except ProverError (Bytes × UInt8) :=
  recoverFrom crypto msg sig signer [0, 1]

def mustDecodeString (hexstr : Bytes) : Except ProverError Bytes :=
  match Hex.decodeString hexstr with
  | none => .error .panic
  | some b => .ok b

/-- The slices `signature[:32]` and `signature[32:]`. -/
def slices32 (signature : Bytes) : Except ProverError (Bytes × Bytes) :=
  if signature.length < 32 then .error .panic else .ok (signature.take 32, signature.drop 32)

/-- What the loop over the votes has collected. -/
structure Collected where
  /-- The hexadecimal text before the block hash; empty before the first vote. -/
  signedPrefix : Bytes
  addrs : List Bytes
  mapAddrs : Table Bytes TMSignature

/-- The body of the loop over the votes. -/
def collectVote (info : SignedHeader) (acc : Collected) (vote : CommitSig × ℕ) :
    Except ProverError Collected :=
  if vote.1.forBlock = false then .ok acc
  else
    let msg := info.voteSignBytes vote.2
    match Hex.split (Bytes.hex msg) (Bytes.hex info.blockHash) with
    | [left, right] =>
      if acc.signedPrefix ≠ [] ∧ acc.signedPrefix ≠ left then .error .inconsistentPrefix
      else do
        let (addr, v) ← recoverETHAddress crypto msg vote.1.signature vote.1.validatorAddress
        let (r, s) ← slices32 vote.1.signature
        let suffix ← mustDecodeString right
        .ok
          { signedPrefix := left
            addrs := acc.addrs ++ [addr]
            mapAddrs := acc.mapAddrs.insert addr ⟨r, s, v, suffix⟩ }
    | _ => .error .splitBlockHash

def getSignaturesAndPrefix (info : SignedHeader) :
    Except ProverError (List TMSignature × Bytes) := do
  let acc ← info.signatures.zipIdx.foldlM (collectVote crypto info) ⟨[], [], ∅⟩
  if acc.addrs.length = 0 then .error .noValidPrecommit
  else do
    let addrs := acc.addrs.mergeSort (· ≤ ·)
    -- the zero value stands for an address that is not in the map
    let signatures := addrs.map fun addr => (acc.mapAddrs[addr]?).getD ⟨[], [], 0, []⟩
    let signedPrefix ← mustDecodeString acc.signedPrefix
    return (signatures, signedPrefix)

end Prover

/-! ## One vote -/

section Vote

variable {crypto : Crypto} {info : SignedHeader}

/-- What the prover finds out about a vote. -/
structure Entry where
  vote : CommitSig × ℕ
  left : Bytes
  addr : Bytes
  signature : TMSignature

/-- The signature is that of the vote: what was signed stands around the block hash, and the
signer that can be recovered is the validator of the vote, with the given address. -/
structure Entry.Valid (crypto : Crypto) (info : SignedHeader) (e : Entry) : Prop where
  forBlock : e.vote.1.forBlock = true
  split : ∃ p, e.left = Bytes.hex p ∧
    info.voteSignBytes e.vote.2 = p ++ info.blockHash ++ e.signature.signedDataSuffix
  bit : ∃ i : UInt8, i < 2 ∧ e.signature.v = 27 + i ∧ ∃ pub : crypto.PubKey,
    crypto.sigToPub (sha256Digest (info.voteSignBytes e.vote.2))
      (e.signature.r ++ e.signature.s ++ [i]) = some pub ∧
    crypto.tmAddress (crypto.compressPubkey pub) = e.vote.1.validatorAddress ∧
    crypto.pubkeyToAddress pub = e.addr
  length_r : e.signature.r.length = 32
  length_s : e.signature.s.length = 32

lemma recoverFrom_eq_ok {msg sig signer addr : Bytes} {v : UInt8} {is : List UInt8}
    (h : recoverFrom crypto msg sig signer is = .ok (addr, v)) :
    ∃ i ∈ is, v = 27 + i ∧ ∃ pub : crypto.PubKey,
      crypto.sigToPub (sha256Digest msg) (sig ++ [i]) = some pub ∧
      crypto.tmAddress (crypto.compressPubkey pub) = signer ∧
      crypto.pubkeyToAddress pub = addr := by
  induction is with
  | nil => cases h
  | cons i is ih =>
    rw [recoverFrom] at h
    cases hpub : crypto.sigToPub (sha256Digest msg) (sig ++ [i]) with
    | none => simp [hpub] at h
    | some pub =>
      simp only [hpub] at h
      split_ifs at h with hsigner
      · obtain ⟨rfl, rfl⟩ := Prod.mk.inj (Except.ok.inj h)
        exact ⟨i, List.mem_cons_self, rfl, pub, hpub, hsigner.symm, rfl⟩
      · obtain ⟨j, hj, hfound⟩ := ih h
        exact ⟨j, List.mem_cons_of_mem _ hj, hfound⟩

lemma mustDecodeString_eq_ok {s b : Bytes} :
    mustDecodeString s = .ok b ↔ Hex.decodeString s = some b := by
  unfold mustDecodeString
  cases Hex.decodeString s <;> simp

/-- The step of the loop for a vote for the block. -/
lemma collectVote_eq_ok {acc acc' : Collected} {vote : CommitSig × ℕ}
    (hvote : vote.1.forBlock = true) (h : collectVote crypto info acc vote = .ok acc') :
    ∃ e : Entry, e.vote = vote ∧ e.Valid crypto info ∧
      (acc.signedPrefix = [] ∨ acc.signedPrefix = e.left) ∧
      acc' = ⟨e.left, acc.addrs ++ [e.addr], acc.mapAddrs.insert e.addr e.signature⟩ := by
  simp only [collectVote, hvote, Bool.true_eq_false, if_false] at h
  split at h
  · rename_i left right hsplit
    split_ifs at h with hstart
    simp only [except_bind_eq_ok, Prod.exists] at h
    obtain ⟨addr, v, hrecover, r, s, hslices, suffix, hsuffix, h⟩ := h
    obtain rfl := Except.ok.inj h
    obtain ⟨i, hi, rfl, pub, hpub, hsigner, haddr⟩ := recoverFrom_eq_ok hrecover
    obtain ⟨p, rfl, hmsg⟩ := Hex.split_hex hsplit (mustDecodeString_eq_ok.mp hsuffix)
    rw [slices32] at hslices
    split_ifs at hslices with hshort
    obtain ⟨rfl, rfl⟩ := Prod.mk.inj (Except.ok.inj hslices)
    -- recovery has succeeded, so the signature has 64 bytes
    have hlen := crypto.length_sig hpub
    rw [List.length_append, List.length_singleton] at hlen
    have hbit : i < 2 := by
      rcases List.mem_pair.mp hi with rfl | rfl <;> decide
    refine ⟨⟨vote, Bytes.hex p, addr, ⟨vote.1.signature.take 32, vote.1.signature.drop 32, 27 + i,
      suffix⟩⟩, rfl, ?_, ?_, rfl⟩
    · constructor
      · exact hvote
      · exact ⟨p, rfl, hmsg⟩
      · refine ⟨i, hbit, rfl, pub, ?_, hsigner, haddr⟩
        rw [List.take_append_drop]
        exact hpub
      · rw [List.length_take]
        omega
      · rw [List.length_drop]
        omega
    · by_cases hempty : acc.signedPrefix = []
      · exact .inl hempty
      · exact .inr (not_not.mp fun hne => hstart ⟨hempty, hne⟩)
  · cases h

end Vote

/-! ## All votes -/

section Votes

variable {crypto : Crypto} {info : SignedHeader}

/-- What the loop has collected stands for these entries. -/
structure Collects (crypto : Crypto) (info : SignedHeader) (es : List Entry) (acc : Collected) :
    Prop where
  valid : ∀ e ∈ es, e.Valid crypto info
  left_eq : ∀ e ∈ es, e.left = acc.signedPrefix
  addrs_eq : acc.addrs = es.map Entry.addr
  mapAddrs_eq : acc.mapAddrs = es.foldl (fun t e => t.insert e.addr e.signature) ∅

lemma Collects.nil : Collects crypto info [] ⟨[], [], ∅⟩ := by
  constructor <;> simp

/-- What a validator has signed does not start with the block hash, so neither does its text. -/
lemma Entry.Valid.left_ne_nil {e : Entry} (he : e.Valid crypto info)
    (hstart : ¬info.blockHash <+: info.voteSignBytes e.vote.2) : e.left ≠ [] := by
  obtain ⟨p, hleft, hmsg⟩ := he.split
  intro hnil
  have hp : p = [] := Hex.hex_inj (hleft.symm.trans hnil)
  refine hstart ⟨e.signature.signedDataSuffix, ?_⟩
  rw [hmsg, hp, List.nil_append]

lemma Collects.append {es : List Entry} {acc : Collected} {e : Entry}
    (hes : Collects crypto info es acc) (he : e.Valid crypto info)
    (hleft : acc.signedPrefix = [] ∨ acc.signedPrefix = e.left)
    (hnonempty : ∀ e ∈ es, e.left ≠ []) :
    Collects crypto info (es ++ [e])
      ⟨e.left, acc.addrs ++ [e.addr], acc.mapAddrs.insert e.addr e.signature⟩ where
  valid := List.forall_mem_append.mpr ⟨hes.valid, List.forall_mem_singleton.mpr he⟩
  left_eq := by
    refine List.forall_mem_append.mpr ⟨fun d hd => ?_, List.forall_mem_singleton.mpr rfl⟩
    rcases hleft with hempty | heq
    · -- an entry before this one would have set the prefix
      exact absurd ((hes.left_eq d hd).trans hempty) (hnonempty d hd)
    · exact (hes.left_eq d hd).trans heq
  addrs_eq := by rw [hes.addrs_eq, List.map_append, List.map_singleton]
  mapAddrs_eq := by rw [hes.mapAddrs_eq, List.foldl_append, List.foldl_cons, List.foldl_nil]

/-- **The loop over the votes.**  There is one entry for each vote for the block, in order. -/
lemma collects_foldlM {votes : List (CommitSig × ℕ)} {es : List Entry} {acc acc' : Collected}
    (hstart : ∀ vote ∈ votes, vote.1.forBlock = true →
      ¬info.blockHash <+: info.voteSignBytes vote.2)
    (hnonempty : ∀ e ∈ es, e.left ≠ []) (hes : Collects crypto info es acc)
    (h : votes.foldlM (collectVote crypto info) acc = .ok acc') :
    ∃ es', es'.map Entry.vote = votes.filter (·.1.forBlock) ∧
      Collects crypto info (es ++ es') acc' := by
  induction votes generalizing es acc with
  | nil =>
    obtain rfl := Except.ok.inj h
    exact ⟨[], rfl, by rwa [List.append_nil]⟩
  | cons vote votes ih =>
    obtain ⟨hvote, hvotes⟩ := List.forall_mem_cons.mp hstart
    rw [List.foldlM_cons, except_bind_eq_ok] at h
    obtain ⟨mid, hmid, h⟩ := h
    cases hfor : vote.1.forBlock with
    | false =>
      -- votes for nothing are skipped
      rw [collectVote, if_pos hfor] at hmid
      obtain rfl := Except.ok.inj hmid
      rw [List.filter_cons_of_neg (by rw [hfor]; decide)]
      exact ih hvotes hnonempty hes h
    | true =>
      obtain ⟨e, rfl, he, hleft, rfl⟩ := collectVote_eq_ok hfor hmid
      have hne := he.left_ne_nil (hvote hfor)
      obtain ⟨es', hes', hcollects⟩ := ih hvotes
        (List.forall_mem_append.mpr ⟨hnonempty, List.forall_mem_singleton.mpr hne⟩)
        (hes.append he hleft hnonempty) h
      rw [List.append_assoc] at hcollects
      refine ⟨e :: es', ?_, hcollects⟩
      rw [List.map_cons, hes', List.filter_cons, if_pos hfor]

/-- The entries in the order of their addresses. -/
def sortEntries (es : List Entry) : List Entry := es.mergeSort (·.addr ≤ ·.addr)

lemma map_sortEntries (es : List Entry) :
    (sortEntries es).map Entry.addr = (es.map Entry.addr).mergeSort (· ≤ ·) :=
  List.map_mergeSort fun _ _ _ _ => rfl

/-- The signature that the table has for the address of an entry is that of the entry. -/
lemma Collects.getElem?_mapAddrs {es : List Entry} {acc : Collected}
    (hes : Collects crypto info es acc) (hnodup : (es.map Entry.addr).Nodup) {e : Entry}
    (he : e ∈ es) : acc.mapAddrs[e.addr]? = some e.signature := by
  have hfold : es.foldl (fun t e => t.insert e.addr e.signature) (∅ : Table Bytes TMSignature) =
      (∅ : Table Bytes TMSignature).insertMany (es.map fun e => (e.addr, e.signature)) := by
    rw [← Table.foldl_insert, List.foldl_map]
  rw [hes.mapAddrs_eq, hfold]
  refine Table.getElem?_insertMany_of_mem ?_ (List.mem_map_of_mem he)
  rw [List.map_map]
  exact hnodup

/-- What the prover returns comes from one entry for each vote for the block, sorted by their
addresses. -/
lemma getSignaturesAndPrefix_eq_ok {signatures : List TMSignature} {signedPrefix : Bytes}
    (hstart : ∀ vote ∈ info.votes, ¬info.blockHash <+: info.voteSignBytes vote.2)
    (hnodup : ∀ {es : List Entry}, (∀ e ∈ es, e.Valid crypto info) →
      es.map Entry.vote = info.votes → (es.map Entry.addr).Nodup)
    (h : getSignaturesAndPrefix crypto info = .ok (signatures, signedPrefix)) :
    ∃ es : List Entry, es.map Entry.vote = info.votes ∧ (∀ e ∈ es, e.Valid crypto info) ∧
      (∀ e ∈ es, e.left = Bytes.hex signedPrefix) ∧
      signatures = (sortEntries es).map Entry.signature := by
  rw [getSignaturesAndPrefix, except_bind_eq_ok] at h
  obtain ⟨acc, hacc, h⟩ := h
  split_ifs at h with hempty
  rw [except_bind_eq_ok] at h
  obtain ⟨b, hb, h⟩ := h
  obtain ⟨rfl, rfl⟩ := Prod.mk.inj (Except.ok.inj h)
  obtain ⟨es, hvotes, hes⟩ := collects_foldlM
    (fun vote hvote hfor => hstart vote (List.mem_filter.mpr ⟨hvote, hfor⟩))
    (List.forall_mem_nil _) .nil hacc
  rw [List.nil_append] at hes
  have hdistinct := hnodup hes.valid hvotes
  refine ⟨es, hvotes, hes.valid, fun e he => ?_, ?_⟩
  · obtain ⟨p, hleft, _⟩ := (hes.valid e he).split
    rw [mustDecodeString_eq_ok, ← hes.left_eq e he, hleft, Hex.decodeString_hex] at hb
    rw [hleft, Option.some.inj hb]
  · rw [hes.addrs_eq, ← map_sortEntries, List.map_map]
    refine List.map_congr_left fun e he => ?_
    have hmem : e ∈ es := (List.mergeSort_perm _ _).mem_iff.mp he
    rw [Function.comp_apply, hes.getElem?_mapAddrs hdistinct hmem, Option.getD_some]

/-- Different validators have different addresses on the other chain. -/
lemma nodup_addrs {es : List Entry} (hinj : Function.Injective crypto.pubkeyToAddress)
    (hes : ∀ e ∈ es, e.Valid crypto info)
    (hnodup : (es.map (·.vote.1.validatorAddress)).Nodup) : (es.map Entry.addr).Nodup := by
  rw [List.Nodup, List.pairwise_map] at hnodup ⊢
  refine hnodup.imp_of_mem fun {d e} hd he hne heq => hne ?_
  obtain ⟨_, _, _, pub, _, hpub, haddr⟩ := (hes d hd).bit
  obtain ⟨_, _, _, pub', _, hpub', haddr'⟩ := (hes e he).bit
  obtain rfl := hinj (haddr.trans (heq.trans haddr'.symm))
  exact hpub.symm.trans hpub'

end Votes

/-! ## The order of the bridge -/

section Order

lemma toNat_addressOf {b : Bytes} (h : b.length = 20) : (addressOf b).toNat = Bytes.ofBe b := by
  have hlt := Bytes.ofBe_lt b
  rw [h] at hlt
  rw [addressOf, BitVec.toNat_ofNat]
  exact Nat.mod_eq_of_lt hlt

/-- The order of addresses as strings is that of their numbers. -/
lemma addressOf_lt_iff {a b : Bytes} (ha : a.length = 20) (hb : b.length = 20) :
    addressOf a < addressOf b ↔ a < b := by
  have hlt : ∀ {c : Bytes}, c.length = 20 → Bytes.ofBe c < 256 ^ 20 := by
    intro c hc
    rw [← hc]
    exact Bytes.ofBe_lt c
  have hbe : ∀ {c : Bytes}, c.length = 20 → Bytes.be 20 (Bytes.ofBe c) = c := by
    intro c hc
    rw [← hc, Bytes.be_ofBe]
  rw [BitVec.lt_def, toNat_addressOf ha, toNat_addressOf hb, ← Bytes.be_lt_be_iff (hlt ha) (hlt hb),
    hbe ha, hbe hb]

lemma val_bytesToHash {b : Bytes} (h : b.length = 32) : (bytesToHash b).1 = b := by
  simp [bytesToHash, h]

variable {crypto : Crypto} {platform : Platform} {info : SignedHeader}

/-- The bridge recovers the address of the entry. -/
lemma Entry.Valid.recoverSigner_eq {e : Entry} {blockHeader : Bytes32} {signedPrefix : Bytes}
    (he : e.Valid crypto info) (hagrees : Agrees crypto platform)
    (hheader : blockHeader.1 = info.blockHash) (hleft : e.left = Bytes.hex signedPrefix) :
    e.signature.encodeToEthFormat.recoverSigner platform blockHeader signedPrefix =
      addressOf e.addr := by
  obtain ⟨p, hp, hmsg⟩ := he.split
  obtain rfl := Hex.hex_inj (hleft.symm.trans hp)
  obtain ⟨i, hi, hv, pub, hpub, _, haddr⟩ := he.bit
  have hdata : e.signature.encodeToEthFormat.signedData blockHeader signedPrefix =
      info.voteSignBytes e.vote.2 := by
    rw [TMSignature.Data.signedData, hheader, hmsg]
    rfl
  rw [← val_bytesToHash he.length_r, ← val_bytesToHash he.length_s] at hpub
  rw [TMSignature.Data.recoverSigner, hdata, ← haddr, ← hagrees.ecrecover _ _ _ i pub hi hpub, ← hv]
  rfl

/-- The addresses of the entries are increasing once they are sorted. -/
lemma pairwise_sortEntries {es : List Entry} (hnodup : (es.map Entry.addr).Nodup) :
    (sortEntries es).Pairwise (·.addr < ·.addr) := by
  have hle : ((sortEntries es).map Entry.addr).Pairwise (· ≤ ·) := by
    rw [map_sortEntries]
    exact List.pairwise_mergeSort' _ _
  have hne : ((sortEntries es).map Entry.addr).Nodup :=
    ((List.mergeSort_perm es _).map _).nodup_iff.mpr hnodup
  rw [List.Nodup, List.pairwise_map] at hne
  rw [List.pairwise_map] at hle
  refine hle.imp₂ (fun d e hle hne => ?_) hne
  by_contra hnot
  exact hne (List.le_antisymm hle hnot)

/-- On increasing signers the loop of the bridge can only fail when it adds their powers. -/
lemma add_of_foldlM_countSignature {s : Storage} {blockHeader : Bytes32} {signedPrefix : Bytes}
    {signatures : List TMSignature.Data} {acc : Address × UInt256} {e : Revert}
    (hsorted : (acc.1 ::
      signatures.map (·.recoverSigner platform blockHeader signedPrefix)).Pairwise
      (· < ·))
    (h : signatures.foldlM (countSignature platform s blockHeader signedPrefix) acc = .error e) :
    ∃ a b, platform.add a b = .error e := by
  induction signatures generalizing acc with
  | nil => cases h
  | cons signature signatures ih =>
    rw [List.map_cons] at hsorted
    obtain ⟨hlt, hsorted⟩ := List.pairwise_cons.mp hsorted
    rw [List.foldlM_cons, except_bind_eq_error] at h
    rcases h with hstep | ⟨mid, hmid, h⟩
    · simp only [countSignature, except_bind_eq_error, require_eq_error] at hstep
      rcases hstep with ⟨hnot, _⟩ | ⟨_, _, hadd | ⟨_, _, hret⟩⟩
      · exact absurd (hlt _ List.mem_cons_self) hnot
      · exact ⟨_, _, hadd⟩
      · cases hret
    · rw [← (countSignature_eq_ok hmid).1] at hsorted
      exact ih hsorted h

/-- On increasing signers a relay is not rejected for their order. -/
lemma error_of_relayOracleState {s : Storage} {args : RelayArgs} {blockHeader : Bytes32}
    {e : Revert} (hheader : args.blockHeader = .ok blockHeader)
    (hsorted : (0 :: args.signers platform blockHeader).Pairwise (· < ·))
    (h : relayOracleState platform args s = .error e) :
    e = .require "INSUFFICIENT_VALIDATOR_SIGNATURES" ∨
      ∃ a b, platform.add a b = .error e ∨ platform.mul a b = .error e := by
  simp only [relayOracleState, except_bind_eq_error, require_eq_error] at h
  rcases h with hfail | ⟨header, hok, hcount | ⟨_, _, hthree | ⟨_, _, htwo | ⟨_, _, hless | hret⟩⟩⟩⟩
  · -- the block header has been computed
    cases hheader.symm.trans hfail
  · obtain rfl := Except.ok.inj (hheader.symm.trans hok)
    obtain ⟨a, b, hadd⟩ := add_of_foldlM_countSignature hsorted hcount
    exact .inr ⟨a, b, .inl hadd⟩
  · exact .inr ⟨_, _, .inr hthree⟩
  · exact .inr ⟨_, _, .inr htwo⟩
  · exact .inl hless.2
  · obtain ⟨_, _, hret⟩ := hret
    cases hret

/-- The signature is that of the vote: what was signed is the prefix, the block hash and the
suffix, and the signer that can be recovered is the validator of the vote. -/
structure SignedBy (crypto : Crypto) (info : SignedHeader) (signedPrefix : Bytes)
    (vote : CommitSig × ℕ) (signature : TMSignature) : Prop where
  signed : info.voteSignBytes vote.2 =
    signedPrefix ++ info.blockHash ++ signature.signedDataSuffix
  recovers : ∃ i : UInt8, i < 2 ∧ signature.v = 27 + i ∧ ∃ pub : crypto.PubKey,
    crypto.sigToPub (sha256Digest (info.voteSignBytes vote.2))
      (signature.r ++ signature.s ++ [i]) = some pub ∧
    crypto.tmAddress (crypto.compressPubkey pub) = vote.1.validatorAddress

lemma Entry.Valid.signedBy {e : Entry} {signedPrefix : Bytes} (he : e.Valid crypto info)
    (hleft : e.left = Bytes.hex signedPrefix) :
    SignedBy crypto info signedPrefix e.vote e.signature := by
  obtain ⟨p, hp, hmsg⟩ := he.split
  obtain ⟨i, hi, hv, pub, hpub, hsigner, _⟩ := he.bit
  obtain rfl := Hex.hex_inj (hleft.symm.trans hp)
  exact ⟨hmsg, i, hi, hv, pub, hpub, hsigner⟩

lemma Entry.Valid.exists_pub {e : Entry} (he : e.Valid crypto info) : ∃ pub : crypto.PubKey,
    crypto.tmAddress (crypto.compressPubkey pub) = e.vote.1.validatorAddress ∧
      e.addr = crypto.pubkeyToAddress pub := by
  obtain ⟨_, _, _, pub, _, hsigner, haddr⟩ := he.bit
  exact ⟨pub, hsigner, haddr.symm⟩

lemma Entry.Valid.length_addr {e : Entry} (he : e.Valid crypto info) : e.addr.length = 20 := by
  obtain ⟨pub, _, haddr⟩ := he.exists_pub
  rw [haddr, crypto.length_address]

/-- **The signatures of a relay.**  If the votes for the block come from different validators, the
prover returns the signature of each of them, all with the same prefix.  The bridge recovers the
validators of the votes, in increasing order, so a relay with these signatures is not rejected for
the order of its signers: it can only fail for their powers. -/
theorem getSignaturesAndPrefix_sorted {signatures : List TMSignature} {signedPrefix : Bytes}
    (hdistinct : (info.votes.map (·.1.validatorAddress)).Nodup)
    (hstart : ∀ vote ∈ info.votes, ¬info.blockHash <+: info.voteSignBytes vote.2)
    (hinj : Function.Injective crypto.pubkeyToAddress)
    (h : getSignaturesAndPrefix crypto info = .ok (signatures, signedPrefix)) :
    ∃ votes : List (CommitSig × ℕ), votes.Perm info.votes ∧
      List.Forall₂ (SignedBy crypto info signedPrefix) votes signatures ∧
      ∀ (platform : Platform) (blockHeader : Bytes32), Agrees crypto platform →
        blockHeader.1 = info.blockHash →
        List.Forall₂ (fun vote signature => ∃ pub : crypto.PubKey,
          crypto.tmAddress (crypto.compressPubkey pub) = vote.1.validatorAddress ∧
          signature.encodeToEthFormat.recoverSigner platform blockHeader signedPrefix =
            addressOf (crypto.pubkeyToAddress pub)) votes signatures ∧
        (signatures.map
          (·.encodeToEthFormat.recoverSigner platform blockHeader signedPrefix)).Pairwise (· < ·) ∧
        ∀ (s : Storage) (args : RelayArgs) (e : Revert),
          args.blockHeader = .ok blockHeader → args.signedDataPrefix = signedPrefix →
          args.signatures = signatures.map TMSignature.encodeToEthFormat →
          relayOracleState platform args s = .error e →
            e = .require "INSUFFICIENT_VALIDATOR_SIGNATURES" ∨
              ∃ a b, platform.add a b = .error e ∨ platform.mul a b = .error e := by
  have hnodup : ∀ {es : List Entry}, (∀ e ∈ es, e.Valid crypto info) →
      es.map Entry.vote = info.votes → (es.map Entry.addr).Nodup := by
    intro es hes hvotes
    refine nodup_addrs hinj hes ?_
    rw [← hvotes, List.map_map] at hdistinct
    exact hdistinct
  obtain ⟨es, hvotes, hvalid, hleft, rfl⟩ := getSignaturesAndPrefix_eq_ok hstart hnodup h
  have hperm : (sortEntries es).Perm es := List.mergeSort_perm _ _
  have hvalid' : ∀ e ∈ sortEntries es, e.Valid crypto info := fun e he =>
    hvalid e (hperm.mem_iff.mp he)
  have hleft' : ∀ e ∈ sortEntries es, e.left = Bytes.hex signedPrefix := fun e he =>
    hleft e (hperm.mem_iff.mp he)
  refine ⟨(sortEntries es).map Entry.vote, hvotes ▸ hperm.map _, ?_, ?_⟩
  · rw [List.forall₂_map_left_iff, List.forall₂_map_right_iff, List.forall₂_same]
    exact fun e he => (hvalid' e he).signedBy (hleft' e he)
  intro platform blockHeader hagrees hheader
  have hsigner : ∀ e ∈ sortEntries es,
      e.signature.encodeToEthFormat.recoverSigner platform blockHeader signedPrefix =
        addressOf e.addr := fun e he =>
    (hvalid' e he).recoverSigner_eq hagrees hheader (hleft' e he)
  have hincreasing : ((sortEntries es).map (·.signature.encodeToEthFormat.recoverSigner platform
      blockHeader signedPrefix)).Pairwise (· < ·) := by
    rw [List.pairwise_map]
    refine (pairwise_sortEntries (hnodup hvalid hvotes)).imp_of_mem fun {d e} hd he hlt => ?_
    rw [hsigner d hd, hsigner e he,
      addressOf_lt_iff (hvalid' d hd).length_addr (hvalid' e he).length_addr]
    exact hlt
  refine ⟨?_, by rwa [List.map_map], ?_⟩
  · rw [List.forall₂_map_left_iff, List.forall₂_map_right_iff, List.forall₂_same]
    intro e he
    obtain ⟨pub, htm, haddr⟩ := (hvalid' e he).exists_pub
    exact ⟨pub, htm, by rw [hsigner e he, haddr]⟩
  · rintro s args e hargs rfl hsignatures herror
    refine error_of_relayOracleState hargs ?_ herror
    have hsigners : args.signers platform blockHeader = (sortEntries es).map
        (·.signature.encodeToEthFormat.recoverSigner platform blockHeader
          args.signedDataPrefix) := by
      rw [RelayArgs.signers, hsignatures, List.map_map, List.map_map]
      rfl
    rw [hsigners]
    refine List.pairwise_cons.mpr ⟨fun a ha => ?_, hincreasing⟩
    obtain ⟨e', he', rfl⟩ := List.mem_map.mp ha
    obtain ⟨pub, _, haddr⟩ := (hvalid' e' he').exists_pub
    rw [hsigner e' he', haddr]
    exact Nat.pos_of_ne_zero fun hzero => hagrees.ne_zero pub (BitVec.eq_of_toNat_eq hzero)

end Order

/-! ## Three votes out of order -/

namespace Sample

/-- The keys that can be recovered from the three signatures, two from each: the compressed key,
its address on the other chain, and its Tendermint address. -/
def keys : List (ℕ × ℕ × ℕ) :=
  [(0x02724ae29cfeb7497051d09edfd8e822352c4c8361b757647645b78c8cc74ce885,
    0x88e1cd00710495eeb93d4f522d16bc8b87cb00fe, 0x5179b0bb203248e03d2a1342896133b5c58e1e44),
   (0x02967d75e09bfa49f23d5f63f80600afbb7f3b4bb8285ba467ed55d3cbbc8dc5fd,
    0x2daa53f49cc24072ab595508be84331641edd531, 0x70150e531b526b518c4105d777ce99069482e998),
   (0x02a50f0efb206472e2e66d79a58dc86d84d1d6828a85185c26f002c030d2fec059,
    0x1018655551f38212ec83fe8b448e10f1cc0bfc2e, 0x056555a11168e8020a8d1f0ea21e05f4e2473dc9),
   (0x03f57f3997a4e81d8f321e9710927e22c2e6d30fb6d8f749a9e4a07afb3b3b7909,
    0xaaa22e077492cbad414098ebd98aa8dc1c7ae8d9, 0xf23391b5dbf982e37fb7dadea64aae21cae4c172),
   (0x03f99d0a64c674a5e1fe0ce152b372a36556eaa66ba86ce11baf9eca7ce10cd4e1,
    0x876a737bde110b47f431995801182b67aedf79b0, 0x644dddcacf6bbc670ea2840097c6e8a1ad861ff0),
   (0x03d03708f161d1583f49e4260a42b2b08d3ba186d7803a23cc3acd12f074d9d76f,
    0xb956589b6fc5523eed0d9eecff06262ce84ff260, 0xf0c23921727d869745c4f9703cf33996b1d2b715)]

def key (p : Fin 6) : ℕ × ℕ × ℕ := keys.get p

/-- The cryptography on the three signatures. -/
def crypto : Crypto where
  PubKey := Fin 6
  sigToPub digest sig :=
    (List.finRange 6).find? fun p =>
      (signatures[p.1 / 2]?).any fun signature =>
        sig = signature.r.1 ++ signature.s.1 ++ [UInt8.ofNat (p.1 % 2)] ∧
          digest = sha256Digest (signature.signedData header relayArgs.signedDataPrefix)
  compressPubkey p := Bytes.be 33 (key p).1
  tmAddress b := ((List.finRange 6).find? fun p => b = Bytes.be 33 (key p).1).elim [] fun p =>
    Bytes.be 20 (key p).2.2
  pubkeyToAddress p := Bytes.be 20 (key p).2.1
  length_sig := by
    intro digest sig p h
    have hfound := List.find?_some h
    simp only [Option.any_eq_true, decide_eq_true_eq] at hfound
    obtain ⟨signature, _, rfl, _⟩ := hfound
    rw [List.length_append, List.length_append, signature.r.2, signature.s.2]
    rfl
  length_address _ := Bytes.length_be _ _

/-- A vote for no block, and three votes for the block that are not in the order of the addresses
of the signers. -/
def signedHeader : SignedHeader where
  blockHash := header.1
  signatures := ⟨false, [], []⟩ :: [(2, 5), (0, 0), (1, 3)].map fun p : ℕ × Fin 6 =>
    ⟨true, Bytes.be 20 (key p.2).2.2,
      (signatures[p.1]?).elim [] fun signature => signature.r.1 ++ signature.s.1⟩
  voteSignBytes i := (([signatures[2]?, signatures[0]?, signatures[1]?][i - 1]?).join).elim []
    fun signature => signature.signedData header relayArgs.signedDataPrefix

lemma signedHeader_facts :
    (signedHeader.votes.map (·.1.validatorAddress)).Nodup ∧
      (∀ vote ∈ signedHeader.votes,
        ¬signedHeader.blockHash <+: signedHeader.voteSignBytes vote.2) ∧
      ((signedHeader.signatures.zipIdx.foldlM (collectVote crypto signedHeader)
        ⟨[], [], ∅⟩).toOption.map fun acc => (acc.signedPrefix, acc.addrs.length)) =
          some (Bytes.hex relayArgs.signedDataPrefix, 3) := by
  decide +kernel

lemma address_facts :
    (∀ p q : Fin 6, Bytes.be 20 (key p).2.1 = Bytes.be 20 (key q).2.1 → p = q) ∧
      ∀ p : Fin 6, addressOf (Bytes.be 20 (key p).2.1) ≠ 0 := by
  decide +kernel

lemma pubkeyToAddress_injective : Function.Injective crypto.pubkeyToAddress := address_facts.1

lemma exists_signatures : ∃ signatures : List TMSignature,
    getSignaturesAndPrefix crypto signedHeader = .ok (signatures, relayArgs.signedDataPrefix) := by
  obtain ⟨acc, hacc, hfacts⟩ := Option.map_eq_some_iff.mp signedHeader_facts.2.2
  obtain ⟨hstart, hlength⟩ := Prod.mk.inj hfacts
  refine ⟨(acc.addrs.mergeSort (· ≤ ·)).map fun addr =>
    (acc.mapAddrs[addr]?).getD ⟨[], [], 0, []⟩, ?_⟩
  rw [getSignaturesAndPrefix, except_bind_eq_ok]
  refine ⟨acc, toOption_eq_some.mp hacc, ?_⟩
  rw [hstart, mustDecodeString, Hex.decodeString_hex, if_neg (by omega)]
  rfl

/-- The precompiled contract, with the cryptography of the sample. -/
def platform : Platform :=
  evm fun digest v r s =>
    (crypto.sigToPub digest (r.1 ++ s.1 ++ [v - 27])).elim 0 fun p =>
      addressOf (crypto.pubkeyToAddress p)

lemma agrees : Agrees crypto platform where
  ecrecover digest r s i p _ h := by
    have hbit : 27 + i - 27 = i := add_sub_cancel_left 27 i
    show (crypto.sigToPub digest (r.1 ++ s.1 ++ [27 + i - 27])).elim 0 _ = _
    rw [hbit, h]
    rfl
  ne_zero := address_facts.2

end Sample

/-- The prover sorts the signatures of the three votes. -/
theorem getSignaturesAndPrefix_sorted_sample : ∃ signatures : List TMSignature,
    getSignaturesAndPrefix Sample.crypto Sample.signedHeader =
      .ok (signatures, Sample.relayArgs.signedDataPrefix) ∧
    (signatures.map (·.encodeToEthFormat.recoverSigner Sample.platform Sample.header
      Sample.relayArgs.signedDataPrefix)).Pairwise (· < ·) := by
  obtain ⟨signatures, h⟩ := Sample.exists_signatures
  obtain ⟨hdistinct, hstart, _⟩ := Sample.signedHeader_facts
  obtain ⟨_, _, _, horder⟩ := getSignaturesAndPrefix_sorted hdistinct hstart
    Sample.pubkeyToAddress_injective h
  exact ⟨signatures, h, (horder Sample.platform Sample.header Sample.agrees rfl).2.1⟩

end Bandchain.Bridge
