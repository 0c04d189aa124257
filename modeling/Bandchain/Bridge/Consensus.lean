import Bandchain.Bridge.Headers
import Bandchain.Bridge.Precommit

/-!
# The bridge follows the chain

A validator signs votes for the blocks of a chain.  The chain does not fork if a block for which
validators with more than two thirds of the power have signed precommits, in one round, is a block
of the chain.  Then every oracle state that the bridge has is the root of the oracle store that
the block of its height stands for, whoever relays, and in whatever order; so two bridges to
one chain never contradict each other.
-/

namespace Bandchain.Bridge

open Exec Merkle Proof

open Amino (After)

/-! ## The bytes that are signed -/

lemma Timestamp.eq_of_parts {t u : Timestamp} (hseconds : t.seconds = u.seconds)
    (hnanos : t.nanos = u.nanos) : t = u := by
  cases t
  cases u
  simp_all

/-- A signed 64-bit number is determined by the number that is written for it. -/
lemma int64_eq_of_toNat_eq {m n : Int64} (h : m.toUInt64.toNat = n.toUInt64.toNat) : m = n := by
  rw [← toInt64_ofNat_toNat m, h, toInt64_ofNat_toNat]

namespace VoteFrame

variable {f g : VoteFrame}

lemma parts_inj (h : f.parts = g.parts) :
    f.partsHash = g.partsHash ∧ f.partsTotal = g.partsTotal := by
  have hparts : ∀ f : VoteFrame, f.parts = Amino.bytesField 0x0A f.partsHash ++
      (Amino.varintField 0x10 f.partsTotal.toUInt64.toNat ++ []) := fun f => by
    rw [List.append_nil, parts]
  have htotal : ∀ n, After 0x0A (Amino.varintField 0x10 n ++ []) := fun n =>
    .varintField (by decide) (.nil _)
  rw [hparts, hparts] at h
  obtain ⟨hhash, h⟩ := Amino.bytesField_inj (htotal _) (htotal _) h
  exact ⟨hhash, int64_eq_of_toNat_eq (Amino.varintField_inj (.nil _) (.nil _) h).1⟩

lemma time_inj (h : f.time = g.time) : f.timestamp = g.timestamp := by
  have htime : ∀ f : VoteFrame,
      f.time = Amino.varintField 0x08 f.timestamp.seconds.toUInt64.toNat ++
        (Amino.varintField 0x10 f.timestamp.nanos.toNat ++ []) := fun f => by
    rw [List.append_nil, time]
  have hnanos : ∀ n, After 0x08 (Amino.varintField 0x10 n ++ []) := fun n =>
    .varintField (by decide) (.nil _)
  rw [htime, htime] at h
  obtain ⟨hseconds, h⟩ := Amino.varintField_inj (hnanos _) (hnanos _) h
  exact Timestamp.eq_of_parts (int64_eq_of_toNat_eq hseconds)
    (UInt32.toNat_inj.mp (Amino.varintField_inj (.nil _) (.nil _) h).1)

end VoteFrame

/-- The prefix of a vote determines its round. -/
lemma VoteFrame.round_eq_of_before_eq {f g : VoteFrame} (h : f.before = g.before) :
    f.round = g.round := by
  have hbefore : ∀ f : VoteFrame, f.before =
      Leb128.encode ((f.head ++ f.blockIDStart).length + 32 + f.after.length) ++
        (Amino.varintField 0x08 f.type.toNat ++
          (Amino.fixed64Field 0x11 f.height.toUInt64.toNat ++
            (Amino.fixed64Field 0x19 f.round.toUInt64.toNat ++ f.blockIDStart))) := fun f => by
    simp [before, head]
  have hround : ∀ f : VoteFrame, After 0x19 f.blockIDStart := fun f => .cons (by decide) _
  have hheight : ∀ f : VoteFrame, After 0x11
      (Amino.fixed64Field 0x19 f.round.toUInt64.toNat ++ f.blockIDStart) := fun f =>
    .fixed64Field (by decide) (hround f)
  have htype : ∀ f : VoteFrame, After 0x08 (Amino.fixed64Field 0x11 f.height.toUInt64.toNat ++
      (Amino.fixed64Field 0x19 f.round.toUInt64.toNat ++ f.blockIDStart)) := fun f =>
    .fixed64Field (by decide) (hheight f)
  rw [hbefore, hbefore] at h
  obtain ⟨-, h⟩ := Leb128.encode_append_inj h
  obtain ⟨-, h⟩ := Amino.varintField_inj (htype f) (htype g) h
  obtain ⟨-, h⟩ := Amino.fixed64Field_inj (UInt64.toNat_lt _) (UInt64.toNat_lt _) (hheight f)
    (hheight g) h
  exact int64_eq_of_toNat_eq (Amino.fixed64Field_inj (UInt64.toNat_lt _) (UInt64.toNat_lt _)
    (hround f) (hround g) h).1

namespace CanonicalVote

/-- The ID of the block: its hash, and its parts. -/
def blockID (vote : CanonicalVote) : Bytes :=
  Amino.bytesField 0x0A vote.blockHash ++ (Amino.bytesField 0x12 vote.parts ++ [])

/-- The fields that follow the type, the height, the round and the ID of the block. -/
def afterBlockID (vote : CanonicalVote) : Bytes :=
  Amino.bytesField 0x2A vote.time ++ (Amino.bytesField 0x32 vote.chainID ++ [])

def afterRound (vote : CanonicalVote) : Bytes :=
  Amino.bytesField 0x22 vote.blockID ++ vote.afterBlockID

def afterHeight (vote : CanonicalVote) : Bytes :=
  Amino.fixed64Field 0x19 vote.round.toUInt64.toNat ++ vote.afterRound

def afterType (vote : CanonicalVote) : Bytes :=
  Amino.fixed64Field 0x11 vote.height.toUInt64.toNat ++ vote.afterHeight

lemma signBytes_eq_fields (vote : CanonicalVote) :
    vote.signBytes =
      Amino.lengthPrefixed (Amino.varintField 0x08 vote.type.toNat ++ vote.afterType) := by
  simp [signBytes, VoteFrame.head, afterType, afterHeight, afterRound, afterBlockID, blockID]

lemma after_afterBlockID (vote : CanonicalVote) : After 0x22 vote.afterBlockID :=
  .bytesField (by decide) (.bytesField (by decide) (.nil _))

lemma after_afterRound (vote : CanonicalVote) : After 0x19 vote.afterRound :=
  .bytesField (by decide) vote.after_afterBlockID

lemma after_afterHeight (vote : CanonicalVote) : After 0x11 vote.afterHeight :=
  .fixed64Field (by decide) vote.after_afterRound

lemma after_afterType (vote : CanonicalVote) : After 0x08 vote.afterType :=
  .fixed64Field (by decide) vote.after_afterHeight

variable {u v : CanonicalVote}

lemma blockID_inj (h : u.blockID = v.blockID) : u.blockHash = v.blockHash ∧ u.parts = v.parts := by
  have hparts : ∀ b : Bytes, After 0x0A (Amino.bytesField 0x12 b ++ []) := fun b =>
    .bytesField (by decide) (.nil _)
  obtain ⟨hhash, h⟩ := Amino.bytesField_inj (hparts _) (hparts _) h
  exact ⟨hhash, (Amino.bytesField_inj (.nil _) (.nil _) h).1⟩

/-- The bytes that a validator signs determine the vote. -/
lemma signBytes_inj (h : u.signBytes = v.signBytes) : u = v := by
  rw [signBytes_eq_fields, signBytes_eq_fields] at h
  obtain ⟨htype, h⟩ := Amino.varintField_inj u.after_afterType v.after_afterType
    (Amino.lengthPrefixed_inj h)
  obtain ⟨hheight, h⟩ := Amino.fixed64Field_inj (UInt64.toNat_lt _) (UInt64.toNat_lt _)
    u.after_afterHeight v.after_afterHeight h
  obtain ⟨hround, h⟩ := Amino.fixed64Field_inj (UInt64.toNat_lt _) (UInt64.toNat_lt _)
    u.after_afterRound v.after_afterRound h
  obtain ⟨hid, h⟩ := Amino.bytesField_inj u.after_afterBlockID v.after_afterBlockID h
  have hchain : ∀ b : Bytes, After 0x2A (Amino.bytesField 0x32 b ++ []) := fun b =>
    .bytesField (by decide) (.nil _)
  obtain ⟨htime, h⟩ := Amino.bytesField_inj (hchain _) (hchain _) h
  obtain ⟨hchainID, -⟩ := Amino.bytesField_inj (.nil _) (.nil _) h
  obtain ⟨hhash, hparts⟩ := blockID_inj hid
  obtain ⟨hpartsHash, hpartsTotal⟩ := VoteFrame.parts_inj hparts
  have htimestamp := VoteFrame.time_inj htime
  have htype' := UInt8.toNat_inj.mp htype
  have hheight' := int64_eq_of_toNat_eq hheight
  have hround' := int64_eq_of_toNat_eq hround
  rcases u with ⟨⟨⟩, _⟩
  rcases v with ⟨⟨⟩, _⟩
  simp_all

end CanonicalVote

/-! ## The chain -/

/-- A block, with the commit of the stores that its app hash stands for. -/
structure Block where
  header : Header
  infos : List StoreInfo
  height_pos : 0 < header.height.toInt
  names : (infos.map StoreInfo.name).Perm storeNames
  oracle_length : (storeHashes infos (Bytes.ascii "oracle")).length = 32
  appHash_eq : header.appHash = appHash infos

namespace Block

variable (cdc : Codec) (b : Block)

def height : UInt256 := BitVec.ofInt 256 b.header.height.toInt

def hash : Bytes32 := bytesToHash (b.header.hash cdc)

/-- The root of the oracle store. -/
def oracleRoot : Bytes32 := bytesToHash (storeHashes b.infos (Bytes.ascii "oracle"))

/-- The call with the proofs that the prover makes for the block. -/
def relayArgs (signedDataPrefix : Bytes) (signatures : List TMSignature.Data) : RelayArgs where
  blockHeight := b.height
  multiStore := (getMultiStoreProof b.infos).encodeToEthFormat
  merkleParts := (getBlockHeaderMerkleParts cdc b.header).encodeToEthFormat
  signedDataPrefix
  signatures

/-- The strings that are hashed for the block. -/
def hashed : List Bytes := (b.relayArgs cdc [] []).hashed

variable {cdc b}

/-- The contract computes the hash of the block from its proofs. -/
lemma blockHeader_relayArgs (signedDataPrefix : Bytes) (signatures : List TMSignature.Data) :
    (b.relayArgs cdc signedDataPrefix signatures).blockHeader = .ok (b.hash cdc) := by
  have hlen : b.header.appHash.length = 32 := by
    rw [b.appHash_eq, Bridge.appHash_eq b.names]
    exact Merkle.length_root (by simp [storeNames])
  have happ : (getMultiStoreProof b.infos).encodeToEthFormat.getAppHash =
      bytesToHash b.header.appHash := by
    rw [getAppHash_getMultiStoreProof b.names b.oracle_length, b.appHash_eq]
  rw [RelayArgs.blockHeader]
  show (getBlockHeaderMerkleParts cdc b.header).encodeToEthFormat.getBlockHeader
    (getMultiStoreProof b.infos).encodeToEthFormat.getAppHash _ = _
  rw [happ]
  exact getBlockHeader_getBlockHeaderMerkleParts cdc b.header hlen b.height_pos

end Block

/-- A relay whose block header is computed is one for a positive height. -/
lemma RelayArgs.height_pos {args : RelayArgs} {blockHeader : Bytes32}
    (h : args.blockHeader = .ok blockHeader) : 1 ≤ args.blockHeight.toNat := by
  rw [RelayArgs.blockHeader, BlockHeaderMerkleParts.Data.getBlockHeader,
    Utils.encodeVarintUnsigned_eq] at h
  by_cases hzero : args.blockHeight = 0
  · rw [if_pos hzero] at h
    cases h
  · rw [Nat.one_le_iff_ne_zero]
    intro hnat
    exact hzero (BitVec.eq_of_toNat_eq hnat)

/-- A relay with the hash of a block is one for its height and for the root of its oracle store. -/
lemma Block.eq_of_blockHeader {cdc : Codec} {b : Block} {args : RelayArgs}
    (h : args.blockHeader = .ok (b.hash cdc))
    (hapart : Apart sha256Digest args.hashed (b.hashed cdc)) :
    args.blockHeight = b.height ∧ args.multiStore.oracleIAVLStateHash = b.oracleRoot := by
  have hb : (b.relayArgs cdc [] []).blockHeader = .ok (b.hash cdc) :=
    b.blockHeader_relayArgs [] []
  have hpos := args.height_pos h
  have hpos' := RelayArgs.height_pos hb
  rw [RelayArgs.blockHeader, getBlockHeader_eq _ _ hpos] at h
  rw [RelayArgs.blockHeader, getBlockHeader_eq _ _ hpos'] at hb
  obtain ⟨hstore, hheader⟩ := (apart_append (by rfl)).mp hapart
  obtain ⟨hheight, happ⟩ := height_and_appHash_eq_of_apart hheader
    ((Except.ok.inj h).trans (Except.ok.inj hb).symm)
  exact ⟨hheight, oracleIAVLStateHash_eq_of_apart hstore happ⟩

/-- The blocks of a chain, and the votes that its validators have signed. -/
structure Chain where
  cdc : Codec
  blocks : Set Block
  height_injOn : blocks.InjOn Block.height
  signed : Address → CanonicalVote → Prop

namespace Chain

variable (c : Chain)

/-- The validators that have signed a precommit for the block hash. -/
def precommitted (height : UInt256) (round : Int64) (blockHash : Bytes32) : Set Address :=
  { a | ∃ vote : CanonicalVote, c.signed a vote ∧ vote.type = precommitType ∧
    vote.height.toInt = height.toNat ∧ vote.round = round ∧ vote.blockHash = blockHash.1 }

/-- More than two thirds of the power have signed precommits for the block hash. -/
def Commits (power : Address → ℕ) (height : UInt256) (round : Int64) (blockHash : Bytes32) :
    Prop :=
  2 * Quorum.total power <
    3 * Quorum.total ((c.precommitted height round blockHash).indicator power)

/-- What is committed is a block of the chain. -/
def DoesNotFork (power : Address → ℕ) : Prop :=
  ∀ height round blockHash, c.Commits power height round blockHash →
    ∃ b ∈ c.blocks, b.hash c.cdc = blockHash

end Chain

/-! ## Relays -/

section Relays

variable {platform : Platform} {s t u : Storage} {args : RelayArgs} {blockHeader : Bytes32}

/-- The data that a call relays. -/
def Call.relayed : Call → Option RelayArgs
  | relayOracleState args => some args
  | relayAndVerify relayData _ => relayData
  | _ => none

/-- Only a relay writes oracle states. -/
lemma Step.oracleStates {call : Call} (h : Step platform s call t) :
    t.oracleStates = s.oracleStates ∨
      ∃ args, call.relayed = some args ∧ relayOracleState platform args s = .ok t := by
  rcases h.cases with h | rfl
  · cases call with
    | updateValidatorPowers sender vs =>
      change (require (sender = s.owner) _ >>= _) = _ at h
      rw [except_bind_eq_ok] at h
      obtain ⟨_, _, h⟩ := h
      exact .inl (foldlM_invariant (I := fun t => t.oracleStates = s.oracleStates) h
        (fun _ hstep ih => (updateValidator_eq_ok hstep).oracleStates.trans ih) rfl)
    | relayOracleState args => exact .inr ⟨args, rfl, h⟩
    | relayAndVerify relayData verifyData =>
      rcases hboth : relayAndVerify platform relayData verifyData s with e | out
      · simp [Call.exec, hboth, Except.map] at h
      · simp only [Call.exec, hboth, Except.map, Except.ok.injEq] at h
        simp only [relayAndVerify, except_bind_eq_ok] at hboth
        obtain ⟨s', hrelay, _, _, hout⟩ := hboth
        obtain ⟨args, hargs, haccept⟩ := callOrRevert_eq_ok hrelay
        rw [← Except.ok.inj hout] at h
        subst h
        exact .inr ⟨args, hargs, haccept⟩
    | setOwner newOwner =>
      rw [← Except.ok.inj h]
      exact .inl rfl
  · exact .inl rfl

variable (c : Chain) (platform)

/-- What is assumed of a relay: the validators whose signatures count have signed what they are
said to have signed, in which the block hash stands at its place in a precommit, and the strings
hashed for the block do not collide with those hashed for the relay. -/
structure Chain.Genuine (s : Storage) (args : RelayArgs) (blockHeader : Bytes32) : Prop where
  signed : ∀ signature ∈ args.signatures,
    s.power (signature.recoverSigner platform blockHeader args.signedDataPrefix) ≠ 0 →
      ∃ vote, c.signed (signature.recoverSigner platform blockHeader args.signedDataPrefix) vote ∧
        vote.signBytes = signature.signedData blockHeader args.signedDataPrefix
  framed : ∀ signature ∈ args.signatures,
    s.power (signature.recoverSigner platform blockHeader args.signedDataPrefix) ≠ 0 →
      isPrecommitFrame args.blockHeight args.signedDataPrefix signature.signedDataSuffix = true
  apart : ∀ b ∈ c.blocks, b.hash c.cdc = blockHeader →
    Apart sha256Digest args.hashed (b.hashed c.cdc)

/-- The chain does not fork under the powers in force, and relays that are accepted are
genuine. -/
def Chain.Trusted (s : Storage) (call : Call) : Prop :=
  ∀ args t blockHeader, call.relayed = some args → relayOracleState platform args s = .ok t →
    args.blockHeader = .ok blockHeader →
      c.DoesNotFork s.power ∧ c.Genuine platform s args blockHeader

variable {c} {platform}

/-- A validator whose signature counts has signed a precommit for the block header. -/
lemma Chain.Genuine.vote (h : c.Genuine platform s args blockHeader)
    {signature : TMSignature.Data} (hmem : signature ∈ args.signatures)
    (hpower : s.power (signature.recoverSigner platform blockHeader args.signedDataPrefix) ≠ 0) :
    ∃ vote : CanonicalVote,
      c.signed (signature.recoverSigner platform blockHeader args.signedDataPrefix) vote ∧
      vote.type = precommitType ∧ vote.height.toInt = args.blockHeight.toNat ∧
      vote.blockHash = blockHeader.1 ∧ vote.before = args.signedDataPrefix := by
  obtain ⟨vote, hsigned, hbytes⟩ := h.signed signature hmem hpower
  obtain ⟨vote', htype, hheight, hhash, hlen, hbytes'⟩ :=
    signsPrecommit_iff.mpr (h.framed signature hmem hpower)
  obtain rfl := CanonicalVote.signBytes_inj (hbytes.trans hbytes')
  refine ⟨vote, hsigned, htype, hheight, hhash, ?_⟩
  rw [CanonicalVote.signBytes_eq (by rw [hhash]; exact blockHeader.2),
    TMSignature.Data.signedData, List.append_assoc, List.append_assoc] at hbytes
  exact (List.append_inj hbytes hlen).1

/-- The signers of an accepted relay commit its block header. -/
lemma Chain.Genuine.commits (h : c.Genuine platform s args blockHeader) (hs : s.Balanced)
    (hquorate : Quorate platform s args blockHeader) :
    ∃ round, c.Commits s.power args.blockHeight round blockHeader := by
  -- the prefix is the same for all signatures, so the round is
  obtain ⟨round, hround⟩ : ∃ round, ∀ signature ∈ args.signatures,
      s.power (signature.recoverSigner platform blockHeader args.signedDataPrefix) ≠ 0 →
        signature.recoverSigner platform blockHeader args.signedDataPrefix ∈
          c.precommitted args.blockHeight round blockHeader := by
    by_cases hany : ∃ signature ∈ args.signatures,
        s.power (signature.recoverSigner platform blockHeader args.signedDataPrefix) ≠ 0
    · obtain ⟨signature, hmem, hpower⟩ := hany
      obtain ⟨vote, -, -, -, -, hbefore⟩ := h.vote hmem hpower
      refine ⟨vote.round, fun signature' hmem' hpower' => ?_⟩
      obtain ⟨vote', hsigned, htype, hheight, hhash, hbefore'⟩ := h.vote hmem' hpower'
      exact ⟨vote', hsigned, htype, hheight,
        VoteFrame.round_eq_of_before_eq (hbefore'.trans hbefore.symm), hhash⟩
    · exact ⟨0, fun signature hmem hpower => absurd ⟨signature, hmem, hpower⟩ hany⟩
  refine ⟨round, ?_⟩
  have hle := Quorum.sum_map_le_indicator (Set.toFinite (Function.support s.power))
    hquorate.nodup
    (A := c.precommitted args.blockHeight round blockHeader) (by
      intro a ha hpower
      obtain ⟨signature, hmem, rfl⟩ := List.mem_map.mp ha
      exact hround signature hmem hpower)
  have hthirds := hquorate.two_thirds
  rw [hs] at hthirds
  rw [Chain.Commits]
  omega

/-- The oracle state of a height is the oracle root of a block of that height. -/
def Chain.Follows (c : Chain) (s : Storage) (height : UInt256) : Prop :=
  ∃ b ∈ c.blocks, b.height = height ∧ s.oracleStates height = b.oracleRoot

/-- A call leaves an oracle state as it is, or writes the root of the block of its height. -/
lemma Chain.Trusted.oracleState {call : Call} (htrust : c.Trusted platform s call)
    (h : Step platform s call t) (hs : s.Balanced) (height : UInt256) :
    t.oracleStates height = s.oracleStates height ∨ c.Follows t height := by
  rcases h.oracleStates with h | ⟨args, hcall, haccept⟩
  · exact .inl (by rw [h])
  · obtain ⟨blockHeader, hheader, hquorate, rfl⟩ := quorate_of_relayOracleState haccept
    obtain ⟨hfork, hgenuine⟩ := htrust args _ blockHeader hcall haccept hheader
    obtain ⟨round, hcommits⟩ := hgenuine.commits hs hquorate
    obtain ⟨b, hb, rfl⟩ := hfork _ _ _ hcommits
    obtain ⟨hheight, hroot⟩ := b.eq_of_blockHeader hheader (hgenuine.apart b hb rfl)
    by_cases hsame : height = args.blockHeight
    · subst hsame
      exact .inr ⟨b, hb, hheight.symm, (Function.update_self _ _ _).trans hroot⟩
    · exact .inl (Function.update_of_ne hsame _ _)

/-- The invariant of a run. -/
structure Chain.Agrees (c : Chain) (s : Storage) : Prop where
  balanced : s.Balanced
  follows : ∀ height, (s.oracleStates height).1 = List.replicate 32 0 ∨ c.Follows s height

lemma Chain.agrees_of_deployed (h : Deployed platform s) : c.Agrees s := by
  refine ⟨balanced_of_deployed h, fun height => .inl ?_⟩
  obtain ⟨sender, vs, h⟩ := h
  have hsame : s.oracleStates = (Storage.blank sender).oracleStates :=
    foldlM_invariant (I := fun t => t.oracleStates = (Storage.blank sender).oracleStates) h
      (fun _ hstep ih => (initValidator_eq_ok hstep).oracleStates.trans ih) rfl
  rw [hsame]
  rfl

lemma Chain.Trusted.agrees {call : Call} (htrust : c.Trusted platform s call)
    (h : Step platform s call t) (hs : c.Agrees s) : c.Agrees t := by
  refine ⟨h.balanced hs.balanced, fun height => ?_⟩
  rcases htrust.oracleState h hs.balanced height with hsame | hfollows
  · rw [Chain.Follows, hsame]
    exact hs.follows height
  · exact .inr hfollows

lemma Chain.Agrees.of_run {calls : List Call} (hs : c.Agrees s)
    (h : RunWhere (Step platform) (c.Trusted platform) s calls t) : c.Agrees t :=
  h.invariant (fun htrust hstep hs => htrust.agrees hstep hs) hs

/-- There is one block for each height. -/
lemma Chain.Follows.eq {height : UInt256} (hs : c.Follows s height) (ht : c.Follows t height) :
    s.oracleStates height = t.oracleStates height := by
  obtain ⟨b, hb, hheight, hroot⟩ := hs
  obtain ⟨b', hb', hheight', hroot'⟩ := ht
  obtain rfl := c.height_injOn hb hb' (hheight.trans hheight'.symm)
  rw [hroot, hroot']

/-- A state that has been relayed stays. -/
lemma Chain.Agrees.oracleState_of_run {calls : List Call} (hs : c.Agrees s)
    (h : RunWhere (Step platform) (c.Trusted platform) s calls t) {height : UInt256}
    (hset : (s.oracleStates height).1 ≠ List.replicate 32 0) :
    t.oracleStates height = s.oracleStates height := by
  have hfollows := (hs.follows height).resolve_left hset
  have hinv : c.Agrees t ∧ t.oracleStates height = s.oracleStates height := by
    refine h.invariant (I := fun t => c.Agrees t ∧ t.oracleStates height = s.oracleStates height)
      (fun htrust hstep hI => ?_) ⟨hs, rfl⟩
    refine ⟨htrust.agrees hstep hI.1, ?_⟩
    rcases htrust.oracleState hstep hI.1.balanced height with hsame | hnew
    · exact hsame.trans hI.2
    · exact hnew.eq hfollows
  exact hinv.2

/-- **The bridge follows the chain.**  Take a deployed bridge and any run in which the chain does
not fork under the powers in force and the relays that are accepted are genuine.  Every oracle
state is still empty, or it is the root of the oracle store for the block of its height; it is
never replaced afterwards; and another such bridge to the chain, with validators of its own, has
the same state for every height for which both have one. -/
theorem oracleStates_follow_chain {calls : List Call} (hs : Deployed platform s)
    (hrun : RunWhere (Step platform) (c.Trusted platform) s calls t) :
    (∀ height, (t.oracleStates height).1 = List.replicate 32 0 ∨
      ∃ b ∈ c.blocks, b.height = height ∧ t.oracleStates height = b.oracleRoot) ∧
    (∀ (calls' : List Call) (u : Storage),
      RunWhere (Step platform) (c.Trusted platform) t calls' u → ∀ height,
        (t.oracleStates height).1 ≠ List.replicate 32 0 →
          u.oracleStates height = t.oracleStates height) ∧
    ∀ (platform' : Platform) (s' t' : Storage) (calls' : List Call), Deployed platform' s' →
      RunWhere (Step platform') (c.Trusted platform') s' calls' t' → ∀ height,
        (t.oracleStates height).1 ≠ List.replicate 32 0 →
        (t'.oracleStates height).1 ≠ List.replicate 32 0 →
          t.oracleStates height = t'.oracleStates height := by
  have ht := (Chain.agrees_of_deployed (c := c) hs).of_run hrun
  refine ⟨ht.follows, fun calls' u hrun' height => ht.oracleState_of_run hrun', ?_⟩
  intro platform' s' t' calls' hs' hrun' height hset hset'
  have ht' := (Chain.agrees_of_deployed (c := c) hs').of_run hrun'
  exact ((ht.follows height).resolve_left hset).eq ((ht'.follows height).resolve_left hset')

end Relays

/-! ## A chain of one block -/

namespace Sample

variable (root r s : Bytes32) (v : UInt8)

lemma storeHashes_commit : storeHashes (commit root.1) (Bytes.ascii "oracle") = root.1 := by
  have hmem : (⟨Bytes.ascii "oracle", root.1⟩ : StoreInfo) ∈ commit root.1 :=
    List.mem_map.mpr ⟨Bytes.ascii "oracle", by simp [storeNames], by simp⟩
  exact storeHashes_of_mem (by rw [map_name_commit]; exact nodup_storeNames) hmem

/-- A block whose oracle store has the given root. -/
def block : Block where
  header := { header381837 with appHash := appHash (commit root.1) }
  infos := commit root.1
  height_pos := (by decide : 0 < (381837 : Int64).toInt)
  names := by rw [map_name_commit]
  oracle_length := by rw [storeHashes_commit, root.2]
  appHash_eq := rfl

lemma oracleRoot_block : (block root).oracleRoot = root := by
  rw [Block.oracleRoot]
  show bytesToHash (storeHashes (commit root.1) (Bytes.ascii "oracle")) = root
  rw [storeHashes_commit, bytesToHash_digest]

/-- A precommit at height 381837. -/
def precommitFor (blockHash : Bytes) : CanonicalVote where
  type := precommitType
  height := 381837
  round := 0
  partsHash := Bytes.be 32 0x7F334B7EE4F8AAC5E70F07FEB9A58A72F120E9AC046167851FC94BC4F2729550
  partsTotal := 1
  timestamp :=
    { seconds := 1587353432
      nanos := 143851745
      year_one_le := by decide
      lt_year_ten_thousand := by decide
      nanos_lt := by decide }
  chainID := Bytes.ascii "bandchain"
  blockHash

/-- The precommit for the block. -/
def precommit : CanonicalVote := precommitFor ((block root).hash codec).1

/-- The validator with private key 1 has signed the precommit. -/
def chain : Chain where
  cdc := codec
  blocks := {block root}
  height_injOn := Set.injOn_singleton _ _
  signed a vote := a = owner ∧ vote = precommit root

/-- The signature of the precommit. -/
def precommitSignature : TMSignature.Data where
  r := r
  s := s
  v := v
  signedDataSuffix := (precommit root).after

/-- The recovery of the signer of the precommit. -/
def ecrecoverPrecommit (digest : Bytes32) (v' : UInt8) (r' s' : Bytes32) : Address :=
  if v' = v ∧ r' = r ∧ s' = s ∧ sha256Digest ((precommitSignature root r s v).signedData
      ((block root).hash codec) (precommit root).before) = digest then owner
  else 0

/-- The relay of the block. -/
def blockArgs : RelayArgs :=
  (block root).relayArgs codec (precommit root).before [precommitSignature root r s v]

/-- The bridge with the one validator. -/
def deployedPrecommit : Storage :=
  (constructor (evm (ecrecoverPrecommit root r s v)) owner [⟨owner, 1⟩]).toOption.getD
    (.blank owner)

lemma deployed_deployedPrecommit :
    Deployed (evm (ecrecoverPrecommit root r s v)) (deployedPrecommit root r s v) :=
  ⟨owner, [⟨owner, 1⟩], rfl⟩

lemma signedData_precommit :
    (precommitSignature root r s v).signedData ((block root).hash codec) (precommit root).before =
      (precommit root).signBytes :=
  (CanonicalVote.signBytes_eq ((block root).hash codec).2).symm

lemma recoverSigner_precommit :
    (precommitSignature root r s v).recoverSigner (evm (ecrecoverPrecommit root r s v))
      ((block root).hash codec) (precommit root).before = owner :=
  if_pos ⟨rfl, rfl, rfl, rfl⟩

lemma count_precommit :
    [precommitSignature root r s v].foldlM (countSignature (evm (ecrecoverPrecommit root r s v))
      (deployedPrecommit root r s v) ((block root).hash codec) (precommit root).before) (0, 0) =
        .ok (owner, 1) := by
  rw [List.foldlM_cons, countSignature, recoverSigner_precommit]
  rfl

lemma blockArgs_accepted :
    ∃ t, relayOracleState (evm (ecrecoverPrecommit root r s v)) (blockArgs root r s v)
      (deployedPrecommit root r s v) = .ok t := by
  have htotal : (deployedPrecommit root r s v).totalValidatorPower = 1 := rfl
  refine exists_relayOracleState_eq_ok ((block root).blockHeader_relayArgs _ _)
    (count_precommit root r s v) (by decide) ?_
  rw [htotal]
  decide

/-- The chain of one block does not fork. -/
lemma doesNotFork_chain (power : Address → ℕ) : (chain root).DoesNotFork power := by
  intro height round blockHash hcommits
  refine ⟨block root, rfl, ?_⟩
  by_contra hne
  have hempty : (chain root).precommitted height round blockHash = ∅ := by
    rw [Set.eq_empty_iff_forall_notMem]
    rintro a ⟨vote, ⟨-, rfl⟩, -, -, -, hhash⟩
    exact hne (Subtype.ext hhash)
  rw [Chain.Commits, hempty, Set.indicator_empty, Quorum.total_zero] at hcommits
  omega

lemma genuine_blockArgs :
    (chain root).Genuine (evm (ecrecoverPrecommit root r s v)) (deployedPrecommit root r s v)
      (blockArgs root r s v) ((block root).hash codec) where
  signed := by
    intro signature hmem _
    obtain rfl := List.mem_singleton.mp hmem
    exact ⟨precommit root, ⟨recoverSigner_precommit root r s v, rfl⟩,
      (signedData_precommit root r s v).symm⟩
  framed := by
    intro signature hmem _
    obtain rfl := List.mem_singleton.mp hmem
    refine signsPrecommit_iff.mp
      ⟨precommit root, rfl, ?_, rfl, rfl, signedData_precommit root r s v⟩
    exact (by decide : (381837 : Int64).toInt = ((381837 : UInt256).toNat : ℤ))
  apart := by
    rintro b rfl _
    exact .refl _

/-- The bridge takes the state of the block. -/
lemma exists_run_precommit : ∃ t,
    RunWhere (Step (evm (ecrecoverPrecommit root r s v)))
      ((chain root).Trusted (evm (ecrecoverPrecommit root r s v))) (deployedPrecommit root r s v)
        [.relayOracleState (blockArgs root r s v)] t ∧
      t.oracleStates 381837 = root := by
  obtain ⟨t, ht⟩ := blockArgs_accepted root r s v
  have hstep : Step (evm (ecrecoverPrecommit root r s v)) (deployedPrecommit root r s v)
      (.relayOracleState (blockArgs root r s v)) t := by
    rw [Step, Call.exec, ht]
    rfl
  refine ⟨t, .single ?_ hstep, ?_⟩
  · rintro args t' blockHeader hcall _ hheader
    obtain rfl := Option.some.inj hcall
    obtain rfl := Except.ok.inj (((block root).blockHeader_relayArgs _ _).symm.trans hheader)
    exact ⟨doesNotFork_chain root _, genuine_blockArgs root r s v⟩
  · obtain ⟨_, _, _, rfl⟩ := quorate_of_relayOracleState ht
    have hheight : (blockArgs root r s v).blockHeight = 381837 :=
      (by decide : BitVec.ofInt 256 (381837 : Int64).toInt = 381837)
    simp only [hheight, Function.update_self]
    exact oracleRoot_block root

end Sample

/-- The block at height 381837, signed by the one validator. -/
theorem oracleStates_follow_chain_sample : ∃ t : Storage,
    t.oracleStates 381837 = Sample.multiStore.oracleIAVLStateHash ∧
      ∃ b ∈ (Sample.chain Sample.multiStore.oracleIAVLStateHash).blocks,
        b.height = 381837 ∧ t.oracleStates 381837 = b.oracleRoot := by
  obtain ⟨t, hrun, hroot⟩ := Sample.exists_run_precommit Sample.multiStore.oracleIAVLStateHash
    (Sample.word 0x8EAD0ADAAA2992F52189A50984F8D0608669545FB11110CBB74217AF90BE0CE8)
    (Sample.word 0x40977C5A660272606F87168D3ED51757AEDF59127A1083C4E0CDAB2C3D6CBEBF) 27
  refine ⟨t, hroot, ?_⟩
  have hfollows := (oracleStates_follow_chain (Sample.deployed_deployedPrecommit _ _ _ _) hrun).1
    381837
  rw [hroot] at hfollows ⊢
  exact hfollows.resolve_left (by decide +kernel)

end Bandchain.Bridge
