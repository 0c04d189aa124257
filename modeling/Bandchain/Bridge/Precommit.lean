import Bandchain.Bridge.Signers
import Bandchain.Lib.Amino

/-!
# What the signers of a relay have signed

The contract puts the hash of the block header between a prefix and a suffix that the relayer
chooses, and checks a signature of the result.  A validator signs votes of Tendermint; the signed
string is the encoding of a precommit for the block exactly if the prefix and the suffix are what
stands before and after the block hash in such an encoding.  The contract does not check that.
-/

namespace Bandchain.Bridge

open Exec

/-! ## Votes -/

/-- The times that amino can encode. -/
structure Timestamp where
  seconds : Int64
  nanos : UInt32
  year_one_le : -62135596800 ≤ seconds.toInt
  lt_year_ten_thousand : seconds.toInt < 253402300800
  nanos_lt : nanos.toNat < 1000000000

/-- The fields of a canonical vote other than the hash of the block. -/
structure VoteFrame where
  type : UInt8
  height : Int64
  round : Int64
  partsHash : Bytes
  partsTotal : Int64
  timestamp : Timestamp
  chainID : Bytes

/-- A canonical vote of Tendermint. -/
structure CanonicalVote extends VoteFrame where
  blockHash : Bytes

/-- The type of a vote of the second round of voting; a prevote has type 1. -/
def precommitType : UInt8 := 2

namespace VoteFrame

/-- The hash and the number of the parts of the block, as a message. -/
def parts (f : VoteFrame) : Bytes :=
  Amino.bytesField 0x0A f.partsHash ++ Amino.varintField 0x10 f.partsTotal.toUInt64.toNat

def time (f : VoteFrame) : Bytes :=
  Amino.varintField 0x08 f.timestamp.seconds.toUInt64.toNat ++
    Amino.varintField 0x10 f.timestamp.nanos.toNat

/-- The fields in front of the block ID. -/
def head (f : VoteFrame) : Bytes :=
  Amino.varintField 0x08 f.type.toNat ++ Amino.fixed64Field 0x11 f.height.toUInt64.toNat ++
    Amino.fixed64Field 0x19 f.round.toUInt64.toNat

/-- What follows a block hash. -/
def after (f : VoteFrame) : Bytes :=
  Amino.bytesField 0x12 f.parts ++ Amino.bytesField 0x2A f.time ++ Amino.bytesField 0x32 f.chainID

/-- The block ID up to a block hash of 32 bytes: its tag and its length, and those of the hash. -/
def blockIDStart (f : VoteFrame) : Bytes :=
  [0x22] ++ Leb128.encode (34 + (Amino.bytesField 0x12 f.parts).length) ++ [0x0A, 0x20]

/-- What precedes a block hash of 32 bytes. -/
def before (f : VoteFrame) : Bytes :=
  Leb128.encode ((f.head ++ f.blockIDStart).length + 32 + f.after.length) ++ f.head ++
    f.blockIDStart

end VoteFrame

/-- The encoding of a vote that a validator signs. -/
def CanonicalVote.signBytes (vote : CanonicalVote) : Bytes :=
  Amino.lengthPrefixed
    (vote.head ++
      Amino.bytesField 0x22
        (Amino.bytesField 0x0A vote.blockHash ++ Amino.bytesField 0x12 vote.parts) ++
      Amino.bytesField 0x2A vote.time ++ Amino.bytesField 0x32 vote.chainID)

/-- Where the block hash stands in the encoding. -/
lemma CanonicalVote.signBytes_eq {vote : CanonicalVote} (h : vote.blockHash.length = 32) :
    vote.signBytes = vote.before ++ vote.blockHash ++ vote.after := by
  have hne : vote.blockHash ≠ [] := by
    intro hnil
    rw [hnil] at h
    cases h
  have hhash : Amino.bytesField 0x0A vote.blockHash = [0x0A, 0x20] ++ vote.blockHash := by
    rw [Amino.bytesField, if_neg hne, Amino.lengthPrefixed, h, Leb128.encode_of_lt (by decide)]
    rfl
  have hid : Amino.bytesField 0x22
      (Amino.bytesField 0x0A vote.blockHash ++ Amino.bytesField 0x12 vote.parts) =
        vote.blockIDStart ++ vote.blockHash ++ Amino.bytesField 0x12 vote.parts := by
    rw [hhash, Amino.bytesField, if_neg (by simp), Amino.lengthPrefixed, VoteFrame.blockIDStart]
    have hlen : ([0x0A, 0x20] ++ vote.blockHash ++ Amino.bytesField 0x12 vote.parts).length =
        34 + (Amino.bytesField 0x12 vote.parts).length := by
      rw [List.length_append, List.length_append, h]
      rfl
    rw [hlen]
    simp
  have hbody : vote.head ++ (vote.blockIDStart ++ vote.blockHash ++
      Amino.bytesField 0x12 vote.parts) ++ Amino.bytesField 0x2A vote.time ++
        Amino.bytesField 0x32 vote.chainID =
          vote.head ++ vote.blockIDStart ++ vote.blockHash ++ vote.after := by
    simp [VoteFrame.after]
  have hlen : (vote.head ++ vote.blockIDStart ++ vote.blockHash ++ vote.after).length =
      (vote.head ++ vote.blockIDStart).length + 32 + vote.after.length := by
    rw [List.length_append, List.length_append, h]
  rw [signBytes, hid, hbody, Amino.lengthPrefixed, hlen, VoteFrame.before]
  simp

/-! ## Reading a vote -/

/-- A time with the given parts, if amino can encode it. -/
def Timestamp.ofParts (seconds : Int64) (nanos : UInt32) : Option Timestamp :=
  if h : -62135596800 ≤ seconds.toInt ∧ seconds.toInt < 253402300800 ∧ nanos.toNat < 1000000000
  then some ⟨seconds, nanos, h.1, h.2.1, h.2.2⟩
  else none

/-- The fields of the vote that has the two strings around its block hash, if there is one. -/
def readFrame (signedDataPrefix signedDataSuffix : Bytes) : Option VoteFrame :=
  let (_, b) := Leb128.decode signedDataPrefix
  let (type, b) := Amino.takeVarint 0x08 b
  let (height, b) := Amino.takeFixed64 0x11 b
  let (round, _) := Amino.takeFixed64 0x19 b
  let (parts, b) := Amino.takeBytes 0x12 signedDataSuffix
  let (time, b) := Amino.takeBytes 0x2A b
  let (chainID, _) := Amino.takeBytes 0x32 b
  let (partsHash, b) := Amino.takeBytes 0x0A parts
  let (partsTotal, _) := Amino.takeVarint 0x10 b
  let (seconds, b) := Amino.takeVarint 0x08 time
  let (nanos, _) := Amino.takeVarint 0x10 b
  (Timestamp.ofParts (UInt64.ofNat seconds).toInt64 (UInt32.ofNat nanos)).map fun timestamp =>
    { type := UInt8.ofNat type
      height := (UInt64.ofNat height).toInt64
      round := (UInt64.ofNat round).toInt64
      partsHash
      partsTotal := (UInt64.ofNat partsTotal).toInt64
      timestamp
      chainID }

lemma Timestamp.ofParts_self (t : Timestamp) : ofParts t.seconds t.nanos = some t := by
  rw [ofParts, dif_pos ⟨t.year_one_le, t.lt_year_ten_thousand, t.nanos_lt⟩]

lemma toInt64_ofNat_toNat (n : Int64) : (UInt64.ofNat n.toUInt64.toNat).toInt64 = n := by
  rw [UInt64.ofNat_toNat, Int64.toInt64_toUInt64]

/-- The fields are read back from what is around the block hash. -/
lemma readFrame_before_after (f : VoteFrame) : readFrame f.before f.after = some f := by
  have hbefore : f.before =
      Leb128.encode ((f.head ++ f.blockIDStart).length + 32 + f.after.length) ++
        (Amino.varintField 0x08 f.type.toNat ++
          (Amino.fixed64Field 0x11 f.height.toUInt64.toNat ++
            (Amino.fixed64Field 0x19 f.round.toUInt64.toNat ++ f.blockIDStart))) := by
    simp [VoteFrame.before, VoteFrame.head]
  have hafter : f.after = Amino.bytesField 0x12 f.parts ++
      (Amino.bytesField 0x2A f.time ++ (Amino.bytesField 0x32 f.chainID ++ [])) := by
    simp [VoteFrame.after]
  have hparts : f.parts = Amino.bytesField 0x0A f.partsHash ++
      (Amino.varintField 0x10 f.partsTotal.toUInt64.toNat ++ []) := by
    simp [VoteFrame.parts]
  have htime : f.time = Amino.varintField 0x08 f.timestamp.seconds.toUInt64.toNat ++
      (Amino.varintField 0x10 f.timestamp.nanos.toNat ++ []) := by
    simp [VoteFrame.time]
  -- the tag of a field shows that the fields before it have ended
  have hround : f.blockIDStart.head? ≠ some 0x19 := by simp [VoteFrame.blockIDStart]
  have hheight : (Amino.fixed64Field 0x19 f.round.toUInt64.toNat ++ f.blockIDStart).head? ≠
      some 0x11 :=
    Amino.head_fixed64Field_ne (by decide) (by simp [VoteFrame.blockIDStart])
  have htype : (Amino.fixed64Field 0x11 f.height.toUInt64.toNat ++
      (Amino.fixed64Field 0x19 f.round.toUInt64.toNat ++ f.blockIDStart)).head? ≠ some 0x08 :=
    Amino.head_fixed64Field_ne (by decide)
      (Amino.head_fixed64Field_ne (by decide) (by simp [VoteFrame.blockIDStart]))
  have hid : (Amino.bytesField 0x2A f.time ++ (Amino.bytesField 0x32 f.chainID ++ [])).head? ≠
      some 0x12 :=
    Amino.head_bytesField_ne (by decide) (Amino.head_bytesField_ne (by decide) (by simp))
  have htimeEnd : (Amino.bytesField 0x32 f.chainID ++ []).head? ≠ some 0x2A :=
    Amino.head_bytesField_ne (by decide) (by simp)
  have hhash : (Amino.varintField 0x10 f.partsTotal.toUInt64.toNat ++ []).head? ≠ some 0x0A :=
    Amino.head_varintField_ne (by decide) (by simp)
  have hseconds : (Amino.varintField 0x10 f.timestamp.nanos.toNat ++ []).head? ≠ some 0x08 :=
    Amino.head_varintField_ne (by decide) (by simp)
  have hnil : ∀ tag : UInt8, ([] : Bytes).head? ≠ some tag := fun _ h => nomatch h
  simp only [readFrame, hbefore, hafter, Leb128.decode_encode_append,
    Amino.takeVarint_append htype, Amino.takeFixed64_append (UInt64.toNat_lt _) hheight,
    Amino.takeFixed64_append (UInt64.toNat_lt _) hround, Amino.takeBytes_append hid,
    Amino.takeBytes_append htimeEnd, Amino.takeBytes_append (hnil _)]
  simp only [hparts, htime, Amino.takeBytes_append hhash, Amino.takeVarint_append (hnil _),
    Amino.takeVarint_append hseconds, toInt64_ofNat_toNat, UInt8.ofNat_toNat, UInt32.ofNat_toNat,
    Timestamp.ofParts_self, Option.map_some]

/-! ## Signatures of precommits -/

/-- The prefix and the suffix stand around the block hash in a precommit for the given height. -/
def isPrecommitFrame (blockHeight : UInt256) (signedDataPrefix signedDataSuffix : Bytes) : Bool :=
  (readFrame signedDataPrefix signedDataSuffix).any fun f =>
    decide (f.type = precommitType ∧ f.height.toInt = (blockHeight.toNat : ℤ) ∧
      f.before = signedDataPrefix ∧ f.after = signedDataSuffix)

/-- The signature is one of a precommit for the block at the given height, in which the block hash
stands where the contract has put it. -/
def TMSignature.Data.SignsPrecommit (self : TMSignature.Data) (blockHeight : UInt256)
    (blockHeader : Bytes32) (signedDataPrefix : Bytes) : Prop :=
  ∃ vote : CanonicalVote,
    vote.type = precommitType ∧ vote.height.toInt = blockHeight.toNat ∧
    vote.blockHash = blockHeader.1 ∧ vote.before.length = signedDataPrefix.length ∧
    self.signedData blockHeader signedDataPrefix = vote.signBytes

lemma signsPrecommit_iff {signature : TMSignature.Data} {blockHeight : UInt256}
    {blockHeader : Bytes32} {signedDataPrefix : Bytes} :
    signature.SignsPrecommit blockHeight blockHeader signedDataPrefix ↔
      isPrecommitFrame blockHeight signedDataPrefix signature.signedDataSuffix = true := by
  rw [isPrecommitFrame, Option.any_eq_true]
  constructor
  · rintro ⟨vote, htype, hheight, hhash, hlen, hsigned⟩
    rw [CanonicalVote.signBytes_eq (by rw [hhash]; exact blockHeader.2), hhash,
      TMSignature.Data.signedData, List.append_assoc, List.append_assoc] at hsigned
    obtain ⟨hpre, hrest⟩ := List.append_inj hsigned hlen.symm
    have hsuffix := List.append_cancel_left hrest
    rw [hpre, hsuffix]
    exact ⟨vote.toVoteFrame, readFrame_before_after _, by simp [htype, hheight]⟩
  · rintro ⟨f, -, hf⟩
    obtain ⟨htype, hheight, hpre, hsuffix⟩ := of_decide_eq_true hf
    refine ⟨{ f with blockHash := blockHeader.1 }, htype, hheight, rfl, by rw [hpre], ?_⟩
    rw [CanonicalVote.signBytes_eq blockHeader.2, TMSignature.Data.signedData, hpre, hsuffix]

namespace Sample

/-! ## A relay signed by a prevote -/

end Sample

end Bandchain.Bridge
