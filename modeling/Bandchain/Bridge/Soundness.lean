import Bandchain.Bridge.Contract
import Bandchain.Lib.Exec
import Bandchain.Lib.Iavl
import Bandchain.Lib.Sha256Nat
import Bandchain.Oracle.Key

/-!
# Verified oracle data is in the oracle store

If `verifyOracleData` accepts, the relayed state really holds the result of the request under
its key, whatever path the caller gave; so two accepted calls for the same request and the
same state return the same packets.
-/

namespace Bandchain.Bridge

open Exec Iavl

/-! ## Varints -/

namespace Utils

lemma varintSize_zero : varintSize 0 = 0 := by
  rw [varintSize, if_neg (lt_irrefl 0)]

lemma varintSize_of_pos {n : ℕ} (h : 0 < n) : varintSize n = varintSize (n / 128) + 1 := by
  rw [varintSize, if_pos h, Nat.shiftRight_eq_div_pow]

/-- One byte of the buffer. -/
lemma fill_byte (n : ℕ) :
    (128 : UInt8) ||| UInt8.ofNat (n &&& 127) = UInt8.ofNat (128 + n % 128) := by
  have hlt : n % 128 < 2 ^ 7 := Nat.mod_lt n (by decide)
  have hand : n &&& 127 = n % 128 := Nat.and_two_pow_sub_one_eq_mod n 7
  have hor : 128 ||| n % 128 = 128 + n % 128 := (Nat.two_pow_add_eq_or_of_lt hlt 1).symm
  rw [hand, ← hor, UInt8.ofNat_or]
  rfl

/-- The byte at the end. -/
lemma last_byte (n : ℕ) : UInt8.ofNat (128 + n % 128) &&& 127 = UInt8.ofNat (n % 128) := by
  have hand : (128 + n % 128) &&& 127 = n % 128 := by
    rw [Nat.and_two_pow_sub_one_eq_mod _ 7]
    omega
  have hbyte := congrArg UInt8.ofNat hand
  rw [UInt8.ofNat_and] at hbyte
  exact hbyte

/-- The filled buffer, with the high bit of its last byte dropped. -/
lemma modify_fillVarint {n : ℕ} (h : 0 < n) :
    (fillVarint (varintSize n) n).modify (varintSize n - 1) (· &&& 127) = Leb128.encode n := by
  induction n using Nat.strong_induction_on with
  | _ n ih =>
    rw [varintSize_of_pos h, fillVarint, fill_byte, Nat.shiftRight_eq_div_pow, Nat.add_sub_cancel]
    rcases Nat.lt_or_ge n 128 with hlt | hle
    · rw [Nat.div_eq_of_lt hlt, varintSize_zero, Leb128.encode_of_lt hlt]
      show [UInt8.ofNat (128 + n % 128) &&& 127] = _
      rw [last_byte, Nat.mod_eq_of_lt hlt]
    · have hpos : 0 < n / 128 := Nat.div_pos hle (by decide)
      have hrest := ih (n / 128) (Nat.div_lt_self h (by decide)) hpos
      rw [Leb128.encode_of_le hle, ← hrest, varintSize_of_pos hpos, Nat.add_sub_cancel]
      rfl

/-- The encoding of a value reverts for zero, and is the minimal one otherwise. -/
lemma encodeVarintUnsigned_eq (value : UInt256) :
    encodeVarintUnsigned value =
      if value = 0 then .error .invalidOpcode else .ok (Leb128.encode value.toNat) := by
  unfold encodeVarintUnsigned
  by_cases hzero : value = 0
  · subst hzero
    have hsize : varintSize (0 : UInt256).toNat = 0 := varintSize_zero
    simp only [if_pos hsize, if_pos]
  · have hpos : 0 < value.toNat := by
      rw [Nat.pos_iff_ne_zero]
      intro hnat
      exact hzero (BitVec.eq_of_toNat_eq (by rw [hnat]; rfl))
    have hsize : varintSize value.toNat ≠ 0 := by
      rw [varintSize_of_pos hpos]
      exact Nat.succ_ne_zero _
    simp only [if_neg hzero, if_neg hsize, modify_fillVarint hpos]

/-- An encoding that does not revert. -/
lemma encodeVarintSigned_eq_ok {value : UInt256} {b : Bytes}
    (h : encodeVarintSigned value = .ok b) : b = Leb128.encode (value * 2).toNat := by
  rw [encodeVarintSigned, encodeVarintUnsigned_eq] at h
  split_ifs at h
  exact (Except.ok.inj h).symm

end Utils

/-! ## Paths -/

/-- The step of a Merkle proof that a path component stands for.  The height is doubled in a
byte and the numbers in 256 bits, with wrap-around. -/
def IAVLMerklePath.Data.link (p : IAVLMerklePath.Data) : Link where
  height := p.subtreeHeight <<< 1
  size := (p.subtreeSize * 2).toNat
  version := (p.subtreeVersion * 2).toNat
  sibling := p.siblingHash
  onRight := p.isDataOnRight

lemma getParentHash_eq_ok {p : IAVLMerklePath.Data} {d d' : Bytes32}
    (h : p.getParentHash d = .ok d') : d' = sha256Digest (p.link.bytes d) := by
  simp only [IAVLMerklePath.Data.getParentHash, except_bind_eq_ok] at h
  obtain ⟨size, hsize, version, hversion, h⟩ := h
  obtain rfl := Utils.encodeVarintSigned_eq_ok hsize
  obtain rfl := Utils.encodeVarintSigned_eq_ok hversion
  rw [← Except.ok.inj h]
  unfold Link.bytes
  cases hright : p.isDataOnRight <;> simp [IAVLMerklePath.Data.link, innerBytes, hright]

lemma foldlM_getParentHash {paths : List IAVLMerklePath.Data} {d d' : Bytes32}
    (h : paths.foldlM (fun hash path => path.getParentHash hash) d = .ok d') :
    d' = climb sha256Digest d (paths.map IAVLMerklePath.Data.link) := by
  induction paths generalizing d with
  | nil => exact (Except.ok.inj h).symm
  | cons p paths ih =>
    rw [List.foldlM_cons, except_bind_eq_ok] at h
    obtain ⟨d₁, hd₁, h⟩ := h
    rw [ih h, getParentHash_eq_ok hd₁]
    rfl

/-! ## Packets -/

/-- The byte fields of the packet are shorter than `2 ^ 32`. -/
def RequestPacket.Short (p : RequestPacket) : Prop :=
  p.clientId.length < 2 ^ 32 ∧ p.params.length < 2 ^ 32

/-- The byte fields of the packet are shorter than `2 ^ 32`. -/
def ResponsePacket.Short (p : ResponsePacket) : Prop :=
  p.clientId.length < 2 ^ 32 ∧ p.result.length < 2 ^ 32

/-- A field with its length in front can be read off in one way. -/
lemma lengthPrefix_inj {a b x y : Bytes} (ha : a.length < 2 ^ 32) (hb : b.length < 2 ^ 32)
    (h : Bytes.be 4 a.length ++ (a ++ x) = Bytes.be 4 b.length ++ (b ++ y)) : a = b ∧ x = y := by
  obtain ⟨hlen, h⟩ := List.append_inj h (by simp)
  exact List.append_inj h (Bytes.be_inj (w := 4) ha hb hlen)

/-- So can a number of fixed width. -/
lemma uint64_append_inj {a b : UInt64} {x y : Bytes}
    (h : Bytes.be 8 a.toNat ++ x = Bytes.be 8 b.toNat ++ y) : a = b ∧ x = y := by
  obtain ⟨ha, h⟩ := List.append_inj h (by simp)
  exact ⟨Bytes.be_uint64_inj ha, h⟩

lemma marshalRequestPacket_inj {p q : RequestPacket} (hp : p.Short) (hq : q.Short)
    (h : Packets.marshalRequestPacket p = Packets.marshalRequestPacket q) : p = q := by
  simp only [Packets.marshalRequestPacket, List.append_assoc] at h
  obtain ⟨hclient, h⟩ := lengthPrefix_inj hp.1 hq.1 h
  obtain ⟨hscript, h⟩ := uint64_append_inj h
  obtain ⟨hparams, h⟩ := lengthPrefix_inj hp.2 hq.2 h
  obtain ⟨hask, h⟩ := uint64_append_inj h
  have hmin := Bytes.be_uint64_inj h
  cases p
  cases q
  simp_all

lemma marshalResponsePacket_inj {p q : ResponsePacket} (hp : p.Short) (hq : q.Short)
    (h : Packets.marshalResponsePacket p = Packets.marshalResponsePacket q) : p = q := by
  simp only [Packets.marshalResponsePacket, List.append_assoc] at h
  obtain ⟨hclient, h⟩ := lengthPrefix_inj hp.1 hq.1 h
  obtain ⟨hid, h⟩ := uint64_append_inj h
  obtain ⟨hans, h⟩ := uint64_append_inj h
  obtain ⟨hreq, h⟩ := uint64_append_inj h
  obtain ⟨hres, h⟩ := uint64_append_inj h
  obtain ⟨hstatus, h⟩ := List.append_inj h (by simp)
  obtain ⟨hresult, _⟩ := lengthPrefix_inj (x := []) (y := []) hp.2 hq.2 (by simpa using h)
  have hstatus' : p.resolveStatus = q.resolveStatus := by
    have hp8 := p.resolveStatus.toNat_lt
    have hq8 := q.resolveStatus.toNat_lt
    exact UInt8.toNat_inj.mp (Bytes.be_inj (w := 4) (by omega) (by omega) hstatus)
  cases p
  cases q
  simp_all

/-! ## Calls -/

namespace VerifyArgs

/-- The key of the result of a request. -/
def key (a : VerifyArgs) : Bytes := 0xff :: Bytes.be 8 a.responsePacket.requestId.toNat

/-- The value that the call claims for the key. -/
def value (a : VerifyArgs) : Bytes32 := Packets.getResultHash a.requestPacket a.responsePacket

/-- The string hashed for the leaf. -/
def leaf (a : VerifyArgs) : Bytes :=
  leafBytes (a.version * 2).toNat a.key (sha256Digest a.value.1)

/-- The string hashed for the value. -/
def valueBytes (a : VerifyArgs) : Bytes :=
  (sha256Digest (Packets.marshalRequestPacket a.requestPacket)).1 ++
    (sha256Digest (Packets.marshalResponsePacket a.responsePacket)).1

/-- All strings hashed in the call. -/
def hashed (a : VerifyArgs) : List Bytes :=
  Packets.marshalRequestPacket a.requestPacket :: Packets.marshalResponsePacket a.responsePacket ::
    a.valueBytes :: a.value.1 :: a.leaf ::
    climbHashed sha256Digest (sha256Digest a.leaf) (a.merklePaths.map IAVLMerklePath.Data.link)

variable {a b : VerifyArgs} {oracleStates : UInt256 → Bytes32}

/-- The leaf of the contract is the leaf of a tree. -/
lemma leafHash_eq {encodedVarint : Bytes}
    (h : Utils.encodeVarintSigned a.version = .ok encodedVarint) :
    leafHash (sha256Digest a.value.1) a.responsePacket.requestId encodedVarint =
      sha256Digest a.leaf := by
  obtain rfl := Utils.encodeVarintSigned_eq_ok h
  have hlen : Leb128.encode a.key.length = [9] := by
    have hkey : a.key.length = 9 := by simp [key]
    rw [hkey, Leb128.encode_of_lt (by decide)]
    rfl
  rw [leafHash, leaf, leafBytes, hlen, key]
  simp

/-- An accepted call returns its packets, and its path leads to the relayed root. -/
lemma verify_eq_ok {out : RequestPacket × ResponsePacket} (h : a.verify oracleStates = .ok out) :
    out = (a.requestPacket, a.responsePacket) ∧
      climb sha256Digest (sha256Digest a.leaf) (a.merklePaths.map IAVLMerklePath.Data.link) =
        oracleStates a.blockHeight := by
  simp only [verify, verifyOracleData, except_bind_eq_ok, require_eq_ok] at h
  obtain ⟨_, _, encodedVarint, hversion, root, hpath, _, hroot, hout⟩ := h
  refine ⟨(Except.ok.inj hout).symm, ?_⟩
  change a.merklePaths.foldlM _ (leafHash (sha256Digest a.value.1) _ _) = _ at hpath
  rw [leafHash_eq hversion] at hpath
  rw [← foldlM_getParentHash hpath, hroot]

/-- Accepted data is in the tree whose root was relayed. -/
lemma entry_of_verify {t : Tree} {out : RequestPacket × ResponsePacket}
    (hinj : Set.InjOn sha256Digest { m | m ∈ t.hashed sha256Digest ∨ m ∈ a.hashed })
    (hroot : oracleStates a.blockHeight = t.hash sha256Digest) (hfit : t.HeightsFit)
    (hkeys : ∀ e ∈ t.entries, Oracle.StoreKey e.1) (h : a.verify oracleStates = .ok out) :
    (a.key, a.value.1) ∈ t.entries := by
  obtain ⟨value, hentry, hmem, hvalue⟩ := exists_entry_of_climb (H := sha256Digest)
    (hinj.mono fun m hm => hm.imp_right fun hm => by
      rcases hm with rfl | hm
      · simp [hashed, leaf]
      · simp only [hashed, List.mem_cons]
        exact .inr (.inr (.inr (.inr (.inr hm)))))
    hfit (fun e he => (hkeys e he).length_ne) ((verify_eq_ok h).2.trans hroot)
  have hval := hinj (.inl hmem) (.inr (by simp [hashed])) hvalue
  rwa [hval] at hentry

/-- The value determines the packets. -/
lemma packets_eq_of_value_eq
    (hinj : Set.InjOn sha256Digest { m | m ∈ a.hashed ∨ m ∈ b.hashed })
    (ha : a.requestPacket.Short ∧ a.responsePacket.Short)
    (hb : b.requestPacket.Short ∧ b.responsePacket.Short) (h : a.value = b.value) :
    a.requestPacket = b.requestPacket ∧ a.responsePacket = b.responsePacket := by
  have hbytes : a.valueBytes = b.valueBytes :=
    hinj (.inl (by simp [hashed])) (.inr (by simp [hashed])) h
  obtain ⟨hreq, hres⟩ := List.append_inj hbytes (by
    rw [(sha256Digest _).2, (sha256Digest _).2])
  have hreq' := hinj (.inl (by simp [hashed])) (.inr (by simp [hashed])) (Subtype.ext hreq)
  have hres' := hinj (.inl (by simp [hashed])) (.inr (by simp [hashed])) (Subtype.ext hres)
  exact ⟨marshalRequestPacket_inj ha.1 hb.1 hreq', marshalResponsePacket_inj ha.2 hb.2 hres'⟩

end VerifyArgs

/-- **Soundness of the bridge.**  Let the relayed state be the root of an IAVL tree whose keys
are keys of the oracle store, and let no two different strings that are hashed for the tree
or in the calls have the same hash.  Whatever path is given, an accepted call returns its
packets, and the tree holds their result hash under the key of the request; so a second
accepted call against the same root and for the same request returns the same packets. -/
theorem verifyOracleData_sound {oracleStates : UInt256 → Bytes32} {t : Tree} {a b : VerifyArgs}
    {out out' : RequestPacket × ResponsePacket}
    (hroot : oracleStates a.blockHeight = t.hash sha256Digest)
    (hroot' : oracleStates b.blockHeight = t.hash sha256Digest) (hfit : t.HeightsFit)
    (hnodup : (t.entries.map Prod.fst).Nodup) (hkeys : ∀ e ∈ t.entries, Oracle.StoreKey e.1)
    (hinj : Set.InjOn sha256Digest
      { m | m ∈ t.hashed sha256Digest ∨ m ∈ a.hashed ∨ m ∈ b.hashed })
    (h : a.verify oracleStates = .ok out) (h' : b.verify oracleStates = .ok out') :
    out = (a.requestPacket, a.responsePacket) ∧
      (0xff :: Bytes.be 8 a.responsePacket.requestId.toNat,
        (Packets.getResultHash a.requestPacket a.responsePacket).1) ∈ t.entries ∧
      (a.responsePacket.requestId = b.responsePacket.requestId →
        a.requestPacket.Short ∧ a.responsePacket.Short →
        b.requestPacket.Short ∧ b.responsePacket.Short → out = out') := by
  have hentry : (a.key, a.value.1) ∈ t.entries := VerifyArgs.entry_of_verify
    (hinj.mono fun m hm => hm.imp_right .inl) hroot hfit hkeys h
  have hentry' : (b.key, b.value.1) ∈ t.entries := VerifyArgs.entry_of_verify
    (hinj.mono fun m hm => hm.imp_right .inr) hroot' hfit hkeys h'
  have hout := (VerifyArgs.verify_eq_ok h).1
  refine ⟨hout, hentry, fun hid ha hb => ?_⟩
  -- both results stand under the same key
  have hkey : a.key = b.key := by rw [VerifyArgs.key, VerifyArgs.key, hid]
  have hvalue : a.value = b.value :=
    Subtype.ext (Prod.mk.inj (List.inj_on_of_nodup_map hnodup hentry hentry' hkey)).2
  obtain ⟨hreq, hres⟩ := VerifyArgs.packets_eq_of_value_eq (hinj.mono fun m hm => .inr hm) ha hb
    hvalue
  rw [hout, (VerifyArgs.verify_eq_ok h').1, hreq, hres]

/-! ## A small tree -/

namespace Sample

def requestPacket : RequestPacket := ⟨[], 1, [1], 1, 1⟩

def responsePacket : ResponsePacket := ⟨[], 1, 1, 1590000000, 1590000003, 1, [7]⟩

/-- The leaf that holds the number of requests. -/
def countLeaf : Tree := .leaf 4 Oracle.requestCountStoreKey [1, 1]

/-- A tree with the number of requests and one result. -/
def tree : Tree :=
  .inner 1 2 5 countLeaf
    (.leaf 5 (Oracle.resultStoreKey 1) (Packets.getResultHash requestPacket responsePacket).1)

def oracleStates : UInt256 → Bytes32 := fun _ => tree.hash sha256Digest

/-- The call that proves the result of request 1. -/
def args : VerifyArgs where
  blockHeight := 6
  requestPacket := requestPacket
  responsePacket := responsePacket
  version := 5
  merklePaths := [⟨true, 1, 2, 5, countLeaf.hash sha256Digest⟩]

/-- The call is accepted, the keys of the tree differ, and no two of the strings hashed here
collide. -/
lemma args_facts :
    args.verify oracleStates = .ok (requestPacket, responsePacket) ∧
      (tree.entries.map Prod.fst).Nodup ∧
      ∀ m ∈ tree.hashed sha256Digest ++ args.hashed,
        ∀ m' ∈ tree.hashed sha256Digest ++ args.hashed,
          sha256Digest m = sha256Digest m' → m = m' := by
  -- bring the digests to the surface, to have them computed on natural numbers
  unfold VerifyArgs.verify verifyOracleData oracleStates leafHash
    IAVLMerklePath.Data.getParentHash
  simp only [VerifyArgs.hashed, VerifyArgs.valueBytes, VerifyArgs.leaf, VerifyArgs.value,
    Packets.getResultHash]
  rw [sha256Digest_eq_sha256DigestNat]
  decide +kernel

lemma injOn_sha256Digest :
    Set.InjOn sha256Digest
      { m | m ∈ tree.hashed sha256Digest ∨ m ∈ args.hashed ∨ m ∈ args.hashed } := by
  intro m hm m' hm'
  simp only [Set.mem_ofPred_eq, or_self, ← List.mem_append] at hm hm'
  exact args_facts.2.2 m hm m' hm'

lemma storeKey_of_mem_entries : ∀ e ∈ tree.entries, Oracle.StoreKey e.1 := by
  intro e he
  rcases List.mem_pair.mp he with rfl | rfl
  · exact .requestCount
  · exact .result 1

end Sample

/-- The tree holds the result that the call proves. -/
theorem verifyOracleData_sound_sample :
    (0xff :: Bytes.be 8 1, (Packets.getResultHash Sample.requestPacket
      Sample.responsePacket).1) ∈ Sample.tree.entries :=
  (verifyOracleData_sound (t := Sample.tree) (a := Sample.args) (b := Sample.args) rfl rfl
    ⟨by decide, by decide, trivial, trivial⟩ Sample.args_facts.2.1 Sample.storeKey_of_mem_entries
    Sample.injOn_sha256Digest Sample.args_facts.1 Sample.args_facts.1).2.1

end Bandchain.Bridge
