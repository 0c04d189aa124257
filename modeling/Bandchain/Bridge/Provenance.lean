import Bandchain.Bridge.Completeness
import Bandchain.Bridge.Consensus
import Bandchain.Bridge.ProofPackets
import Bandchain.Oracle.StoreKeys

/-!
# What the bridge tells of the oracle module

From the oracle module to a caller of the bridge, data goes through the store of the module, the
app hash of a commit, the header of a block, the votes of the validators and two proofs.  In the
end, whatever the bridge accepts was produced by the oracle module.
-/

namespace Bandchain.Bridge

open Exec Iavl Proof
open Oracle (World SaveRecord RequestID Request PrepareRecord outcome)

/-! ## Results of the oracle module -/

/-- The response that a saved result commits to. -/
def savedResponse (s : SaveRecord) (r : Request) : Oracle.OracleResponsePacketData :=
  r.response s.id s.reportCount s.blockTime s.status s.result

/-- The packets of a result: a request was accepted, and its result was saved with what an
execution of the script returned, or with nothing after it expired.  The two counts of the request
packet are in the wrong order. -/
structure Produced (w : World) (p : PrepareRecord) (s : SaveRecord) (req : RequestPacket)
    (res : ResponsePacket) : Prop where
  accepted : .prepareRequest p ∈ w.trace
  saved : .saveResult s ∈ w.trace
  id_eq : s.id = p.id
  request : req = transformRequestPacket { p.spec.toPacket with
    askCount := p.spec.minCount, minCount := p.spec.askCount }
  response : res = transformResponsePacket
    { clientID := p.spec.clientID
      requestID := p.id
      ansCount := UInt64.ofNat s.reportCount
      requestTime := p.blockTime
      resolveTime := s.blockTime
      resolveStatus := s.status
      result := s.result }
  outcome : (∃ exitCode retdata, .execute p.id exitCode retdata ∈ w.trace ∧
      (s.status, s.result) = outcome exitCode retdata) ∨
    .processExpired p.id ∈ w.trace ∧ s.status = .expired ∧ s.result = []

variable {k : Oracle.Keeper} {w : World} {p : PrepareRecord} {s : SaveRecord} {r : Request}

/-- A stored result is the hash of packets that were produced. -/
lemma exists_produced (hw : Oracle.ReachableWorld k w) {id : RequestID} {x : Bytes}
    (hx : w.store.results[id]? = some x) : ∃ p s r, s.id = id ∧ .saveResult s ∈ w.trace ∧
      w.store.requests[s.id]? = some r ∧ x = Oracle.calculateResultHash r.savedPacket
        (savedResponse s r) ∧ Produced w p s (transformRequestPacket r.savedPacket)
          (transformResponsePacket (savedResponse s r)) := by
  have hI := Oracle.recorded_of_reachable hw
  obtain ⟨s, hs, rfl, rfl⟩ := hI.described.save_of_result hx
  obtain ⟨r, hr, hrec⟩ := hI.described.saved s hs
  obtain ⟨p, hp, hid, hdesc⟩ := hI.described.prepared s.id r hr
  have hhash : s.hash = Oracle.calculateResultHash r.savedPacket (savedResponse s r) := by
    conv_lhs => rw [hrec]
    rfl
  refine ⟨p, s, r, rfl, hs, hr, hhash, hp, hs, hid.symm, ?_, ?_, ?_⟩
  · rw [Oracle.savedPacket_eq hdesc]
  · rw [savedResponse, Request.response, Oracle.newOracleResponsePacketData, hdesc.clientID,
      hdesc.requestTime, hid]
  · obtain ⟨pre, post, ht⟩ := List.append_of_mem hs
    have hpre : ∀ c ∈ pre, c ∈ w.ledger.trace := fun c hc => by
      rw [ht]
      exact List.mem_append_left _ hc
    rw [hid]
    rcases (hI.explained.at_split ht).2 with ⟨exitCode, retdata, hlast, hout⟩ | ⟨hlast, hout⟩
    · exact .inl ⟨exitCode, retdata, hpre _ (List.mem_of_getLast? hlast), hout⟩
    · exact .inr ⟨hpre _ (List.mem_of_getLast? hlast), hout⟩

/-! ## Blocks and worlds -/

/-- The block stands for the world: the root of the oracle store in it is that of a tree which
holds the results of the world. -/
structure Snapshot (k : Oracle.Keeper) (b : Block) (w : World) (t : Tree) : Prop where
  reachable : Oracle.ReachableWorld k w
  root : b.oracleRoot = t.hash sha256Digest
  bounded : Bounded t
  heightsFit : t.HeightsFit
  keys : ∀ e ∈ t.entries, Oracle.StoreKey e.1
  results : ∀ (id : Int64) (x : Bytes),
    (Oracle.resultStoreKey id.toInt, x) ∈ t.entries ↔ w.store.results[id.toInt]? = some x
  short : ∀ s r, .saveResult s ∈ w.trace → w.store.requests[s.id]? = some r →
    (transformRequestPacket r.savedPacket).Short ∧
      (transformResponsePacket (savedResponse s r)).Short

/-- The strings that the oracle module has hashed for the results of a request. -/
def savedHashed (w : World) (id : RequestID) : Set Bytes :=
  { m | ∃ s r, .saveResult s ∈ w.trace ∧ s.id = id ∧ w.store.requests[id]? = some r ∧
    m ∈ resultHashed r.savedPacket (savedResponse s r) }

/-! ## Soundness -/

section Sound

variable {a : VerifyArgs} {req : Oracle.OracleRequestPacketData}
  {res : Oracle.OracleResponsePacketData}

lemma uint64ToBigEndian_toInt (n : Int64) :
    Oracle.uint64ToBigEndian n.toInt = Bytes.be 8 n.toUInt64.toNat := by
  have hcond := n.toBitVec.toInt_eq_toNat_cond
  have hlt := n.toBitVec.isLt
  have hnat : (n.toInt % 2 ^ 64).toNat = n.toUInt64.toNat := by
    show (n.toBitVec.toInt % 2 ^ 64).toNat = n.toBitVec.toNat
    omega
  rw [Oracle.uint64ToBigEndian, hnat]

/-- The key that a call claims is that of the result of a request. -/
lemma key_eq_resultStoreKey (a : VerifyArgs) :
    a.key = Oracle.resultStoreKey a.responsePacket.requestId.toInt64.toInt := by
  rw [Oracle.resultStoreKey, uint64ToBigEndian_toInt, UInt64.toUInt64_toInt64]
  rfl

/-- A call with the result hash of two packets has these packets. -/
lemma packets_eq_of_value_eq_hash (hinj : Set.InjOn sha256Digest
      { m | m ∈ a.hashed ∨ m ∈ resultHashed req res })
    (ha : a.requestPacket.Short ∧ a.responsePacket.Short)
    (hb : (transformRequestPacket req).Short ∧ (transformResponsePacket res).Short)
    (h : a.value.1 = Oracle.calculateResultHash req res) :
    a.requestPacket = transformRequestPacket req ∧
      a.responsePacket = transformResponsePacket res := by
  have hpair : a.valueBytes =
      sha256 (Oracle.mustEncode req.toObi) ++ sha256 (Oracle.mustEncode res.toObi) :=
    hinj (.inl (by simp [VerifyArgs.hashed])) (.inr (by simp [resultHashed])) (Subtype.ext h)
  obtain ⟨hreq, hres⟩ := List.append_inj hpair (by rw [(sha256Digest _).2, length_sha256])
  have hreq' := hinj (.inl (by simp [VerifyArgs.hashed])) (.inr (by simp [resultHashed]))
    (Subtype.ext hreq)
  have hres' := hinj (.inl (by simp [VerifyArgs.hashed])) (.inr (by simp [resultHashed]))
    (Subtype.ext hres)
  rw [← marshalRequestPacket_transform] at hreq'
  rw [← marshalResponsePacket_transform] at hres'
  exact ⟨marshalRequestPacket_inj ha.1 hb.1 hreq', marshalResponsePacket_inj ha.2 hb.2 hres'⟩

variable {c : Chain} {platform : Platform} {st st' : Storage} {out : RequestPacket × ResponsePacket}

/-- A call that is accepted against the root of a snapshot returns packets that were produced. -/
lemma Snapshot.produced_of_verify {b : Block} {t : Tree} {oracleStates : UInt256 → Bytes32}
    (hsnap : Snapshot k b w t) (hroot : oracleStates a.blockHeight = b.oracleRoot)
    (hinj : Set.InjOn sha256Digest { m | m ∈ t.hashed sha256Digest ∨ m ∈ a.hashed ∨
      m ∈ savedHashed w a.responsePacket.requestId.toInt64.toInt })
    (ha : a.requestPacket.Short ∧ a.responsePacket.Short) (h : a.verify oracleStates = .ok out) :
    ∃ p s, s.id = a.responsePacket.requestId.toInt64.toInt ∧ Produced w p s out.1 out.2 := by
  have hentry := VerifyArgs.entry_of_verify (hinj.mono fun m hm => hm.imp_right .inl)
    (hroot.trans hsnap.root) hsnap.heightsFit hsnap.keys h
  rw [key_eq_resultStoreKey, hsnap.results] at hentry
  obtain ⟨p, s, r, hid, hs, hr, hhash, hproduced⟩ := exists_produced hsnap.reachable hentry
  have hpackets := packets_eq_of_value_eq_hash (hinj.mono fun m hm => by
    rcases hm with hm | hm
    · exact .inr (.inl hm)
    · exact .inr (.inr ⟨s, r, hs, hid, hid ▸ hr, hm⟩)) ha (hsnap.short s r hs hr) hhash
  obtain rfl := (VerifyArgs.verify_eq_ok h).1
  refine ⟨p, s, hid, ?_⟩
  rw [hpackets.1, hpackets.2]
  exact hproduced

/-- **What the bridge accepts was produced.**  Take a bridge in any run in which the chain does not
fork and the relays that are accepted are genuine.  If a call of `verifyOracleData` is accepted
for a height, for which the block of the chain stands for a state of the oracle module, then the
packets that it returns are those of a request which that module had accepted, and of the result
that it saved for it, from an execution of the script or after the request expired. -/
theorem verifyOracleData_produced {calls : List Call} (hst : Deployed platform st)
    (hrun : RunWhere (Step platform) (c.Trusted platform) st calls st')
    (hchain : ∀ b ∈ c.blocks, b.height = a.blockHeight → ∃ t, Snapshot k b w t ∧
      Set.InjOn sha256Digest { m | m ∈ t.hashed sha256Digest ∨ m ∈ a.hashed ∨
        m ∈ savedHashed w a.responsePacket.requestId.toInt64.toInt })
    (ha : a.requestPacket.Short ∧ a.responsePacket.Short)
    (h : a.verify st'.oracleStates = .ok out) :
    (∃ b ∈ c.blocks, b.height = a.blockHeight) ∧
      ∃ p s, s.id = a.responsePacket.requestId.toInt64.toInt ∧ Produced w p s out.1 out.2 := by
  have hagrees := (Chain.agrees_of_deployed (c := c) hst).of_run hrun
  have hne : (st'.oracleStates a.blockHeight).1 ≠ List.replicate 32 0 := by
    have h' := h
    simp only [VerifyArgs.verify, verifyOracleData, except_bind_eq_ok, require_eq_ok] at h'
    obtain ⟨_, hne, _⟩ := h'
    exact hne
  obtain ⟨b, hb, hheight, hroot⟩ := (hagrees.follows a.blockHeight).resolve_left hne
  obtain ⟨t, hsnap, hinj⟩ := hchain b hb hheight
  exact ⟨⟨b, hb, hheight⟩, hsnap.produced_of_verify hroot hinj ha h⟩

end Sound

/-- An existence proof is accepted against the root of its tree. -/
lemma verify_of_path {t : Tree} {req : RequestPacket} {res : ResponsePacket}
    {path : List ProofInnerNode} {version : ℕ} {oracleStates : UInt256 → Bytes32}
    {blockHeight : UInt256} (ht : Bounded t)
    (hpath : PathToLeaf t path version (0xff :: Bytes.be 8 res.requestId.toNat)
      (Packets.getResultHash req res).1)
    (hroot : oracleStates blockHeight = t.hash sha256Digest)
    (hne : (t.hash sha256Digest).1 ≠ List.replicate 32 0) :
    (VerifyArgs.mk blockHeight req res (BitVec.ofNat 256 version)
      ((getIAVLMerklePaths path).map IAVLMerklePath.encodeToEthFormat)).verify oracleStates =
        .ok (req, res) := by
  have hversion := ht.version hpath
  have hfold := foldlM_getIAVLMerklePaths ht hpath
  rw [← leafHash_eq_hash] at hfold
  simp only [VerifyArgs.verify, verifyOracleData, except_bind_eq_ok, require_eq_ok, hroot]
  exact ⟨(), hne, _, encodeVarintSigned_ofNat hversion.1 hversion.2, _, hfold, (), rfl, rfl⟩

/-! ## One result, from the oracle module to the bridge -/

namespace Sample

/-- The packets of the one result in the sample world. -/
def resultRequest : Oracle.OracleRequestPacketData := ⟨[], 1, [1], 1, 2⟩

def resultResponse : Oracle.OracleResponsePacketData :=
  ⟨[], 1, 2, 1590000000, 1590000000, .success, []⟩

/-- The stored result. -/
def result : Bytes32 := word 0xdba59f4e6c7c4b5cec13ab6fc0de7e411f30918fb711fc9cef3b13b1cf9c1972

/-- A tree with the number of requests and the result. -/
def resultTree : Tree := .inner 1 2 5 countLeaf (.leaf 5 (Oracle.resultStoreKey 1) result.1)

def resultRoot : Bytes32 := word 0x35dcadbcfc2caa6166410f19162af8d17eb8e769e1cb83f70f3e876f4738cc47

/-- The existence proof of the result. -/
def resultPath : List ProofInnerNode :=
  [⟨Int8.ofNat 1, Int64.ofNat 2, Int64.ofNat 5, (countLeaf.hash sha256Digest).1, []⟩]

def resultArgs : VerifyArgs where
  blockHeight := 381837
  requestPacket := transformRequestPacket resultRequest
  responsePacket := transformResponsePacket resultResponse
  version := BitVec.ofNat 256 5
  merklePaths := (getIAVLMerklePaths resultPath).map IAVLMerklePath.encodeToEthFormat

/-- The request is resolved with two reports. -/
lemma exists_world : ∃ w, Oracle.ReachableWorld Oracle.Sample.keeper w ∧
    w.store.results.toList = [(1, result.1)] ∧
    ∀ s ∈ saves w.trace, ∀ r ∈ w.store.requests[s.id]?,
      r.savedPacket = resultRequest ∧ savedResponse s r = resultResponse := by
  obtain ⟨w, hrun, hw⟩ := exists_runWhere (f := Oracle.next Oracle.Sample.keeper)
    (P := fun _ _ => True) (s := Oracle.Sample.genesis) (Oracle.Sample.twoReports ++ [.endBlock])
    (I := fun w => w.store.results.toList = [(1, result.1)] ∧
      ∀ s ∈ saves w.trace, ∀ r ∈ w.store.requests[s.id]?,
        r.savedPacket = resultRequest ∧ savedResponse s r = resultResponse)
    (by decide +kernel)
  exact ⟨w, ⟨_, _, Oracle.Sample.starts_genesis, hrun⟩, hw⟩

/-- The strings hashed for the result. -/
def resultStrings : List Bytes :=
  resultTree.hashed sha256Digest ++ resultArgs.hashed ++ resultHashed resultRequest resultResponse

lemma result_facts :
    resultTree.hash sha256Digest = resultRoot ∧
      (Packets.getResultHash resultArgs.requestPacket resultArgs.responsePacket) = result ∧
      (resultStrings.dedup.map sha256Digest).Nodup := by
  decide +kernel

lemma injOn_resultStrings : Set.InjOn sha256Digest { m | m ∈ resultStrings } := by
  intro m hm m' hm' h
  rw [Set.mem_ofPred_eq, ← List.mem_dedup] at hm hm'
  exact List.inj_on_of_nodup_map result_facts.2.2 hm hm' h

lemma pathToLeaf_result : PathToLeaf resultTree resultPath 5 (Oracle.resultStoreKey 1) result.1 :=
  .right (.leaf 5 (Oracle.resultStoreKey 1) result.1)

lemma mem_entries_resultTree {id : Int64} {x : Bytes} :
    (Oracle.resultStoreKey id.toInt, x) ∈ resultTree.entries ↔ id = 1 ∧ x = result.1 := by
  have hentries : resultTree.entries =
      [(Oracle.requestCountStoreKey, [1, 1]), (Oracle.resultStoreKey 1, result.1)] := rfl
  rw [hentries, List.mem_pair, Prod.mk.injEq, Prod.mk.injEq]
  constructor
  · rintro (⟨hkey, -⟩ | ⟨hkey, hx⟩)
    · exact absurd (List.cons.inj hkey).1 (by decide)
    · exact ⟨Oracle.uint64ToBigEndian_injective (List.append_cancel_left hkey), hx⟩
  · rintro ⟨rfl, hx⟩
    exact .inr ⟨rfl, hx⟩

lemma snapshot_of_facts (hw : Oracle.ReachableWorld Oracle.Sample.keeper w)
    (hresults : w.store.results.toList = [(1, result.1)])
    (hpackets : ∀ s ∈ saves w.trace, ∀ r ∈ w.store.requests[s.id]?,
      r.savedPacket = resultRequest ∧ savedResponse s r = resultResponse) :
    Snapshot Oracle.Sample.keeper (block resultRoot) w resultTree where
  reachable := hw
  root := (oracleRoot_block resultRoot).trans result_facts.1.symm
  bounded := by
    refine ⟨by decide, by decide, by decide, ?_, ?_⟩ <;> exact ⟨by decide, by decide⟩
  heightsFit := ⟨by decide, by decide, trivial, trivial⟩
  keys := by
    intro e he
    rcases List.mem_pair.mp he with rfl | rfl
    · exact .requestCount
    · exact .result 1
  results := by
    intro id x
    rw [mem_entries_resultTree, ← Std.ExtTreeMap.mem_toList_iff_getElem?_eq_some, hresults,
      List.mem_singleton, Prod.mk.injEq]
    refine and_congr_left fun _ => ⟨fun h => by rw [h]; rfl, fun h => ?_⟩
    exact Int64.toInt_inj.mp h
  short := by
    intro s r hs hr
    obtain ⟨hreq, hres⟩ := hpackets s (mem_saves.mpr hs) r hr
    rw [hreq, hres]
    exact ⟨⟨by decide, by decide⟩, by decide, by decide⟩

end Sample

/-- The result of the sample world, proved to the bridge with one validator. -/
theorem verifyOracleData_produced_sample : ∃ w p s,
    Oracle.ReachableWorld Oracle.Sample.keeper w ∧ s.id = 1 ∧
    Produced w p s (transformRequestPacket Sample.resultRequest)
      (transformResponsePacket Sample.resultResponse) := by
  obtain ⟨w, hw, hresults, hpackets⟩ := Sample.exists_world
  have hsnap := Sample.snapshot_of_facts hw hresults hpackets
  obtain ⟨st, hrun, hroot⟩ := Sample.exists_run_precommit Sample.resultRoot
    (Sample.word 0xbb91773df86b7d7deb42cc8c96eae9f566c021c1a4304f62278f0dc2db223414)
    (Sample.word 0x653a2f0f3a10bc207b9e12f82cb20f6d5136ccbf86aa1ec354c20e1b0bda8f94) 27
  have hinj : Set.InjOn sha256Digest { m | m ∈ Sample.resultTree.hashed sha256Digest ∨
      m ∈ Sample.resultArgs.hashed ∨ m ∈ savedHashed w 1 } := by
    refine Sample.injOn_resultStrings.mono fun m hm => ?_
    rw [Set.mem_ofPred_eq, Sample.resultStrings, List.mem_append, List.mem_append]
    rcases hm with hm | hm | ⟨s, r, hs, hid, hr, hm⟩
    · exact .inl (.inl hm)
    · exact .inl (.inr hm)
    · obtain ⟨hreq, hres⟩ := hpackets s (mem_saves.mpr hs) r (by rw [hid]; exact hr)
      rw [hreq, hres] at hm
      exact .inr hm
  have hpath : PathToLeaf Sample.resultTree Sample.resultPath 5
      (0xff :: Bytes.be 8 Sample.resultArgs.responsePacket.requestId.toNat)
      (Packets.getResultHash Sample.resultArgs.requestPacket
        Sample.resultArgs.responsePacket).1 := by
    rw [Sample.result_facts.2.1]
    exact Sample.pathToLeaf_result
  have hverify : Sample.resultArgs.verify st.oracleStates =
      .ok (transformRequestPacket Sample.resultRequest,
        transformResponsePacket Sample.resultResponse) :=
    verify_of_path hsnap.bounded hpath (hroot.trans Sample.result_facts.1.symm) (by
      rw [Sample.result_facts.1]
      decide)
  obtain ⟨-, p, s, hid, hproduced⟩ := verifyOracleData_produced
    (Sample.deployed_deployedPrecommit _ _ _ _) hrun (by
      rintro b rfl _
      exact ⟨_, hsnap, hinj⟩) ⟨⟨by decide, by decide⟩, by decide, by decide⟩ hverify
  exact ⟨w, p, s, hw, hid, hproduced⟩

end Bandchain.Bridge
