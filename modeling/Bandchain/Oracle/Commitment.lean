import Bandchain.Oracle.Lifecycle

/-!
# What a result commits to

The hash that `SaveResult` stores commits to a request packet and a response packet.  The
response is the one it should be.  The request packet is rebuilt from the stored request, with
the two counts in the wrong order: it is the packet that the requester sent exactly if the two
counts are equal.
-/

namespace Bandchain.Oracle

open Exec

/-! ## Results carry the time of their block -/

/-- The second world comes later in the same block, and the results saved since then carry
the time of the block and are announced by their events. -/
structure SameBlock (w w' : World) : Prop where
  header : w'.header = w.header
  trace : ∃ cs, w'.trace = w.trace ++ cs ∧ ∀ s, .saveResult s ∈ cs →
    s.blockTime = w.header.time ∧ .event s.event ∈ cs

namespace SameBlock

lemma refl (w : World) : SameBlock w w := ⟨rfl, [], (List.append_nil _).symm, by simp⟩

lemma trans {w w' w'' : World} (h : SameBlock w w') (h' : SameBlock w' w'') : SameBlock w w'' := by
  obtain ⟨hheader, cs, hcs, hsave⟩ := h
  obtain ⟨hheader', cs', hcs', hsave'⟩ := h'
  refine ⟨hheader'.trans hheader, cs ++ cs', by rw [hcs', hcs, List.append_assoc], ?_⟩
  intro s hs
  rcases List.mem_append.mp hs with hs | hs
  · exact ⟨(hsave s hs).1, List.mem_append_left _ (hsave s hs).2⟩
  · rw [hheader] at hsave'
    exact ⟨(hsave' s hs).1, List.mem_append_right _ (hsave' s hs).2⟩

instance : IsPreorder World SameBlock where
  refl := refl
  trans _ _ _ := trans

end SameBlock

lemma sameBlock_saveResult (id : RequestID) (status : ResolveStatus) (result : Bytes) :
    Exits SameBlock (saveResult id status result) := by
  refine exits_saveResult_of_stored fun w r hr => ?_
  refine ⟨rfl, [.saveResult _, .event _], List.append_assoc _ _ _, ?_⟩
  intro s hs
  obtain rfl : s = _ := by simpa using hs
  exact ⟨rfl, by simp⟩

/-- Any write but the saving of a result. -/
lemma sameBlock_of_trace {w w' : World} {cs : List Call} (hheader : w'.header = w.header)
    (htrace : w'.trace = w.trace ++ cs) (hcs : ∀ s, .saveResult s ∉ cs) : SameBlock w w' :=
  ⟨hheader, cs, htrace, fun s hs => absurd hs (hcs s)⟩

lemma endBlockKeeps_sameBlock (k : Keeper) : EndBlockKeeps k SameBlock where
  record _ _ hc := sameBlock_of_trace rfl rfl fun s hs => by
    obtain rfl := List.mem_singleton.mp hs
    exact hc.elim
  saveResult := sameBlock_saveResult
  pending _ := sameBlock_of_trace rfl (List.append_nil _).symm (by simp)
  cursor _ _ := sameBlock_of_trace rfl (List.append_nil _).symm (by simp)
  report _ _ _ := sameBlock_of_trace rfl rfl fun s hs => by
    simp only [List.mem_cons, reduceCtorEq, false_or] at hs
    exact quiet_jailCalls _ _ hs
  channels _ _ := sameBlock_of_trace rfl (List.append_nil _).symm (by simp)

lemma sameBlock_handleEndBlock (k : Keeper) : Exits SameBlock (handleEndBlock k) :=
  (endBlockKeeps_sameBlock k).exits_handleEndBlock

/-- Only the end of a block saves results. -/
lemma endBlock_of_saved {k : Keeper} {w w' : World} {l : Label} {cs : List Call} {s : SaveRecord}
    (h : Step k w l w') (hcs : w'.trace = w.trace ++ cs) (hs : .saveResult s ∈ cs) :
    (handleEndBlock k).run w = .ok () w' := by
  -- the calls of the other steps are quiet, apart from the first one or two
  have hno : ∀ ds es : List Call, w'.trace = w.trace ++ ds ++ es → (∀ c ∈ es, c.IsQuiet) →
      (∀ s, .saveResult s ∉ ds) → (handleEndBlock k).run w = .ok () w' := by
    intro ds es htrace hquiet hds
    exfalso
    rw [List.append_assoc] at htrace
    obtain rfl := List.append_cancel_left (hcs.symm.trans htrace)
    rcases List.mem_append.mp hs with hs | hs
    · exact hds s hs
    · exact hquiet _ hs
  cases step_cases h with
  | quiet hquiet =>
    obtain ⟨es, hes, hq⟩ := hquiet.trace
    exact hno [] es (by rw [hes, List.append_nil]) hq (by simp)
  | request hreq =>
    obtain ⟨p, r, hprep, _⟩ := hreq.stored
    obtain ⟨es, hes, hq⟩ := hprep.quiet.trace
    exact hno [.prepareRequest p] es hes hq (by simp)
  | @report m _ _ hrun =>
    obtain ⟨_, r, _, hlogs⟩ := handleMsgReportData_eq_ok hrun
    obtain ⟨es, hes, hq⟩ := hlogs.quiet.trace
    unfold World.acceptReport at hes
    split_ifs at hes
    · exact hno [.setReport m.requestID m.validator, .addPendingRequest m.requestID] es
        (by rw [hes]; simp [World.addPendingRequest, World.setReport, MsgReportData.report]) hq
        (by simp)
    · exact hno [.setReport m.requestID m.validator] es hes hq (by simp)
  | endBlock hrun => exact hrun

/-- A result carries the time of the block and the number of reports stored when it is saved,
and it is announced by its event. -/
lemma saved_in_step {k : Keeper} {w w' : World} {l : Label} {cs : List Call} {s : SaveRecord}
    (hw : ReachableWorld k w) (h : Step k w l w') (hcs : w'.trace = w.trace ++ cs)
    (hs : .saveResult s ∈ cs) :
    s.blockTime = w.header.time ∧ s.reportCount = w.store.getReportCount s.id ∧
      .event s.event ∈ cs := by
  have hrun := endBlock_of_saved h hcs hs
  have hsame := sameBlock_handleEndBlock k w
  rw [ExitsAt, hrun] at hsame
  obtain ⟨_, ds, hds, hsave⟩ := hsame
  obtain rfl := List.append_cancel_left (hcs.symm.trans hds)
  have hI := recorded_of_reachable hw
  have hI' := recorded_of_reachable (hw.of_run (.single trivial h))
  -- no report is stored at the end of a block
  have hreports : w'.store.getReportCount s.id = w.store.getReportCount s.id :=
    @Ledger.reportCount_congr w.ledger w'.ledger
      (sameSetting_handleEndBlock hrun).reports s.id
  obtain ⟨cs₁, cs₂, hsplit⟩ := List.append_of_mem hs
  have htrace : w'.trace = w.trace ++ cs₁ ++ .saveResult s :: cs₂ := by
    rw [hcs, hsplit, List.append_assoc]
  have hcount := (hI'.explained.at_split htrace).1
  have htotal : w'.trace.countP (Call.isSetReport s.id) = w'.store.getReportCount s.id :=
    hI'.counted.reports s.id
  have hbefore : w.trace.countP (Call.isSetReport s.id) = w.store.getReportCount s.id :=
    hI.counted.reports s.id
  rw [htrace, List.countP_append] at htotal
  rw [List.countP_append] at hcount htotal
  exact ⟨(hsave s hs).1, by omega, (hsave s hs).2⟩

/-! ## The two packets -/

/-- The request packet that is committed to, against the one that was sent. -/
lemma savedPacket_eq {p : PrepareRecord} {r : Request} (h : p.Describes r) :
    r.savedPacket = { p.spec.toPacket with
      askCount := p.spec.minCount, minCount := p.spec.askCount } := by
  have hask : UInt64.ofNat r.requestedValidators.length = p.spec.askCount := by
    rw [h.askCount, UInt64.ofNat_toNat]
  simp only [Request.savedPacket, newOracleRequestPacketData, RequestSpec.toPacket, hask,
    h.clientID, h.oracleScriptID, h.calldata, h.minCount]

lemma savedPacket_eq_iff {p : PrepareRecord} {r : Request} (h : p.Describes r) :
    r.savedPacket = p.spec.toPacket ↔ p.spec.askCount = p.spec.minCount := by
  rw [savedPacket_eq h]
  simp only [RequestSpec.toPacket, OracleRequestPacketData.mk.injEq, true_and]
  exact ⟨fun hc => hc.2, fun hc => ⟨hc.symm, hc⟩⟩

/-- The event determines the two counts of the packet it was made from. -/
lemma askCount_eq_of_event {req req' : OracleRequestPacketData}
    {res res' : OracleResponsePacketData} {x x' : Bytes}
    (h : requestExecuteEvent req res x = requestExecuteEvent req' res' x') :
    req.askCount = req'.askCount := by
  simp only [requestExecuteEvent, Event.mk.injEq, List.cons.injEq, Prod.mk.injEq,
    AttrValue.dec.injEq, Nat.cast_inj] at h
  exact UInt64.toNat_inj.mp h.2.2.2.2.1.2

/-- The stored hash is that of the last result saved. -/
lemma result_of_saved {k : Keeper} {w w' : World} {l : Label} {cs : List Call} {s : SaveRecord}
    (hw : ReachableWorld k w) (h : Step k w l w') (hcs : w'.trace = w.trace ++ cs)
    (hs : .saveResult s ∈ cs) :
    ∃ s', .saveResult s' ∈ cs ∧ s'.id = s.id ∧ w'.store.results[s.id]? = some s'.hash := by
  have hI' := recorded_of_reachable (hw.of_run (.single trivial h))
  have hres : w'.store.results[s.id]? = (savedHashes s.id w'.trace).getLast? :=
    hI'.described.result s.id
  have hmem : s.hash ∈ savedHashes s.id cs := mem_savedHashes.mpr ⟨s, hs, rfl, rfl⟩
  obtain ⟨x, hx⟩ := Option.ne_none_iff_exists'.mp
    (mt List.getLast?_eq_none_iff.mp (List.ne_nil_of_mem hmem))
  rw [hcs, savedHashes_append, List.getLast?_append, hx, Option.some_or] at hres
  obtain ⟨s', hs', hid, rfl⟩ := mem_savedHashes.mp (List.mem_of_getLast? hx)
  exact ⟨s', hs', hid, hres⟩

/-- **Commitment.**  Every result saved for an accepted request carries the response that was
produced: the client ID and the time of the request, its identifier, the number of reports
and the time when it is saved, and the status and the bytes of the execution or expiry just
before.  The stored hash and the event are those of this response and of the packet that the
requester sent exactly if that packet has the same ask count and min count. -/
theorem savedResult_iff {k : Keeper} {w₁ w₂ w w' : World} {l₁ l : Label}
    {packet : OracleRequestPacketData} {info : Option IBCInfo} {ls : List Label} {cs : List Call}
    {s : SaveRecord} {res : OracleResponsePacketData} (h₁ : ReachableWorld k w₁)
    (hreq : Requests k w₁ l₁ packet info w₂) (hrun : Run (Step k) w₂ ls w) (hst : Step k w l w')
    (hcs : w'.trace = w.trace ++ cs) (hs : .saveResult s ∈ cs)
    (hid : s.id = w₁.store.getRequestCount + 1)
    (hres : res =
      { clientID := packet.clientID
        requestID := s.id
        ansCount := UInt64.ofNat (w.store.getReportCount s.id)
        requestTime := w₁.header.time
        resolveTime := w.header.time
        resolveStatus := s.status
        result := s.result }) :
    (∃ pre post, w'.trace = pre ++ .saveResult s :: post ∧
      ((∃ exitCode retdata, pre.getLast? = some (.execute s.id exitCode retdata) ∧
          (s.status, s.result) = outcome exitCode retdata) ∨
        pre.getLast? = some (.processExpired s.id) ∧ s.status = .expired ∧ s.result = [])) ∧
      (∃ s', .saveResult s' ∈ cs ∧ s'.id = s.id ∧ w'.store.results[s.id]? = some s'.hash) ∧
      .event s.event ∈ cs ∧
      (s.hash = calculateResultHash packet res ∧ s.event = requestExecuteEvent packet res s.hash ↔
        packet.askCount = packet.minCount) := by
  have hw₂ := h₁.of_run (.single trivial hreq.step)
  have hw := hw₂.of_run hrun
  have hI' := recorded_of_reachable (hw.of_run (.single trivial hst))
  obtain ⟨htime, hcount, hevent⟩ := saved_in_step hw hst hcs hs
  have hmem : .saveResult s ∈ w'.trace := by
    rw [hcs]
    exact List.mem_append_right _ hs
  -- the record of the request, and the record of the result
  obtain ⟨p, r, hpid, hspec, _, hptime, hdesc, _, hr⟩ :=
    hreq.later h₁ (hrun.append (.single trivial hst))
  obtain ⟨r', hr', hrec⟩ := hI'.described.saved s hmem
  rw [hid, ← hpid] at hr'
  obtain rfl := Option.some.inj (hr.symm.trans hr')
  have hpacket : p.spec.toPacket = packet := by
    rw [hspec]
    rfl
  have hresp : r.response s.id s.reportCount s.blockTime s.status s.result = res := by
    rw [hres, Request.response, newOracleResponsePacketData, hdesc.clientID, hdesc.requestTime,
      hptime, htime, hcount, hspec]
    rfl
  have hhash : s.hash = calculateResultHash r.savedPacket res := by
    rw [← hresp, hrec]
    rfl
  have hev : s.event = requestExecuteEvent r.savedPacket res s.hash := by
    rw [hhash, ← hresp, hrec]
    rfl
  obtain ⟨pre, post, hsplit⟩ := List.append_of_mem hmem
  refine ⟨⟨pre, post, hsplit, (hI'.explained.at_split hsplit).2⟩, result_of_saved hw hst hcs hs,
    hevent, ?_⟩
  have hiff := savedPacket_eq_iff hdesc
  rw [hpacket] at hiff
  constructor
  · rintro ⟨_, hev'⟩
    have hask := askCount_eq_of_event (hev.symm.trans hev')
    rw [savedPacket_eq hdesc, hspec] at hask
    exact hask.symm
  · intro heq
    have hsame : r.savedPacket = packet := hiff.mpr (by rw [hspec]; exact heq)
    rw [← hsame]
    exact ⟨hhash, hev⟩

/-- Both validators are asked and both have to report: the result is committed as it should
be. -/
theorem savedResult_bothReports : ∃ w w' s res, ReachableWorld Sample.keeper w ∧
    Step Sample.keeper w .endBlock w' ∧ .saveResult s ∈ w'.trace ∧ s.id = 1 ∧
    s.hash = calculateResultHash (Sample.requestMsg 2 2).toSpec.toPacket res := by
  obtain ⟨w₁, w₂, w, h₁, hreq, hrun, hcount, hbefore, w', hst, hlen⟩ :=
    Sample.exists_run_request_run
    (k := Sample.keeper) (m := Sample.requestMsg 2 2) Sample.genesis
    (Sample.create Sample.askingScript)
    [.deliver (.reportData (Sample.reportMsg Sample.alice)),
      .deliver (.reportData (Sample.reportMsg Sample.bob))]
    (I := fun w₁ w => w₁.store.getRequestCount = 0 ∧ savedHashes 1 w.trace = [] ∧
      ∃ w' ∈ next Sample.keeper .endBlock w, (savedHashes 1 w'.trace).length = 1)
    (by decide +kernel)
  have hw₁ : ReachableWorld Sample.keeper w₁ := ⟨_, _, Sample.starts_genesis, h₁⟩
  have hreq' : Requests Sample.keeper w₁ _ _ _ w₂ := .message rfl hreq
  have hw := (hw₁.of_run (.single trivial hreq'.step)).of_run hrun
  obtain ⟨_, cs, hcs⟩ := stable_of_run hw (.single trivial hst)
  -- the result is new in this step
  obtain ⟨x, hx⟩ : ∃ x, x ∈ savedHashes 1 w'.trace :=
    List.exists_mem_of_length_pos (by rw [hlen]; decide)
  rw [hcs, savedHashes_append, hbefore, List.nil_append] at hx
  obtain ⟨s, hs, hid, _⟩ := mem_savedHashes.mp hx
  have hiff := (savedResult_iff hw₁ hreq' hrun hst hcs hs (by rw [hid, hcount]; rfl) rfl).2.2.2
  refine ⟨w, w', s, _, hw, hst, ?_, hid, (hiff.mpr rfl).1⟩
  rw [hcs]
  exact List.mem_append_right _ hs

/-- Both validators are asked and one has to report: neither the hash nor the event is that
of the packet that was sent. -/
theorem not_savedResult_twoReports : ∃ w, Run (Step Sample.keeper) Sample.genesis
    (Sample.twoReports ++ [.endBlock]) w ∧ ∃ x, w.store.results[(1 : ℤ)]? = some x ∧
      ∀ res : OracleResponsePacketData,
        res = ⟨[], 1, 2, 1590000000, 1590000000, .success, []⟩ →
        x ≠ calculateResultHash (Sample.requestMsg 2 1).toSpec.toPacket res ∧
        .event (requestExecuteEvent (Sample.requestMsg 2 1).toSpec.toPacket res x) ∉ w.trace := by
  obtain ⟨w, hrun, x, hx, hne, hev⟩ := exists_runWhere (f := next Sample.keeper)
    (P := fun _ _ => True) (s := Sample.genesis) (Sample.twoReports ++ [.endBlock])
    (I := fun w => ∃ x ∈ w.store.results[(1 : ℤ)]?,
      x ≠ calculateResultHash (Sample.requestMsg 2 1).toSpec.toPacket
        ⟨[], 1, 2, 1590000000, 1590000000, .success, []⟩ ∧
      .event (requestExecuteEvent (Sample.requestMsg 2 1).toSpec.toPacket
        ⟨[], 1, 2, 1590000000, 1590000000, .success, []⟩ x) ∉ w.trace)
    (by decide +kernel)
  refine ⟨w, hrun, x, hx, ?_⟩
  rintro res rfl
  exact ⟨hne, hev⟩

end Bandchain.Oracle
