import Bandchain.Oracle.Invariant
import Bandchain.Oracle.Quiet

/-!
# The chain refines the ledger

Every step of the chain is, on the view of the world as a ledger, a run of the ledger.  The
functions of the keeper are taken one by one: what a successful execution did to the world,
and which step of the ledger that is.
-/

namespace Bandchain.Oracle

open Exec

/-! ## Making a request -/

lemma fillValidators_eq_ok {operators vals : List ValAddress} {size : ℕ} {luckies : List ℕ}
    (h : fillValidators operators size luckies = .ok vals) (hlen : luckies.length = size)
    (hnodup : luckies.Nodup) :
    vals.length = size ∧ (∀ v ∈ vals, v ∈ operators) ∧ (operators.Nodup → vals.Nodup) := by
  unfold fillValidators at h
  split_ifs at h with hbad
  rw [not_or] at hbad
  have hlt : ∀ idx ∈ luckies, idx < operators.length := by
    intro idx hidx
    by_contra hge
    exact hbad.2 ⟨idx, hidx, Nat.le_of_not_lt hge⟩
  obtain rfl := Except.ok.inj h
  rw [hlen, Nat.sub_self, List.replicate_zero, List.append_nil]
  refine ⟨by simp [hlen], fun v hv => ?_, fun hops => hnodup.map_on ?_⟩
  · obtain ⟨idx, hidx, rfl⟩ := List.mem_map.mp hv
    rw [List.getD_eq_getElem _ _ (hlt idx hidx)]
    exact List.getElem_mem (hlt idx hidx)
  · intro i hi j hj hij
    rw [List.getD_eq_getElem _ _ (hlt i hi), List.getD_eq_getElem _ _ (hlt j hj)] at hij
    exact (hops.getElem_inj_iff).mp hij

/-- The sampled validators are as many as asked for, and bonded; they are different if the
bonded validators are. -/
lemma getRandomValidators_eq_ok {size nextReqID : ℤ} {w w' : World} {vals : List ValAddress}
    (h : (getRandomValidators size nextReqID).run w = .ok vals w') :
    w' = w ∧ 0 ≤ size ∧ vals.length = size.toNat ∧
      (∀ v ∈ vals, v ∈ w.staking.bonded.map Validator.operator) ∧
      ((w.staking.bonded.map Validator.operator).Nodup → vals.Nodup) := by
  simp only [getRandomValidators, run_get_bind, failIf_bind_eq_ok, valueOf_bind_eq_ok,
    valueOf_eq_ok] at h
  obtain ⟨_, _, luckies, hluckies, hneg, hfill, rfl⟩ := h
  rcases hchoose : Bandrng.chooseK _ _ size with e | l
  · rw [hchoose] at hluckies
    cases hluckies
  · rw [hchoose] at hluckies
    obtain rfl := Except.ok.inj hluckies
    obtain ⟨hvals, hmem, hnodup⟩ := fillValidators_eq_ok hfill (Bandrng.length_chooseK hchoose)
      (Bandrng.nodup_chooseK hchoose)
    exact ⟨rfl, by omega, hvals, hmem, hnodup⟩

lemma toInt64_of_nonneg {n : UInt64} (h : 0 ≤ toInt64 n.toNat) :
    (toInt64 n.toNat).toNat = n.toNat := by
  have hlt := n.toNat_lt
  unfold toInt64 at h ⊢
  rw [Int.bmod_def] at h ⊢
  split_ifs at h ⊢ <;> omega

lemma getFile_bind_eq_ok {β : Type} {name : Bytes} {f : Bytes → OracleM β} {w w' : World} {b : β} :
    (getFile name >>= f).run w = .ok b w' ↔
      ∃ data, w.files.files[name]? = some data ∧ (f data).run w = .ok b w' := by
  simp only [← FileCache.mustGetFile_eq_ok]
  exact valueOf_bind_eq_ok

lemma getRawRequests_eq_ok {env : ExecEnv} {l : List RawRequest}
    (h : env.getRawRequests = .ok l) : l = env.rawRequests := by
  unfold ExecEnv.getRawRequests at h
  split_ifs at h
  exact (Except.ok.inj h).symm

/-- The world in which a request has just been added. -/
def World.addRequest (w : World) (p : PrepareRecord) (r : Request) : World :=
  { w with store := w.store.addRequest r, trace := w.trace ++ [.prepareRequest p] }

lemma logs_rawRequestEvents (rawRequests : List RawRequest) :
    Exits Logs (forM rawRequests fun rawReq => do
      let ds ← readStore (·.getDataSource rawReq.dataSourceID)
      record (.event (rawRequestEvent ds rawReq))) :=
  Exits.forM fun _ _ => (Exits.readStore _).bind fun _ => logs_record (by trivial)

/-- The request that is stored for a specification, once validators are sampled and the
script has asked for its raw requests. -/
def RequestSpec.request (spec : RequestSpec) (ibcInfo : Option IBCInfo) (header : Header)
    (vals : List ValAddress) (rawRequestIDs : List ExternalID) : Request :=
  newRequest spec.oracleScriptID spec.calldata vals spec.minCount header.height header.time
    spec.clientID ibcInfo rawRequestIDs

/-- What it takes to accept a request in the world `w`: it is stored as `r` under the next
identifier, its record is `p`, and apart from that only events are recorded. -/
structure Prepared (spec : RequestSpec) (ibcInfo : Option IBCInfo) (w : World)
    (p : PrepareRecord) (r : Request) (w' : World) : Prop where
  id : p.id = w.store.getRequestCount + 1
  spec : p.spec = spec
  ibcInfo : p.ibcInfo = ibcInfo
  blockTime : p.blockTime = w.header.time
  describes : p.Describes r
  height : r.requestHeight = w.header.height
  ready : r.oracleScriptID ∈ w.ready
  nodup : (w.staking.bonded.map Validator.operator).Nodup → r.requestedValidators.Nodup
  logs : Logs (w.addRequest p r) w'

lemma Prepared.quiet {spec : RequestSpec} {ibcInfo : Option IBCInfo} {w w' : World}
    {p : PrepareRecord} {r : Request} (h : Prepared spec ibcInfo w p r w') :
    Quiet (w.addRequest p r) w' := h.logs.quiet

lemma prepareRequest_eq_ok {k : Keeper} {spec : RequestSpec} {ibcInfo : Option IBCInfo}
    {w w' : World} {u : Unit} (h : (prepareRequest k spec ibcInfo).run w = .ok u w') :
    ∃ p r, Prepared spec ibcInfo w p r w' := by
  simp only [prepareRequest, run_get_bind, failIf_bind_eq_ok] at h
  obtain ⟨_, h⟩ := h
  obtain ⟨vals, w₁, hvals, h⟩ := bind_eq_ok.mp h
  obtain ⟨hw₁, hnonneg, hlen, hmem, hnodup⟩ := getRandomValidators_eq_ok hvals
  rw [hw₁] at h
  simp only [readStore_bind_eq_ok, getFile_bind_eq_ok, failIf_bind_eq_ok, valueOf_bind_eq_ok,
    run_modifyStore_bind, run_record_bind] at h
  obtain ⟨script, hscript, code, hcode, _, rawRequests, hraw, hloop⟩ := h
  have hids := prepare_externalIDs k.owasm code (spec.request ibcInfo w.header vals [])
    w.header.time (toInt64 w.store.params.maxRawRequestCount.toNat)
  let env := newExecEnv (spec.request ibcInfo w.header vals []) w.header.time
    (toInt64 w.store.params.maxRawRequestCount.toNat)
  refine ⟨⟨_, spec, ibcInfo, w.store.params.maxRawRequestCount, (k.owasm code true env).1, _⟩,
    spec.request ibcInfo w.header vals (rawRequests.map RawRequest.externalID), rfl, rfl, rfl,
    rfl, ⟨rfl, rfl, rfl, rfl, ?_, ?_, rfl, rfl, ?_⟩, rfl, ?_, hnodup, ?_⟩
  · exact hlen.trans (toInt64_of_nonneg hnonneg)
  · intro v hv
    obtain ⟨val, _, rfl⟩ := List.mem_map.mp (hmem v hv)
    exact val.operator_length
  · rw [getRawRequests_eq_ok hraw]
    exact hids
  · exact ⟨script, Store.getOracleScript_eq_ok.mp hscript, code, hcode⟩
  · refine trans_of Logs ?_ (logs_of_ok (logs_rawRequestEvents rawRequests) hloop)
    exact logs_of_ok (logs_record (c := .event (requestEvent _ _)) trivial) rfl

lemma step_addRequest {w : World} {p : PrepareRecord} {r : Request} (todo : List RequestID)
    (hid : p.id = w.store.getRequestCount + 1) (hdesc : p.Describes r)
    (hready : r.oracleScriptID ∈ w.ready) (hbound : p.ibcInfo = none → p.spec.Bounded) :
    Ledger.Step (w.ledgerWith todo) (.request p) ((w.addRequest p r).ledgerWith todo) :=
  .request hid hdesc hready hbound

/-! ## Reporting -/

/-- The world in which a report has just been stored. -/
def World.setReport (w : World) (rid : RequestID) (rep : Report) : World :=
  { w with
    store := { w.store with reports := w.store.reports.insert (toLex (rid, rep.validator)) rep }
    trace := w.trace ++ [.setReport rid rep.validator] }

/-- The world in which a request has just been queued. -/
def World.addPendingRequest (w : World) (id : RequestID) : World :=
  { w with
    store := { w.store with pendingResolveList := some (w.store.getPendingResolveList ++ [id]) }
    trace := w.trace ++ [.addPendingRequest id] }

/-- The world after an accepted report: the request is queued if this is the report that
makes it resolvable. -/
def World.acceptReport (w : World) (rid : RequestID) (r : Request) (rep : Report) : World :=
  if (w.setReport rid rep).store.getReportCount rid = r.minCount.toNat then
    (w.setReport rid rep).addPendingRequest rid
  else w.setReport rid rep

lemma scriptsBounded_acceptReport {w : World} (hb : w.ScriptsBounded) (rid : RequestID)
    (r : Request) (rep : Report) : (w.acceptReport rid r rep).ScriptsBounded := by
  unfold World.acceptReport
  split_ifs
  · exact hb
  · exact hb

lemma containsVal_eq_true {vals : List ValAddress} {v : ValAddress} :
    containsVal vals v = true ↔ v ∈ vals := by
  simp [containsVal]

lemma containsEID_eq_true {ids : List ExternalID} {id : ExternalID} :
    containsEID ids id = true ↔ id ∈ ids := by
  simp [containsEID]

lemma hasReport_eq_false {s : Store} {rid : RequestID} {v : ValAddress} :
    s.hasReport rid v = false ↔ s.reports[toLex (rid, v)]? = none := by
  rw [Store.hasReport, Std.ExtTreeMap.contains_eq_isSome_getElem?, Option.isSome_eq_false_iff,
    Option.isNone_iff_eq_none]

/-- The report that a message carries. -/
def MsgReportData.report (m : MsgReportData) (w : World) : Report :=
  ⟨m.validator, !w.store.hasResult m.requestID, m.rawReports⟩

/-- What `AddReport` checks. -/
structure Reportable (w : World) (rid : RequestID) (r : Request) (rep : Report) : Prop where
  request : w.store.requests[rid]? = some r
  requested : rep.validator ∈ r.requestedValidators
  fresh : w.store.reports[toLex (rid, rep.validator)]? = none
  length : rep.rawReports.length = r.rawRequestIDs.length
  subset : ∀ x ∈ rep.rawReports, x.externalID ∈ r.rawRequestIDs

lemma addReport_eq_ok {rid : RequestID} {rep : Report} {w w' : World} {u : Unit} :
    (addReport rid rep).run w = .ok u w' ↔
      ∃ r, Reportable w rid r rep ∧ w' = w.setReport rid rep := by
  simp only [addReport, readStore_bind_eq_ok, run_get_bind, failIf_bind_eq_ok,
    Store.getRequest_eq_ok, Bool.not_eq_false, Bool.not_eq_true, containsVal_eq_true,
    hasReport_eq_false, not_not]
  constructor
  · rintro ⟨r, hr, hval, hfresh, hlen, h⟩
    obtain ⟨_, w₁, hloop, hset⟩ := bind_eq_ok.mp h
    obtain ⟨hsub, rfl⟩ := forM_failIf_eq_ok.mp hloop
    refine ⟨r, ⟨hr, hval, hfresh, hlen, fun x hx => ?_⟩, ?_⟩
    · simpa [containsEID_eq_true] using hsub x hx
    · exact ((EStateM.Result.ok.inj hset).2).symm
  · rintro ⟨r, ⟨hr, hval, hfresh, hlen, hsub⟩, rfl⟩
    refine ⟨r, hr, hval, hfresh, hlen, ?_⟩
    have hloop := forM_failIf_eq_ok (s := w) (t := w) (u := ()) (l := rep.rawReports)
      (c := fun x => containsEID r.rawRequestIDs x.externalID = false)
      (f := fun x => Err.rawRequestNotFound rid x.externalID) |>.mpr
      ⟨fun x hx => by simpa [containsEID_eq_true] using hsub x hx, rfl⟩
    rw [run_bind_of_ok hloop]
    rfl

/-- What an accepted report does; apart from that only an event is recorded. -/
lemma handleMsgReportData_eq_ok {m : MsgReportData} {w w' : World} {u : Unit}
    (h : (handleMsgReportData m).run w = .ok u w') :
    w.store.isReporter m.validator m.reporter = true ∧
      ∃ r, Reportable w m.requestID r (m.report w) ∧
        Logs (w.acceptReport m.requestID r (m.report w)) w' := by
  simp only [handleMsgReportData, run_get_bind, failIf_bind_eq_ok, Bool.not_eq_false] at h
  obtain ⟨hreporter, h⟩ := h
  obtain ⟨_, w₁, hadd, h⟩ := bind_eq_ok.mp h
  obtain ⟨r, hr, rfl⟩ := addReport_eq_ok.mp hadd
  simp only [readStore_bind_eq_ok, run_get_bind, Store.mustGetRequest_eq_ok] at h
  obtain ⟨r', hr', h⟩ := h
  obtain rfl := Option.some.inj (hr.request.symm.trans hr')
  refine ⟨hreporter, r, hr, ?_⟩
  unfold World.acceptReport MsgReportData.report
  split_ifs at h with hcount
  · obtain ⟨_, w₂, hpend, hevent⟩ := bind_eq_ok.mp h
    obtain rfl := (EStateM.Result.ok.inj hpend).2
    rw [if_pos hcount]
    exact logs_of_ok (logs_record (by trivial)) hevent
  · rw [if_neg hcount]
    exact logs_of_ok (logs_record (by trivial)) h

/-- The event that describes an accepted report. -/
def MsgReportData.event (m : MsgReportData) : Event where
  type := "report"
  attributes := [("request_id", .dec m.requestID), ("validator", .addr m.validator)]

/-- A report that meets the checks of `AddReport` and comes from a reporter is accepted. -/
lemma handleMsgReportData_run {m : MsgReportData} {w : World} {r : Request}
    (hreporter : w.store.isReporter m.validator m.reporter = true)
    (hrep : Reportable w m.requestID r (m.report w)) :
    (handleMsgReportData m).run w =
      .ok () ((w.acceptReport m.requestID r (m.report w)).log [.event m.event]) := by
  have hadd : (addReport m.requestID
      ⟨m.validator, !w.store.hasResult m.requestID, m.rawReports⟩).run w =
      .ok () (w.setReport m.requestID (m.report w)) := addReport_eq_ok.mpr ⟨r, hrep, rfl⟩
  have hread : (readStore (·.mustGetRequest m.requestID)).run
      (w.setReport m.requestID (m.report w)) =
      .ok r (w.setReport m.requestID (m.report w)) :=
    readStore_eq_ok.mpr ⟨Store.mustGetRequest_eq_ok.mpr hrep.request, rfl⟩
  rw [handleMsgReportData, run_get_bind,
    run_bind_of_ok (run_failIf_of_not (by simp [hreporter])), run_bind_of_ok hadd,
    run_bind_of_ok hread, run_get_bind, World.acceptReport]
  split_ifs <;> rfl

lemma step_acceptReport {w : World} {rid : RequestID} {r : Request} {rep : Report}
    (hrep : Reportable w rid r rep) (hnodup : (rep.rawReports.map RawReport.externalID).Nodup) :
    Ledger.Step w.ledger (.report rid rep) (w.acceptReport rid r rep).ledger := by
  have hacc : w.ledger.Acceptable rid r rep :=
    ⟨hrep.requested, hrep.fresh, hnodup, hrep.length, hrep.subset⟩
  have hcount : (w.setReport rid rep).store.getReportCount rid = w.ledger.reportCount rid + 1 :=
    @Ledger.reportCount_insert_self w.ledger (w.setReport rid rep).ledger _ _ _ rfl hrep.fresh
  unfold World.acceptReport
  split_ifs with h
  · have hlast := Ledger.Step.reportLast (L := w.ledger) hrep.request hacc (by rw [← hcount, h])
    convert hlast using 1
    simp [World.ledger, World.ledgerWith, World.addPendingRequest, World.setReport, Ledger.log,
      World.ready, Store.getRequestCount, Store.getRequestLastExpired, Store.getPendingResolveList]
  · exact .report hrep.request hacc fun heq => h (hcount.trans heq)

/-! ## Saving and responding -/

/-- The world in which a result has just been saved. -/
def World.saveResult (w : World) (s : SaveRecord) : World :=
  { w with
    store := { w.store with results := w.store.results.insert s.id s.hash }
    trace := w.trace ++ [.saveResult s] ++ [.event s.event] }

lemma saveResult_run {w : World} {id : RequestID} {r : Request}
    (hr : w.store.requests[id]? = some r) (status : ResolveStatus) (result : Bytes) :
    (saveResult id status result).run w =
      .ok (r.response id (w.store.getReportCount id) w.header.time status result)
        (w.saveResult
          (r.saveRecord id (w.store.getReportCount id) w.header.time status result)) := by
  have hread : (readStore (·.mustGetRequest id)).run w = .ok r w :=
    readStore_eq_ok.mpr ⟨Store.mustGetRequest_eq_ok.mpr hr, rfl⟩
  rw [saveResult, run_bind_of_ok hread]
  rfl

/-- Saving a result fails without a change or saves the result of a stored request. -/
lemma exits_saveResult_of_stored {R : World → World → Prop} [IsPreorder World R] {id : RequestID}
    {status : ResolveStatus} {result : Bytes}
    (h : ∀ (w : World) (r : Request), w.store.requests[id]? = some r → R w (w.saveResult
      (r.saveRecord id (w.store.getReportCount id) w.header.time status result))) :
    Exits R (saveResult id status result) := by
  intro w
  rcases hr : w.store.requests[id]? with _ | r
  · have hread : (readStore (·.mustGetRequest id)).run w =
        .error (.panic "request not found") w := by
      refine readStore_eq_error.mpr ⟨?_, rfl⟩
      simp only [Store.mustGetRequest, Store.getRequest, hr]
    rw [ExitsAt, saveResult, bind_eq_error.mpr (.inl hread)]
    exact refl_of R w
  · rw [ExitsAt, saveResult_run hr]
    exact h w r hr

/-- A response goes out as one packet or not at all; sending never fails, and changes nothing but
the channels. -/
lemma sendOracleResponse_cases (k : Keeper) (portID channelID : Bytes)
    (res : OracleResponsePacketData) (w : World) :
    (sendOracleResponse k portID channelID res).run w = .ok () w ∨
      ∃ p channels, (sendOracleResponse k portID channelID res).run w =
          .ok () { w.log [.sendPacket p] with channels := channels } ∧
        p.sourcePort = portID ∧ p.sourceChannel = channelID ∧ p.data = res := by
  rw [sendOracleResponse, run_get_bind]
  cases w.channels.getChannel portID channelID with
  | none => exact .inl rfl
  | some ch =>
    cases w.channels.getNextSequenceSend portID channelID with
    | none => exact .inl rfl
    | some seq =>
      by_cases hcap : w.channels.hasCapability portID channelID = false
      · simp only [if_pos hcap]
        exact .inl rfl
      · simp only [if_neg hcap]
        cases k.sendPacket w.channels _ with
        | none => exact .inl rfl
        | some channels => exact .inr ⟨_, channels, rfl, rfl, rfl, rfl⟩

lemma respond_run (k : Keeper) (r : Request) (res : OracleResponsePacketData) (w : World) :
    ∃ w' cs, (respond k r.ibcInfo res).run w = .ok () w' ∧ Sends r res cs ∧
      w'.store = w.store ∧ w'.files = w.files ∧ w'.trace = w.trace ++ cs := by
  cases hinfo : r.ibcInfo with
  | none => exact ⟨w, [], rfl, .nothing, rfl, rfl, (List.append_nil _).symm⟩
  | some info =>
    rcases sendOracleResponse_cases k info.sourcePort info.sourceChannel res w with
      hrun | ⟨p, channels, hrun, hport, hchannel, hdata⟩
    · exact ⟨w, [], hrun, .nothing, rfl, rfl, (List.append_nil _).symm⟩
    · exact ⟨_, _, hrun, .packet hinfo hport hchannel hdata, rfl, rfl, rfl⟩

/-- A result is saved for a stored request, and the response goes out. -/
lemma saveAndRespond_run (k : Keeper) {w : World} {id : RequestID} {r : Request}
    (hr : w.store.requests[id]? = some r) (status : ResolveStatus) (result : Bytes) :
    ∃ w' s cs, (do let res ← saveResult id status result; respond k r.ibcInfo res).run w =
        .ok () w' ∧
      s = r.saveRecord id (w.store.getReportCount id) w.header.time status result ∧
      Sends r (r.response id (w.store.getReportCount id) w.header.time s.status s.result) cs ∧
      w'.store = { w.store with results := w.store.results.insert id s.hash } ∧
      w'.files = w.files ∧ w'.trace = w.trace ++ .saveResult s :: .event s.event :: cs := by
  obtain ⟨w', cs, hresp, hsend, hstore, hfiles, htrace⟩ := respond_run k r
    (r.response id (w.store.getReportCount id) w.header.time status result)
    (w.saveResult (r.saveRecord id (w.store.getReportCount id) w.header.time status result))
  refine ⟨w', _, cs, ?_, rfl, hsend, hstore, hfiles, ?_⟩
  · rw [run_bind_of_ok (saveResult_run hr status result)]
    exact hresp
  · rw [htrace, World.saveResult, List.append_assoc, List.append_assoc]
    rfl

/-- The view of a world that differs from another one in its results and its trace. -/
lemma ledgerWith_of_results {w w' : World} {results : Table RequestID Bytes} {cs : List Call}
    (hstore : w'.store = { w.store with results := results }) (hfiles : w'.files = w.files)
    (htrace : w'.trace = w.trace ++ cs) (todo rest : List RequestID) :
    w'.ledgerWith rest =
      { (w.ledgerWith todo).log cs with results := results, pending := rest } := by
  simp only [World.ledgerWith, World.ready, Ledger.log, hstore, hfiles, htrace,
    Store.getRequestCount, Store.getRequestLastExpired]

/-! ## Resolving -/

lemma setReports_resolve (r : Request) (now : ℤ) (reports : List Report) :
    ∃ env, (newExecEnv r now 0).setReports reports = .ok env :=
  ⟨_, if_neg (not_not.mpr rfl)⟩

/-- Resolving a stored request whose script is ready: the execution is recorded, its outcome is
saved, and the response goes out. -/
lemma resolveRequest_eq (k : Keeper) {w : World} {id : RequestID} {r : Request}
    {o : OracleScript} {code : Bytes} {env : ExecEnv} (hr : w.store.requests[id]? = some r)
    (ho : w.store.oracleScripts[r.oracleScriptID]? = some o)
    (hcode : w.files.files[o.filename]? = some code)
    (henv : (newExecEnv r w.header.time 0).setReports (w.store.getReports id) = .ok env) :
    (resolveRequest k id).run w =
      (do
        let res ← saveResult id
          (outcome (k.owasm.run code false env).2 (k.owasm.run code false env).1.retdata).1
          (outcome (k.owasm.run code false env).2 (k.owasm.run code false env).1.retdata).2
        respond k r.ibcInfo res).run
      (w.log
        [.execute id (k.owasm.run code false env).2 (k.owasm.run code false env).1.retdata]) := by
  have hread : (readStore (·.mustGetRequest id)).run w = .ok r w :=
    readStore_eq_ok.mpr ⟨Store.mustGetRequest_eq_ok.mpr hr, rfl⟩
  have hscript : (readStore (·.mustGetOracleScript r.oracleScriptID)).run w = .ok o w :=
    readStore_eq_ok.mpr ⟨Store.mustGetOracleScript_eq_ok.mpr ho, rfl⟩
  have hfile : (getFile o.filename).run w = .ok code w :=
    valueOf_eq_ok.mpr ⟨FileCache.mustGetFile_eq_ok.mpr hcode, rfl⟩
  have hreports : (valueOf ((newExecEnv r w.header.time 0).setReports (w.store.getReports id)) :
      OracleM ExecEnv).run w = .ok env w := valueOf_eq_ok.mpr ⟨henv, rfl⟩
  rw [resolveRequest, run_bind_of_ok hread, run_get_bind, run_bind_of_ok hreports,
    run_bind_of_ok hscript, run_bind_of_ok hfile]
  simp only [run_record_bind]
  unfold outcome
  split_ifs <;> rfl

/-- A stored request whose script is ready is resolved without a panic. -/
lemma resolveRequest_run (k : Keeper) {w : World} {id : RequestID} {r : Request}
    {o : OracleScript} {code : Bytes} (hr : w.store.requests[id]? = some r)
    (ho : w.store.oracleScripts[r.oracleScriptID]? = some o)
    (hcode : w.files.files[o.filename]? = some code) :
    ∃ w' exitCode retdata s cs, (resolveRequest k id).run w = .ok () w' ∧
      s = r.saveRecord id (w.store.getReportCount id) w.header.time (outcome exitCode retdata).1
        (outcome exitCode retdata).2 ∧
      Sends r (r.response id (w.store.getReportCount id) w.header.time s.status s.result) cs ∧
      w'.store = { w.store with results := w.store.results.insert id s.hash } ∧
      w'.files = w.files ∧
      w'.trace = w.trace ++
        .execute id exitCode retdata :: .saveResult s :: .event s.event :: cs := by
  obtain ⟨env, henv⟩ := setReports_resolve r w.header.time (w.store.getReports id)
  obtain ⟨exitCode, hexit⟩ : ∃ n, (k.owasm.run code false env).2 = n := ⟨_, rfl⟩
  obtain ⟨retdata, hret⟩ : ∃ b, (k.owasm.run code false env).1.retdata = b := ⟨_, rfl⟩
  have hrun := resolveRequest_eq k hr ho hcode henv
  rw [hexit, hret] at hrun
  obtain ⟨w', s, cs, hsave, hs, hsend, hstore, hfiles, htrace⟩ := saveAndRespond_run k
    (w := w.log [.execute id exitCode retdata]) hr (outcome exitCode retdata).1
    (outcome exitCode retdata).2
  refine ⟨w', exitCode, retdata, s, cs, hrun.trans hsave, hs, hsend, hstore, hfiles, ?_⟩
  rw [htrace, World.log, List.append_assoc]
  rfl

/-- A request that is resolved is stored and its script is ready. -/
lemma resolveRequest_inv {k : Keeper} {w w' : World} {id : RequestID} {u : Unit}
    (h : (resolveRequest k id).run w = .ok u w') :
    ∃ (r : Request) (o : OracleScript) (code : Bytes), w.store.requests[id]? = some r ∧
      w.store.oracleScripts[r.oracleScriptID]? = some o ∧
      w.files.files[o.filename]? = some code := by
  simp only [resolveRequest, run_get_bind, readStore_bind_eq_ok, valueOf_bind_eq_ok,
    getFile_bind_eq_ok, Store.mustGetRequest_eq_ok, Store.mustGetOracleScript_eq_ok] at h
  obtain ⟨r, hr, _, _, o, ho, code, hcode, _⟩ := h
  exact ⟨r, o, code, hr, ho, hcode⟩

lemma step_resolveRequest {k : Keeper} {w w' : World} {id : RequestID} {u : Unit}
    (h : (resolveRequest k id).run w = .ok u w') (rest : List RequestID) :
    Ledger.Step (w.ledgerWith (id :: rest)) (.resolve id) (w'.ledgerWith rest) := by
  obtain ⟨r, o, code, hr, ho, hcode⟩ := resolveRequest_inv h
  obtain ⟨w'', exitCode, retdata, s, cs, hrun, hs, hsend, hstore, hfiles, htrace⟩ :=
    resolveRequest_run k hr ho hcode
  obtain rfl : w' = w'' := (EStateM.Result.ok.inj (h.symm.trans hrun)).2
  have hstep := Ledger.Step.resolve (L := w.ledgerWith (id :: rest)) rfl hr hs hsend
  convert hstep using 1
  rw [ledgerWith_of_results hstore hfiles htrace (id :: rest) rest]
  have hid : s.id = id := by
    rw [hs]
    rfl
  simp [Ledger.log, Ledger.save, World.ledgerWith, hid]

/-- Resolving writes results only. -/
lemma store_resolveRequest {k : Keeper} {w w' : World} {id : RequestID} {u : Unit}
    (h : (resolveRequest k id).run w = .ok u w') :
    ∃ results, w'.store = { w.store with results := results } := by
  obtain ⟨r, o, code, hr, ho, hcode⟩ := resolveRequest_inv h
  obtain ⟨w'', _, _, _, _, hrun, _, _, hstore, _, _⟩ := resolveRequest_run k hr ho hcode
  obtain rfl : w' = w'' := (EStateM.Result.ok.inj (h.symm.trans hrun)).2
  exact ⟨_, hstore⟩

lemma store_resolveAll {k : Keeper} {ids : List RequestID} {w w' : World} {u : PUnit}
    (h : (forM ids fun id => resolveRequest k id).run w = .ok u w') :
    ∃ results, w'.store = { w.store with results := results } := by
  induction ids generalizing w with
  | nil =>
    obtain rfl := (EStateM.Result.ok.inj h).2
    exact ⟨_, rfl⟩
  | cons id ids ih =>
    rw [List.forM_cons] at h
    obtain ⟨_, w₁, hid, hids⟩ := bind_eq_ok.mp h
    obtain ⟨results₁, hstore₁⟩ := store_resolveRequest hid
    obtain ⟨results, hstore⟩ := ih hids
    exact ⟨results, by rw [hstore, hstore₁]⟩

lemma scriptsBounded_resolveRequest {k : Keeper} {w w' : World} {id : RequestID} {u : Unit}
    (hb : w.ScriptsBounded) (h : (resolveRequest k id).run w = .ok u w') : w'.ScriptsBounded := by
  obtain ⟨results, hstore⟩ := store_resolveRequest h
  unfold World.ScriptsBounded Store.getOracleScriptCount
  rw [hstore]
  exact hb

/-- The pending requests are resolved in order. -/
lemma run_resolveAll {k : Keeper} {ids : List RequestID} {w w' : World} {u : PUnit}
    (hb : w.ScriptsBounded) (h : (forM ids fun id => resolveRequest k id).run w = .ok u w') :
    w'.ScriptsBounded ∧ ∃ acts, RunWhere Ledger.Step (fun _ a => a.Internal) (w.ledgerWith ids)
      acts (w'.ledgerWith []) := by
  induction ids generalizing w with
  | nil =>
    obtain rfl := (EStateM.Result.ok.inj h).2
    exact ⟨hb, [], .nil _⟩
  | cons id ids ih =>
    rw [List.forM_cons] at h
    obtain ⟨_, w₁, hid, hids⟩ := bind_eq_ok.mp h
    obtain ⟨hb', acts, hacts⟩ := ih (scriptsBounded_resolveRequest hb hid) hids
    refine ⟨hb', .resolve id :: acts, .cons ?_ (step_resolveRequest hid ids) hacts⟩
    trivial

/-! ## Expiring -/

/-- The world whose expiry cursor is at a request. -/
def World.setRequestLastExpired (w : World) (id : RequestID) : World :=
  { w with store := { w.store with requestLastExpired := some id } }

lemma Quiet.setRequestLastExpired {w w' : World} (h : Quiet w w') (id : RequestID) :
    Quiet (w.setRequestLastExpired id) (w'.setRequestLastExpired id) :=
  ⟨h.requestCount, rfl, h.pendingResolveList, h.requests, h.reports, h.results, h.files,
    h.scripts, h.trace⟩

/-- The end of the work on an expired request: the report infos, then the cursor. -/
lemma finishExpire_eq_ok {k : Keeper} {id : RequestID} {w w' : World} {u : Unit}
    (h : (do updateReportInfos k id; modifyStore fun s => { s with requestLastExpired := some id } :
      OracleM Unit).run w = .ok u w') : Quiet (w.setRequestLastExpired id) w' := by
  obtain ⟨_, w₁, hinfos, hset⟩ := bind_eq_ok.mp h
  obtain rfl := (EStateM.Result.ok.inj hset).2
  exact (quiet_of_ok (quiet_updateReportInfos k id) hinfos).setRequestLastExpired id

/-- An expired request is a step of the ledger, and the rest is quiet. -/
lemma expireRequest_eq_ok {k : Keeper} {w w' : World} {id : RequestID} {r : Request} {u : Unit}
    (hr : w.store.requests[id]? = some r) (hid : id = w.store.getRequestLastExpired + 1)
    (hlt : w.store.getRequestLastExpired < w.store.getRequestCount)
    (h : (expireRequest k id r).run w = .ok u w') :
    ∃ w₁, Ledger.Step (w.ledgerWith []) (.expire id) (w₁.ledgerWith []) ∧
      (w.ScriptsBounded → w₁.ScriptsBounded) ∧
      w₁.store.pendingResolveList = w.store.pendingResolveList ∧ Quiet w₁ w' := by
  rw [expireRequest, run_get_bind, run_record_bind] at h
  subst hid
  split_ifs at h with hcount
  · let w₀ : World := { w with
      trace := w.trace ++ [.processExpired (w.store.getRequestLastExpired + 1)] }
    obtain ⟨w₁, s, cs, hsave, hs, hsend, hstore, hfiles, htrace⟩ :=
      saveAndRespond_run k (w := w₀) hr .expired []
    have hrest := (run_bind_of_ok hsave).symm.trans ((congrArg (EStateM.run · w₀)
      (bind_assoc _ _ _)).trans h)
    refine ⟨w₁.setRequestLastExpired (w.store.getRequestLastExpired + 1), ?_, fun hb => ?_, ?_,
      finishExpire_eq_ok hrest⟩
    · have hid : s.id = w.store.getRequestLastExpired + 1 := by
        rw [hs]
        rfl
      have hview : (w₁.setRequestLastExpired (w.store.getRequestLastExpired + 1)).ledgerWith [] =
          { (((w.ledgerWith []).log
              [.processExpired (w.store.getRequestLastExpired + 1)]).save s).log cs with
            requestLastExpired := w.store.getRequestLastExpired + 1 } := by
        show { w₁.ledgerWith [] with
          requestLastExpired := w.store.getRequestLastExpired + 1 } = _
        rw [ledgerWith_of_results hstore hfiles htrace [] []]
        simp [Ledger.log, Ledger.save, World.ledgerWith, World.ready, w₀, hid]
      rw [hview]
      exact .expire rfl hr hlt hcount hs hsend
    · unfold World.ScriptsBounded World.setRequestLastExpired Store.getOracleScriptCount
      rw [hstore]
      exact hb
    · unfold World.setRequestLastExpired
      rw [hstore]
  · have hquiet := finishExpire_eq_ok h
    refine ⟨_, ?_, fun hb => ?_, ?_, hquiet⟩
    · exact .pass rfl hr hlt hcount
    · exact hb
    · rfl

/-- A round of the expiry loop ends it at a request that has not expired, or expires the request
and goes on. -/
lemma processExpiredLoop_succ_eq_ok {k : Keeper} {window : ℤ} {n : ℕ} {id : RequestID}
    {w w' : World} {u : Unit} (h : (processExpiredLoop k window (n + 1) id).run w = .ok u w') :
    ∃ r : Request, w.store.requests[id]? = some r ∧
      (notExpired r.requestHeight window w.header.height = true ∧ w' = w ∨
        notExpired r.requestHeight window w.header.height = false ∧
          ∃ v w₁, (expireRequest k id r).run w = .ok v w₁ ∧
            (processExpiredLoop k window n (id + 1)).run w₁ = .ok u w') := by
  simp only [processExpiredLoop, readStore_bind_eq_ok, run_get_bind,
    Store.mustGetRequest_eq_ok] at h
  obtain ⟨r, hr, h⟩ := h
  split_ifs at h with hopen
  · exact ⟨r, hr, .inl ⟨hopen, (EStateM.Result.ok.inj h).2.symm⟩⟩
  · obtain ⟨v, w₁, hexpire, hloop⟩ := bind_eq_ok.mp h
    exact ⟨r, hr, .inr ⟨by simpa using hopen, v, w₁, hexpire, hloop⟩⟩

/-- The loop over the expired requests is a run of the ledger. -/
lemma run_processExpiredLoop {k : Keeper} {count : ℤ} {n : ℕ} {id : RequestID} {w w' : World}
    {u : Unit} (hb : w.ScriptsBounded) (hid : id = w.store.getRequestLastExpired + 1)
    (hn : 0 < n → w.store.getRequestLastExpired + n ≤ w.store.getRequestCount)
    (h : (processExpiredLoop k count n id).run w = .ok u w') :
    w'.ScriptsBounded ∧ w'.store.pendingResolveList = w.store.pendingResolveList ∧
      ∃ acts, RunWhere Ledger.Step (fun _ a => a.Internal) (w.ledgerWith []) acts
        (w'.ledgerWith []) := by
  induction n generalizing w id with
  | zero =>
    obtain rfl := (EStateM.Result.ok.inj h).2
    exact ⟨hb, rfl, [], .nil _⟩
  | succ n ih =>
    obtain ⟨r, hr, ⟨_, rfl⟩ | ⟨_, _, w₂, hexpire, hloop⟩⟩ := processExpiredLoop_succ_eq_ok h
    · exact ⟨hb, rfl, [], .nil _⟩
    · obtain ⟨w₁, hstep, hb₁, hpend₁, hquiet⟩ := expireRequest_eq_ok hr hid (by omega) hexpire
      have hstep₂ := hquiet.step (hb₁ hb) []
      obtain ⟨_, _, _, hcount₁, _, _, _, hcursor₁, _⟩ := hstep.of_expire
      have hcursor : w₂.store.getRequestLastExpired = id := by
        rw [Store.getRequestLastExpired, hquiet.requestLastExpired]
        exact hcursor₁
      have hcount : w₂.store.getRequestCount = w.store.getRequestCount := by
        rw [Store.getRequestCount, hquiet.requestCount]
        exact hcount₁
      obtain ⟨hb', hpend, acts, hacts⟩ := ih (hquiet.scripts (hb₁ hb)).1 (by rw [hcursor]) (by
        rw [hcursor, hcount, hid]
        omega) hloop
      refine ⟨hb', ?_, .expire id :: .quiet :: acts, .cons ?_ hstep (.cons ?_ hstep₂ hacts)⟩
      · rw [hpend, hquiet.pendingResolveList, hpend₁]
      · trivial
      · trivial

lemma run_processExpiredRequests {k : Keeper} {w w' : World} {u : Unit} (hb : w.ScriptsBounded)
    (h : (processExpiredRequests k).run w = .ok u w') :
    w'.ScriptsBounded ∧ w'.store.pendingResolveList = w.store.pendingResolveList ∧
      ∃ acts, RunWhere Ledger.Step (fun _ a => a.Internal) (w.ledgerWith []) acts
        (w'.ledgerWith []) := by
  rw [processExpiredRequests, run_get_bind] at h
  refine run_processExpiredLoop hb rfl ?_ h
  omega

/-! ## The end of a block -/

/-- The world whose pending list has been emptied. -/
def World.clearPending (w : World) : World :=
  { w with store := { w.store with pendingResolveList := some [] } }

/-- The end of a block resolves what is pending and then expires what is due; nothing stays
pending. -/
lemma run_handleEndBlock {k : Keeper} {w w' : World} {u : Unit} (hb : w.ScriptsBounded)
    (h : (handleEndBlock k).run w = .ok u w') :
    w'.ScriptsBounded ∧ w'.store.pendingResolveList = some [] ∧
      ∃ acts, RunWhere Ledger.Step (fun _ a => a.Internal) w.ledger acts w'.ledger := by
  rw [handleEndBlock, run_get_bind] at h
  obtain ⟨_, w₁, hresolve, h⟩ := bind_eq_ok.mp h
  rw [run_modifyStore_bind] at h
  obtain ⟨hb₁, acts₁, hacts₁⟩ := run_resolveAll hb hresolve
  obtain ⟨hb', hpend, acts₂, hacts₂⟩ := run_processExpiredRequests (w := w₁.clearPending) hb₁ h
  have hnil : w'.store.getPendingResolveList = [] := by
    rw [Store.getPendingResolveList, hpend]
    rfl
  refine ⟨hb', hpend, acts₁ ++ acts₂, hacts₁.append ?_⟩
  rw [World.ledger, hnil]
  exact hacts₂

end Bandchain.Oracle
