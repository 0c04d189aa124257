import Bandchain.Oracle.Frame
import Bandchain.Oracle.Simulation
import Bandchain.Oracle.SingleResult

/-!
# The life of a request

What a chain promises about each request over a whole run: it is queued and executed at most
once, it has a result when the expiry cursor has passed it, and, unless a report completes it
after that, it has one result only.
-/

namespace Bandchain.Oracle

open Exec

/-! ## Late reports -/

instance (w : World) (rid : RequestID) (r : Request) (rep : Report) :
    Decidable (Reportable w rid r rep) :=
  decidable_of_iff (w.store.requests[rid]? = some r ∧ rep.validator ∈ r.requestedValidators ∧
      w.store.reports[toLex (rid, rep.validator)]? = none ∧
      rep.rawReports.length = r.rawRequestIDs.length ∧
      ∀ x ∈ rep.rawReports, x.externalID ∈ r.rawRequestIDs)
    ⟨fun ⟨h₁, h₂, h₃, h₄, h₅⟩ => ⟨h₁, h₂, h₃, h₄, h₅⟩,
      fun h => ⟨h.request, h.requested, h.fresh, h.length, h.subset⟩⟩

/-- A report that passes every check, for a request that the expiry cursor has passed, and
that brings the request the last report it needs. -/
def LateReport (w : World) (m : MsgReportData) : Prop :=
  m.validateBasic = .ok () ∧ w.store.isReporter m.validator m.reporter = true ∧
    m.requestID ≤ w.store.getRequestLastExpired ∧
    ∃ r ∈ w.store.requests[m.requestID]?, Reportable w m.requestID r (m.report w) ∧
      w.store.getReportCount m.requestID + 1 = r.minCount.toNat

instance (w : World) (m : MsgReportData) : Decidable (LateReport w m) := instDecidableAnd

/-- The step does not deliver a late report. -/
def NoLateReport (w : World) : Label → Prop
  | .deliver (.reportData m) => ¬LateReport w m
  | _ => True

instance (w : World) (l : Label) : Decidable (NoLateReport w l) :=
  match l with
  | .deliver (.reportData m) => inferInstanceAs (Decidable ¬LateReport w m)
  | .deliver (.createDataSource _) | .deliver (.editDataSource _)
  | .deliver (.createOracleScript _) | .deliver (.editOracleScript _)
  | .deliver (.requestData _) | .deliver (.addReporter _) | .deliver (.removeReporter _)
  | .deliver (.recvPacket _) | .beginBlock _ | .writeFile _ | .updateParams _
  | .updateStaking _ | .updateChannels _ | .endBlock => .isTrue trivial

/-- On the ledger, a step that delivers no late report is on time. -/
lemma onTime_of_noLateReport {k : Keeper} (w : World) (l : Label) (h : NoLateReport w l)
    (L : Ledger) (a : Ledger.Act) (ha : Justified k w l L a) : L.OnTime a := by
  rintro rid rep rfl r hr hcount
  obtain ⟨m, rfl, hbasic, rfl, rfl, hreporter, ⟨r', hrep⟩, rfl⟩ := ha
  obtain rfl := Option.some.inj (hr.symm.trans hrep.request)
  by_contra hlt
  exact h ⟨hbasic, hreporter, not_lt.mp hlt, r, hr, hrep, hcount⟩

/-- A late report is accepted, and leaves a request in the queue that has a result. -/
lemma LateReport.owed {k : Keeper} {w w' : World} {m : MsgReportData} (hw : ReachableWorld k w)
    (h : LateReport w m) (hst : Step k w (.deliver (.reportData m)) w') :
    2 ≤ (savedHashes m.requestID w'.trace).length +
      w'.store.getPendingResolveList.count m.requestID := by
  obtain ⟨hbasic, hreporter, hpassed, r, hr, hrep, hcount⟩ := h
  have hI := recorded_of_reachable hw
  -- the request expired with too few reports, so it has a result
  obtain ⟨x, hx⟩ := hI.queued.passed m.requestID r hr (by omega) hpassed
  have hsaved : 1 ≤ (savedHashes m.requestID w.trace).length := by
    have hx' : (savedHashes m.requestID w.trace).getLast? = some x :=
      (hI.described.result m.requestID).symm.trans hx
    exact List.length_pos_of_mem (List.mem_of_getLast? hx')
  -- the delivery is the successful run of the handler
  obtain ⟨w'', hrun⟩ : ∃ w'', (handleMsgReportData m).run w = .ok () w'' :=
    ⟨_, handleMsgReportData_run hreporter hrep⟩
  obtain rfl : w'' = w' := by
    have hdeliver : deliver k (.reportData m) w = w'' := by
      simp only [deliver, Msg.validateBasic, hbasic, Msg.handle, hrun]
    exact hdeliver.symm.trans (Option.some.inj hst)
  obtain ⟨_, r', hrep', hlogs⟩ := handleMsgReportData_eq_ok hrun
  obtain rfl := Option.some.inj (hrep.request.symm.trans hrep'.request)
  have hstep := step_acceptReport hrep (MsgReportData.validateBasic_eq_ok.mp hbasic).2.2.2.1
  obtain ⟨r', hr', _, _, _, _, _, hqueue⟩ := hstep.of_report
  obtain rfl := Option.some.inj (hrep.request.symm.trans hr')
  obtain ⟨_, hpd, htrace⟩ := hqueue.resolve_left fun h => h.1 hcount
  have hquietStep := hlogs.quiet.step_ledger
    (scriptsBounded_acceptReport (scriptsBounded_of_reachable hw) _ _ _)
  have howed := hquietStep.owed_le m.requestID
  rw [htrace, hpd, savedHashes_append, List.length_append, List.count_append] at howed
  have hone : 1 ≤ List.count m.requestID [m.requestID] := by simp
  change _ ≤ (savedHashes m.requestID w''.trace).length +
    w''.store.getPendingResolveList.count m.requestID at howed
  have hsaved' : 1 ≤ (savedHashes m.requestID w.ledger.trace).length := hsaved
  omega

/-! ## At most one result -/

/-- In the run `ls` from `w₀` to `w`, every request has at most one result and at most one
response, and no stored result is replaced. -/
structure OneResult (k : Keeper) (w₀ : World) (ls : List Label) (w : World) : Prop where
  saved : ∀ id, w.trace.countP (Call.isSaveResult id) ≤ 1
  sent : ∀ id, w.trace.countP (Call.isSendPacket id) ≤ 1
  kept : ∀ ls₁ ls₂ w₁, ls = ls₁ ++ ls₂ → Run (Step k) w₀ ls₁ w₁ → ∀ (id : RequestID) (x : Bytes),
    w₁.store.results[id]? = some x → w.store.results[id]? = some x

/-- The invariant of runs without late reports. -/
def Ledger.Settled (L : Ledger) : Prop := L.Recorded ∧ L.SavedOnce ∧ L.SentOnce

lemma Ledger.Settled.step {L L' : Ledger} {a : Ledger.Act} (hP : L.OnTime a)
    (hst : Ledger.Step L a L') (h : L.Settled) : L'.Settled :=
  ⟨h.1.step hst, h.2.1.step h.1 hst hP, h.2.2.step hst⟩

lemma settled_of_run {k : Keeper} {w₀ w : World} {ls : List Label}
    (h₀ : Starts defaultGenesisState w₀) (h : RunWhere (Step k) NoLateReport w₀ ls w) :
    w.ledger.Settled := by
  have hfresh := fresh_of_starts h₀ rfl
  refine ledger_invariant onTime_of_noLateReport Ledger.Settled.step h
    (scriptsBounded_of_starts h₀) ⟨hfresh.recorded, hfresh.savedOnce, ?_⟩
  intro id
  rw [hfresh.trace]
  exact le_rfl

/-- Without late reports, a stored result is never replaced. -/
lemma result_stable_of_run {k : Keeper} {w w' : World} {ls : List Label} (hw : w.ledger.Settled)
    (hb : w.ScriptsBounded) (h : RunWhere (Step k) NoLateReport w ls w') {id : RequestID}
    {x : Bytes} (hx : w.store.results[id]? = some x) : w'.store.results[id]? = some x := by
  refine (ledger_invariant (I := fun L => L.Settled ∧ L.results[id]? = some x)
    onTime_of_noLateReport ?_ h hb ⟨hw, hx⟩).2
  rintro L a L' hP hst ⟨hI, hx⟩
  exact ⟨hI.step hP hst, hI.2.1.result_stable hI.1 hst hP hx⟩

lemma oneResult_of_noLateReport {k : Keeper} {w₀ w : World} {ls : List Label}
    (h₀ : Starts defaultGenesisState w₀) (h : RunWhere (Step k) NoLateReport w₀ ls w) :
    OneResult k w₀ ls w := by
  obtain ⟨_, hsaved, hsent⟩ := settled_of_run h₀ h
  have hle : ∀ id, w.trace.countP (Call.isSaveResult id) ≤ 1 := by
    intro id
    rw [countP_isSaveResult]
    exact hsaved.single id
  refine ⟨hle, fun id => (hsent id).trans (hle id), ?_⟩
  rintro ls₁ ls₂ w₁ rfl hrun id x hx
  obtain ⟨w₂, h₁, h₂⟩ := h.split
  obtain rfl := hrun.unique h₁
  exact result_stable_of_run (settled_of_run h₀ h₁)
    (scriptsBounded_of_reachable ⟨w₀, ls₁, h₀, hrun⟩) h₂ hx

/-- The results saved and still to come for a request do not become fewer along a run. -/
lemma owed_le_of_run {k : Keeper} {w w' : World} {ls : List Label} (hw : ReachableWorld k w)
    (h : Run (Step k) w ls w') {n : ℕ} {id : RequestID}
    (hn : n ≤ (savedHashes id w.trace).length + w.store.getPendingResolveList.count id) :
    n ≤ (savedHashes id w'.trace).length + w'.store.getPendingResolveList.count id :=
  ledger_invariant (Q := fun _ _ => True)
    (I := fun L => n ≤ (savedHashes id L.trace).length + L.pending.count id)
    (fun _ _ _ _ _ _ => trivial) (fun _ hst hI => hI.trans (hst.owed_le id)) h
    (scriptsBounded_of_reachable hw) hn

/-- **One result.**  Every request has one result only in every run without late reports; and
a late report brings its request a second result at the end of the block, at the latest. -/
theorem oneResult_iff_noLateReport {k : Keeper} {w₀ w : World} {ls : List Label}
    (h₀ : Starts defaultGenesisState w₀) (hrun : Run (Step k) w₀ ls w) :
    (RunWhere (Step k) NoLateReport w₀ ls w → OneResult k w₀ ls w) ∧
      ∀ w', Step k w .endBlock w' → OneResult k w₀ (ls ++ [.endBlock]) w' →
        RunWhere (Step k) NoLateReport w₀ ls w := by
  refine ⟨oneResult_of_noLateReport h₀, fun w' hend hone => ?_⟩
  rcases hrun.all_or_exists_not with hall | ⟨ls₁, l, ls₂, w₁, w₂, rfl, h₁, hlate, hst, h₂⟩
  · exact hall
  · exfalso
    have hw₁ : ReachableWorld k w₁ := ⟨w₀, ls₁, h₀, h₁⟩
    have hw₂ : ReachableWorld k w₂ := hw₁.of_run (.single trivial hst)
    obtain ⟨m, rfl, hm⟩ : ∃ m, l = .deliver (.reportData m) ∧ LateReport w₁ m := by
      unfold NoLateReport at hlate
      split at hlate
      · exact ⟨_, rfl, not_not.mp hlate⟩
      · exact absurd trivial hlate
    have howed := owed_le_of_run hw₂ (h₂.append (.single trivial hend)) (hm.owed hw₁ hst)
    have hnil : w'.store.getPendingResolveList = [] := by
      have hb := scriptsBounded_of_reachable (hw₂.of_run h₂)
      rw [Store.getPendingResolveList, (run_handleEndBlock hb (step_endBlock_iff.mp hend)).2.1]
      rfl
    have hle := hone.saved m.requestID
    rw [countP_isSaveResult] at hle
    rw [hnil, List.count_nil] at howed
    omega

/-- Two reports come in the block of the request, one of which is needed. -/
lemma Sample.exists_twoReports : ∃ w, RunWhere (Step Sample.keeper) NoLateReport Sample.genesis
    (Sample.twoReports ++ [.endBlock]) w ∧ (savedHashes 1 w.trace).length = 1 ∧
      w.trace.countP (Call.isExecute 1) = 1 :=
  exists_runWhere (f := next Sample.keeper) (P := NoLateReport) (s := Sample.genesis)
    (Sample.twoReports ++ [.endBlock])
    (I := fun w => (savedHashes 1 w.trace).length = 1 ∧ w.trace.countP (Call.isExecute 1) = 1)
    (by decide +kernel)

theorem oneResult_twoReports : ∃ w, RunWhere (Step Sample.keeper) NoLateReport Sample.genesis
    (Sample.twoReports ++ [.endBlock]) w ∧ (savedHashes 1 w.trace).length = 1 ∧
    OneResult Sample.keeper Sample.genesis (Sample.twoReports ++ [.endBlock]) w := by
  obtain ⟨w, hrun, hsaved, -⟩ := Sample.exists_twoReports
  exact ⟨w, hrun, hsaved, (oneResult_iff_noLateReport Sample.starts_genesis hrun.run).1 hrun⟩

/-- A late report: the result of the expiry is replaced by another one. -/
theorem not_oneResult_lateReport : Starts defaultGenesisState Sample.genesis ∧
    ∃ w, Run (Step Sample.keeper) Sample.genesis Sample.lateReport w ∧
      (savedHashes 1 w.trace).length = 2 ∧ (savedHashes 1 w.trace).Nodup ∧
      ¬OneResult Sample.keeper Sample.genesis Sample.lateReport w := by
  obtain ⟨w, hrun, hlen, hnodup⟩ := exists_runWhere (f := next Sample.keeper)
    (P := fun _ _ => True) (s := Sample.genesis) Sample.lateReport
    (I := fun w => (savedHashes 1 w.trace).length = 2 ∧ (savedHashes 1 w.trace).Nodup)
    (by decide +kernel)
  refine ⟨Sample.starts_genesis, w, hrun, hlen, hnodup, fun hone => ?_⟩
  have hle := hone.saved 1
  rw [countP_isSaveResult] at hle
  omega

/-! ## No request is passed without a result -/

/-- A result that is saved comes from an execution or from an expiry. -/
lemma status_ne_open {t : List Call} (h : Along Ledger.Explained t) {s : SaveRecord}
    (hs : .saveResult s ∈ t) : s.status ≠ .open := by
  obtain ⟨pre, post, ht⟩ := List.append_of_mem hs
  obtain ⟨_, ⟨exitCode, retdata, _, hout⟩ | ⟨_, hstatus, _⟩⟩ := h.at_split ht
  · have hstatus : s.status = (outcome exitCode retdata).1 := by rw [← hout]
    rw [hstatus, outcome]
    split_ifs <;> simp
  · rw [hstatus]
    decide

/-- **Expiry.**  A request made by a message has a result, from its execution or from its
expiry, once the expiry cursor has passed it. -/
theorem result_of_passed {k : Keeper} {w₁ w₂ w : World} {m : MsgRequestData} {ls : List Label}
    (h₁ : ReachableWorld k w₁) (hbasic : m.validateBasic = .ok ())
    (hreq : (handleMsgRequestData k m).run w₁ = .ok () w₂) (hrun : Run (Step k) w₂ ls w)
    (hpassed : w₁.store.getRequestCount + 1 ≤ w.store.getRequestLastExpired) :
    ∃ s, .saveResult s ∈ w.trace ∧ s.id = w₁.store.getRequestCount + 1 ∧ s.status ≠ .open ∧
      w.store.results[w₁.store.getRequestCount + 1]? = some s.hash := by
  have hreq' : Requests k w₁ _ _ _ w₂ := .message hbasic hreq
  obtain ⟨p, r, hid, hspec, _, _, hdesc, _, hr⟩ := hreq'.later h₁ hrun
  have hI := recorded_of_reachable ((h₁.of_run (.single trivial hreq'.step)).of_run hrun)
  have hpos : 1 ≤ r.minCount.toNat := by
    rw [hdesc.minCount, hspec]
    exact (MsgRequestData.bounded_of_validateBasic hbasic).minCount_pos
  rw [hid] at hr
  obtain ⟨x, hx⟩ := hI.queued.passed _ r hr hpos hpassed
  obtain ⟨s, hs, hsid, rfl⟩ := hI.described.save_of_result hx
  exact ⟨s, hs, hsid, status_ne_open hI.explained hs, hx⟩

theorem result_of_passed_request_one : ∃ w, ReachableWorld Sample.keeper w ∧
    w.store.getRequestLastExpired = 1 ∧ ∃ x, w.store.results[(1 : ℤ)]? = some x := by
  obtain ⟨w₁, w₂, w, h₁, hreq, hrun, hcount, hcursor⟩ := Sample.exists_run_request_run
    (k := Sample.keeper) (m := Sample.requestMsg 2 1) Sample.genesis
    (Sample.create Sample.askingScript) Sample.idleBlocks
    (I := fun w₁ w => w₁.store.getRequestCount = 0 ∧ w.store.getRequestLastExpired = 1)
    (by decide +kernel)
  have hbasic : (Sample.requestMsg 2 1).validateBasic = .ok () := rfl
  have hw₁ : ReachableWorld Sample.keeper w₁ := ⟨_, _, Sample.starts_genesis, h₁⟩
  have hw₂ := hw₁.of_run (.single trivial (Requests.message hbasic hreq).step)
  obtain ⟨s, _, _, _, hx⟩ := result_of_passed hw₁ hbasic hreq hrun (by rw [hcount, hcursor]; rfl)
  rw [hcount] at hx
  exact ⟨w, hw₂.of_run hrun, hcursor, _, hx⟩

/-! ## Every request is queued and executed once -/

/-- A step stores at most one report, and that for a request stored before. -/
lemma getReportCount_step {k : Keeper} {w w' : World} {l : Label} (h : Step k w l w')
    (id : RequestID) :
    w'.store.getReportCount id = w.store.getReportCount id ∨
      w'.store.getReportCount id = w.store.getReportCount id + 1 ∧
        ∃ r, w.store.requests[id]? = some r := by
  have hsame : w'.store.reports = w.store.reports →
      w'.store.getReportCount id = w.store.getReportCount id := fun hrep =>
    @Ledger.reportCount_congr w.ledger w'.ledger hrep id
  cases step_cases h with
  | quiet hquiet => exact .inl (hsame hquiet.reports)
  | request hreq =>
    obtain ⟨p, r, hprep, _⟩ := hreq.stored
    exact .inl (hsame hprep.quiet.reports)
  | @report m _ _ hrun =>
    obtain ⟨_, r, hrep, hlogs⟩ := handleMsgReportData_eq_ok hrun
    have hins : w'.ledger.reports = w.ledger.reports.insert
        (toLex (m.requestID, (m.report w).validator)) (m.report w) := by
      refine hlogs.quiet.reports.trans ?_
      unfold World.acceptReport
      split_ifs <;> rfl
    by_cases hid : m.requestID = id
    · subst hid
      exact .inr ⟨Ledger.reportCount_insert_self hins hrep.fresh, r, hrep.request⟩
    · exact .inl (Ledger.reportCount_insert_ne hins hid)
  | endBlock hrun => exact .inl (hsame (sameSetting_handleEndBlock hrun).reports)

/-- A request becomes resolvable exactly in the step that stores the last report it needs. -/
lemma resolvable_step_iff {k : Keeper} {w w' : World} {l : Label} (hw : ReachableWorld k w)
    (h : Step k w l w') (id : RequestID) :
    ¬w.ledger.Resolvable id ∧ w'.ledger.Resolvable id ↔
      ∃ r : Request, w.store.requests[id]? = some r ∧
        w.store.getReportCount id + 1 = r.minCount.toNat ∧
        w'.store.getReportCount id = r.minCount.toNat := by
  have hI := recorded_of_reachable hw
  have hstable := (stable_of_run hw (.single trivial h)).1
  constructor
  · rintro ⟨hnot, r', hr', hpos, hmin⟩
    have hmin' : r'.minCount.toNat ≤ w'.store.getReportCount id := hmin
    rcases getReportCount_step h id with hsame | ⟨hsucc, r, hr⟩
    · exfalso
      rcases hr : w.store.requests[id]? with _ | r
      · have hzero : w.store.getReportCount id = 0 := hI.reported.reportCount_eq_zero hr
        omega
      · obtain rfl := Option.some.inj ((hstable id r hr).symm.trans hr')
        exact hnot ⟨r, hr, hpos, hmin'.trans hsame.le⟩
    · obtain rfl := Option.some.inj ((hstable id r hr).symm.trans hr')
      have hlt : ¬r.minCount.toNat ≤ w.store.getReportCount id := fun hle =>
        hnot ⟨r, hr, hpos, hle⟩
      exact ⟨r, hr, by omega, by omega⟩
  · rintro ⟨r, hr, hcount, hcount'⟩
    refine ⟨?_, r, hstable id r hr, by omega, hcount'.ge⟩
    rintro ⟨q, hq, _, hle⟩
    obtain rfl := Option.some.inj (hr.symm.trans hq)
    have hle' : r.minCount.toNat ≤ w.store.getReportCount id := hle
    omega

/-- **Queueing.**  Every request is queued at most once in a run, exactly in the step that
stores the last report it needs; so it is executed at most once, and with enough reports. -/
theorem queued_once {k : Keeper} {w : World} (h : ReachableWorld k w) (id : RequestID) :
    w.trace.countP (Call.isAddPendingRequest id) ≤ 1 ∧
      (∀ l w', Step k w l w' →
        (w'.trace.countP (Call.isAddPendingRequest id) =
            w.trace.countP (Call.isAddPendingRequest id) + 1 ↔
          ∃ r : Request, w.store.requests[id]? = some r ∧
            w.store.getReportCount id + 1 = r.minCount.toNat ∧
            w'.store.getReportCount id = r.minCount.toNat)) ∧
      w.trace.countP (Call.isExecute id) + w.store.getPendingResolveList.count id =
        w.trace.countP (Call.isAddPendingRequest id) ∧
      w.trace.countP (Call.isExecute id) ≤ 1 ∧
      w.trace.countP (Call.isSetReport id) = w.store.getReportCount id ∧
      ∀ pre post exitCode retdata, w.trace = pre ++ .execute id exitCode retdata :: post →
        ∃ r : Request, w.store.requests[id]? = some r ∧
          r.minCount.toNat ≤ pre.countP (Call.isSetReport id) := by
  have hI := recorded_of_reachable h
  have hle := hI.counted.queued_le id
  have hexec : w.trace.countP (Call.isExecute id) + w.store.getPendingResolveList.count id =
      w.trace.countP (Call.isAddPendingRequest id) := hI.counted.executed id
  have hle' : w.trace.countP (Call.isAddPendingRequest id) ≤ 1 := hle
  refine ⟨hle', fun l w' hst => ?_, hexec, by omega, hI.counted.reports id, ?_⟩
  · have hI' := recorded_of_reachable (h.of_run (.single trivial hst))
    have hiff : 0 < w.trace.countP (Call.isAddPendingRequest id) ↔ w.ledger.Resolvable id :=
      hI.counted.queued_iff id
    have hiff' : 0 < w'.trace.countP (Call.isAddPendingRequest id) ↔ w'.ledger.Resolvable id :=
      hI'.counted.queued_iff id
    have hle'' : w'.trace.countP (Call.isAddPendingRequest id) ≤ 1 := hI'.counted.queued_le id
    rw [← resolvable_step_iff h hst id, ← hiff, ← hiff']
    omega
  · intro pre post exitCode retdata htrace
    obtain ⟨p, hp, rfl, _, hmin⟩ := hI.explained.at_split htrace
    obtain ⟨_, r, hr, hdesc⟩ := hI.described.described p (by
      show _ ∈ w.trace
      rw [htrace]
      exact List.mem_append_left _ hp)
    exact ⟨r, hr, hdesc.minCount ▸ hmin⟩

theorem queued_once_twoReports : ∃ w, ReachableWorld Sample.keeper w ∧
    w.trace.countP (Call.isExecute 1) = 1 ∧ w.trace.countP (Call.isAddPendingRequest 1) ≤ 1 := by
  obtain ⟨w, hrun, -, hexec⟩ := Sample.exists_twoReports
  have hw : ReachableWorld Sample.keeper w := ⟨_, _, Sample.starts_genesis, hrun.run⟩
  exact ⟨w, hw, hexec, (queued_once hw 1).1⟩

end Bandchain.Oracle
