import Bandchain.Oracle.Simulation

/-!
# Reports

Which reports are stored, and which can be.  A stored report is a complete answer by a
requested validator.  Whether a requested validator can answer at all depends on what the
oracle script asked for: the checks on a report message and the checks on a report together
leave room for one exactly if the script asked for something, and never twice under the same
external ID.
-/

namespace Bandchain.Oracle

open Exec

/-! ## Rejected reports -/

lemma addReport_eq_error {rid : RequestID} {rep : Report} {w w' : World} {e : Err}
    (h : (addReport rid rep).run w = .error e w') : w' = w := by
  rw [addReport, bind_eq_error] at h
  rcases h with h | ⟨r, w₁, hread, h⟩
  · exact (readStore_eq_error.mp h).2
  obtain ⟨_, rfl⟩ := readStore_eq_ok.mp hread
  rw [run_get_bind] at h
  -- the three checks and the loop only read
  iterate 3
    rw [bind_eq_error] at h
    rcases h with h | ⟨_, w₁, hcheck, h⟩
    · exact (failIf_eq_error.mp h).2.2
    obtain ⟨_, rfl⟩ := failIf_eq_ok.mp hcheck
  rw [bind_eq_error] at h
  rcases h with h | ⟨_, w₁, hloop, h⟩
  · exact forM_failIf_eq_error h
  · cases h

/-- A report that the handler rejects changes nothing, even before it is rolled back. -/
lemma handleMsgReportData_eq_error {m : MsgReportData} {w w' : World} {e : Err}
    (h : (handleMsgReportData m).run w = .error e w') : w' = w := by
  rw [handleMsgReportData, run_get_bind, bind_eq_error] at h
  rcases h with h | ⟨_, w₁, hcheck, h⟩
  · exact (failIf_eq_error.mp h).2.2
  obtain ⟨_, rfl⟩ := failIf_eq_ok.mp hcheck
  rw [bind_eq_error] at h
  rcases h with h | ⟨_, w₁, hadd, h⟩
  · exact addReport_eq_error h
  -- once the report is stored, nothing fails
  obtain ⟨r, hrep, rfl⟩ := addReport_eq_ok.mp hadd
  rw [bind_eq_error] at h
  exfalso
  rcases h with h | ⟨_, w₁, _, h⟩
  · have hr := Store.mustGetRequest_eq_ok.mpr hrep.request
    exact absurd (hr.symm.trans (readStore_eq_error.mp h).1) (by simp)
  · rw [run_get_bind] at h
    split_ifs at h <;> cases h

/-! ## Stored reports -/

/-- **Reports.**  In every reachable world, a stored report answers every raw request of its
request exactly once and comes from a requested validator, who has no other one; so there are
at most as many reports as requested validators.  A rejected report changes nothing. -/
theorem reports_of_reachable {k : Keeper} {w : World} (h : ReachableWorld k w) :
    (∀ (rid : RequestID) (v : ValAddress) (rep : Report),
      w.store.reports[toLex (rid, v)]? = some rep →
        ∃ r : Request, w.store.requests[rid]? = some r ∧ rep.validator = v ∧
          v ∈ r.requestedValidators ∧
          (rep.rawReports.map RawReport.externalID).Perm r.rawRequestIDs) ∧
      (∀ rid : RequestID, ((w.store.getReports rid).map Report.validator).Nodup) ∧
      (∀ (rid : RequestID) (r : Request), w.store.requests[rid]? = some r →
        w.store.getReportCount rid ≤ r.requestedValidators.length) ∧
      ∀ m : MsgReportData,
        (∀ e w', (handleMsgReportData m).run w = .error e w' → w' = w) ∧
        (m.validateBasic ≠ .ok () ∨ (∃ e w', (handleMsgReportData m).run w = .error e w') →
          deliver k (.reportData m) w = w) := by
  have hI := (recorded_of_reachable h).reported
  refine ⟨hI, fun rid => ?_, fun rid r hr => hI.reportCount_le hr, fun m =>
    ⟨fun e w' herr => handleMsgReportData_eq_error herr, ?_⟩⟩
  · rw [Store.getReports, List.map_map]
    exact hI.nodup_validators rid
  · intro hrej
    unfold deliver
    rcases hbasic : (Msg.reportData m).validateBasic with e | u
    · rfl
    · obtain ⟨e, w', herr⟩ := hrej.resolve_left (not_not.mpr hbasic)
      have herr' : ((Msg.reportData m).handle k).run w = .error e w' := herr
      simp only [herr', handleMsgReportData_eq_error herr]

theorem reports_of_reachable_twoReports : ∃ w, ReachableWorld Sample.keeper w ∧
    w.store.getReportCount 1 = 2 ∧ ((w.store.getReports 1).map Report.validator).Nodup := by
  obtain ⟨w, hrun, hcount⟩ := exists_runWhere (f := next Sample.keeper) (P := fun _ _ => True)
    (s := Sample.genesis) Sample.twoReports
    (I := fun w => w.store.getReportCount 1 = 2) (by decide +kernel)
  have hw : ReachableWorld Sample.keeper w := ⟨_, _, Sample.starts_genesis, hrun⟩
  exact ⟨w, hw, hcount, (reports_of_reachable hw).2.1 1⟩

/-! ## Possible reports -/

/-- A message by which the validator itself reports for the request, and which is accepted. -/
def CanReport (w : World) (rid : RequestID) (v : ValAddress) : Prop :=
  ∃ m : MsgReportData, m.requestID = rid ∧ m.validator = v ∧ m.reporter = v ∧
    m.validateBasic = .ok () ∧ ∃ w', (handleMsgReportData m).run w = .ok () w'

/-- A validator can report exactly if there are raw requests to answer, all different. -/
lemma canReport_iff {w : World} {rid : RequestID} {r : Request} {v : ValAddress}
    (hr : w.store.requests[rid]? = some r) (hv : v ∈ r.requestedValidators)
    (hlen : v.length = addrLen) (hfresh : w.store.hasReport rid v = false) :
    CanReport w rid v ↔ r.rawRequestIDs ≠ [] ∧ r.rawRequestIDs.Nodup := by
  constructor
  · rintro ⟨m, rfl, rfl, _, hbasic, w', hrun⟩
    obtain ⟨_, _, hne, hnodup, _⟩ := MsgReportData.validateBasic_eq_ok.mp hbasic
    obtain ⟨_, r', hrep, _⟩ := handleMsgReportData_eq_ok hrun
    obtain rfl := Option.some.inj (hr.symm.trans hrep.request)
    have hacc : w.ledger.Acceptable m.requestID r (m.report w) :=
      ⟨hrep.requested, hrep.fresh, hnodup, hrep.length, hrep.subset⟩
    have hperm := hacc.perm
    refine ⟨?_, hperm.nodup_iff.mp hnodup⟩
    rintro hnil
    rw [hnil, List.perm_nil, List.map_eq_nil_iff] at hperm
    exact hne hperm
  · rintro ⟨hne, hnodup⟩
    -- answer every raw request with no data
    let m : MsgReportData := ⟨rid, r.rawRequestIDs.map fun id => ⟨id, 0, []⟩, v, v⟩
    have hids : m.rawReports.map RawReport.externalID = r.rawRequestIDs := by
      simp [m, Function.comp_def]
    refine ⟨m, rfl, rfl, rfl, MsgReportData.validateBasic_eq_ok.mpr ⟨hlen, hlen, ?_, ?_, ?_⟩,
      _, handleMsgReportData_run (r := r) ?_ ⟨hr, hv, hasReport_eq_false.mp hfresh, ?_, ?_⟩⟩
    · simpa [m] using hne
    · rw [hids]
      exact hnodup
    · simp [m]
    · simp [Store.isReporter, m]
    · simp [MsgReportData.report, m]
    · simp [MsgReportData.report, m]

/-- **Reports are possible.**  A requested validator that has not reported can report exactly
if the script asked, in the calls that were kept, for something and for nothing twice. -/
theorem canReport_iff_keptExternalIDs {k : Keeper} {w : World} {p : PrepareRecord} {r : Request}
    {v : ValAddress} (h : ReachableWorld k w) (hp : .prepareRequest p ∈ w.trace)
    (hr : w.store.requests[p.id]? = some r) (hv : v ∈ r.requestedValidators)
    (hfresh : w.store.hasReport p.id v = false) :
    CanReport w p.id v ↔
      keptExternalIDs (toInt64 p.maxRawRequestCount.toNat) p.calls ≠ [] ∧
        (keptExternalIDs (toInt64 p.maxRawRequestCount.toNat) p.calls).Nodup := by
  have hdesc := (recorded_of_reachable h).described.describes hp hr
  rw [← hdesc.rawRequestIDs]
  exact canReport_iff hr hv (hdesc.validators v hv) hfresh

theorem canReport_askingScript : ∃ w, ReachableWorld Sample.keeper w ∧
    CanReport w 1 Sample.alice.operator := by
  let p : PrepareRecord := ⟨1, (Sample.requestMsg 2 1).toSpec, none, 16,
    [.askExternalData 1 1 []], 1590000000⟩
  obtain ⟨w, hrun, hp, hfresh, r, hr, hv⟩ := exists_runWhere (f := next Sample.keeper)
    (P := fun _ _ => True) (s := Sample.genesis)
    (Sample.create Sample.askingScript ++ [.deliver (.requestData (Sample.requestMsg 2 1))])
    (I := fun w => .prepareRequest p ∈ w.trace ∧
      w.store.hasReport 1 Sample.alice.operator = false ∧
      ∃ r ∈ w.store.requests[(1 : ℤ)]?, Sample.alice.operator ∈ r.requestedValidators)
    (by decide +kernel)
  have hw : ReachableWorld Sample.keeper w := ⟨_, _, Sample.starts_genesis, hrun⟩
  exact ⟨w, hw, (canReport_iff_keptExternalIDs (p := p) hw hp hr hv hfresh).mpr (by decide)⟩

/-- A script that asks for nothing: both validators are requested and neither can report. -/
theorem not_canReport_idleScript : ∃ w, Run (Step Sample.keeper) Sample.genesis
    (Sample.create Sample.idleScript ++ [.deliver (.requestData (Sample.requestMsg 2 1))]) w ∧
    ∃ r : Request, w.store.requests[(1 : ℤ)]? = some r ∧ r.requestedValidators.length = 2 ∧
      ∀ v ∈ r.requestedValidators, w.store.hasReport 1 v = false ∧ ¬CanReport w 1 v := by
  obtain ⟨w, hrun, r, hr, hids, hvals⟩ := exists_runWhere (f := next Sample.keeper)
    (P := fun _ _ => True) (s := Sample.genesis)
    (Sample.create Sample.idleScript ++ [.deliver (.requestData (Sample.requestMsg 2 1))])
    (I := fun w => ∃ r ∈ w.store.requests[(1 : ℤ)]?, r.rawRequestIDs = [] ∧
      r.requestedValidators.length = 2 ∧ ∀ v ∈ r.requestedValidators,
        v.length = addrLen ∧ w.store.hasReport 1 v = false)
    (by decide +kernel)
  refine ⟨w, hrun, r, hr, hvals.1, fun v hv => ⟨(hvals.2 v hv).2, fun hcan => ?_⟩⟩
  exact ((canReport_iff hr hv (hvals.2 v hv).1 (hvals.2 v hv).2).mp hcan).1 hids

end Bandchain.Oracle
