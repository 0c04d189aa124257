import Bandchain.Lib.Run
import Bandchain.Oracle.Keeper

/-!
# The ledger of requests

The abstract model of the oracle module: the requests, their reports, the queue of requests
to resolve, the results and the expiry cursor, and the five things that can happen to them.
Scripts appear only through the set of those that are ready to run, and everything else the
module does is a quiet step.  The trace records the history; its invariants are what the
module promises over a whole run.
-/

namespace Bandchain.Oracle

/-- The calls that say nothing about the life of a request. -/
def Call.IsQuiet : Call → Prop
  | .event _ => True
  | .handleValidatorReport _ _ => True
  | .stakingValidator _ _ => True
  | .jail _ => True
  | _ => False

/-- The emission of an event. -/
def Call.IsEvent : Call → Prop
  | .event _ => True
  | _ => False

lemma Call.IsEvent.isQuiet {c : Call} (h : c.IsEvent) : c.IsQuiet := by
  cases c <;> first | exact h.elim | trivial

/-! ## What records say -/

/-- The request `r` is the one that the record `p` tells of. -/
structure PrepareRecord.Describes (p : PrepareRecord) (r : Request) : Prop where
  oracleScriptID : r.oracleScriptID = p.spec.oracleScriptID
  calldata : r.calldata = p.spec.calldata
  clientID : r.clientID = p.spec.clientID
  minCount : r.minCount = p.spec.minCount
  askCount : r.requestedValidators.length = p.spec.askCount.toNat
  validators : ∀ v ∈ r.requestedValidators, v.length = addrLen
  requestTime : r.requestTime = p.blockTime
  ibcInfo : r.ibcInfo = p.ibcInfo
  rawRequestIDs :
    r.rawRequestIDs = keptExternalIDs (toInt64 p.maxRawRequestCount.toNat) p.calls

/-- The response to a request with the given number of reports, time, status and result. -/
def Request.response (r : Request) (id : RequestID) (reportCount : ℕ) (time : ℤ)
    (status : ResolveStatus) (result : Bytes) : OracleResponsePacketData :=
  newOracleResponsePacketData r.clientID id (UInt64.ofNat reportCount) r.requestTime time status
    result

/-- What `SaveResult` records for a stored request. -/
def Request.saveRecord (r : Request) (id : RequestID) (reportCount : ℕ) (time : ℤ)
    (status : ResolveStatus) (result : Bytes) : SaveRecord where
  id := id
  status := status
  result := result
  reportCount := reportCount
  blockTime := time
  hash := calculateResultHash r.savedPacket (r.response id reportCount time status result)
  event := requestExecuteEvent r.savedPacket (r.response id reportCount time status result)
    (calculateResultHash r.savedPacket (r.response id reportCount time status result))

/-- The status and the result of an execution with the given exit code and return data. -/
def outcome (exitCode : ℤ) (retdata : Bytes) : ResolveStatus × Bytes :=
  if exitCode ≠ 0 then (.failure, []) else (.success, retdata)

/-- What is sent when a response to `r` goes out: nothing, or one packet, through the channel
of the request. -/
inductive Sends (r : Request) (res : OracleResponsePacketData) : List Call → Prop
  | nothing : Sends r res []
  | packet {info : IBCInfo} {p : Packet} :
      r.ibcInfo = some info → p.sourcePort = info.sourcePort →
      p.sourceChannel = info.sourceChannel → p.data = res → Sends r res [.sendPacket p]

/-! ## The ledger and its steps -/

structure Ledger where
  requestCount : ℤ
  requestLastExpired : ℤ
  /-- The requests still to resolve at the end of the block. -/
  pending : List RequestID
  requests : Table RequestID Request
  reports : Table (RequestID ×ₗ ValAddress) Report
  results : Table RequestID Bytes
  /-- The oracle scripts that exist and whose code is on disk. -/
  ready : Set OracleScriptID
  trace : List Call

namespace Ledger

def reportCount (L : Ledger) (id : RequestID) : ℕ :=
  (Table.entriesWhere L.reports fun k => (ofLex k).1 == id).length

/-- What a report must meet to be stored for the request `r`. -/
structure Acceptable (L : Ledger) (rid : RequestID) (r : Request) (rep : Report) : Prop where
  requested : rep.validator ∈ r.requestedValidators
  fresh : L.reports[toLex (rid, rep.validator)]? = none
  nodup : (rep.rawReports.map RawReport.externalID).Nodup
  length : rep.rawReports.length = r.rawRequestIDs.length
  subset : ∀ x ∈ rep.rawReports, x.externalID ∈ r.rawRequestIDs

/-- The ledger after a result is saved. -/
def save (L : Ledger) (s : SaveRecord) : Ledger :=
  { L with
    results := L.results.insert s.id s.hash
    trace := L.trace ++ [.saveResult s, .event s.event] }

/-- The ledger after some calls are recorded. -/
def log (L : Ledger) (cs : List Call) : Ledger := { L with trace := L.trace ++ cs }

/-- The actions of the ledger. -/
inductive Act
  | quiet
  | request (p : PrepareRecord)
  | report (rid : RequestID) (rep : Report)
  | resolve (id : RequestID)
  | expire (id : RequestID)

/-- The actions that no message asks for. -/
def Act.Internal : Act → Prop
  | .request _ => False
  | .report _ _ => False
  | _ => True

/-- The steps of the ledger. -/
inductive Step : Ledger → Act → Ledger → Prop
  | quiet {L : Ledger} {ready : Set OracleScriptID} {cs : List Call} :
      L.ready ⊆ ready → (∀ c ∈ cs, c.IsQuiet) →
      Step L .quiet { L.log cs with ready := ready }
  | request {L : Ledger} {p : PrepareRecord} {r : Request} :
      p.id = L.requestCount + 1 → p.Describes r → r.oracleScriptID ∈ L.ready →
      (p.ibcInfo = none → p.spec.Bounded) →
      Step L (.request p)
        { L.log [.prepareRequest p] with
          requestCount := L.requestCount + 1
          requests := L.requests.insert (L.requestCount + 1) r }
  | report {L : Ledger} {rid : RequestID} {r : Request} {rep : Report} :
      L.requests[rid]? = some r → L.Acceptable rid r rep →
      -- not the report that makes the request resolvable
      L.reportCount rid + 1 ≠ r.minCount.toNat →
      Step L (.report rid rep)
        { L.log [.setReport rid rep.validator] with
          reports := L.reports.insert (toLex (rid, rep.validator)) rep }
  | reportLast {L : Ledger} {rid : RequestID} {r : Request} {rep : Report} :
      L.requests[rid]? = some r → L.Acceptable rid r rep →
      L.reportCount rid + 1 = r.minCount.toNat →
      Step L (.report rid rep)
        { L.log [.setReport rid rep.validator, .addPendingRequest rid] with
          reports := L.reports.insert (toLex (rid, rep.validator)) rep
          pending := L.pending ++ [rid] }
  | resolve {L : Ledger} {id : RequestID} {rest : List RequestID} {r : Request} {exitCode : ℤ}
      {retdata : Bytes} {time : ℤ} {cs : List Call} {s : SaveRecord} :
      L.pending = id :: rest → L.requests[id]? = some r →
      s = r.saveRecord id (L.reportCount id) time (outcome exitCode retdata).1
        (outcome exitCode retdata).2 →
      Sends r (r.response id (L.reportCount id) time s.status s.result) cs →
      Step L (.resolve id)
        { ((L.log [.execute id exitCode retdata]).save s).log cs with pending := rest }
  | expire {L : Ledger} {r : Request} {time : ℤ} {cs : List Call} {s : SaveRecord} :
      L.pending = [] → L.requests[L.requestLastExpired + 1]? = some r →
      L.requestLastExpired < L.requestCount →
      L.reportCount (L.requestLastExpired + 1) < r.minCount.toNat →
      s = r.saveRecord (L.requestLastExpired + 1) (L.reportCount (L.requestLastExpired + 1)) time
        .expired [] →
      Sends r (r.response (L.requestLastExpired + 1) (L.reportCount (L.requestLastExpired + 1))
        time s.status s.result) cs →
      Step L (.expire (L.requestLastExpired + 1))
        { ((L.log [.processExpired (L.requestLastExpired + 1)]).save s).log cs with
          requestLastExpired := L.requestLastExpired + 1 }
  | pass {L : Ledger} {r : Request} :
      L.pending = [] → L.requests[L.requestLastExpired + 1]? = some r →
      L.requestLastExpired < L.requestCount →
      ¬L.reportCount (L.requestLastExpired + 1) < r.minCount.toNat →
      Step L (.expire (L.requestLastExpired + 1))
        { L.log [.processExpired (L.requestLastExpired + 1)] with
          requestLastExpired := L.requestLastExpired + 1 }

/-! ## What each step does -/

variable {L L' : Ledger}

/-- What both kinds of report steps do. -/
lemma Step.of_report {rid : RequestID} {rep : Report} (hst : Step L (.report rid rep) L') :
    ∃ r, L.requests[rid]? = some r ∧ L.Acceptable rid r rep ∧ L'.requests = L.requests ∧
      L'.results = L.results ∧ L'.requestLastExpired = L.requestLastExpired ∧
      L'.reports = L.reports.insert (toLex (rid, rep.validator)) rep ∧
      (L.reportCount rid + 1 ≠ r.minCount.toNat ∧ L'.pending = L.pending ∧
          L'.trace = L.trace ++ [.setReport rid rep.validator] ∨
        L.reportCount rid + 1 = r.minCount.toNat ∧ L'.pending = L.pending ++ [rid] ∧
          L'.trace = L.trace ++ [.setReport rid rep.validator, .addPendingRequest rid]) := by
  cases hst with
  | report hr hacc hne => exact ⟨_, hr, hacc, rfl, rfl, rfl, rfl, .inl ⟨hne, rfl, rfl⟩⟩
  | reportLast hr hacc heq => exact ⟨_, hr, hacc, rfl, rfl, rfl, rfl, .inr ⟨heq, rfl, rfl⟩⟩

lemma Step.of_resolve {id : RequestID} (hst : Step L (.resolve id) L') :
    ∃ rest r exitCode retdata time cs s, L.pending = id :: rest ∧ L.requests[id]? = some r ∧
      s = r.saveRecord id (L.reportCount id) time (outcome exitCode retdata).1
        (outcome exitCode retdata).2 ∧
      Sends r (r.response id (L.reportCount id) time s.status s.result) cs ∧
      L'.requests = L.requests ∧ L'.reports = L.reports ∧
      L'.requestLastExpired = L.requestLastExpired ∧ L'.pending = rest ∧
      L'.results = L.results.insert id s.hash ∧
      L'.trace =
        L.trace ++ .execute id exitCode retdata :: .saveResult s :: .event s.event :: cs := by
  cases hst with
  | resolve hpd hr hs hsend =>
    refine ⟨_, _, _, _, _, _, _, hpd, hr, hs, hsend, rfl, rfl, rfl, rfl, ?_, ?_⟩
    · rw [hs]
      rfl
    · simp [log, save]

/-- An expired request gets a result if it has too few reports; in any case the cursor moves
on to it. -/
lemma Step.of_expire {id : RequestID} (hst : Step L (.expire id) L') :
    id = L.requestLastExpired + 1 ∧ L.pending = [] ∧ L.requestLastExpired < L.requestCount ∧
      L'.requestCount = L.requestCount ∧ L'.requests = L.requests ∧ L'.reports = L.reports ∧
      L'.pending = L.pending ∧ L'.requestLastExpired = id ∧
      ∃ r, L.requests[id]? = some r ∧
        ((∃ time cs s, L.reportCount id < r.minCount.toNat ∧
            s = r.saveRecord id (L.reportCount id) time .expired [] ∧
            Sends r (r.response id (L.reportCount id) time s.status s.result) cs ∧
            L'.results = L.results.insert id s.hash ∧
            L'.trace = L.trace ++ .processExpired id :: .saveResult s :: .event s.event :: cs) ∨
          r.minCount.toNat ≤ L.reportCount id ∧ L'.results = L.results ∧
            L'.trace = L.trace ++ [.processExpired id]) := by
  cases hst with
  | expire hpd hr hlt hcount hs hsend =>
    refine ⟨rfl, hpd, hlt, rfl, rfl, rfl, rfl, rfl, _, hr,
      .inl ⟨_, _, _, hcount, hs, hsend, ?_, ?_⟩⟩
    · rw [hs]
      rfl
    · simp [log, save]
  | pass hpd hr hlt hcount =>
    exact ⟨rfl, hpd, hlt, rfl, rfl, rfl, rfl, rfl, _, hr,
      .inr ⟨Nat.le_of_not_lt hcount, rfl, rfl⟩⟩

end Ledger

end Bandchain.Oracle
