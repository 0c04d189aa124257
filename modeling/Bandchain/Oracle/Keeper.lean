import Bandchain.Bandrng.Sampling
import Bandchain.Oracle.Packets
import Bandchain.Oracle.World

/-!
# The keeper

The operations of `x/oracle/keeper`, in the order in which a request meets them: the sampling
of its validators and its preparation, the reports, the saving of its result, its resolution
and its expiry.  Gas is not counted: running out of gas is one more way for a transaction to
be rolled back.
-/

namespace Bandchain.Oracle

open Exec

/-! ## Files -/

/-- Save a file, unless it is the do-not-modify marker, and return its name. -/
def addFile (file : Bytes) : OracleM Bytes := do
  if file = doNotModify then
    return doNotModify
  else
    modify fun w => { w with files := w.files.addFile file }
    return getFilename file

def getFile (name : Bytes) : OracleM Bytes := do
  let w ← get
  valueOf (w.files.mustGetFile name)

/-! ## Data sources and oracle scripts -/

/-- The new value, unless it is the do-not-modify marker. -/
def modifyVal (oldVal newVal : Bytes) : Bytes := if newVal = doNotModify then oldVal else newVal

def Store.addDataSource (s : Store) (d : DataSource) : Store :=
  { s with
    dataSourceCount := some (s.getDataSourceCount + 1)
    dataSources := s.dataSources.insert (s.getDataSourceCount + 1) d }

def Store.addOracleScript (s : Store) (o : OracleScript) : Store :=
  { s with
    oracleScriptCount := some (s.getOracleScriptCount + 1)
    oracleScripts := s.oracleScripts.insert (s.getOracleScriptCount + 1) o }

def mustEditDataSource (id : DataSourceID) (new : DataSource) : OracleM Unit := do
  let d ← readStore (·.mustGetDataSource id)
  modifyStore fun s => { s with
    dataSources := s.dataSources.insert id
      { owner := new.owner
        name := modifyVal d.name new.name
        description := modifyVal d.description new.description
        filename := modifyVal d.filename new.filename } }

def mustEditOracleScript (id : OracleScriptID) (new : OracleScript) : OracleM Unit := do
  let o ← readStore (·.mustGetOracleScript id)
  modifyStore fun s => { s with
    oracleScripts := s.oracleScripts.insert id
      { owner := new.owner
        name := modifyVal o.name new.name
        description := modifyVal o.description new.description
        filename := modifyVal o.filename new.filename
        schema := modifyVal o.schema new.schema
        sourceCodeURL := modifyVal o.sourceCodeURL new.sourceCodeURL } }

/-! ## Reporters -/

def addReporter (val : ValAddress) (addr : AccAddress) : OracleM Unit := do
  let w ← get
  failIf (w.store.isReporter val addr = true) (.reporterAlreadyExists val addr)
  modifyStore fun s => { s with reporters := s.reporters.insert (toLex (val, addr)) () }

def removeReporter (val : ValAddress) (addr : AccAddress) : OracleM Unit := do
  let w ← get
  failIf (w.store.isReporter val addr = false) (.reporterNotFound val addr)
  modifyStore fun s => { s with reporters := s.reporters.erase (toLex (val, addr)) }

/-! ## Requests -/

/-- Decimal text, as printed by `%d`. -/
def decimal (n : ℤ) : Bytes := Bytes.ascii (toString n)

/-- `validators[i] = valOperators[idx]` for each lucky index, in a fresh slice of `size`. -/
def fillValidators (operators : List ValAddress) (size : ℕ) (luckies : List ℕ) :
    Except Err (List ValAddress) :=
  if luckies.length > size ∨ ∃ idx ∈ luckies, idx ≥ operators.length then
    .error (.panic "index out of range")
  else
    .ok (luckies.map (fun idx => operators.getD idx []) ++
      List.replicate (size - luckies.length) [])

def getRandomValidators (size nextReqID : ℤ) : OracleM (List ValAddress) := do
  let w ← get
  let operators := w.staking.bonded.map Validator.operator
  failIf (∃ v ∈ w.staking.bonded, v.tokens ≥ 2 ^ 64) (.panic "Uint64() out of bounds")
  let powers := w.staking.bonded.map fun v => UInt64.ofNat v.tokens
  failIf ((operators.length : ℤ) < size) (.insufficientValidators operators.length size)
  let seed := Bytes.hex w.header.lastBlockHash ++ Bytes.ascii ":" ++
    decimal w.header.nanosecond ++ Bytes.ascii ":" ++ decimal nextReqID
  let luckies ← valueOf ((Bandrng.chooseK (Bandrng.newRng seed) powers size).mapError Err.panic)
  failIf (size < 0) (.panic "makeslice: len out of range")
  valueOf (fillValidators operators size.toNat luckies)

/-- Store a new request under the next identifier. -/
def Store.addRequest (s : Store) (req : Request) : Store :=
  { s with
    requestCount := some (s.getRequestCount + 1)
    requests := s.requests.insert (s.getRequestCount + 1) req }

/-- The event that describes a new request. -/
def requestEvent (id : RequestID) (validators : List ValAddress) : Event where
  type := "request"
  attributes := ("id", .dec id) :: validators.map fun val => ("validator", .addr val)

/-- The event that describes one raw request. -/
def rawRequestEvent (ds : DataSource) (r : RawRequest) : Event where
  type := "raw_request"
  attributes := [("data_source_id", .dec r.dataSourceID), ("data_source_hash", .text ds.filename),
    ("external_id", .dec r.externalID), ("calldata", .text r.calldata)]

def prepareRequest (k : Keeper) (r : RequestSpec) (ibcInfo : Option IBCInfo) : OracleM Unit := do
  let w ← get
  let askCount := r.askCount
  failIf (askCount > w.store.params.maxAskCount)
    (.invalidAskCount askCount "max" w.store.params.maxAskCount)
  let validators ← getRandomValidators (toInt64 askCount.toNat) (w.store.getRequestCount + 1)
  let req := newRequest r.oracleScriptID r.calldata validators r.minCount w.header.height
    w.header.time r.clientID ibcInfo []
  let env := newExecEnv req w.header.time (toInt64 w.store.params.maxRawRequestCount.toNat)
  let script ← readStore (·.getOracleScript req.oracleScriptID)
  let code ← getFile script.filename
  let run := k.owasm.run code true env
  failIf (run.2 ≠ 0) .badWasmExecution
  let rawRequests ← valueOf run.1.getRawRequests
  let req := { req with rawRequestIDs := rawRequests.map RawRequest.externalID }
  let id := w.store.getRequestCount + 1
  modifyStore (·.addRequest req)
  record (.prepareRequest ⟨id, r, ibcInfo, w.store.params.maxRawRequestCount,
    (k.owasm code true env).1, w.header.time⟩)
  record (.event (requestEvent id req.requestedValidators))
  forM rawRequests fun rawReq => do
    let ds ← readStore (·.getDataSource rawReq.dataSourceID)
    record (.event (rawRequestEvent ds rawReq))

/-! ## Reports -/

def containsVal (vals : List ValAddress) (target : ValAddress) : Bool := vals.any (· == target)

def containsEID (ids : List ExternalID) (target : ExternalID) : Bool := ids.any (· == target)

def setReport (rid : RequestID) (rep : Report) : OracleM Unit := do
  modifyStore fun s => { s with reports := s.reports.insert (toLex (rid, rep.validator)) rep }
  record (.setReport rid rep.validator)

def addReport (rid : RequestID) (rep : Report) : OracleM Unit := do
  let req ← readStore (·.getRequest rid)
  let w ← get
  failIf (containsVal req.requestedValidators rep.validator = false)
    (.validatorNotRequested rid rep.validator)
  failIf (w.store.hasReport rid rep.validator = true) (.validatorAlreadyReported rid rep.validator)
  failIf (rep.rawReports.length ≠ req.rawRequestIDs.length) .invalidDataSourceCount
  -- external IDs are unique here: ValidateBasic has checked it
  forM rep.rawReports fun r =>
    failIf (containsEID req.rawRequestIDs r.externalID = false)
      (.rawRequestNotFound rid r.externalID)
  setReport rid rep

/-- Append to the pending list, without looking whether the request is already there. -/
def addPendingRequest (id : RequestID) : OracleM Unit := do
  modifyStore fun s => { s with pendingResolveList := some (s.getPendingResolveList ++ [id]) }
  record (.addPendingRequest id)

/-! ## Results -/

/-- The event emitted when a result is saved. -/
def requestExecuteEvent (req : OracleRequestPacketData) (res : OracleResponsePacketData)
    (resultHash : Bytes) : Event where
  type := "request_execute"
  attributes := [("client_id", .text req.clientID), ("oracle_script_id", .dec req.oracleScriptID),
    ("calldata", .text req.calldata), ("ask_count", .dec req.askCount.toNat),
    ("min_count", .dec req.minCount.toNat), ("request_id", .dec res.requestID),
    ("resolve_status", .dec res.resolveStatus.toNat), ("ans_count", .dec res.ansCount.toNat),
    ("request_time", .dec res.requestTime), ("resolve_time", .dec res.resolveTime),
    ("result", .text res.result), ("result_hash", .hex resultHash)]

/-- The request packet that `SaveResult` rebuilds from a stored request. -/
def Request.savedPacket (r : Request) : OracleRequestPacketData :=
  newOracleRequestPacketData r.clientID r.oracleScriptID r.calldata r.minCount
    (UInt64.ofNat r.requestedValidators.length)

def saveResult (id : RequestID) (status : ResolveStatus) (result : Bytes) :
    OracleM OracleResponsePacketData := do
  let r ← readStore (·.mustGetRequest id)
  let w ← get
  let req := r.savedPacket
  let res := newOracleResponsePacketData r.clientID id
    (UInt64.ofNat (w.store.getReportCount id)) r.requestTime w.header.time status result
  let resultHash := calculateResultHash req res
  modifyStore fun s => { s with results := s.results.insert id resultHash }
  record (.saveResult ⟨id, status, result, w.store.getReportCount id, w.header.time, resultHash,
    requestExecuteEvent req res resultHash⟩)
  record (.event (requestExecuteEvent req res resultHash))
  return res

/-- Ten minutes, in nanoseconds. -/
def defaultPacketTimeoutTimestampDuration : ℕ := 600 * 1000000000

/-- Send a response through the channel of a request; every failure is only logged. -/
def sendOracleResponse (k : Keeper) (portID channelID : Bytes) (res : OracleResponsePacketData) :
    OracleM Unit := do
  let w ← get
  match w.channels.getChannel portID channelID with
  | none => return ()
  | some ch =>
    match w.channels.getNextSequenceSend portID channelID with
    | none => return ()
    | some seq =>
      if w.channels.hasCapability portID channelID = false then return ()
      else
        let unixNano := w.header.time * 1000000000 + w.header.nanosecond
        let packet : Packet :=
          { data := res, sequence := seq, sourcePort := portID, sourceChannel := channelID
            destPort := ch.counterpartyPort, destChannel := ch.counterpartyChannel
            timeoutHeight := 0
            timeoutTimestamp :=
              (unixNano + defaultPacketTimeoutTimestampDuration).toNat % 2 ^ 64 }
        match k.sendPacket w.channels packet with
        | none => return ()
        | some channels =>
          modify fun w => { w with channels := channels }
          record (.sendPacket packet)

/-- The response goes out only for a request that came through IBC. -/
def respond (k : Keeper) (ibcInfo : Option IBCInfo) (res : OracleResponsePacketData) :
    OracleM Unit :=
  match ibcInfo with
  | none => return ()
  | some info => sendOracleResponse k info.sourcePort info.sourceChannel res

def resolveRequest (k : Keeper) (reqID : RequestID) : OracleM Unit := do
  let req ← readStore (·.mustGetRequest reqID)
  let w ← get
  let env ← valueOf ((newExecEnv req w.header.time 0).setReports (w.store.getReports reqID))
  let script ← readStore (·.mustGetOracleScript req.oracleScriptID)
  let code ← getFile script.filename
  let run := k.owasm.run code false env
  record (.execute reqID run.2 run.1.retdata)
  let res ← if run.2 ≠ 0 then saveResult reqID .failure []
    else saveResult reqID .success run.1.retdata
  respond k req.ibcInfo res

/-! ## Expiry -/

def setValidatorReportInfo (val : ValAddress) (info : ValidatorReportInfo) : OracleM Unit :=
  modifyStore fun s => { s with reportInfos := s.reportInfos.insert val info }

def handleValidatorReport (k : Keeper) (val : ValAddress) (reported : Bool) : OracleM Unit := do
  record (.handleValidatorReport val reported)
  let w ← get
  let info := w.store.getValidatorReportInfoWithDefault val
  record (.stakingValidator val ((w.staking.validator val).map Validator.status))
  match w.staking.validator val with
  | none => setValidatorReportInfo val { info with consecutiveMissed := 0 }
  | some validator =>
    if validator.jailed then setValidatorReportInfo val { info with consecutiveMissed := 0 }
    else
      let missed := if reported then 0 else info.consecutiveMissed + 1
      if missed > w.store.params.maxConsecutiveMisses then
        emitEvent "slash" [("jailed", .addr validator.consAddr)]
        modify fun w => { w with staking := k.jail w.staking validator.consAddr }
        record (.jail validator.consAddr)
        setValidatorReportInfo val { info with consecutiveMissed := 0 }
      else setValidatorReportInfo val { info with consecutiveMissed := missed }

def updateReportInfos (k : Keeper) (rid : RequestID) : OracleM Unit := do
  let w ← get
  let reported := (w.store.getReports rid).map Report.validator
  let request ← readStore (·.mustGetRequest rid)
  forM request.requestedValidators fun val => handleValidatorReport k val (reported.contains val)

/-- Whether a request made at `requestHeight` is still open at `height`, with the wrap-around
of 64-bit addition. -/
def notExpired (requestHeight expirationBlockCount height : ℤ) : Bool :=
  toInt64 (requestHeight + expirationBlockCount) > height

/-- The part of the loop of `ProcessExpiredRequests` that handles one expired request. -/
def expireRequest (k : Keeper) (id : RequestID) (req : Request) : OracleM Unit := do
  let w ← get
  record (.processExpired id)
  if w.store.getReportCount id < req.minCount.toNat then
    let res ← saveResult id .expired []
    respond k req.ibcInfo res
  updateReportInfos k id
  modifyStore fun s => { s with requestLastExpired := some id }

/-- The loop of `ProcessExpiredRequests`: at most `n` more requests, starting at `id`. -/
def processExpiredLoop (k : Keeper) (expirationBlockCount : ℤ) : ℕ → RequestID → OracleM Unit
  | 0, _ => return ()
  | n + 1, id => do
    let req ← readStore (·.mustGetRequest id)
    let w ← get
    if notExpired req.requestHeight expirationBlockCount w.header.height then
      return ()
    else
      expireRequest k id req
      processExpiredLoop k expirationBlockCount n (id + 1)

def processExpiredRequests (k : Keeper) : OracleM Unit := do
  let w ← get
  let currentReqID := w.store.getRequestLastExpired + 1
  let lastReqID := w.store.getRequestCount
  processExpiredLoop k (toInt64 w.store.params.expirationBlockCount.toNat)
    (lastReqID + 1 - currentReqID).toNat currentReqID

end Bandchain.Oracle
