import Bandchain.Lib.Run
import Bandchain.Oracled.Logs

/-!
# The handler of a request

The daemon of a validator answers a request that is addressed to it.  It reads the raw requests
from the log and starts a goroutine for each.  A goroutine fetches the executable of the data
source, runs it with the calldata and puts a raw report into a channel.  When the handler has
received as many raw reports as there are raw requests, it submits them in one message.  The node
that is asked for executables and the executor that runs them may answer every goroutine as they
like.
-/

namespace Bandchain.Oracled

open Oracle

/-! ## The surroundings -/

/-- A byte slice; it can be resliced up to its capacity. -/
structure Slice where
  bytes : Bytes
  cap : ℕ
  length_le : bytes.length ≤ cap

/-- What the daemon knows and what it asks.  The first argument of `query` and of `execute` is the
goroutine that asks. -/
structure Context where
  validator : ValAddress
  validator_length : validator.length = addrLen
  /-- The address of the key that signs. -/
  reporter : AccAddress
  reporter_length : reporter.length = addrLen
  /-- The text of an address. -/
  bech32 : Bytes → Bytes
  /-- The value in the response to a query for a file, if there is a response. -/
  query : ℕ → Bytes → Except String Slice
  /-- The output and the exit code of an executable run on some calldata. -/
  execute : ℕ → Bytes → Bytes → Bytes × UInt32

/-- How a function of the daemon fails. -/
inductive Stop
  | error (text : String)
  | panic
deriving DecidableEq

/-! ## The raw requests in a log -/

structure RawRequest where
  dataSourceID : DataSourceID
  dataSourceHash : Bytes
  externalID : ExternalID
  calldata : Bytes
deriving DecidableEq

/-- `strconv.Atoi`.  The text is that of the caller, without the reason that `strconv` gives. -/
def atoi (what : String) (value : Bytes) : Except Stop ℤ :=
  match Decimal.parseInt64 value with
  | none => .error (.error s!"Failed to parse {what}")
  | some n => .ok n

/-- The loop over the indices of the data sources. -/
def readRawRequests : List Bytes → List Bytes → List Bytes → List Bytes →
    Except Stop (List RawRequest)
  | dataSourceID :: dataSourceIDs, hashes, externalID :: externalIDs, calldata :: calldataList => do
    let did ← atoi "data source id" dataSourceID
    let eid ← atoi "external id" externalID
    match hashes with
    -- the number of hashes is not compared before
    | [] => .error .panic
    | hash :: hashes => do
      let reqs ← readRawRequests dataSourceIDs hashes externalIDs calldataList
      return ⟨did, hash, eid, calldata⟩ :: reqs
  | _, _, _, _ => .ok []

/-- All raw requests in the log. -/
def getRawRequests (log : ABCIMessageLog) : Except Stop (List RawRequest) :=
  let dataSourceIDs := getEventValues log "raw_request" "data_source_id"
  let dataSourceHashList := getEventValues log "raw_request" "data_source_hash"
  let externalIDs := getEventValues log "raw_request" "external_id"
  let calldataList := getEventValues log "raw_request" "calldata"
  if dataSourceIDs.length ≠ externalIDs.length then
    .error (.error "Inconsistent data source count and external ID count")
  else if dataSourceIDs.length ≠ calldataList.length then
    .error (.error "Inconsistent data source count and calldata count")
  else readRawRequests dataSourceIDs dataSourceHashList externalIDs calldataList

/-! ## The functions of the handler -/

/-- Fetch an executable.  The first 32 bytes of it are logged, at every log level. -/
def getExecutable (c : Context) (idx : ℕ) (hash : Bytes) : Except Stop Bytes :=
  match c.query idx hash with
  | .error e => .error (.error e)
  -- `resValue[:32]`
  | .ok resValue => if resValue.cap < 32 then .error .panic else .ok resValue.bytes

/-- The raw report if there is no executable. -/
def failToLoad (req : RawRequest) : RawReport :=
  ⟨req.externalID, 255, Bytes.ascii "FAIL_TO_LOAD_DATA_SOURCE"⟩

/-- The raw report with the result of an executable. -/
def executed (c : Context) (idx : ℕ) (req : RawRequest) (exec : Bytes) : RawReport :=
  ⟨req.externalID, (c.execute idx exec req.calldata).2, (c.execute idx exec req.calldata).1⟩

/-- The message with the reports, if it is valid.  What follows in `SubmitReport`, to sign it and
to broadcast it, belongs to other packages. -/
def submitReport (c : Context) (id : RequestID) (reps : List RawReport) : Option MsgReportData :=
  let msg : MsgReportData := ⟨id, reps, c.validator, c.reporter⟩
  match msg.validateBasic with
  | .error _ => none
  | .ok _ => some msg

/-! ## The system -/

/-- What a goroutine does next. -/
inductive Stage
  | load
  | execute (exec : Bytes)

structure Goroutine where
  idx : ℕ
  req : RawRequest
  stage : Stage

inductive Phase
  /-- So many raw reports are still to be received. -/
  | receiving (left : ℕ)
  | returned

structure State where
  requestID : RequestID
  /-- The number of raw reports that the channel takes. -/
  chanCap : ℕ
  /-- A goroutine has panicked, which ends the daemon. -/
  crashed : Bool
  running : List Goroutine
  reportsChan : List RawReport
  reports : List RawReport
  phase : Phase
  submitted : List MsgReportData

/-- The handler returns before it starts anything. -/
def State.skipped : State := ⟨0, 0, false, [], [], [], .returned, []⟩

/-- The handler has started a goroutine for every raw request. -/
def State.start (id : RequestID) (reqs : List RawRequest) : State where
  requestID := id
  chanCap := reqs.length
  crashed := false
  running := reqs.mapIdx fun idx req => ⟨idx, req, .load⟩
  reportsChan := []
  reports := []
  phase := .receiving reqs.length
  submitted := []

/-- `handleRequestLog` up to the loop that starts the goroutines. -/
def handleRequestLog (c : Context) (log : ABCIMessageLog) : State :=
  match getEventValue log "request" "id" with
  | .error _ => .skipped
  | .ok idStr =>
    match Decimal.parseInt64 idStr with
    | none => .skipped
    | some id =>
      if c.bech32 c.validator ∈ getEventValues log "request" "validator" then
        match getRawRequests log with
        | .error .panic => { State.skipped with crashed := true }
        -- the error is logged only
        | .error (.error _) => .start id []
        | .ok reqs => .start id reqs
      else .skipped

inductive Label
  | panic (idx : ℕ)
  | fail (idx : ℕ)
  | load (idx : ℕ)
  | execute (idx : ℕ)
  | receive
  | submit

/-- The steps of the goroutines and of the handler, as long as none has panicked. -/
inductive Step (c : Context) : State → Label → State → Prop
  | panic {s g before after} (hlive : s.crashed = false)
      (hrunning : s.running = before ++ g :: after) (hstage : g.stage = .load)
      (hexec : getExecutable c g.idx g.req.dataSourceHash = .error .panic) :
      Step c s (.panic g.idx) { s with crashed := true }
  | fail {s g before after e} (hlive : s.crashed = false)
      (hrunning : s.running = before ++ g :: after) (hstage : g.stage = .load)
      (hexec : getExecutable c g.idx g.req.dataSourceHash = .error (.error e))
      (hroom : s.reportsChan.length < s.chanCap) :
      Step c s (.fail g.idx)
        { s with running := before ++ after, reportsChan := s.reportsChan ++ [failToLoad g.req] }
  | load {s g before after exec} (hlive : s.crashed = false)
      (hrunning : s.running = before ++ g :: after) (hstage : g.stage = .load)
      (hexec : getExecutable c g.idx g.req.dataSourceHash = .ok exec) :
      Step c s (.load g.idx)
        { s with running := before ++ { g with stage := .execute exec } :: after }
  | execute {s g before after exec} (hlive : s.crashed = false)
      (hrunning : s.running = before ++ g :: after) (hstage : g.stage = .execute exec)
      (hroom : s.reportsChan.length < s.chanCap) :
      Step c s (.execute g.idx)
        { s with
          running := before ++ after
          reportsChan := s.reportsChan ++ [executed c g.idx g.req exec] }
  | receive {s left rep reps} (hlive : s.crashed = false) (hphase : s.phase = .receiving (left + 1))
      (hchan : s.reportsChan = rep :: reps) :
      Step c s .receive
        { s with phase := .receiving left, reportsChan := reps, reports := s.reports ++ [rep] }
  | submit {s} (hlive : s.crashed = false) (hphase : s.phase = .receiving 0) :
      Step c s .submit
        { s with
          phase := .returned
          submitted := s.submitted ++ (submitReport c s.requestID s.reports).toList }

end Bandchain.Oracled
