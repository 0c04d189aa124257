import Bandchain.Oracle.Keeper

/-!
# Handlers and the end of a block

The handlers of the eight messages, the receipt of an IBC packet, and the work done at the
end of every block.  A handler that fails leaves the state as it is at that point; rolling
it back is the work of the caller.
-/

namespace Bandchain.Oracle

open Exec

/-! ## Compressed files -/

/-- Whether a file starts with the gzip magic bytes; panics on fewer than three bytes. -/
def isGzipped (src : Bytes) : Except Err Bool :=
  if src.length < 3 then .error (.panic "slice bounds out of range")
  else .ok (src.take 3 = [0x1F, 0x8B, 0x08])

def uncompress (k : Keeper) (src : Bytes) (maxSize : ℕ) : Except Err Bytes :=
  match k.gunzip src with
  | none => .error .uncompressionFailed
  | some data => if data.length > maxSize then .error .uncompressionFailed else .ok data

/-- The file that a message carries, decompressed if it is compressed. -/
def plainFile (k : Keeper) (file : Bytes) (maxSize : ℕ) : OracleM Bytes := do
  let gz ← valueOf (isGzipped file)
  if gz then valueOf (uncompress k file maxSize) else return file

/-! ## Messages -/

def handleMsgCreateDataSource (k : Keeper) (m : MsgCreateDataSource) : OracleM Unit := do
  let executable ← plainFile k m.executable maxExecutableSize
  let filename ← addFile executable
  modifyStore (·.addDataSource ⟨m.owner, m.name, m.description, filename⟩)
  let w ← get
  emitEvent "create_data_source" [("id", .dec w.store.getDataSourceCount)]

def handleMsgEditDataSource (k : Keeper) (m : MsgEditDataSource) : OracleM Unit := do
  let dataSource ← readStore (·.getDataSource m.dataSourceID)
  failIf (dataSource.owner ≠ m.sender) .editorNotAuthorized
  let executable ← plainFile k m.executable maxExecutableSize
  let filename ← addFile executable
  mustEditDataSource m.dataSourceID ⟨m.owner, m.name, m.description, filename⟩
  emitEvent "edit_data_source" [("id", .dec m.dataSourceID)]

def handleMsgCreateOracleScript (k : Keeper) (m : MsgCreateOracleScript) : OracleM Unit := do
  let code ← plainFile k m.code maxWasmCodeSize
  let filename ← addFile code
  modifyStore (·.addOracleScript
    ⟨m.owner, m.name, m.description, filename, m.schema, m.sourceCodeURL⟩)
  let w ← get
  emitEvent "create_oracle_script" [("id", .dec w.store.getOracleScriptCount)]

def handleMsgEditOracleScript (k : Keeper) (m : MsgEditOracleScript) : OracleM Unit := do
  let oracleScript ← readStore (·.getOracleScript m.oracleScriptID)
  failIf (oracleScript.owner ≠ m.sender) .editorNotAuthorized
  let code ← plainFile k m.code maxWasmCodeSize
  let filename ← addFile code
  mustEditOracleScript m.oracleScriptID
    ⟨m.owner, m.name, m.description, filename, m.schema, m.sourceCodeURL⟩
  emitEvent "edit_oracle_script" [("id", .dec m.oracleScriptID)]

def handleMsgRequestData (k : Keeper) (m : MsgRequestData) : OracleM Unit :=
  prepareRequest k m.toSpec none

def handleMsgReportData (m : MsgReportData) : OracleM Unit := do
  let w ← get
  failIf (w.store.isReporter m.validator m.reporter = false) .reporterNotAuthorized
  addReport m.requestID ⟨m.validator, !w.store.hasResult m.requestID, m.rawReports⟩
  let req ← readStore (·.mustGetRequest m.requestID)
  let w ← get
  if w.store.getReportCount m.requestID = req.minCount.toNat then
    -- this can happen at most one time for any request
    addPendingRequest m.requestID
  emitEvent "report" [("request_id", .dec m.requestID), ("validator", .addr m.validator)]

def handleMsgAddReporter (m : MsgAddReporter) : OracleM Unit := do
  addReporter m.validator m.reporter
  emitEvent "add_reporter" [("validator", .addr m.validator), ("reporter", .addr m.reporter)]

def handleMsgRemoveReporter (m : MsgRemoveReporter) : OracleM Unit := do
  removeReporter m.validator m.reporter
  emitEvent "remove_reporter" [("validator", .addr m.validator), ("reporter", .addr m.reporter)]

/-! ## IBC -/

/-- An incoming packet, as far as the oracle module reads it. -/
structure RecvPacket where
  data : Bytes
  destPort : Bytes
  destChannel : Bytes
deriving DecidableEq, Repr

def onRecvPacket (k : Keeper) (packet : RecvPacket) : OracleM Unit :=
  match k.unmarshalJSON packet.data with
  | none => throw .unknownRequest
  | some req => prepareRequest k req.toSpec (some ⟨packet.destPort, packet.destChannel⟩)

/-! ## The end of a block -/

def handleEndBlock (k : Keeper) : OracleM Unit := do
  let w ← get
  forM w.store.getPendingResolveList fun reqID => resolveRequest k reqID
  modifyStore fun s => { s with pendingResolveList := some [] }
  processExpiredRequests k

end Bandchain.Oracle
