import Bandchain.Lib.Exec
import Bandchain.Lib.Sha256
import Bandchain.Lib.Table
import Bandchain.Oracle.ExecEnv
import Bandchain.Oracle.Msgs

/-!
# The state of the oracle module

The module keeps its data in a key-value store with one family of keys for each kind of
data; a family is modelled as a table keyed by the arguments of its key constructor.  Files
live outside the store, in a cache that transactions never roll back.  The staking and
channel modules are seen through the functions that the oracle keeper calls.

The state also carries a trace of the calls made so far.  No function reads it; it is there
to state what happens over a whole run.
-/

namespace Bandchain.Oracle

/-! ## Collaborators -/

/-- A validator of the staking module. -/
structure Validator where
  operator : ValAddress
  consAddr : Bytes
  tokens : ℕ
  jailed : Bool
  operator_length : operator.length = addrLen

/-- The consensus address of a validator, and whether it is jailed. -/
def Validator.status (v : Validator) : Bytes × Bool := (v.consAddr, v.jailed)

/-- What the oracle keeper sees of the staking module. -/
structure Staking where
  /-- The bonded validators, in the order of `IterateBondedValidatorsByPower`. -/
  bonded : List Validator
  validator : ValAddress → Option Validator

/-- The other end of a channel. -/
structure Channel where
  counterpartyPort : Bytes
  counterpartyChannel : Bytes

/-- What the oracle keeper sees of the channel and capability modules. -/
structure Channels where
  getChannel : Bytes → Bytes → Option Channel
  getNextSequenceSend : Bytes → Bytes → Option ℕ
  hasCapability : Bytes → Bytes → Bool

/-- An outgoing IBC packet that carries an oracle response. -/
structure Packet where
  data : OracleResponsePacketData
  sequence : ℕ
  sourcePort : Bytes
  sourceChannel : Bytes
  destPort : Bytes
  destChannel : Bytes
  timeoutHeight : ℕ
  timeoutTimestamp : ℕ
deriving DecidableEq

/-- The parts of the keeper that are not code of this repository. -/
structure Keeper where
  /-- The Wasm machine. -/
  owasm : Owasm
  /-- Decompression of a gzip stream, if it is a valid one. -/
  gunzip : Bytes → Option Bytes
  /-- Decoding of the data of a request packet. -/
  unmarshalJSON : Bytes → Option OracleRequestPacketData
  /-- `ChannelKeeper.SendPacket`: the channels after sending, or an error. -/
  sendPacket : Channels → Packet → Option Channels
  /-- `StakingKeeper.Jail`. -/
  jail : Staking → Bytes → Staking

/-! ## The file cache -/

/-- The name of a file: the hexadecimal digest of its content. -/
def getFilename (data : Bytes) : Bytes := Bytes.hex (sha256 data)

/-- The file cache: every file is stored under its own name. -/
structure FileCache where
  files : Table Bytes Bytes
  consistent : ∀ name data, files[name]? = some data → getFilename data = name

namespace FileCache

/-- A cache with no files. -/
def empty : FileCache where
  files := ∅
  consistent := by simp

/-- Save the data under its name, unless a file of that name is already there. -/
def addFile (c : FileCache) (data : Bytes) : FileCache :=
  if c.files.contains (getFilename data) then c
  else
    { files := c.files.insert (getFilename data) data
      consistent := by
        intro name data' h
        by_cases hn : getFilename data = name
        · subst hn
          rw [Table.getElem?_insert_self] at h
          rw [Option.some.inj h]
        · rw [Table.getElem?_insert_ne _ _ hn] at h
          exact c.consistent name data' h }

/-- Load a file; panics if it is not there or fails the integrity check. -/
def mustGetFile (c : FileCache) (name : Bytes) : Except Err Bytes :=
  match c.files[name]? with
  | none => .error (.panic "file not found")
  | some data =>
    if getFilename data ≠ name then .error (.panic "Inconsistent filecache content")
    else .ok data

/-- A name under which some file is cached. -/
def Has (c : FileCache) (name : Bytes) : Prop := ∃ data, c.files[name]? = some data

/-- The cache keeps the files it has. -/
def Le (c d : FileCache) : Prop := ∀ name, c.Has name → d.Has name

lemma mustGetFile_eq_ok {c : FileCache} {name data : Bytes} :
    c.mustGetFile name = .ok data ↔ c.files[name]? = some data := by
  unfold mustGetFile
  cases h : c.files[name]? with
  | none => simp
  | some d => simp [c.consistent name d h]

lemma has_addFile (c : FileCache) (data : Bytes) : (c.addFile data).Has (getFilename data) := by
  unfold addFile
  split_ifs with h
  · rw [Std.ExtTreeMap.contains_eq_isSome_getElem?] at h
    obtain ⟨d, hd⟩ := Option.isSome_iff_exists.mp h
    exact ⟨d, hd⟩
  · exact ⟨data, Table.getElem?_insert_self _ _ _⟩

lemma le_refl (c : FileCache) : c.Le c := fun _ h => h

lemma Le.trans {c d e : FileCache} (h₁ : c.Le d) (h₂ : d.Le e) : c.Le e :=
  fun name h => h₂ name (h₁ name h)

lemma le_addFile (c : FileCache) (data : Bytes) : c.Le (c.addFile data) := by
  intro name h
  by_cases hn : getFilename data = name
  · subst hn
    exact has_addFile c data
  · unfold addFile
    split_ifs with hc
    · exact h
    · obtain ⟨d, hd⟩ := h
      exact ⟨d, by rw [Table.getElem?_insert_ne _ _ hn]; exact hd⟩

end FileCache

/-! ## The store -/

instance : Std.TransOrd (RequestID ×ₗ ValAddress) := inferInstance

instance : Std.TransOrd (ValAddress ×ₗ AccAddress) := inferInstance

/-- The oracle store, one field for each key or family of keys, and the parameters. -/
structure Store where
  requestCount : Option ℤ
  requestLastExpired : Option ℤ
  pendingResolveList : Option (List RequestID)
  dataSourceCount : Option ℤ
  oracleScriptCount : Option ℤ
  requests : Table RequestID Request
  reports : Table (RequestID ×ₗ ValAddress) Report
  dataSources : Table DataSourceID DataSource
  oracleScripts : Table OracleScriptID OracleScript
  reporters : Table (ValAddress ×ₗ AccAddress) Unit
  reportInfos : Table ValAddress ValidatorReportInfo
  results : Table RequestID Bytes
  params : Params

namespace Store

/-- The store before genesis. -/
def empty : Store where
  requestCount := none
  requestLastExpired := none
  pendingResolveList := none
  dataSourceCount := none
  oracleScriptCount := none
  requests := ∅
  reports := ∅
  dataSources := ∅
  oracleScripts := ∅
  reporters := ∅
  reportInfos := ∅
  results := ∅
  params := defaultParams

def getRequestCount (s : Store) : ℤ := s.requestCount.getD 0

def getRequestLastExpired (s : Store) : ℤ := s.requestLastExpired.getD 0

def getDataSourceCount (s : Store) : ℤ := s.dataSourceCount.getD 0

def getOracleScriptCount (s : Store) : ℤ := s.oracleScriptCount.getD 0

def getPendingResolveList (s : Store) : List RequestID := s.pendingResolveList.getD []

def getRequest (s : Store) (id : RequestID) : Except Err Request :=
  match s.requests[id]? with
  | none => .error (.requestNotFound id)
  | some r => .ok r

def mustGetRequest (s : Store) (id : RequestID) : Except Err Request :=
  match s.getRequest id with
  | .error _ => .error (.panic "request not found")
  | .ok r => .ok r

def getDataSource (s : Store) (id : DataSourceID) : Except Err DataSource :=
  match s.dataSources[id]? with
  | none => .error (.dataSourceNotFound id)
  | some d => .ok d

def mustGetDataSource (s : Store) (id : DataSourceID) : Except Err DataSource :=
  match s.getDataSource id with
  | .error _ => .error (.panic "data source not found")
  | .ok d => .ok d

def getOracleScript (s : Store) (id : OracleScriptID) : Except Err OracleScript :=
  match s.oracleScripts[id]? with
  | none => .error (.oracleScriptNotFound id)
  | some o => .ok o

def mustGetOracleScript (s : Store) (id : OracleScriptID) : Except Err OracleScript :=
  match s.getOracleScript id with
  | .error _ => .error (.panic "oracle script not found")
  | .ok o => .ok o

def hasReport (s : Store) (rid : RequestID) (val : ValAddress) : Bool :=
  s.reports.contains (toLex (rid, val))

/-- The iterator over the reports of a request. -/
def getReportIterator (s : Store) (rid : RequestID) :
    List ((RequestID ×ₗ ValAddress) × Report) :=
  Table.entriesWhere s.reports fun k => (ofLex k).1 == rid

def getReportCount (s : Store) (rid : RequestID) : ℕ := (s.getReportIterator rid).length

def getReports (s : Store) (rid : RequestID) : List Report := (s.getReportIterator rid).map Prod.snd

def hasResult (s : Store) (id : RequestID) : Bool := s.results.contains id

def getResult (s : Store) (id : RequestID) : Except Err Bytes :=
  match s.results[id]? with
  | none => .error (.resultNotFound id)
  | some result => .ok result

/-- A validator always reports for himself. -/
def isReporter (s : Store) (val : ValAddress) (addr : AccAddress) : Bool :=
  val == addr || s.reporters.contains (toLex (val, addr))

def getValidatorReportInfoWithDefault (s : Store) (val : ValAddress) : ValidatorReportInfo :=
  match s.reportInfos[val]? with
  | none => ⟨val, 0⟩
  | some info => info

section Lemmas

variable {s : Store}

lemma getRequest_eq_ok {id : RequestID} {r : Request} :
    s.getRequest id = .ok r ↔ s.requests[id]? = some r := by
  unfold getRequest
  cases s.requests[id]? <;> simp

lemma mustGetRequest_eq_ok {id : RequestID} {r : Request} :
    s.mustGetRequest id = .ok r ↔ s.requests[id]? = some r := by
  rw [← getRequest_eq_ok, mustGetRequest]
  cases s.getRequest id <;> simp

lemma getDataSource_eq_ok {id : DataSourceID} {d : DataSource} :
    s.getDataSource id = .ok d ↔ s.dataSources[id]? = some d := by
  unfold getDataSource
  cases s.dataSources[id]? <;> simp

lemma mustGetDataSource_eq_ok {id : DataSourceID} {d : DataSource} :
    s.mustGetDataSource id = .ok d ↔ s.dataSources[id]? = some d := by
  rw [← getDataSource_eq_ok, mustGetDataSource]
  cases s.getDataSource id <;> simp

lemma getOracleScript_eq_ok {id : OracleScriptID} {o : OracleScript} :
    s.getOracleScript id = .ok o ↔ s.oracleScripts[id]? = some o := by
  unfold getOracleScript
  cases s.oracleScripts[id]? <;> simp

lemma mustGetOracleScript_eq_ok {id : OracleScriptID} {o : OracleScript} :
    s.mustGetOracleScript id = .ok o ↔ s.oracleScripts[id]? = some o := by
  rw [← getOracleScript_eq_ok, mustGetOracleScript]
  cases s.getOracleScript id <;> simp

end Lemmas

end Store

/-! ## The trace -/

/-- The acceptance of a request: the identifier it got, what the requester sent, the limit on
raw requests in force, and what the script did while preparing. -/
structure PrepareRecord where
  id : RequestID
  spec : RequestSpec
  ibcInfo : Option IBCInfo
  maxRawRequestCount : UInt64
  calls : List HostCall
  blockTime : ℤ
deriving DecidableEq

/-- One execution of `SaveResult`: its arguments, the number of reports stored and the block
time at that moment, the hash it stores and the event it emits. -/
structure SaveRecord where
  id : RequestID
  status : ResolveStatus
  result : Bytes
  reportCount : ℕ
  blockTime : ℤ
  hash : Bytes
  event : Event
deriving DecidableEq

/-- The calls recorded in the trace. -/
inductive Call
  | event (e : Event)
  | prepareRequest (r : PrepareRecord)
  | setReport (rid : RequestID) (val : ValAddress)
  | addPendingRequest (id : RequestID)
  | execute (id : RequestID) (exitCode : ℤ) (retdata : Bytes)
  | saveResult (r : SaveRecord)
  | sendPacket (p : Packet)
  | processExpired (id : RequestID)
  | handleValidatorReport (val : ValAddress) (reported : Bool)
  /-- A lookup of a validator: its consensus address and whether it is jailed, if there is one. -/
  | stakingValidator (val : ValAddress) (found : Option (Bytes × Bool))
  | jail (consAddr : Bytes)
deriving DecidableEq

/-! ## The world and its programs -/

/-- The header of the current block. -/
structure Header where
  height : ℤ
  /-- The block time, in seconds. -/
  time : ℤ
  /-- The rest of the block time, in nanoseconds. -/
  nanosecond : ℕ
  lastBlockHash : Bytes

/-- Everything that the oracle module reads or writes. -/
structure World where
  header : Header
  store : Store
  files : FileCache
  staking : Staking
  channels : Channels
  trace : List Call

/-- Programs over the world. -/
abbrev OracleM : Type → Type := EStateM Err World

/-- Change the store. -/
def modifyStore (f : Store → Store) : OracleM Unit := modify fun w => { w with store := f w.store }

/-- Record a call. -/
def record (c : Call) : OracleM Unit := modify fun w => { w with trace := w.trace ++ [c] }

/-- `EmitEvent`. -/
def emitEvent (type : String) (attributes : List (String × AttrValue)) : OracleM Unit :=
  record (.event ⟨type, attributes⟩)

/-- Read the store with a function that may fail. -/
def readStore {α : Type} (f : Store → Except Err α) : OracleM α := do
  let w ← get
  Exec.valueOf (f w.store)

lemma run_modifyStore_bind {β : Type} {g : Store → Store} {f : Unit → OracleM β} {w : World} :
    (modifyStore g >>= f).run w = (f ()).run { w with store := g w.store } := (rfl)

lemma run_record_bind {β : Type} {c : Call} {f : Unit → OracleM β} {w : World} :
    (record c >>= f).run w = (f ()).run { w with trace := w.trace ++ [c] } := (rfl)

lemma readStore_bind_eq_ok {α β : Type} {g : Store → Except Err α} {f : α → OracleM β}
    {w w' : World} {b : β} :
    (readStore g >>= f).run w = .ok b w' ↔ ∃ a, g w.store = .ok a ∧ (f a).run w = .ok b w' :=
  Exec.valueOf_bind_eq_ok

@[simp] lemma readStore_eq_ok {α : Type} {f : Store → Except Err α} {w w' : World} {a : α} :
    (readStore f).run w = .ok a w' ↔ f w.store = .ok a ∧ w' = w := by
  simp [readStore]

@[simp] lemma readStore_eq_error {α : Type} {f : Store → Except Err α} {w w' : World} {e : Err} :
    (readStore f).run w = .error e w' ↔ f w.store = .error e ∧ w' = w := by
  simp [readStore]

end Bandchain.Oracle
