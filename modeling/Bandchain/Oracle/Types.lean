import Bandchain.Lib.Bytes

/-!
# The data types of the oracle module

The records of `types.proto`, their positional constructors, the size limits, the default
parameters and the errors of the module.  Identifiers, heights and times are 64-bit signed
integers of the source; they are modelled by `ℤ`.  Counts and parameters are `uint64` and
keep their width.  Addresses are byte strings: their length is checked by the messages, not
by the type.
-/

namespace Bandchain.Oracle

abbrev DataSourceID : Type := ℤ
abbrev OracleScriptID : Type := ℤ
abbrev RequestID : Type := ℤ
abbrev ExternalID : Type := ℤ

/-- The address of a validator operator. -/
abbrev ValAddress : Type := Bytes
/-- The address of an account. -/
abbrev AccAddress : Type := Bytes

/-- The conversion of a 64-bit pattern to a signed integer, as in `int64(x)`. -/
def toInt64 (n : ℤ) : ℤ := n.bmod (2 ^ 64)

/-! ## Limits -/

def doNotModify : Bytes := Bytes.ascii "[do-not-modify]"

def maxNameLength : ℕ := 128
def maxDescriptionLength : ℕ := 4096
def maxClientIDLength : ℕ := 128
def maxSchemaLength : ℕ := 512
def maxURLLength : ℕ := 128

def maxExecutableSize : ℕ := 8 * 1024
def maxWasmCodeSize : ℕ := 512 * 1024
def maxCalldataSize : ℕ := 1 * 1024
def maxRawRequestDataSize : ℕ := 1 * 1024
def maxRawReportDataSize : ℕ := 1 * 1024

/-- The length of an address in bytes, `sdk.AddrLen`. -/
def addrLen : ℕ := 20

/-! ## Parameters -/

/-- The parameters of the module. -/
structure Params where
  maxRawRequestCount : UInt64
  maxAskCount : UInt64
  expirationBlockCount : UInt64
  maxConsecutiveMisses : UInt64
  baseRequestGas : UInt64
  perValidatorRequestGas : UInt64
deriving DecidableEq, Repr

def defaultParams : Params where
  maxRawRequestCount := 16
  maxAskCount := 16
  expirationBlockCount := 20
  maxConsecutiveMisses := 10
  baseRequestGas := 150000
  perValidatorRequestGas := 30000

/-- The check made on a parameter when it is set: some must be positive. -/
def validateUint64 (positiveOnly : Bool) (v : UInt64) : Bool :=
  !(v == 0 && positiveOnly)

/-- The checks of `ParamSetPairs`, one for each parameter. -/
def Params.validate (p : Params) : Bool :=
  validateUint64 true p.maxRawRequestCount && validateUint64 true p.maxAskCount &&
    validateUint64 true p.expirationBlockCount && validateUint64 false p.maxConsecutiveMisses &&
    validateUint64 false p.baseRequestGas && validateUint64 false p.perValidatorRequestGas

/-! ## Records -/

structure DataSource where
  owner : AccAddress
  name : Bytes
  description : Bytes
  filename : Bytes
deriving DecidableEq, Repr

structure OracleScript where
  owner : AccAddress
  name : Bytes
  description : Bytes
  filename : Bytes
  schema : Bytes
  sourceCodeURL : Bytes
deriving DecidableEq, Repr

structure RawRequest where
  externalID : ExternalID
  dataSourceID : DataSourceID
  calldata : Bytes
deriving DecidableEq, Repr

structure RawReport where
  externalID : ExternalID
  exitCode : UInt32
  data : Bytes
deriving DecidableEq, Repr

inductive ResolveStatus
  | «open»
  | success
  | failure
  | expired
deriving DecidableEq, Repr

/-- The wire number of a status. -/
def ResolveStatus.toNat : ResolveStatus → ℕ
  | «open» => 0
  | success => 1
  | failure => 2
  | expired => 3

/-- The port and channel a request came from; the response goes back through them. -/
structure IBCInfo where
  sourcePort : Bytes
  sourceChannel : Bytes
deriving DecidableEq, Repr

structure Request where
  oracleScriptID : OracleScriptID
  calldata : Bytes
  requestedValidators : List ValAddress
  minCount : UInt64
  requestHeight : ℤ
  requestTime : ℤ
  clientID : Bytes
  ibcInfo : Option IBCInfo
  rawRequestIDs : List ExternalID
deriving DecidableEq, Repr

structure Report where
  validator : ValAddress
  inBeforeResolve : Bool
  rawReports : List RawReport
deriving DecidableEq, Repr

structure ValidatorReportInfo where
  validator : ValAddress
  consecutiveMissed : UInt64
deriving DecidableEq, Repr

structure OracleRequestPacketData where
  clientID : Bytes
  oracleScriptID : OracleScriptID
  calldata : Bytes
  askCount : UInt64
  minCount : UInt64
deriving DecidableEq, Repr

structure OracleResponsePacketData where
  clientID : Bytes
  requestID : RequestID
  ansCount : UInt64
  requestTime : ℤ
  resolveTime : ℤ
  resolveStatus : ResolveStatus
  result : Bytes
deriving DecidableEq, Repr

/-! ## Constructors, with the positional arguments of the source -/

def newOracleRequestPacketData (clientID : Bytes) (oracleScriptID : OracleScriptID)
    (calldata : Bytes) (askCount minCount : UInt64) : OracleRequestPacketData :=
  { clientID, oracleScriptID, calldata, askCount, minCount }

def newOracleResponsePacketData (clientID : Bytes) (requestID : RequestID) (ansCount : UInt64)
    (requestTime resolveTime : ℤ) (resolveStatus : ResolveStatus) (result : Bytes) :
    OracleResponsePacketData :=
  { clientID, requestID, ansCount, requestTime, resolveTime, resolveStatus, result }

def newRequest (oracleScriptID : OracleScriptID) (calldata : Bytes)
    (requestedValidators : List ValAddress) (minCount : UInt64) (requestHeight requestTime : ℤ)
    (clientID : Bytes) (ibcInfo : Option IBCInfo) (rawRequestIDs : List ExternalID) : Request :=
  { oracleScriptID, calldata, requestedValidators, minCount, requestHeight, requestTime, clientID,
    ibcInfo, rawRequestIDs }

/-- What a request-making object provides: a message or an IBC packet. -/
structure RequestSpec where
  oracleScriptID : OracleScriptID
  calldata : Bytes
  askCount : UInt64
  minCount : UInt64
  clientID : Bytes
deriving DecidableEq, Repr

def OracleRequestPacketData.toSpec (p : OracleRequestPacketData) : RequestSpec where
  oracleScriptID := p.oracleScriptID
  calldata := p.calldata
  askCount := p.askCount
  minCount := p.minCount
  clientID := p.clientID

/-- The packet that carries a request specification. -/
def RequestSpec.toPacket (r : RequestSpec) : OracleRequestPacketData where
  clientID := r.clientID
  oracleScriptID := r.oracleScriptID
  calldata := r.calldata
  askCount := r.askCount
  minCount := r.minCount

/-! ## Errors -/

/-- The errors of the module, with the values their messages show.  `panic` is a run-time
panic: inside a transaction it is recovered and the transaction fails, at the end of a block
it stops the chain. -/
inductive Err
  | badWasmExecution
  | dataSourceNotFound (id : DataSourceID)
  | oracleScriptNotFound (id : OracleScriptID)
  | requestNotFound (id : RequestID)
  | resultNotFound (id : RequestID)
  | rawRequestNotFound (reqID : RequestID) (extID : ExternalID)
  | reporterNotFound (val : ValAddress) (addr : AccAddress)
  | reporterAlreadyExists (val : ValAddress) (addr : AccAddress)
  | validatorNotRequested (reqID : RequestID) (val : ValAddress)
  | validatorAlreadyReported (reqID : RequestID) (val : ValAddress)
  | invalidDataSourceCount
  | reporterNotAuthorized
  | editorNotAuthorized
  | uncompressionFailed
  | tooLongName (got max : ℕ)
  | tooLongDescription (got max : ℕ)
  | emptyExecutable
  | emptyWasmCode
  | tooLargeExecutable (got max : ℕ)
  | tooLargeWasmCode (got max : ℕ)
  | invalidMinCount (got : UInt64)
  | invalidAskCount (got : UInt64) (what : String) (bound : UInt64)
  | tooLargeCalldata (got max : ℕ)
  | tooLongClientID (got max : ℕ)
  | emptyReport
  | duplicateExternalID (extID : ExternalID)
  | tooLongSchema (got max : ℕ)
  | tooLongURL (got max : ℕ)
  | tooLargeRawReportData (got max : ℕ)
  | insufficientValidators (available : ℕ) (size : ℤ)
  | createWithDoNotModify
  | selfReferenceAsReporter
  | invalidAddress (field : String) (addr : Bytes)
  | unknownRequest
  | panic (reason : String)
deriving DecidableEq, Repr

/-! ## Events -/

/-- How the value of an event attribute is printed: as is, in decimal, in hexadecimal, or as
a Bech32 address. -/
inductive AttrValue
  | text (b : Bytes)
  | dec (n : ℤ)
  | hex (b : Bytes)
  | addr (a : Bytes)
deriving DecidableEq, Repr

structure Event where
  type : String
  attributes : List (String × AttrValue)
deriving DecidableEq, Repr

end Bandchain.Oracle
