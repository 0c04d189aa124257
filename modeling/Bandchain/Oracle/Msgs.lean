import Bandchain.Lib.Exec
import Bandchain.Oracle.Types

/-!
# The messages of the oracle module and their stateless checks

Every message of a transaction passes `ValidateBasic` before any handler runs.  The checks
are made in the order of the source; the first one that fails gives the error.
-/

namespace Bandchain.Oracle

open Exec

/-- Stop with the error `e` if the condition holds. -/
def failWhen (c : Prop) [Decidable c] (e : Err) : Except Err Unit :=
  if c then .error e else .ok ()

lemma failWhen_eq_ok {c : Prop} [Decidable c] {e : Err} {u : Unit} :
    failWhen c e = .ok u ↔ ¬c := by
  by_cases h : c <;> simp [failWhen, h]

structure MsgRequestData where
  oracleScriptID : OracleScriptID
  calldata : Bytes
  askCount : UInt64
  minCount : UInt64
  clientID : Bytes
  sender : AccAddress
deriving DecidableEq, Repr

structure MsgReportData where
  requestID : RequestID
  rawReports : List RawReport
  validator : ValAddress
  reporter : AccAddress
deriving DecidableEq, Repr

structure MsgCreateDataSource where
  owner : AccAddress
  name : Bytes
  description : Bytes
  executable : Bytes
  sender : AccAddress
deriving DecidableEq, Repr

structure MsgEditDataSource where
  dataSourceID : DataSourceID
  owner : AccAddress
  name : Bytes
  description : Bytes
  executable : Bytes
  sender : AccAddress
deriving DecidableEq, Repr

structure MsgCreateOracleScript where
  owner : AccAddress
  name : Bytes
  description : Bytes
  code : Bytes
  schema : Bytes
  sourceCodeURL : Bytes
  sender : AccAddress
deriving DecidableEq, Repr

structure MsgEditOracleScript where
  oracleScriptID : OracleScriptID
  owner : AccAddress
  name : Bytes
  description : Bytes
  code : Bytes
  schema : Bytes
  sourceCodeURL : Bytes
  sender : AccAddress
deriving DecidableEq, Repr

structure MsgAddReporter where
  validator : ValAddress
  reporter : AccAddress
deriving DecidableEq, Repr

structure MsgRemoveReporter where
  validator : ValAddress
  reporter : AccAddress
deriving DecidableEq, Repr

def MsgRequestData.toSpec (m : MsgRequestData) : RequestSpec where
  oracleScriptID := m.oracleScriptID
  calldata := m.calldata
  askCount := m.askCount
  minCount := m.minCount
  clientID := m.clientID

/-- `sdk.VerifyAddressFormat`: an address has exactly `addrLen` bytes. -/
def verifyAddressFormat (field : String) (a : Bytes) : Except Err Unit :=
  failWhen (a.length ≠ addrLen) (.invalidAddress field a)

def MsgRequestData.validateBasic (m : MsgRequestData) : Except Err Unit := do
  verifyAddressFormat "sender" m.sender
  failWhen (m.calldata.length > maxCalldataSize)
    (.tooLargeCalldata m.calldata.length maxCalldataSize)
  failWhen (m.minCount ≤ 0) (.invalidMinCount m.minCount)
  failWhen (m.askCount < m.minCount) (.invalidAskCount m.askCount "min count" m.minCount)
  failWhen (m.clientID.length > maxClientIDLength)
    (.tooLongClientID m.clientID.length maxClientIDLength)

/-- The loop over the raw reports; `seen` holds the external IDs met so far. -/
def checkRawReports (seen : List ExternalID) : List RawReport → Except Err Unit
  | [] => .ok ()
  | r :: rs => do
    failWhen (r.externalID ∈ seen) (.duplicateExternalID r.externalID)
    -- the message shows the calldata limit, although the comparison uses the report limit
    failWhen (r.data.length > maxRawReportDataSize)
      (.tooLargeRawReportData r.data.length maxCalldataSize)
    checkRawReports (r.externalID :: seen) rs

def MsgReportData.validateBasic (m : MsgReportData) : Except Err Unit := do
  verifyAddressFormat "validator" m.validator
  verifyAddressFormat "reporter" m.reporter
  failWhen (m.rawReports.length = 0) .emptyReport
  checkRawReports [] m.rawReports

/-- The checks shared by the messages that create or edit something with a name. -/
def checkHeader (owner sender name description : Bytes) : Except Err Unit := do
  verifyAddressFormat "owner" owner
  verifyAddressFormat "sender" sender
  failWhen (name.length > maxNameLength) (.tooLongName name.length maxNameLength)
  failWhen (description.length > maxDescriptionLength)
    (.tooLongDescription description.length maxDescriptionLength)

/-- The checks on the executable of a data source. -/
def checkExecutable (executable : Bytes) : Except Err Unit := do
  failWhen (executable.length = 0) .emptyExecutable
  failWhen (executable.length > maxExecutableSize)
    (.tooLargeExecutable executable.length maxExecutableSize)

/-- The checks on the schema, the source URL and the code of an oracle script. -/
def checkScript (schema sourceCodeURL code : Bytes) : Except Err Unit := do
  failWhen (schema.length > maxSchemaLength) (.tooLongSchema schema.length maxSchemaLength)
  failWhen (sourceCodeURL.length > maxURLLength) (.tooLongURL sourceCodeURL.length maxURLLength)
  failWhen (code.length = 0) .emptyWasmCode
  failWhen (code.length > maxWasmCodeSize) (.tooLargeWasmCode code.length maxWasmCodeSize)

def MsgCreateDataSource.validateBasic (m : MsgCreateDataSource) : Except Err Unit := do
  checkHeader m.owner m.sender m.name m.description
  checkExecutable m.executable
  failWhen (m.executable = doNotModify) .createWithDoNotModify

def MsgEditDataSource.validateBasic (m : MsgEditDataSource) : Except Err Unit := do
  checkHeader m.owner m.sender m.name m.description
  checkExecutable m.executable

def MsgCreateOracleScript.validateBasic (m : MsgCreateOracleScript) : Except Err Unit := do
  checkHeader m.owner m.sender m.name m.description
  checkScript m.schema m.sourceCodeURL m.code
  failWhen (m.code = doNotModify) .createWithDoNotModify

def MsgEditOracleScript.validateBasic (m : MsgEditOracleScript) : Except Err Unit := do
  checkHeader m.owner m.sender m.name m.description
  checkScript m.schema m.sourceCodeURL m.code

/-- The checks shared by the two reporter messages. -/
def checkReporter (validator : ValAddress) (reporter : AccAddress) : Except Err Unit := do
  verifyAddressFormat "validator" validator
  verifyAddressFormat "reporter" reporter
  failWhen (reporter = validator) .selfReferenceAsReporter

def MsgAddReporter.validateBasic (m : MsgAddReporter) : Except Err Unit :=
  checkReporter m.validator m.reporter

def MsgRemoveReporter.validateBasic (m : MsgRemoveReporter) : Except Err Unit :=
  checkReporter m.validator m.reporter

/-! ## What the checks guarantee -/

/-- The bounds that `MsgRequestData.ValidateBasic` puts on a request. -/
structure RequestSpec.Bounded (r : RequestSpec) : Prop where
  minCount_pos : 1 ≤ r.minCount.toNat
  minCount_le : r.minCount.toNat ≤ r.askCount.toNat
  calldata_le : r.calldata.length ≤ maxCalldataSize
  clientID_le : r.clientID.length ≤ maxClientIDLength

lemma MsgRequestData.bounded_of_validateBasic {m : MsgRequestData}
    (h : m.validateBasic = .ok ()) : m.toSpec.Bounded := by
  simp only [validateBasic, except_bind_eq_ok, failWhen_eq_ok] at h
  obtain ⟨_, _, _, hcall, _, hmin, _, hask, hclient⟩ := h
  rw [UInt64.le_iff_toNat_le] at hmin
  rw [UInt64.lt_iff_toNat_lt] at hask
  refine ⟨?_, ?_, Nat.le_of_not_lt hcall, Nat.le_of_not_lt hclient⟩
  · show 1 ≤ m.minCount.toNat
    change ¬m.minCount.toNat ≤ 0 at hmin
    omega
  · exact Nat.le_of_not_lt hask

lemma checkRawReports_eq_ok {seen : List ExternalID} {l : List RawReport} :
    checkRawReports seen l = .ok () ↔
      (l.map RawReport.externalID).Nodup ∧ (∀ r ∈ l, r.externalID ∉ seen) ∧
        ∀ r ∈ l, r.data.length ≤ maxRawReportDataSize := by
  induction l generalizing seen with
  | nil => simp [checkRawReports]
  | cons r rs ih =>
    simp only [checkRawReports, except_bind_eq_ok, failWhen_eq_ok, ih, List.map_cons,
      List.nodup_cons, List.mem_map, List.mem_cons, forall_eq_or_imp, not_or, Nat.not_lt]
    constructor
    · rintro ⟨_, hseen, _, hlen, hnd, hrs, hall⟩
      refine ⟨⟨?_, hnd⟩, ⟨hseen, fun x hx => (hrs x hx).2⟩, hlen, hall⟩
      rintro ⟨x, hx, hxr⟩
      exact (hrs x hx).1 hxr
    · rintro ⟨⟨hr, hnd⟩, ⟨hseen, hrs⟩, hlen, hall⟩
      exact ⟨(), hseen, (), hlen, hnd, fun x hx => ⟨fun hxr => hr ⟨x, hx, hxr⟩, hrs x hx⟩, hall⟩

/-- A report message passes its stateless checks exactly when its addresses are well formed
and its raw reports are nonempty, small, and for different external IDs. -/
lemma MsgReportData.validateBasic_eq_ok {m : MsgReportData} :
    m.validateBasic = .ok () ↔
      m.validator.length = addrLen ∧ m.reporter.length = addrLen ∧ m.rawReports ≠ [] ∧
        (m.rawReports.map RawReport.externalID).Nodup ∧
        ∀ r ∈ m.rawReports, r.data.length ≤ maxRawReportDataSize := by
  simp only [validateBasic, verifyAddressFormat, except_bind_eq_ok, failWhen_eq_ok,
    checkRawReports_eq_ok, not_not, List.length_eq_zero_iff, exists_const, ne_eq,
    List.not_mem_nil, not_false_eq_true, implies_true, true_and]

end Bandchain.Oracle
