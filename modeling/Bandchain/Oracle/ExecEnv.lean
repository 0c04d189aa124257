import Bandchain.Lib.Table
import Bandchain.Oracle.Types

/-!
# The execution environment of an oracle script

A script runs against an `ExecEnv` and talks to it through host calls.  Two of them change
the environment: a script asks for external data while it prepares a request, and sets the
data to return while it executes one.  The other calls read.
-/

namespace Bandchain.Oracle

structure ExecEnv where
  request : Request
  now : ℤ
  maxRawRequests : ℤ
  rawRequests : List RawRequest
  /-- The reports by validator, then by external ID. -/
  reports : Table ValAddress (Table ExternalID RawReport)
  retdata : Bytes

def newExecEnv (req : Request) (now maxRawRequests : ℤ) : ExecEnv where
  request := req
  now := now
  maxRawRequests := maxRawRequests
  rawRequests := []
  reports := ∅
  retdata := []

namespace ExecEnv

def getCalldata (env : ExecEnv) : Bytes := env.request.calldata

def setReturnData (env : ExecEnv) (data : Bytes) : ExecEnv := { env with retdata := data }

/-- A raw request with too much data, or beyond the allowed number, is dropped silently. -/
def askExternalData (env : ExecEnv) (eid did : ℤ) (data : Bytes) : ExecEnv :=
  if data.length > maxRawRequestDataSize then env
  else if (env.rawRequests.length : ℤ) ≥ env.maxRawRequests then env
  else { env with rawRequests := env.rawRequests ++ [⟨eid, did, data⟩] }

def getExternalDataFull (env : ExecEnv) (eid valIdx : ℤ) : Option Bytes × ℤ :=
  if valIdx < 0 ∨ valIdx ≥ env.request.requestedValidators.length then (none, -1)
  else
    match env.reports[env.request.requestedValidators.getD valIdx.toNat []]? with
    | none => (none, -1)
    | some valReports =>
      match valReports[eid]? with
      | none => (none, -1)
      | some valReport => (some valReport.data, valReport.exitCode.toNat)

def getExternalDataStatus (env : ExecEnv) (eid vid : ℤ) : ℤ := (env.getExternalDataFull eid vid).2

def getExternalData (env : ExecEnv) (eid vid : ℤ) : Option Bytes :=
  (env.getExternalDataFull eid vid).1

/-- The raw requests made during preparation; only a prepare environment has any. -/
def getRawRequests (env : ExecEnv) : Except Err (List RawRequest) :=
  if env.maxRawRequests = 0 then
    .error (.panic "exec_env: GetRawRequests must not be called on resolve environment")
  else .ok env.rawRequests

/-- Load the reports; only a resolve environment takes them. -/
def setReports (env : ExecEnv) (reports : List Report) : Except Err ExecEnv :=
  if env.maxRawRequests ≠ 0 then
    .error (.panic "exec_env: SetReports must not be called on prepare environment")
  else
    .ok { env with
      reports := reports.foldl (fun t r =>
        t.insert r.validator (r.rawReports.foldl (fun u each => u.insert each.externalID each) ∅))
        env.reports }

def getAskCount (env : ExecEnv) : ℤ := env.request.requestedValidators.length

def getMinCount (env : ExecEnv) : ℤ := toInt64 env.request.minCount.toNat

def getAnsCount (env : ExecEnv) : ℤ := env.reports.size

end ExecEnv

/-- A host call that changes the environment. -/
inductive HostCall
  | askExternalData (eid did : ℤ) (data : Bytes)
  | setReturnData (data : Bytes)
deriving DecidableEq, Repr

/-- The effect of one host call. -/
def HostCall.apply (env : ExecEnv) : HostCall → ExecEnv
  | askExternalData eid did data => env.askExternalData eid did data
  | setReturnData data => env.setReturnData data

/-- The Wasm machine: for the code of a script, the entry point (`prepare` or `execute`) and
the environment it starts in, the host calls that the script makes and its exit code.  Host
calls that read give the script nothing that depends on the calls it made before, so the
calls are a function of the starting environment. -/
abbrev Owasm : Type := Bytes → Bool → ExecEnv → List HostCall × ℤ

/-- Run a script: the environment after its host calls, and its exit code. -/
def Owasm.run (vm : Owasm) (code : Bytes) (isPrepare : Bool) (env : ExecEnv) : ExecEnv × ℤ :=
  ((vm code isPrepare env).1.foldl HostCall.apply env, (vm code isPrepare env).2)

/-! ## The raw requests of a script -/

/-- The external IDs that the environment keeps from a list of host calls: those of the first
`max` calls for external data whose calldata is small enough. -/
def keptExternalIDs (max : ℤ) (calls : List HostCall) : List ExternalID :=
  (calls.filterMap fun
    | .askExternalData eid _ data => if data.length ≤ maxRawRequestDataSize then some eid else none
    | .setReturnData _ => none).take max.toNat

lemma foldl_apply_externalIDs (calls : List HostCall) (env : ExecEnv) :
    ((calls.foldl HostCall.apply env).rawRequests.map RawRequest.externalID) =
      env.rawRequests.map RawRequest.externalID ++
        keptExternalIDs (env.maxRawRequests - env.rawRequests.length) calls := by
  induction calls generalizing env with
  | nil => simp [keptExternalIDs]
  | cons c calls ih =>
    rw [List.foldl_cons, ih]
    cases c with
    | setReturnData data => rfl
    | askExternalData eid did data =>
      by_cases hlen : data.length > maxRawRequestDataSize
      · have hnot : ¬data.length ≤ maxRawRequestDataSize := Nat.not_le.mpr hlen
        simp [HostCall.apply, ExecEnv.askExternalData, keptExternalIDs, hlen, hnot]
      · by_cases hmax : (env.rawRequests.length : ℤ) ≥ env.maxRawRequests
        · have h0 : (env.maxRawRequests - env.rawRequests.length).toNat = 0 := by omega
          simp [HostCall.apply, ExecEnv.askExternalData, keptExternalIDs, hlen, hmax, h0]
        · have hle : data.length ≤ maxRawRequestDataSize := Nat.le_of_not_lt hlen
          have hsucc : (env.maxRawRequests - env.rawRequests.length).toNat =
              (env.maxRawRequests - (env.rawRequests.length + 1 : ℕ)).toNat + 1 := by omega
          simp [HostCall.apply, ExecEnv.askExternalData, keptExternalIDs, hlen, hmax, hle, hsucc]

/-- A fresh prepare environment ends with the raw requests that `keptExternalIDs` names. -/
lemma prepare_externalIDs (vm : Owasm) (code : Bytes) (req : Request) (now max : ℤ) :
    ((vm.run code true (newExecEnv req now max)).1.rawRequests.map RawRequest.externalID) =
      keptExternalIDs max (vm code true (newExecEnv req now max)).1 := by
  have h := foldl_apply_externalIDs (vm code true (newExecEnv req now max)).1
    (newExecEnv req now max)
  simpa [Owasm.run, newExecEnv] using h

lemma length_keptExternalIDs_le (max : ℤ) (calls : List HostCall) :
    (keptExternalIDs max calls).length ≤ max.toNat := by
  simp [keptExternalIDs]

end Bandchain.Oracle
