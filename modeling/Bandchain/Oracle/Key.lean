import Bandchain.Oracle.Types

/-!
# The keys of the oracle store

The key constructors of `types/key.go`, and the keys that the module writes with 20-byte
addresses.
-/

namespace Bandchain.Oracle

/-- `sdk.Uint64ToBigEndian(uint64(id))`. -/
def uint64ToBigEndian (id : ℤ) : Bytes := Bytes.be 8 (id % 2 ^ 64).toNat

@[simp] lemma length_uint64ToBigEndian (id : ℤ) : (uint64ToBigEndian id).length = 8 := by
  simp [uint64ToBigEndian]

/-! ## Global variables -/

def globalStoreKeyPrefix : Bytes := [0x00]

def requestCountStoreKey : Bytes := globalStoreKeyPrefix ++ Bytes.ascii "RequestCount"

def requestLastExpiredStoreKey : Bytes := globalStoreKeyPrefix ++ Bytes.ascii "RequestLastExpired"

def pendingResolveListStoreKey : Bytes := globalStoreKeyPrefix ++ Bytes.ascii "PendingList"

def dataSourceCountStoreKey : Bytes := globalStoreKeyPrefix ++ Bytes.ascii "DataSourceCount"

def oracleScriptCountStoreKey : Bytes := globalStoreKeyPrefix ++ Bytes.ascii "OracleScriptCount"

/-! ## Families of keys -/

def requestStoreKeyPrefix : Bytes := [0x01]
def reportStoreKeyPrefix : Bytes := [0x02]
def dataSourceStoreKeyPrefix : Bytes := [0x03]
def oracleScriptStoreKeyPrefix : Bytes := [0x04]
def reporterStoreKeyPrefix : Bytes := [0x05]
def validatorReportInfoKeyPrefix : Bytes := [0x06]
def resultStoreKeyPrefix : Bytes := [0xff]

def requestStoreKey (requestID : RequestID) : Bytes :=
  requestStoreKeyPrefix ++ uint64ToBigEndian requestID

def reportStoreKeyPerValidator (reqID : RequestID) (val : ValAddress) : Bytes :=
  reportStoreKeyPrefix ++ uint64ToBigEndian reqID ++ val

def dataSourceStoreKey (dataSourceID : DataSourceID) : Bytes :=
  dataSourceStoreKeyPrefix ++ uint64ToBigEndian dataSourceID

def oracleScriptStoreKey (oracleScriptID : OracleScriptID) : Bytes :=
  oracleScriptStoreKeyPrefix ++ uint64ToBigEndian oracleScriptID

def reporterStoreKey (validatorAddress : ValAddress) (reporterAddress : AccAddress) : Bytes :=
  reporterStoreKeyPrefix ++ validatorAddress ++ reporterAddress

def validatorReportInfoStoreKey (v : ValAddress) : Bytes := validatorReportInfoKeyPrefix ++ v

def resultStoreKey (requestID : RequestID) : Bytes :=
  resultStoreKeyPrefix ++ uint64ToBigEndian requestID

/-- Iterating over a family of keys goes through its identifiers in order. -/
lemma prefix_uint64ToBigEndian_lt_iff (family : Bytes) {a b : ℤ} (ha : 0 ≤ a) (ha' : a < 2 ^ 64)
    (hb : 0 ≤ b) (hb' : b < 2 ^ 64) :
    family ++ uint64ToBigEndian a < family ++ uint64ToBigEndian b ↔ a < b := by
  rw [Bytes.append_lt_append_iff rfl, uint64ToBigEndian, uint64ToBigEndian,
    Bytes.be_lt_be_iff (by omega) (by omega)]
  have hirrefl : ¬family < family := List.lt_irrefl family
  simp only [hirrefl, false_or, true_and]
  omega

/-- The keys of the oracle store. -/
inductive StoreKey : Bytes → Prop
  | requestCount : StoreKey requestCountStoreKey
  | requestLastExpired : StoreKey requestLastExpiredStoreKey
  | pendingResolveList : StoreKey pendingResolveListStoreKey
  | dataSourceCount : StoreKey dataSourceCountStoreKey
  | oracleScriptCount : StoreKey oracleScriptCountStoreKey
  | request (id : RequestID) : StoreKey (requestStoreKey id)
  | report (id : RequestID) (val : ValAddress) (hval : val.length = addrLen) :
      StoreKey (reportStoreKeyPerValidator id val)
  | dataSource (id : DataSourceID) : StoreKey (dataSourceStoreKey id)
  | oracleScript (id : OracleScriptID) : StoreKey (oracleScriptStoreKey id)
  | reporter (val : ValAddress) (addr : AccAddress) (hval : val.length = addrLen)
      (haddr : addr.length = addrLen) : StoreKey (reporterStoreKey val addr)
  | reportInfo (val : ValAddress) (hval : val.length = addrLen) :
      StoreKey (validatorReportInfoStoreKey val)
  | result (id : RequestID) : StoreKey (resultStoreKey id)

/-- The lengths of the keys. -/
lemma StoreKey.length_mem {k : Bytes} (h : StoreKey k) :
    k.length ∈ [9, 12, 13, 16, 18, 19, 21, 29, 41] := by
  have hfixed : ∀ k ∈ [requestCountStoreKey, requestLastExpiredStoreKey,
      pendingResolveListStoreKey, dataSourceCountStoreKey, oracleScriptCountStoreKey],
      k.length ∈ [9, 12, 13, 16, 18, 19, 21, 29, 41] := by
    decide +kernel
  cases h with
  | requestCount => exact hfixed _ (by simp)
  | requestLastExpired => exact hfixed _ (by simp)
  | pendingResolveList => exact hfixed _ (by simp)
  | dataSourceCount => exact hfixed _ (by simp)
  | oracleScriptCount => exact hfixed _ (by simp)
  | request id => simp [requestStoreKey, requestStoreKeyPrefix]
  | report id val hval =>
    simp [reportStoreKeyPerValidator, reportStoreKeyPrefix, hval, addrLen]
  | dataSource id => simp [dataSourceStoreKey, dataSourceStoreKeyPrefix]
  | oracleScript id => simp [oracleScriptStoreKey, oracleScriptStoreKeyPrefix]
  | reporter val addr hval haddr =>
    simp [reporterStoreKey, reporterStoreKeyPrefix, hval, haddr, addrLen]
  | reportInfo val hval =>
    simp [validatorReportInfoStoreKey, validatorReportInfoKeyPrefix, hval, addrLen]
  | result id => simp [resultStoreKey, resultStoreKeyPrefix]

/-- No key has the length of a digest. -/
lemma StoreKey.length_ne {k : Bytes} (h : StoreKey k) : k.length ≠ 32 := by
  intro h32
  have hmem := h.length_mem
  rw [h32] at hmem
  exact absurd hmem (by decide)

end Bandchain.Oracle
