import Bandchain.Oracle.Keeper

/-!
# Genesis

Initialisation of the store from a genesis state, and the export of a store to one.  The
export keeps the parameters, the data sources, the oracle scripts, the report infos and the
results; requests, reports, reporters, the pending list and the expiry cursor are dropped.
-/

namespace Bandchain.Oracle

structure GenesisState where
  params : Params
  dataSources : List DataSource
  oracleScripts : List OracleScript
  reportInfos : List ValidatorReportInfo
  /-- The results by request ID, starting at 1; `none` for a request without a result. -/
  results : List (Option Bytes)
deriving DecidableEq

def defaultGenesisState : GenesisState where
  params := defaultParams
  dataSources := []
  oracleScripts := []
  reportInfos := []
  results := []

/-- Set the results of the requests `id, id + 1, …`, skipping the empty ones. -/
def setResults (t : Table RequestID Bytes) : RequestID → List (Option Bytes) → Table RequestID Bytes
  | _, [] => t
  | id, none :: rest => setResults t (id + 1) rest
  | id, some result :: rest => setResults (t.insert id result) (id + 1) rest

/-- The oracle store that `InitGenesis` builds.  The request count is the number of results,
and neither the requests nor the expiry cursor are set. -/
def initGenesis (data : GenesisState) : Store :=
  let s := { Store.empty with params := data.params }
  let s := data.dataSources.foldl Store.addDataSource s
  let s := data.oracleScripts.foldl Store.addOracleScript s
  { s with
    reportInfos := data.reportInfos.foldl (fun t info => t.insert info.validator info) s.reportInfos
    results := setResults s.results 1 data.results
    requestCount := some data.results.length }

/-- The loop of `GetAllResults`, with the identifier of the previous result. -/
def fillResults : RequestID → List (RequestID × Bytes) → List (Option Bytes)
  | _, [] => []
  | previousReqID, (currentReqID, result) :: rest =>
    List.replicate (currentReqID - previousReqID - 1).toNat none ++
      some result :: fillResults currentReqID rest

def Store.getAllResults (s : Store) : List (Option Bytes) := fillResults 0 s.results.toList

def exportGenesis (s : Store) : GenesisState where
  params := s.params
  dataSources := s.dataSources.toList.map Prod.snd
  oracleScripts := s.oracleScripts.toList.map Prod.snd
  reportInfos := s.reportInfos.toList.map Prod.snd
  results := s.getAllResults

/-! ## What a freshly initialised store holds -/

/-- What no step of a fold changes is the same at its end. -/
lemma foldl_proj {α β γ : Type} {f : β → α → β} (g : β → γ) (h : ∀ b a, g (f b a) = g b)
    (l : List α) (b : β) : g (l.foldl f b) = g b := by
  induction l generalizing b with
  | nil => rfl
  | cons a l ih => exact (ih _).trans (h b a)

/-- What adding data sources and oracle scripts to the empty store leaves alone. -/
lemma initGenesis_proj {γ : Type} (g : Store → γ) (hd : ∀ s d, g (Store.addDataSource s d) = g s)
    (ho : ∀ s o, g (Store.addOracleScript s o) = g s) (data : GenesisState) :
    g (data.oracleScripts.foldl Store.addOracleScript
      (data.dataSources.foldl Store.addDataSource { Store.empty with params := data.params })) =
      g { Store.empty with params := data.params } :=
  (foldl_proj g ho _ _).trans (foldl_proj g hd _ _)

/-- The parts of the store that no genesis state fills. -/
structure Store.Fresh (s : Store) : Prop where
  requestLastExpired : s.requestLastExpired = none
  pendingResolveList : s.pendingResolveList = none
  requests : s.requests = ∅
  reports : s.reports = ∅

lemma fresh_initGenesis (data : GenesisState) : (initGenesis data).Fresh where
  requestLastExpired :=
    initGenesis_proj Store.requestLastExpired (fun _ _ => rfl) (fun _ _ => rfl) data
  pendingResolveList :=
    initGenesis_proj Store.pendingResolveList (fun _ _ => rfl) (fun _ _ => rfl) data
  requests := initGenesis_proj Store.requests (fun _ _ => rfl) (fun _ _ => rfl) data
  reports := initGenesis_proj Store.reports (fun _ _ => rfl) (fun _ _ => rfl) data

lemma requestCount_initGenesis (data : GenesisState) :
    (initGenesis data).requestCount = some (data.results.length : ℤ) := rfl

lemma results_initGenesis (data : GenesisState) :
    (initGenesis data).results = setResults ∅ 1 data.results := by
  have h := initGenesis_proj Store.results (fun _ _ => rfl) (fun _ _ => rfl) data
  show setResults _ 1 data.results = _
  rw [h]
  rfl

lemma fillResults_eq_nil_iff {previousReqID : RequestID} {l : List (RequestID × Bytes)} :
    fillResults previousReqID l = [] ↔ l = [] := by
  cases l <;> simp [fillResults]

/-- The exported list of results is empty exactly when no result is stored. -/
lemma exportGenesis_results_eq_nil_iff {s : Store} :
    (exportGenesis s).results = [] ↔ s.results = ∅ := by
  show fillResults 0 s.results.toList = [] ↔ _
  rw [fillResults_eq_nil_iff]
  exact Std.ExtTreeMap.toList_eq_nil_iff

end Bandchain.Oracle
