import Bandchain.Oracle.Registry

/-!
# Migration to a new chain

A chain is migrated by exporting its state and starting a new chain from the export.  The
numbers of data sources, scripts and requests are not exported: they are the positions in the
exported lists, and a request without a result leaves a gap.  What is read of data sources,
scripts, results, report infos and parameters is the same after the migration.  The counter of
requests and the reporters are not exported at all.
-/

namespace Bandchain.Oracle

open Exec

/-! ## Results -/

lemma setResults_replicate (t : Table RequestID Bytes) (n : ℕ) (id : ℤ) (l : List (Option Bytes)) :
    setResults t id (List.replicate n none ++ l) = setResults t (id + n) l := by
  induction n generalizing id with
  | zero => simp
  | succ n ih =>
    rw [List.replicate_succ, List.cons_append, setResults, ih]
    congr 1
    push_cast
    ring

/-- The gaps put every result back in its place. -/
lemma setResults_fillResults {l : List (RequestID × Bytes)} (t : Table RequestID Bytes) (prev : ℤ)
    (hprev : ∀ e ∈ l, prev < e.1) (hsorted : l.Pairwise fun a b => a.1 < b.1) :
    setResults t (prev + 1) (fillResults prev l) = t.insertMany l := by
  induction l generalizing t prev with
  | nil => rfl
  | cons e l ih =>
    obtain ⟨id, result⟩ := e
    have hlt : prev < id := hprev (id, result) (by simp)
    have hplace : prev + 1 + (((id - prev - 1).toNat : ℕ) : ℤ) = id := by omega
    obtain ⟨hfirst, hrest⟩ := List.pairwise_cons.mp hsorted
    rw [fillResults, setResults_replicate, hplace, setResults,
      Std.ExtTreeMap.insertMany_cons]
    exact ih _ id hfirst hrest

/-- The list of results ends with the last one. -/
lemma length_fillResults {l : List (RequestID × Bytes)} (prev : ℤ) (hprev : ∀ e ∈ l, prev < e.1)
    (hsorted : l.Pairwise fun a b => a.1 < b.1) (hne : l ≠ []) :
    ((∃ result, (prev + ((fillResults prev l).length : ℤ), result) ∈ l) ∧
      ∀ e ∈ l, e.1 ≤ prev + ((fillResults prev l).length : ℤ)) := by
  induction l generalizing prev with
  | nil => exact absurd rfl hne
  | cons e l ih =>
    obtain ⟨id, result⟩ := e
    have hlt : prev < id := hprev (id, result) (by simp)
    obtain ⟨hfirst, hrest⟩ := List.pairwise_cons.mp hsorted
    have hlen : prev + ((fillResults prev ((id, result) :: l)).length : ℤ) =
        id + ((fillResults id l).length : ℤ) := by
      simp only [fillResults, List.length_append, List.length_replicate, List.length_cons]
      push_cast
      omega
    rw [hlen]
    by_cases hl : l = []
    · subst hl
      simp [fillResults]
    · obtain ⟨⟨x, hx⟩, hle⟩ := ih id hfirst hrest hl
      refine ⟨⟨x, List.mem_cons_of_mem _ hx⟩, ?_⟩
      intro e he
      rcases List.mem_cons.mp he with rfl | he
      · exact Int.le_add_of_nonneg_right (Int.natCast_nonneg _)
      · exact hle e he

/-- The results are stored in the order of their requests. -/
lemma pairwise_toList (t : Table RequestID Bytes) : t.toList.Pairwise fun a b => a.1 < b.1 :=
  Std.ExtTreeMap.ordered_keys_toList.imp fun hab => compare_lt_iff_lt.mp hab

/-- The results of positive requests survive the migration. -/
lemma results_migrated {s : Store}
    (hpos : ∀ (id : ℤ) (result : Bytes), s.results[id]? = some result → 0 < id) :
    (initGenesis (exportGenesis s)).results = s.results := by
  rw [results_initGenesis]
  refine (setResults_fillResults ∅ 0 ?_ (pairwise_toList s.results)).trans
    (Table.insertMany_toList s.results)
  rintro ⟨id, result⟩ he
  exact hpos id result (Std.ExtTreeMap.mem_toList_iff_getElem?_eq_some.mp he)

/-! ## Report infos -/

/-- Every report info is stored under its own validator. -/
def Store.InfosKeyed (s : Store) : Prop :=
  ∀ (val : ValAddress) (info : ValidatorReportInfo), s.reportInfos[val]? = some info →
    info.validator = val

lemma infosKeyed_congr {s s' : Store} (h : s'.reportInfos = s.reportInfos) (hs : s.InfosKeyed) :
    s'.InfosKeyed := by
  intro val info hinfo
  rw [h] at hinfo
  exact hs val info hinfo

/-- The info of a validator is its own, stored or not. -/
lemma Store.InfosKeyed.getWithDefault {s : Store} (h : s.InfosKeyed) (val : ValAddress) :
    (s.getValidatorReportInfoWithDefault val).validator = val := by
  unfold Store.getValidatorReportInfoWithDefault
  cases hinfo : s.reportInfos[val]? with
  | none => rfl
  | some info => exact h val info hinfo

def KeepsInfosKeyed (w w' : World) : Prop := w.store.InfosKeyed → w'.store.InfosKeyed

instance : IsPreorder World KeepsInfosKeyed where
  refl _ h := h
  trans _ _ _ h h' := fun hw => h' (h hw)

lemma endBlockKeeps_infosKeyed (k : Keeper) : EndBlockKeeps k KeepsInfosKeyed where
  record _ _ _ := infosKeyed_congr rfl
  saveResult :=
    exits_saveResult (fun _ _ _ => infosKeyed_congr rfl) fun _ _ _ => infosKeyed_congr rfl
  pending _ := infosKeyed_congr rfl
  cursor _ _ := infosKeyed_congr rfl
  report w val reported := by
    intro hw val' info hinfo
    by_cases hval : val = val'
    · subst hval
      obtain rfl := Option.some.inj ((Table.getElem?_insert_self _ _ _).symm.trans hinfo)
      exact hw.getWithDefault val
    · exact hw val' info ((Table.getElem?_insert_ne _ _ hval).symm.trans hinfo)
  channels _ _ := infosKeyed_congr rfl

lemma infosKeyed_step {k : Keeper} {w w' : World} {l : Label} (h : Step k w l w')
    (hw : w.store.InfosKeyed) : w'.store.InfosKeyed := by
  cases step_turn h with
  | aside haside => exact infosKeyed_congr haside.reportInfos hw
  | request _ hprep =>
    obtain ⟨cs, rfl, _⟩ := hprep.logs
    exact infosKeyed_congr (s := w.store) rfl hw
  | report _ _ _ hlogs =>
    obtain ⟨cs, rfl, _⟩ := hlogs
    unfold World.acceptReport
    split_ifs <;> exact infosKeyed_congr (s := w.store) rfl hw
  | endBlock hrun =>
    have := (endBlockKeeps_infosKeyed k).exits_handleEndBlock w
    rw [ExitsAt, hrun] at this
    exact this hw

lemma infosKeyed_of_reachable {k : Keeper} {w : World} (h : ReachableWorld k w) :
    w.store.InfosKeyed := by
  refine h.invariant (I := fun w => w.store.InfosKeyed) ?_ infosKeyed_step
  rintro w ⟨hstore, _⟩ val info hinfo
  rw [hstore] at hinfo
  simp [initGenesis, defaultGenesisState, Store.empty] at hinfo

lemma reportInfos_initGenesis (data : GenesisState) : (initGenesis data).reportInfos =
    data.reportInfos.foldl (fun t info => t.insert info.validator info) ∅ := by
  have h := initGenesis_proj Store.reportInfos (fun _ _ => rfl) (fun _ _ => rfl) data
  show data.reportInfos.foldl _ _ = _
  rw [h]
  rfl

lemma reportInfos_migrated {s : Store} (h : s.InfosKeyed) :
    (initGenesis (exportGenesis s)).reportInfos = s.reportInfos := by
  rw [reportInfos_initGenesis]
  show (s.reportInfos.toList.map Prod.snd).foldl _ ∅ = _
  rw [List.foldl_map]
  refine Eq.trans ?_ ((Table.foldl_insert ∅ s.reportInfos.toList).trans
    (Table.insertMany_toList s.reportInfos))
  refine List.foldl_ext _ _ _ fun t e he => ?_
  rw [h e.1 e.2 (Std.ExtTreeMap.mem_toList_iff_getElem?_eq_some.mp he)]

/-! ## What is kept -/

lemma dataSources_migrated {s : Store} (h : s.Catalogued) :
    (initGenesis (exportGenesis s)).dataSources = s.dataSources := by
  have hcat : (initGenesis (exportGenesis s)).dataSourceCatalog = s.dataSourceCatalog :=
    (dataSourceCatalog_initGenesis (exportGenesis s)).trans h.1.ofList_values
  exact congrArg Catalog.entries hcat

lemma oracleScripts_migrated {s : Store} (h : s.Catalogued) :
    (initGenesis (exportGenesis s)).oracleScripts = s.oracleScripts := by
  have hcat : (initGenesis (exportGenesis s)).oracleScriptCatalog = s.oracleScriptCatalog :=
    (oracleScriptCatalog_initGenesis (exportGenesis s)).trans h.2.ofList_values
  exact congrArg Catalog.entries hcat

/-- A result is stored only for a request that was made. -/
lemma result_pos {k : Keeper} {w : World} (h : ReachableWorld k w) {id : ℤ} {result : Bytes}
    (hres : w.store.results[id]? = some result) : 1 ≤ id ∧ id ≤ w.store.getRequestCount := by
  have hrec := recorded_of_reachable h
  have hlast := (hrec.described.result id).symm.trans hres
  obtain ⟨s, hs, rfl, _⟩ := mem_savedHashes.mp (List.mem_of_getLast? hlast)
  obtain ⟨r, hr, _⟩ := hrec.described.saved s hs
  exact (hrec.stored.stored s.id).mp ⟨r, hr⟩

/-- **Migration.**  Data sources, oracle scripts, results, report infos and parameters read the
same after the migration of any state that a chain can reach. -/
theorem migration_keeps {k : Keeper} {w : World} (h : ReachableWorld k w) :
    (∀ id, (initGenesis (exportGenesis w.store)).getDataSource id = w.store.getDataSource id) ∧
      (∀ id, (initGenesis (exportGenesis w.store)).getOracleScript id =
        w.store.getOracleScript id) ∧
      (∀ id, (initGenesis (exportGenesis w.store)).getResult id = w.store.getResult id) ∧
      (∀ val : ValAddress, (initGenesis (exportGenesis w.store)).reportInfos[val]? =
        w.store.reportInfos[val]?) ∧
      (initGenesis (exportGenesis w.store)).params = w.store.params := by
  have hcat : w.store.Catalogued := by
    obtain ⟨w₀, ls, h₀, hrun⟩ := h
    exact catalogued_of_run h₀ hrun
  refine ⟨fun id => ?_, fun id => ?_, fun id => ?_, fun val => ?_, ?_⟩
  · rw [Store.getDataSource, dataSources_migrated hcat]
    rfl
  · rw [Store.getOracleScript, oracleScripts_migrated hcat]
    rfl
  · rw [Store.getResult, results_migrated fun id result hres => (result_pos h hres).1]
    rfl
  · rw [reportInfos_migrated (infosKeyed_of_reachable h)]
  · exact initGenesis_proj Store.params (fun _ _ => rfl) (fun _ _ => rfl) _

namespace Sample

/-- Two requests are made, and only the second one is resolved. -/
def secondResolved : List Label :=
  create askingScript ++
    [.deliver (.requestData (requestMsg 2 1)), .deliver (.requestData (requestMsg 2 1)),
     .deliver (.reportData { reportMsg alice with requestID := 2 }), .endBlock]

lemma exists_secondResolved : ∃ w, RunWhere (Step keeper) (fun _ _ => True) genesis
    secondResolved w ∧ w.store.hasResult 1 = false ∧ w.store.hasResult 2 = true ∧
      w.store.getRequestCount = 2 :=
  exists_runWhere (f := next keeper) (P := fun _ _ => True) (s := genesis) secondResolved
    (I := fun w => w.store.hasResult 1 = false ∧ w.store.hasResult 2 = true ∧
      w.store.getRequestCount = 2) (by decide +kernel)

end Sample

theorem migration_keeps_secondResolved : ∃ w, ReachableWorld Sample.keeper w ∧
    w.store.hasResult 1 = false ∧ w.store.hasResult 2 = true ∧
    ∀ id, (initGenesis (exportGenesis w.store)).getResult id = w.store.getResult id := by
  obtain ⟨w, hrun, h1, h2, -⟩ := Sample.exists_secondResolved
  have hw : ReachableWorld Sample.keeper w := ⟨_, _, Sample.starts_genesis, hrun⟩
  exact ⟨w, hw, h1, h2, (migration_keeps hw).2.2.1⟩

/-! ## Request identifiers -/

/-- No chain that starts from the export of the store gives one of the first `n` identifiers
to a new request. -/
def Store.NeverReissues (s : Store) (n : ℤ) : Prop :=
  ∀ (k : Keeper) (w₀ w : World) (ls : List Label), Starts (exportGenesis s) w₀ →
    Run (Step k) w₀ ls w → ∀ p, .prepareRequest p ∈ w.trace → ¬(1 ≤ p.id ∧ p.id ≤ n)

/-- Requests are numbered from the count on. -/
lemma prepared_after {k : Keeper} {data : GenesisState} {w₀ w : World} {ls : List Label}
    (h₀ : Starts data w₀) (hrun : Run (Step k) w₀ ls w) {p : PrepareRecord}
    (hp : .prepareRequest p ∈ w.trace) : (data.results.length : ℤ) < p.id := by
  have hI := ledger_invariant (Q := fun _ _ => True)
    (I := fun L => (data.results.length : ℤ) ≤ L.requestCount ∧
      ∀ p, .prepareRequest p ∈ L.trace → (data.results.length : ℤ) < p.id)
    (fun _ _ _ _ _ _ => trivial) ?_ hrun (scriptsBounded_of_starts h₀) ?_
  · exact hI.2 p hp
  · rintro L a L' - hst ⟨hle, hall⟩
    obtain ⟨cs, hcs, hnew⟩ := hst.news
    refine ⟨hle.trans hst.requestCount_le, fun q hq => ?_⟩
    rw [hcs] at hq
    rcases List.mem_append.mp hq with hq | hq
    · exact hall q hq
    · rw [hnew.numbered q hq]
      exact Int.lt_add_one_of_le hle
  · refine ⟨?_, fun q hq => ?_⟩
    · show _ ≤ w₀.store.getRequestCount
      rw [Store.getRequestCount, h₀.1, requestCount_initGenesis]
      rfl
    · change _ ∈ w₀.trace at hq
      rw [h₀.2] at hq
      simp at hq

/-- With one validator there is no choice. -/
lemma chooseK_single (rng : Bandrng.Rng) : Bandrng.chooseK rng [1000000] 1 = .ok [0] := by
  have hpick : Bandrng.pickIndex (rng.nextUint64.1 % 1000000) 0 0 [1000000] = .ok 0 := by
    rw [Bandrng.pickIndex, if_pos]
    rw [UInt64.zero_add]
    exact UInt64.mod_lt _ (by decide)
  have hone : Bandrng.chooseOneFrom Bandrng.Rng.nextUint64 rng [1000000] =
      .ok (0, rng.nextUint64.2) := by
    have hsum : Bandrng.sumWeights 0 [1000000] = .ok 1000000 := rfl
    have hne : ¬(1000000 : UInt64) = 0 := by decide
    simp only [Bandrng.chooseOneFrom, hsum, hpick, bind, Except.bind, if_neg hne]
  show Bandrng.chooseKLoop _ 1 1 1 0 rng [1000000] [0] [] = _
  simp [Bandrng.chooseKLoop, Bandrng.getCandidateSize, hone, bind, Except.bind]

/-- Valid parameters let a request ask for something. -/
lemma positive_of_validate {params : Params} (h : params.validate = true) :
    toInt64 params.maxRawRequestCount.toNat ≠ 0 ∧ 1 ≤ params.maxAskCount := by
  simp only [Params.validate, validateUint64, Bool.and_eq_true, Bool.not_eq_true', Bool.and_true,
    beq_eq_false_iff_ne, ne_eq, Bool.and_false, Bool.not_false, and_assoc] at h
  obtain ⟨hraw, hask, _⟩ := h
  rw [← UInt64.toNat_inj] at hraw hask
  have hlt := params.maxRawRequestCount.toNat_lt
  refine ⟨?_, ?_⟩
  · change ¬params.maxRawRequestCount.toNat = 0 at hraw
    rw [toInt64, Int.bmod_def]
    split_ifs <;> omega
  · change ¬params.maxAskCount.toNat = 0 at hask
    rw [UInt64.le_iff_toNat_le]
    exact Nat.one_le_iff_ne_zero.mpr hask

/-- A script that asks for nothing and exits normally prepares a request. -/
lemma prepareRequest_run {k : Keeper} {spec : RequestSpec} {w : World} {vals : List ValAddress}
    {o : OracleScript} {code : Bytes} (hask : spec.askCount ≤ w.store.params.maxAskCount)
    (hmax : toInt64 w.store.params.maxRawRequestCount.toNat ≠ 0)
    (hvals : (getRandomValidators (toInt64 spec.askCount.toNat)
      (w.store.getRequestCount + 1)).run w = .ok vals w)
    (ho : w.store.oracleScripts[spec.oracleScriptID]? = some o)
    (hcode : w.files.files[o.filename]? = some code)
    (hidle : ∀ env, k.owasm code true env = ([], 0)) :
    ∃ w', (prepareRequest k spec none).run w = .ok () w' := by
  have hscript : (readStore (·.getOracleScript spec.oracleScriptID)).run w = .ok o w :=
    readStore_eq_ok.mpr ⟨Store.getOracleScript_eq_ok.mpr ho, rfl⟩
  have hfile : (getFile o.filename).run w = .ok code w :=
    valueOf_eq_ok.mpr ⟨FileCache.mustGetFile_eq_ok.mpr hcode, rfl⟩
  have hidle' : ∀ env, k.owasm.run code true env = (env, 0) := by
    intro env
    rw [Owasm.run, hidle]
    rfl
  rw [prepareRequest, run_get_bind, run_bind_of_ok (run_failIf_of_not (UInt64.not_lt.mpr hask)),
    run_bind_of_ok hvals]
  dsimp only [newRequest]
  rw [run_bind_of_ok hscript, run_bind_of_ok hfile,
    run_bind_of_ok (run_failIf_of_not (by simp [hidle']))]
  simp only [hidle', newExecEnv, ExecEnv.getRawRequests, if_neg hmax]
  exact ⟨_, rfl⟩

namespace Sample

/-- A new chain that starts from a genesis state, with one validator. -/
def newChain (data : GenesisState) : World :=
  { genesis with
    store := initGenesis data
    staking := { genesis.staking with bonded := [alice] } }

def idleScriptMsg : MsgCreateOracleScript := ⟨owner, [], [], idleScript, [], [], owner⟩

/-- A request to one validator. -/
def idleRequestMsg (oracleScriptID : OracleScriptID) : MsgRequestData :=
  ⟨oracleScriptID, [1], 1, 1, [], owner⟩

lemma getElem?_addFile_empty (data : Bytes) :
    (FileCache.empty.addFile data).files[getFilename data]? = some data := by
  have hnot : ¬FileCache.empty.files.contains (getFilename data) = true := by
    simp [FileCache.empty]
  rw [FileCache.addFile, if_neg hnot]
  exact Table.getElem?_insert_self _ _ _

/-- In any world with the validator of the new chain there is one way to sample it. -/
lemma getRandomValidators_single {w : World} {size : ℤ} (hsize : size = 1)
    (hbonded : w.staking.bonded = [alice]) (nextReqID : ℤ) :
    (getRandomValidators size nextReqID).run w = .ok [alice.operator] w := by
  subst hsize
  have htokens : ¬∃ v ∈ w.staking.bonded, v.tokens ≥ 2 ^ 64 := by
    rw [hbonded]
    decide
  have hweights : (w.staking.bonded.map fun v => UInt64.ofNat v.tokens) = [1000000] := by
    rw [hbonded]
    rfl
  have hoperators : w.staking.bonded.map Validator.operator = [alice.operator] := by
    rw [hbonded]
    rfl
  have hcount : ¬((w.staking.bonded.map Validator.operator).length : ℤ) < 1 := by
    rw [hoperators]
    decide
  rw [getRandomValidators, run_get_bind, run_bind_of_ok (run_failIf_of_not htokens),
    run_bind_of_ok (run_failIf_of_not hcount)]
  simp only [hweights, hoperators, chooseK_single]
  rfl

/-- The two messages are well formed, and the script is stored as it is. -/
lemma idle_messages :
    (idleRequestMsg 1).validateBasic = .ok () ∧ idleScriptMsg.validateBasic = .ok () ∧
      content keeper idleScriptMsg.code maxWasmCodeSize = .ok idleScript ∧
      idleScript ≠ doNotModify ∧ idleScript ≠ askingScript := by
  decide +kernel

lemma validateBasic_idleRequestMsg (oracleScriptID : OracleScriptID) :
    (idleRequestMsg oracleScriptID).validateBasic = .ok () :=
  idle_messages.1

/-- The new chain can make a request, and gives it the number after the last result. -/
lemma exists_request {data : GenesisState} (hvalid : data.params.validate = true) :
    ∃ w ls p, Run (Step keeper) (newChain data) ls w ∧ .prepareRequest p ∈ w.trace ∧
      p.id = (data.results.length : ℤ) + 1 := by
  obtain ⟨-, hbasic, hcontent, hmarker, hne⟩ := idle_messages
  have hacc : Accepts keeper (newChain data) (.createOracleScript idleScriptMsg) :=
    ⟨hbasic, handleMsgCreateOracleScript_run _ hcontent⟩
  obtain ⟨c, hc, hlogs⟩ := handleMsgCreateOracleScript_eq_ok hacc.run
  obtain rfl := Except.ok.inj (hcontent.symm.trans hc)
  obtain ⟨cs, hw₁, _⟩ := hlogs
  generalize hw : deliver keeper (.createOracleScript idleScriptMsg) (newChain data) = w₁ at hw₁
  have hparams : w₁.store.params = data.params := by
    rw [hw₁]
    exact initGenesis_proj Store.params (fun _ _ => rfl) (fun _ _ => rfl) data
  have hcount : w₁.store.getRequestCount = data.results.length := by
    rw [hw₁]
    exact congrArg (Option.getD · 0) (requestCount_initGenesis data)
  have hscript : w₁.store.oracleScripts[(initGenesis data).getOracleScriptCount + 1]? =
      some (idleScriptMsg.entry idleScript) := by
    rw [hw₁]
    exact Table.getElem?_insert_self _ _ _
  have hfile : w₁.files.files[(idleScriptMsg.entry idleScript).filename]? = some idleScript := by
    rw [hw₁, World.addFile, if_neg hmarker, MsgCreateOracleScript.entry, storedName, if_neg hmarker]
    exact getElem?_addFile_empty idleScript
  have hbonded : w₁.staking.bonded = [alice] := by
    rw [hw₁]
    exact congrArg Staking.bonded (World.addFile_staking _ _)
  have hidle : ∀ env, keeper.owasm idleScript true env = ([], 0) := by
    intro env
    simp [keeper, hne]
  obtain ⟨hraw, hask⟩ := positive_of_validate hvalid
  rw [← hparams] at hraw hask
  have hone : toInt64 (1 : UInt64).toNat = 1 := by decide
  have hvals := getRandomValidators_single hone hbonded (w₁.store.getRequestCount + 1)
  obtain ⟨w₂, hrun⟩ : ∃ w₂, (prepareRequest keeper
      (idleRequestMsg ((initGenesis data).getOracleScriptCount + 1)).toSpec none).run w₁ =
        .ok () w₂ :=
    prepareRequest_run hask hraw hvals hscript hfile hidle
  have hreq : Requests keeper w₁ _ _ _ w₂ := .message (validateBasic_idleRequestMsg _) hrun
  obtain ⟨p, r, hprep, _⟩ := hreq.stored
  have hcreate : Step keeper (newChain data) (.deliver (.createOracleScript idleScriptMsg)) w₁ :=
    congrArg some hw
  refine ⟨w₂, _, p, .cons trivial hcreate (.single trivial hreq.step), ?_, ?_⟩
  · obtain ⟨ds, rfl, _⟩ := hprep.logs
    simp [World.log, World.addRequest]
  · rw [hprep.id, hcount]

end Sample

/-- The parameters are valid in every state. -/
lemma params_valid {k : Keeper} {w : World} (h : ReachableWorld k w) :
    w.store.params.validate = true := by
  refine h.invariant (I := fun w => w.store.params.validate = true) ?_ ?_
  · rintro w ⟨hstore, _⟩
    rw [hstore]
    decide
  · intro w l w' hst hw
    cases step_turn hst with
    | aside haside =>
      rcases haside.params with hparams | ⟨_, hvalid⟩
      · rw [hparams]
        exact hw
      · exact hvalid
    | request _ hprep =>
      obtain ⟨cs, rfl, _⟩ := hprep.logs
      exact hw
    | report _ _ _ hlogs =>
      obtain ⟨cs, rfl, _⟩ := hlogs
      unfold World.acceptReport
      split_ifs <;> exact hw
    | endBlock hrun =>
      rw [(sameSetting_handleEndBlock hrun).params]
      exact hw

/-- The exported list of results is as long as the greatest request with a result. -/
lemma length_results_export {k : Keeper} {w : World} (h : ReachableWorld k w) :
    (∀ (id : ℤ) (result : Bytes), w.store.results[id]? = some result →
      id ≤ (exportGenesis w.store).results.length) ∧
      ((exportGenesis w.store).results.length = 0 ∨ ∃ result : Bytes,
        w.store.results[((exportGenesis w.store).results.length : ℤ)]? = some result) := by
  by_cases hnil : w.store.results.toList = []
  · have hempty : w.store.results = ∅ := Std.ExtTreeMap.toList_eq_nil_iff.mp hnil
    refine ⟨fun id result hres => ?_, .inl ?_⟩
    · simp [hempty] at hres
    · rw [exportGenesis_results_eq_nil_iff.mpr hempty]
      rfl
  · have hlen := length_fillResults 0 (fun e he => (result_pos h
      (Std.ExtTreeMap.mem_toList_iff_getElem?_eq_some.mp he)).1) (pairwise_toList _) hnil
    rw [zero_add] at hlen
    obtain ⟨⟨result, hlast⟩, hle⟩ := hlen
    refine ⟨fun id result hres => ?_, .inr ⟨result, ?_⟩⟩
    · exact hle (id, result) (Std.ExtTreeMap.mem_toList_iff_getElem?_eq_some.mpr hres)
    · exact Std.ExtTreeMap.mem_toList_iff_getElem?_eq_some.mp hlast

lemma hasResult_eq_true {s : Store} {id : RequestID} :
    s.hasResult id = true ↔ ∃ result, s.results[id]? = some result := by
  rw [Store.hasResult, Std.ExtTreeMap.contains_eq_isSome_getElem?, Option.isSome_iff_exists]

/-- **Request identifiers.**  The chains that start from the export of a state give none of its
identifiers to a new request exactly if it has no request, or the last one has a result. -/
theorem neverReissues_iff {k : Keeper} {w : World} (h : ReachableWorld k w) :
    w.store.NeverReissues w.store.getRequestCount ↔
      w.store.getRequestCount = 0 ∨ w.store.hasResult w.store.getRequestCount = true := by
  obtain ⟨hle, hlast⟩ := length_results_export h
  constructor
  · intro hnever
    by_contra hnot
    obtain ⟨hcount, hres⟩ := not_or.mp hnot
    have hvalid : (exportGenesis w.store).params.validate = true := params_valid h
    obtain ⟨w', ls, p, hrun, hp, hid⟩ := Sample.exists_request hvalid
    refine hnever _ _ _ _ ⟨rfl, rfl⟩ hrun p hp ?_
    -- the last result belongs to an earlier request, so the next number is taken
    have hnonneg : 0 ≤ w.store.getRequestCount :=
      (recorded_of_reachable h).stored.lastExpired_nonneg.trans
        (recorded_of_reachable h).stored.lastExpired_le
    have hlt : ((exportGenesis w.store).results.length : ℤ) < w.store.getRequestCount := by
      rcases hlast with h0 | ⟨result, hresult⟩
      · omega
      · refine lt_of_le_of_ne (result_pos h hresult).2 fun heq => hres ?_
        rw [hasResult_eq_true, ← heq]
        exact ⟨result, hresult⟩
    rw [hid]
    exact ⟨Int.le_add_of_nonneg_left (Int.natCast_nonneg _), hlt⟩
  · rintro hcount k' w₀ w' ls h₀ hrun p hp ⟨h1, h2⟩
    have hafter := prepared_after h₀ hrun hp
    rcases hcount with h0 | hres
    · rw [h0] at h2
      exact absurd (h1.trans h2) (by decide)
    · obtain ⟨result, hresult⟩ := hasResult_eq_true.mp hres
      exact absurd (h2.trans (hle _ result hresult)) (not_le.mpr hafter)

theorem neverReissues_secondResolved : ∃ w, ReachableWorld Sample.keeper w ∧
    w.store.getRequestCount = 2 ∧ w.store.NeverReissues 2 := by
  obtain ⟨w, hrun, -, hres, hcount⟩ := Sample.exists_secondResolved
  have hw : ReachableWorld Sample.keeper w := ⟨_, _, Sample.starts_genesis, hrun⟩
  refine ⟨w, hw, hcount, ?_⟩
  have hnever := (neverReissues_iff hw).mpr (.inr (by rw [hcount]; exact hres))
  rwa [hcount] at hnever

/-- A request is made and not resolved; after the migration its number is given away again. -/
theorem request_reissued : ∃ w, ReachableWorld Sample.keeper w ∧ w.store.getRequestCount = 1 ∧
    (∃ w₀ w' ls p, Starts (exportGenesis w.store) w₀ ∧ Run (Step Sample.keeper) w₀ ls w' ∧
      .prepareRequest p ∈ w'.trace ∧ p.id = 1) ∧ ¬w.store.NeverReissues 1 := by
  obtain ⟨w, hrun, hcount, hvalid, hres⟩ := exists_runWhere (f := next Sample.keeper)
    (P := fun _ _ => True) (s := Sample.genesis)
    (Sample.create Sample.askingScript ++
      [.deliver (.requestData (Sample.requestMsg 2 1)), .endBlock])
    (I := fun w => w.store.getRequestCount = 1 ∧ (exportGenesis w.store).params.validate = true ∧
      (exportGenesis w.store).results = []) (by decide +kernel)
  obtain ⟨w', ls, p, hrun', hp, hid⟩ := Sample.exists_request hvalid
  rw [hres] at hid
  refine ⟨w, ⟨_, _, Sample.starts_genesis, hrun⟩, hcount,
    ⟨_, w', ls, p, ⟨rfl, rfl⟩, hrun', hp, hid⟩, fun hnever => ?_⟩
  refine hnever _ _ _ _ ⟨rfl, rfl⟩ hrun' p hp ?_
  rw [hid]
  decide

/-! ## Reporters -/

/-- No validator is registered as his own reporter. -/
def Store.NoSelfReporter (s : Store) : Prop :=
  ∀ val : ValAddress, s.reporters[toLex (val, val)]? = none

lemma noSelfReporter_step {k : Keeper} {w w' : World} {l : Label} (h : Step k w l w')
    (hw : w.store.NoSelfReporter) : w'.store.NoSelfReporter := by
  cases step_effect h with
  | beginBlock _ => exact hw
  | rejected _ => exact hw
  | createDataSource _ _ hlogs =>
    obtain ⟨cs, rfl, _⟩ := hlogs
    exact hw
  | editDataSource _ _ _ _ hlogs =>
    obtain ⟨cs, rfl, _⟩ := hlogs
    exact hw
  | createOracleScript _ _ hlogs =>
    obtain ⟨cs, rfl, _⟩ := hlogs
    exact hw
  | editOracleScript _ _ _ _ hlogs =>
    obtain ⟨cs, rfl, _⟩ := hlogs
    exact hw
  | @addReporter m _ hnot hlogs =>
    obtain ⟨cs, rfl, _⟩ := hlogs
    intro val
    have hne : toLex (m.validator, m.reporter) ≠ toLex (val, val) := by
      intro heq
      obtain ⟨hval, hrep⟩ := Prod.mk.inj (toLex.injective heq)
      rw [Store.isReporter, hval, hrep] at hnot
      simp at hnot
    exact (Table.getElem?_insert_ne _ _ hne).trans (hw val)
  | @removeReporter m _ hlogs =>
    obtain ⟨cs, rfl, _⟩ := hlogs
    intro val
    show (w.store.reporters.erase _)[toLex (val, val)]? = none
    rw [Std.ExtTreeMap.getElem?_erase, hw val, ite_self]
  | request _ hprep =>
    obtain ⟨cs, rfl, _⟩ := hprep.logs
    exact hw
  | report _ _ _ hlogs =>
    obtain ⟨cs, rfl, _⟩ := hlogs
    unfold World.acceptReport
    split_ifs <;> exact hw
  | writeFile => exact hw
  | updateParams _ => exact hw
  | updateStaking => exact hw
  | updateChannels => exact hw
  | endBlock hrun =>
    intro val
    rw [(sameSetting_handleEndBlock hrun).reporters]
    exact hw val

lemma noSelfReporter_of_reachable {k : Keeper} {w : World} (h : ReachableWorld k w) :
    w.store.NoSelfReporter := by
  refine h.invariant (I := fun w => w.store.NoSelfReporter) ?_ noSelfReporter_step
  rintro w ⟨hstore, _⟩ val
  rw [hstore]
  rfl

/-- After the migration a validator is his only reporter. -/
lemma isReporter_migrated (s : Store) (val : ValAddress) (addr : AccAddress) :
    (initGenesis (exportGenesis s)).isReporter val addr = true ↔ val = addr := by
  have hempty : (initGenesis (exportGenesis s)).reporters = ∅ :=
    initGenesis_proj Store.reporters (fun _ _ => rfl) (fun _ _ => rfl) _
  rw [Store.isReporter, hempty]
  simp

/-- **Reporters.**  The migration keeps the authorisation of an address exactly if it is not a
registered one. -/
theorem isReporter_migrated_iff {k : Keeper} {w : World} (h : ReachableWorld k w)
    (val : ValAddress) (addr : AccAddress) :
    ((initGenesis (exportGenesis w.store)).isReporter val addr = true ↔
      w.store.isReporter val addr = true) ↔
      w.store.reporters.contains (toLex (val, addr)) = false := by
  rw [isReporter_migrated, Store.isReporter, Bool.or_eq_true, beq_iff_eq]
  constructor
  · intro hiff
    by_contra hcontains
    rw [Bool.not_eq_false] at hcontains
    obtain rfl := hiff.mpr (.inr hcontains)
    rw [Std.ExtTreeMap.contains_eq_isSome_getElem?, noSelfReporter_of_reachable h val] at hcontains
    cases hcontains
  · intro hnot
    rw [hnot]
    simp

namespace Sample

/-- The first validator lets an account report for him. -/
def addReporter : List Label := [.deliver (.addReporter ⟨alice.operator, owner⟩)]

lemma exists_addReporter : ∃ w, RunWhere (Step keeper) (fun _ _ => True) genesis addReporter w ∧
    w.store.reporters.contains (toLex (alice.operator, alice.operator)) = false ∧
      w.store.isReporter alice.operator owner = true ∧
      (initGenesis (exportGenesis w.store)).isReporter alice.operator owner = false :=
  exists_runWhere (f := next keeper) (P := fun _ _ => True) (s := genesis) addReporter
    (I := fun w =>
      w.store.reporters.contains (toLex (alice.operator, alice.operator)) = false ∧
        w.store.isReporter alice.operator owner = true ∧
        (initGenesis (exportGenesis w.store)).isReporter alice.operator owner = false)
    (by decide +kernel)

end Sample

theorem isReporter_migrated_self : ∃ w,
    Run (Step Sample.keeper) Sample.genesis Sample.addReporter w ∧
    ((initGenesis (exportGenesis w.store)).isReporter Sample.alice.operator Sample.alice.operator =
        true ↔ w.store.isReporter Sample.alice.operator Sample.alice.operator = true) := by
  obtain ⟨w, hrun, hnot, -⟩ := Sample.exists_addReporter
  exact ⟨w, hrun, (isReporter_migrated_iff ⟨_, _, Sample.starts_genesis, hrun⟩ _ _).mpr hnot⟩

/-- The account loses its authorisation. -/
theorem isReporter_lost : ∃ w, ReachableWorld Sample.keeper w ∧
    w.store.isReporter Sample.alice.operator Sample.owner = true ∧
    (initGenesis (exportGenesis w.store)).isReporter Sample.alice.operator Sample.owner =
      false := by
  obtain ⟨w, hrun, -, hbefore, hafter⟩ := Sample.exists_addReporter
  exact ⟨w, ⟨_, _, Sample.starts_genesis, hrun⟩, hbefore, hafter⟩

end Bandchain.Oracle
