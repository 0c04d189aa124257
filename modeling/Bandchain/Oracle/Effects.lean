import Bandchain.Lib.Hex
import Bandchain.Oracle.Frame
import Bandchain.Oracle.Simulation

/-!
# What each step does

One case for each way a step of the chain can go, with the world it leads to.  A handler that
succeeds changes the world in one place; apart from that only events are recorded.
-/

namespace Bandchain.Oracle

open Exec

/-! ## Files -/

/-- The content of the file that a message carries, decompressed if it is compressed. -/
def content (k : Keeper) (file : Bytes) (maxSize : ℕ) : Except Err Bytes := do
  let gz ← isGzipped file
  if gz then uncompress k file maxSize else .ok file

lemma plainFile_eq (k : Keeper) (file : Bytes) (maxSize : ℕ) :
    plainFile k file maxSize = valueOf (content k file maxSize) := by
  unfold plainFile content
  rcases isGzipped file with e | gz
  · rfl
  · cases gz <;> rfl

lemma plainFile_bind_eq_ok {β : Type} {k : Keeper} {file : Bytes} {maxSize : ℕ}
    {f : Bytes → OracleM β} {w w' : World} {b : β} :
    (plainFile k file maxSize >>= f).run w = .ok b w' ↔
      ∃ c, content k file maxSize = .ok c ∧ (f c).run w = .ok b w' := by
  rw [plainFile_eq, valueOf_bind_eq_ok]

/-- The name that `AddFile` returns. -/
def storedName (c : Bytes) : Bytes := if c = doNotModify then doNotModify else getFilename c

/-- The world after `AddFile`. -/
def World.addFile (w : World) (c : Bytes) : World :=
  if c = doNotModify then w else { w with files := w.files.addFile c }

lemma addFile_bind {β : Type} {c : Bytes} {f : Bytes → OracleM β} {w : World} :
    (addFile c >>= f).run w = (f (storedName c)).run (w.addFile c) := by
  unfold addFile storedName World.addFile
  split_ifs <;> rfl

@[simp] lemma World.addFile_store (w : World) (c : Bytes) : (w.addFile c).store = w.store := by
  unfold World.addFile
  split_ifs <;> rfl

@[simp] lemma World.addFile_header (w : World) (c : Bytes) : (w.addFile c).header = w.header := by
  unfold World.addFile
  split_ifs <;> rfl

@[simp] lemma World.addFile_staking (w : World) (c : Bytes) :
    (w.addFile c).staking = w.staking := by
  unfold World.addFile
  split_ifs <;> rfl

@[simp] lemma World.addFile_trace (w : World) (c : Bytes) : (w.addFile c).trace = w.trace := by
  unfold World.addFile
  split_ifs <;> rfl

lemma World.le_addFile (w : World) (c : Bytes) : w.files.Le (w.addFile c).files := by
  unfold World.addFile
  split_ifs
  · exact w.files.le_refl
  · exact w.files.le_addFile c

/-- After `AddFile` the content is on disk, unless it is the marker. -/
lemma World.has_addFile (w : World) {c : Bytes} (hc : c ≠ doNotModify) :
    (w.addFile c).files.Has (getFilename c) := by
  rw [World.addFile, if_neg hc]
  exact w.files.has_addFile c

/-! ## Data sources and oracle scripts -/

/-- The data source that a message creates with the given content. -/
def MsgCreateDataSource.entry (m : MsgCreateDataSource) (c : Bytes) : DataSource :=
  ⟨m.owner, m.name, m.description, storedName c⟩

/-- The oracle script that a message creates with the given content. -/
def MsgCreateOracleScript.entry (m : MsgCreateOracleScript) (c : Bytes) : OracleScript :=
  ⟨m.owner, m.name, m.description, storedName c, m.schema, m.sourceCodeURL⟩

/-- The file name after an edit with the given content. -/
def editedName (old c : Bytes) : Bytes := if c = doNotModify then old else getFilename c

/-- A data source after an edit: every field but the owner keeps its value if the new one is
the marker. -/
def MsgEditDataSource.edited (m : MsgEditDataSource) (d : DataSource) (c : Bytes) : DataSource where
  owner := m.owner
  name := modifyVal d.name m.name
  description := modifyVal d.description m.description
  filename := editedName d.filename c

/-- An oracle script after an edit. -/
def MsgEditOracleScript.edited (m : MsgEditOracleScript) (o : OracleScript) (c : Bytes) :
    OracleScript where
  owner := m.owner
  name := modifyVal o.name m.name
  description := modifyVal o.description m.description
  filename := editedName o.filename c
  schema := modifyVal o.schema m.schema
  sourceCodeURL := modifyVal o.sourceCodeURL m.sourceCodeURL

/-- A file name is never the marker. -/
lemma getFilename_ne (c : Bytes) : getFilename c ≠ doNotModify := by
  intro h
  have hlen := congrArg List.length h
  rw [getFilename, Bytes.length_hex, length_sha256] at hlen
  exact absurd hlen (by decide +kernel)

/-- The name returned by `AddFile` changes the old one exactly if the content is not the
marker. -/
lemma modifyVal_storedName (old c : Bytes) : modifyVal old (storedName c) = editedName old c := by
  unfold modifyVal storedName editedName
  by_cases hc : c = doNotModify
  · simp [hc]
  · simp [hc, getFilename_ne]

def Store.setDataSource (s : Store) (id : DataSourceID) (d : DataSource) : Store :=
  { s with dataSources := s.dataSources.insert id d }

def Store.setOracleScript (s : Store) (id : OracleScriptID) (o : OracleScript) : Store :=
  { s with oracleScripts := s.oracleScripts.insert id o }

lemma handleMsgCreateDataSource_eq_ok {k : Keeper} {m : MsgCreateDataSource} {w w' : World}
    {u : Unit} (h : (handleMsgCreateDataSource k m).run w = .ok u w') :
    ∃ c, content k m.executable maxExecutableSize = .ok c ∧
      Logs { w.addFile c with store := w.store.addDataSource (m.entry c) } w' := by
  rw [handleMsgCreateDataSource, plainFile_bind_eq_ok] at h
  obtain ⟨c, hc, h⟩ := h
  rw [addFile_bind, run_modifyStore_bind, run_get_bind] at h
  refine ⟨c, hc, ?_⟩
  have hlogs := logs_of_ok (logs_record (by trivial)) h
  rwa [World.addFile_store] at hlogs

lemma handleMsgCreateOracleScript_eq_ok {k : Keeper} {m : MsgCreateOracleScript} {w w' : World}
    {u : Unit} (h : (handleMsgCreateOracleScript k m).run w = .ok u w') :
    ∃ c, content k m.code maxWasmCodeSize = .ok c ∧
      Logs { w.addFile c with store := w.store.addOracleScript (m.entry c) } w' := by
  rw [handleMsgCreateOracleScript, plainFile_bind_eq_ok] at h
  obtain ⟨c, hc, h⟩ := h
  rw [addFile_bind, run_modifyStore_bind, run_get_bind] at h
  refine ⟨c, hc, ?_⟩
  have hlogs := logs_of_ok (logs_record (by trivial)) h
  rwa [World.addFile_store] at hlogs

lemma handleMsgEditDataSource_eq_ok {k : Keeper} {m : MsgEditDataSource} {w w' : World}
    {u : Unit} (h : (handleMsgEditDataSource k m).run w = .ok u w') :
    ∃ d c, w.store.dataSources[m.dataSourceID]? = some d ∧ d.owner = m.sender ∧
      content k m.executable maxExecutableSize = .ok c ∧
      Logs { w.addFile c with
        store := w.store.setDataSource m.dataSourceID (m.edited d c) } w' := by
  simp only [handleMsgEditDataSource, readStore_bind_eq_ok, failIf_bind_eq_ok,
    plainFile_bind_eq_ok, addFile_bind, Store.getDataSource_eq_ok, not_not] at h
  obtain ⟨d, hd, howner, c, hc, h⟩ := h
  obtain ⟨_, w₁, hedit, hevent⟩ := bind_eq_ok.mp h
  simp only [mustEditDataSource, readStore_bind_eq_ok, Store.mustGetDataSource_eq_ok,
    World.addFile_store] at hedit
  obtain ⟨d', hd', hset⟩ := hedit
  obtain rfl := Option.some.inj (hd.symm.trans hd')
  obtain rfl := (EStateM.Result.ok.inj hset).2
  refine ⟨d, c, hd, howner, hc, ?_⟩
  have hlogs := logs_of_ok (logs_record (by trivial)) hevent
  simp only [modifyVal_storedName, World.addFile_store] at hlogs
  exact hlogs

lemma handleMsgEditOracleScript_eq_ok {k : Keeper} {m : MsgEditOracleScript} {w w' : World}
    {u : Unit} (h : (handleMsgEditOracleScript k m).run w = .ok u w') :
    ∃ o c, w.store.oracleScripts[m.oracleScriptID]? = some o ∧ o.owner = m.sender ∧
      content k m.code maxWasmCodeSize = .ok c ∧
      Logs { w.addFile c with
        store := w.store.setOracleScript m.oracleScriptID (m.edited o c) } w' := by
  simp only [handleMsgEditOracleScript, readStore_bind_eq_ok, failIf_bind_eq_ok,
    plainFile_bind_eq_ok, addFile_bind, Store.getOracleScript_eq_ok, not_not] at h
  obtain ⟨o, ho, howner, c, hc, h⟩ := h
  obtain ⟨_, w₁, hedit, hevent⟩ := bind_eq_ok.mp h
  simp only [mustEditOracleScript, readStore_bind_eq_ok, Store.mustGetOracleScript_eq_ok,
    World.addFile_store] at hedit
  obtain ⟨o', ho', hset⟩ := hedit
  obtain rfl := Option.some.inj (ho.symm.trans ho')
  obtain rfl := (EStateM.Result.ok.inj hset).2
  refine ⟨o, c, ho, howner, hc, ?_⟩
  have hlogs := logs_of_ok (logs_record (by trivial)) hevent
  simp only [modifyVal_storedName, World.addFile_store] at hlogs
  exact hlogs

/-! ## Reporters -/

def World.setReporters (w : World) (reporters : Table (ValAddress ×ₗ AccAddress) Unit) : World :=
  { w with store := { w.store with reporters := reporters } }

lemma handleMsgAddReporter_eq_ok {m : MsgAddReporter} {w w' : World} {u : Unit}
    (h : (handleMsgAddReporter m).run w = .ok u w') :
    w.store.isReporter m.validator m.reporter = false ∧
      Logs (w.setReporters (w.store.reporters.insert (toLex (m.validator, m.reporter)) ())) w' := by
  obtain ⟨_, w₁, hadd, hevent⟩ := bind_eq_ok.mp h
  simp only [addReporter, run_get_bind, failIf_bind_eq_ok, Bool.not_eq_true] at hadd
  obtain ⟨hnot, hset⟩ := hadd
  obtain rfl := (EStateM.Result.ok.inj hset).2
  exact ⟨hnot, logs_of_ok (logs_record (by trivial)) hevent⟩

lemma handleMsgRemoveReporter_eq_ok {m : MsgRemoveReporter} {w w' : World} {u : Unit}
    (h : (handleMsgRemoveReporter m).run w = .ok u w') :
    Logs (w.setReporters (w.store.reporters.erase (toLex (m.validator, m.reporter)))) w' := by
  obtain ⟨_, w₁, hremove, hevent⟩ := bind_eq_ok.mp h
  simp only [removeReporter, run_get_bind, failIf_bind_eq_ok] at hremove
  obtain ⟨_, hset⟩ := hremove
  obtain rfl := (EStateM.Result.ok.inj hset).2
  exact logs_of_ok (logs_record (by trivial)) hevent

/-! ## All steps -/

/-- The ways a step can go. -/
inductive Effect (k : Keeper) (w : World) : Label → World → Prop
  | beginBlock {header : Header} :
      w.header.height < header.height → Effect k w (.beginBlock header) { w with header := header }
  /-- A message that fails; the files that its handler wrote stay. -/
  | rejected {m : Msg} {files : FileCache} :
      w.files.Le files → Effect k w (.deliver m) { w with files := files }
  | createDataSource {m : MsgCreateDataSource} {c : Bytes} {w' : World} :
      m.validateBasic = .ok () → content k m.executable maxExecutableSize = .ok c →
      Logs { w.addFile c with store := w.store.addDataSource (m.entry c) } w' →
      Effect k w (.deliver (.createDataSource m)) w'
  | editDataSource {m : MsgEditDataSource} {d : DataSource} {c : Bytes} {w' : World} :
      m.validateBasic = .ok () → w.store.dataSources[m.dataSourceID]? = some d →
      d.owner = m.sender → content k m.executable maxExecutableSize = .ok c →
      Logs { w.addFile c with
        store := w.store.setDataSource m.dataSourceID (m.edited d c) } w' →
      Effect k w (.deliver (.editDataSource m)) w'
  | createOracleScript {m : MsgCreateOracleScript} {c : Bytes} {w' : World} :
      m.validateBasic = .ok () → content k m.code maxWasmCodeSize = .ok c →
      Logs { w.addFile c with store := w.store.addOracleScript (m.entry c) } w' →
      Effect k w (.deliver (.createOracleScript m)) w'
  | editOracleScript {m : MsgEditOracleScript} {o : OracleScript} {c : Bytes} {w' : World} :
      m.validateBasic = .ok () → w.store.oracleScripts[m.oracleScriptID]? = some o →
      o.owner = m.sender → content k m.code maxWasmCodeSize = .ok c →
      Logs { w.addFile c with
        store := w.store.setOracleScript m.oracleScriptID (m.edited o c) } w' →
      Effect k w (.deliver (.editOracleScript m)) w'
  | addReporter {m : MsgAddReporter} {w' : World} :
      w.store.isReporter m.validator m.reporter = false →
      Logs (w.setReporters (w.store.reporters.insert (toLex (m.validator, m.reporter)) ())) w' →
      Effect k w (.deliver (.addReporter m)) w'
  | removeReporter {m : MsgRemoveReporter} {w' : World} :
      Logs (w.setReporters (w.store.reporters.erase (toLex (m.validator, m.reporter)))) w' →
      Effect k w (.deliver (.removeReporter m)) w'
  | request {l : Label} {packet : OracleRequestPacketData} {info : Option IBCInfo} {w' : World}
      {p : PrepareRecord} {r : Request} :
      Requests k w l packet info w' → Prepared packet.toSpec info w p r w' → Effect k w l w'
  | report {m : MsgReportData} {r : Request} {w' : World} :
      m.validateBasic = .ok () → w.store.isReporter m.validator m.reporter = true →
      Reportable w m.requestID r (m.report w) →
      Logs (w.acceptReport m.requestID r (m.report w)) w' →
      Effect k w (.deliver (.reportData m)) w'
  | writeFile {data : Bytes} :
      Effect k w (.writeFile data) { w with files := w.files.addFile data }
  | updateParams {params : Params} : params.validate = true →
      Effect k w (.updateParams params) { w with store := { w.store with params := params } }
  | updateStaking {staking : Staking} :
      Effect k w (.updateStaking staking) { w with staking := staking }
  | updateChannels {channels : Channels} :
      Effect k w (.updateChannels channels) { w with channels := channels }
  | endBlock {w' : World} : (handleEndBlock k).run w = .ok () w' → Effect k w .endBlock w'

lemma handle_effect {k : Keeper} {w w' : World} {m : Msg} (hbasic : m.validateBasic = .ok ())
    (h : (m.handle k).run w = .ok () w') : Effect k w (.deliver m) w' := by
  cases m with
  | createDataSource m =>
    obtain ⟨c, hc, hlogs⟩ := handleMsgCreateDataSource_eq_ok h
    exact .createDataSource hbasic hc hlogs
  | editDataSource m =>
    obtain ⟨d, c, hd, howner, hc, hlogs⟩ := handleMsgEditDataSource_eq_ok h
    exact .editDataSource hbasic hd howner hc hlogs
  | createOracleScript m =>
    obtain ⟨c, hc, hlogs⟩ := handleMsgCreateOracleScript_eq_ok h
    exact .createOracleScript hbasic hc hlogs
  | editOracleScript m =>
    obtain ⟨o, c, ho, howner, hc, hlogs⟩ := handleMsgEditOracleScript_eq_ok h
    exact .editOracleScript hbasic ho howner hc hlogs
  | requestData m =>
    have hreq : Requests k w _ _ _ w' := .message hbasic h
    obtain ⟨p, r, hprep, _⟩ := hreq.stored
    exact .request hreq hprep
  | reportData m =>
    obtain ⟨hreporter, r, hrep, hlogs⟩ := handleMsgReportData_eq_ok h
    exact .report hbasic hreporter hrep hlogs
  | addReporter m =>
    obtain ⟨hnot, hlogs⟩ := handleMsgAddReporter_eq_ok h
    exact .addReporter hnot hlogs
  | removeReporter m => exact .removeReporter (handleMsgRemoveReporter_eq_ok h)
  | recvPacket q =>
    obtain ⟨_, _, hreq⟩ := requests_of_onRecvPacket h
    obtain ⟨p, r, hprep, _⟩ := hreq.stored
    exact .request hreq hprep

/-- **Inversion.**  Every step goes one of the ways. -/
theorem step_effect {k : Keeper} {w w' : World} {l : Label} (h : Step k w l w') :
    Effect k w l w' := by
  change next k l w = some w' at h
  cases l with
  | beginBlock header =>
    simp only [next] at h
    split_ifs at h with hlt
    obtain rfl := Option.some.inj h
    exact .beginBlock hlt
  | deliver m =>
    obtain rfl := Option.some.inj h
    unfold deliver
    rcases hbasic : m.validateBasic with e | u
    · exact .rejected w.files.le_refl
    · rcases hrun : (m.handle k).run w with ⟨u, w'⟩ | ⟨e, w'⟩
      · exact handle_effect hbasic hrun
      · exact .rejected (quiet_rollback hrun).files
  | writeFile data =>
    obtain rfl := Option.some.inj h
    exact .writeFile
  | updateParams params =>
    simp only [next] at h
    split_ifs at h with hvalid
    obtain rfl := Option.some.inj h
    exact .updateParams hvalid
  | updateStaking staking =>
    obtain rfl := Option.some.inj h
    exact .updateStaking
  | updateChannels channels =>
    obtain rfl := Option.some.inj h
    exact .updateChannels
  | endBlock => exact .endBlock (step_endBlock_iff.mp h)

/-- No step removes a file. -/
lemma Effect.files_le {k : Keeper} {w w' : World} {l : Label} (h : Effect k w l w') :
    w.files.Le w'.files := by
  cases h with
  | beginBlock _ => exact w.files.le_refl
  | rejected hle => exact hle
  | createDataSource _ _ hlogs =>
    obtain ⟨cs, rfl, _⟩ := hlogs
    exact w.le_addFile _
  | editDataSource _ _ _ _ hlogs =>
    obtain ⟨cs, rfl, _⟩ := hlogs
    exact w.le_addFile _
  | createOracleScript _ _ hlogs =>
    obtain ⟨cs, rfl, _⟩ := hlogs
    exact w.le_addFile _
  | editOracleScript _ _ _ _ hlogs =>
    obtain ⟨cs, rfl, _⟩ := hlogs
    exact w.le_addFile _
  | addReporter _ hlogs =>
    obtain ⟨cs, rfl, _⟩ := hlogs
    exact w.files.le_refl
  | removeReporter hlogs =>
    obtain ⟨cs, rfl, _⟩ := hlogs
    exact w.files.le_refl
  | request _ hprep => exact hprep.quiet.files
  | report _ _ _ hlogs =>
    obtain ⟨cs, rfl, _⟩ := hlogs
    unfold World.acceptReport
    split_ifs <;> exact w.files.le_refl
  | writeFile => exact w.files.le_addFile _
  | updateParams _ => exact w.files.le_refl
  | updateStaking => exact w.files.le_refl
  | updateChannels => exact w.files.le_refl
  | endBlock hrun =>
    rw [(sameSetting_handleEndBlock hrun).files]
    exact w.files.le_refl

/-! ## Steps beside the requests -/

/-- The step from `w` to `w'` leaves requests, reports, results and report infos alone, and
records only events. -/
structure Aside (w : World) (l : Label) (w' : World) : Prop where
  height : w.header.height ≤ w'.header.height
  requestCount : w'.store.requestCount = w.store.requestCount
  requestLastExpired : w'.store.requestLastExpired = w.store.requestLastExpired
  requests : w'.store.requests = w.store.requests
  reports : w'.store.reports = w.store.reports
  reportInfos : w'.store.reportInfos = w.store.reportInfos
  results : w'.store.results = w.store.results
  params : w'.store.params = w.store.params ∨
    l = .updateParams w'.store.params ∧ w'.store.params.validate = true
  staking : w'.staking = w.staking ∨ l = .updateStaking w'.staking
  trace : ∃ cs, w'.trace = w.trace ++ cs ∧ ∀ c ∈ cs, c.IsEvent

/-- A change of the store outside requests, reports, results, report infos and parameters, and
of the files. -/
lemma Aside.of_logs {w w₁ w' : World} {l : Label} (h : Logs w₁ w') (hheader : w₁.header = w.header)
    (hstaking : w₁.staking = w.staking) (htrace : w₁.trace = w.trace)
    (hcount : w₁.store.requestCount = w.store.requestCount)
    (hcursor : w₁.store.requestLastExpired = w.store.requestLastExpired)
    (hrequests : w₁.store.requests = w.store.requests)
    (hreports : w₁.store.reports = w.store.reports)
    (hinfos : w₁.store.reportInfos = w.store.reportInfos)
    (hresults : w₁.store.results = w.store.results)
    (hparams : w₁.store.params = w.store.params) : Aside w l w' := by
  obtain ⟨cs, rfl, hcs⟩ := h
  refine ⟨?_, hcount, hcursor, hrequests, hreports, hinfos, hresults, .inl hparams,
    .inl hstaking, cs, ?_, hcs⟩
  · exact (congrArg Header.height hheader).ge
  · rw [World.log, htrace]

/-- The steps that matter to requests: those that make one, those that report, and the ends of
blocks. -/
inductive Turn (k : Keeper) (w : World) : Label → World → Prop
  | aside {l : Label} {w' : World} : Aside w l w' → Turn k w l w'
  | request {l : Label} {packet : OracleRequestPacketData} {info : Option IBCInfo} {w' : World}
      {p : PrepareRecord} {r : Request} :
      Requests k w l packet info w' → Prepared packet.toSpec info w p r w' → Turn k w l w'
  | report {m : MsgReportData} {r : Request} {w' : World} :
      m.validateBasic = .ok () → w.store.isReporter m.validator m.reporter = true →
      Reportable w m.requestID r (m.report w) →
      Logs (w.acceptReport m.requestID r (m.report w)) w' →
      Turn k w (.deliver (.reportData m)) w'
  | endBlock {w' : World} : (handleEndBlock k).run w = .ok () w' → Turn k w .endBlock w'

lemma aside_of_files {w : World} {l : Label} (files : FileCache) :
    Aside w l { w with files := files } :=
  ⟨le_rfl, rfl, rfl, rfl, rfl, rfl, rfl, .inl rfl, .inl rfl, [], (List.append_nil _).symm, by simp⟩

lemma step_turn {k : Keeper} {w w' : World} {l : Label} (h : Step k w l w') : Turn k w l w' := by
  cases step_effect h with
  | beginBlock hlt =>
    exact .aside ⟨hlt.le, rfl, rfl, rfl, rfl, rfl, rfl, .inl rfl, .inl rfl, [],
      (List.append_nil _).symm, by simp⟩
  | rejected _ => exact .aside (aside_of_files _)
  | createDataSource _ _ hlogs =>
    exact .aside (.of_logs hlogs (by simp) (by simp) (by simp) rfl rfl rfl rfl rfl rfl rfl)
  | editDataSource _ _ _ _ hlogs =>
    exact .aside (.of_logs hlogs (by simp) (by simp) (by simp) rfl rfl rfl rfl rfl rfl rfl)
  | createOracleScript _ _ hlogs =>
    exact .aside (.of_logs hlogs (by simp) (by simp) (by simp) rfl rfl rfl rfl rfl rfl rfl)
  | editOracleScript _ _ _ _ hlogs =>
    exact .aside (.of_logs hlogs (by simp) (by simp) (by simp) rfl rfl rfl rfl rfl rfl rfl)
  | addReporter _ hlogs => exact .aside (.of_logs hlogs rfl rfl rfl rfl rfl rfl rfl rfl rfl rfl)
  | removeReporter hlogs => exact .aside (.of_logs hlogs rfl rfl rfl rfl rfl rfl rfl rfl rfl rfl)
  | request hreq hprep => exact .request hreq hprep
  | report hbasic hreporter hrep hlogs => exact .report hbasic hreporter hrep hlogs
  | writeFile => exact .aside (aside_of_files _)
  | updateParams hvalid =>
    exact .aside ⟨le_rfl, rfl, rfl, rfl, rfl, rfl, rfl, .inr ⟨rfl, hvalid⟩, .inl rfl, [],
      (List.append_nil _).symm, by simp⟩
  | updateStaking =>
    exact .aside ⟨le_rfl, rfl, rfl, rfl, rfl, rfl, rfl, .inl rfl, .inr rfl, [],
      (List.append_nil _).symm, by simp⟩
  | updateChannels =>
    exact .aside ⟨le_rfl, rfl, rfl, rfl, rfl, rfl, rfl, .inl rfl, .inl rfl, [],
      (List.append_nil _).symm, by simp⟩
  | endBlock hrun => exact .endBlock hrun

end Bandchain.Oracle
