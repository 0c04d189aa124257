import Bandchain.Oracle.Chain
import Bandchain.Oracle.Ledger

/-!
# Quiet programs

The view of a world as a ledger, and the programs that are quiet on it: at every exit,
successful or not, requests, reports, the queue, the results and the cursor are as before,
and every script that was ready to run still is.
-/

namespace Bandchain.Oracle

open Exec

/-! ## The view of a world -/

/-- The oracle scripts that exist and whose code is in the file cache. -/
def World.ready (w : World) : Set OracleScriptID :=
  { id | ∃ o : OracleScript, w.store.oracleScripts[id]? = some o ∧ w.files.Has o.filename }

/-- Oracle scripts are stored for identifiers up to their count only. -/
def World.ScriptsBounded (w : World) : Prop :=
  ∀ (id : ℤ) (o : OracleScript), w.store.oracleScripts[id]? = some o →
    id ≤ w.store.getOracleScriptCount

/-- The ledger of a world in which the requests `todo` are still to be resolved. -/
def World.ledgerWith (todo : List RequestID) (w : World) : Ledger where
  requestCount := w.store.getRequestCount
  requestLastExpired := w.store.getRequestLastExpired
  pending := todo
  requests := w.store.requests
  reports := w.store.reports
  results := w.store.results
  ready := w.ready
  trace := w.trace

/-- The ledger of a world. -/
def World.ledger (w : World) : Ledger := w.ledgerWith w.store.getPendingResolveList

/-! ## Quiet changes -/

/-- The second world has the ledger of the first, up to scripts that became ready and calls
that say nothing about requests.  That no script is overwritten by a new one rests on the
count of scripts. -/
structure Quiet (w w' : World) : Prop where
  requestCount : w'.store.requestCount = w.store.requestCount
  requestLastExpired : w'.store.requestLastExpired = w.store.requestLastExpired
  pendingResolveList : w'.store.pendingResolveList = w.store.pendingResolveList
  requests : w'.store.requests = w.store.requests
  reports : w'.store.reports = w.store.reports
  results : w'.store.results = w.store.results
  files : w.files.Le w'.files
  scripts : w.ScriptsBounded → w'.ScriptsBounded ∧ w.ready ⊆ w'.ready
  trace : ∃ cs, w'.trace = w.trace ++ cs ∧ ∀ c ∈ cs, c.IsQuiet

namespace Quiet

lemma refl (w : World) : Quiet w w :=
  ⟨rfl, rfl, rfl, rfl, rfl, rfl, w.files.le_refl, fun h => ⟨h, subset_rfl⟩, [], by simp,
    by simp⟩

lemma trans {w w' w'' : World} (h : Quiet w w') (h' : Quiet w' w'') : Quiet w w'' := by
  obtain ⟨cs, hcs, hq⟩ := h.trace
  obtain ⟨cs', hcs', hq'⟩ := h'.trace
  refine ⟨h'.1.trans h.1, h'.2.trans h.2, h'.3.trans h.3, h'.4.trans h.4, h'.5.trans h.5,
    h'.6.trans h.6, h.files.trans h'.files, fun hb => ?_, cs ++ cs', ?_, ?_⟩
  · obtain ⟨hb', hsub⟩ := h.scripts hb
    obtain ⟨hb'', hsub'⟩ := h'.scripts hb'
    exact ⟨hb'', hsub.trans hsub'⟩
  · rw [hcs', hcs, List.append_assoc]
  · intro c hc
    exact (List.mem_append.mp hc).elim (hq c) (hq' c)

instance : IsPreorder World Quiet where
  refl := refl
  trans _ _ _ := trans

/-- A world that only differs in what the ledger does not see. -/
lemma of_same {w w' : World} (hstore : w'.store = w.store) (hfiles : w.files.Le w'.files)
    (htrace : w'.trace = w.trace) : Quiet w w' := by
  refine ⟨by rw [hstore], by rw [hstore], by rw [hstore], by rw [hstore], by rw [hstore],
    by rw [hstore], hfiles, fun hb => ⟨?_, ?_⟩, [], by simp [htrace], by simp⟩
  · unfold World.ScriptsBounded
    rw [hstore]
    exact hb
  · rintro id ⟨o, ho, hf⟩
    exact ⟨o, by rw [hstore]; exact ho, hfiles _ hf⟩

/-- The abstract step of a quiet change. -/
lemma step {w w' : World} (h : Quiet w w') (hb : w.ScriptsBounded) (todo : List RequestID) :
    Ledger.Step (w.ledgerWith todo) .quiet (w'.ledgerWith todo) := by
  obtain ⟨cs, hcs, hq⟩ := h.trace
  have heq : w'.ledgerWith todo =
      { (w.ledgerWith todo).log cs with ready := w'.ready } := by
    simp only [World.ledgerWith, Ledger.log, Store.getRequestCount, Store.getRequestLastExpired,
      h.requestCount, h.requestLastExpired, h.requests, h.reports, h.results, hcs]
  rw [heq]
  exact .quiet (h.scripts hb).2 hq

end Quiet

/-- The quiet step of a world's ledger. -/
lemma Quiet.step_ledger {w w' : World} (h : Quiet w w') (hb : w.ScriptsBounded) :
    Ledger.Step w.ledger .quiet w'.ledger := by
  have hpend : w'.store.getPendingResolveList = w.store.getPendingResolveList := by
    rw [Store.getPendingResolveList, h.pendingResolveList]
    rfl
  rw [World.ledger, World.ledger, hpend]
  exact h.step hb _

/-! ## Only the trace grows -/

/-- The world after some calls are recorded. -/
def World.log (w : World) (cs : List Call) : World := { w with trace := w.trace ++ cs }

/-- The second world differs from the first by some events. -/
def Logs (w w' : World) : Prop := ∃ cs, w' = w.log cs ∧ ∀ c ∈ cs, c.IsEvent

instance : IsPreorder World Logs where
  refl w := ⟨[], by simp [World.log], by simp⟩
  trans := by
    rintro w _ _ ⟨cs, rfl, hcs⟩ ⟨ds, rfl, hds⟩
    refine ⟨cs ++ ds, by simp [World.log], ?_⟩
    intro c hc
    exact (List.mem_append.mp hc).elim (hcs c) (hds c)

lemma Logs.quiet {w w' : World} (h : Logs w w') : Quiet w w' := by
  obtain ⟨cs, rfl, hcs⟩ := h
  exact ⟨rfl, rfl, rfl, rfl, rfl, rfl, w.files.le_refl, fun hb => ⟨hb, subset_rfl⟩, cs, rfl,
    fun c hc => (hcs c hc).isQuiet⟩

/-! ## Files only grow -/

/-- The second world has the files of the first. -/
def KeepsFiles (w w' : World) : Prop := w.files.Le w'.files

instance : IsPreorder World KeepsFiles where
  refl w := w.files.le_refl
  trans _ _ _ h h' := h.trans h'

section Programs

variable {R : World → World → Prop}

lemma Exits.modifyStore {f : Store → Store} (h : ∀ w, R w { w with store := f w.store }) :
    Exits R (modifyStore f) := Exits.modify h

lemma Exits.readStore [IsPreorder World R] {α : Type} (f : Store → Except Err α) :
    Exits R (readStore f) :=
  Exits.get_bind fun _ => Exits.valueOf _

lemma quiet_of_ok {α : Type} {x : OracleM α} (h : Exits Quiet x) {w w' : World} {a : α}
    (hx : x.run w = .ok a w') : Quiet w w' := by
  have := h w
  rwa [ExitsAt, hx] at this

lemma logs_of_ok {α : Type} {x : OracleM α} (h : Exits Logs x) {w w' : World} {a : α}
    (hx : x.run w = .ok a w') : Logs w w' := by
  have := h w
  rwa [ExitsAt, hx] at this

lemma logs_record {c : Call} (hc : c.IsEvent) : Exits Logs (record c) :=
  fun _ => ⟨[c], rfl, by simpa using hc⟩

lemma quiet_emitEvent (type : String) (attributes : List (String × AttrValue)) :
    Exits Quiet (emitEvent type attributes) :=
  fun w => (logs_record (c := .event ⟨type, attributes⟩) trivial w).quiet

lemma exits_plainFile [IsPreorder World R] (k : Keeper) (file : Bytes) (maxSize : ℕ) :
    Exits R (plainFile k file maxSize) :=
  (Exits.valueOf _).bind fun _ => Exits.ite (Exits.valueOf _) (Exits.pure _)

lemma exits_addFile [IsPreorder World R] {file : Bytes}
    (hfile : ∀ w : World, R w { w with files := w.files.addFile file }) :
    Exits R (addFile file) :=
  Exits.ite (Exits.pure _) ((Exits.modify hfile).bind fun _ => Exits.pure _)

lemma quiet_addFile (file : Bytes) : Exits Quiet (addFile file) :=
  exits_addFile fun w => .of_same rfl (w.files.le_addFile file) rfl

/-- The parts of the store that the ledger sees, apart from the scripts. -/
structure Store.SameRequests (s s' : Store) : Prop where
  requestCount : s'.requestCount = s.requestCount
  requestLastExpired : s'.requestLastExpired = s.requestLastExpired
  pendingResolveList : s'.pendingResolveList = s.pendingResolveList
  requests : s'.requests = s.requests
  reports : s'.reports = s.reports
  results : s'.results = s.results

/-- A change of the store outside the scripts and what else the ledger sees. -/
lemma quiet_of_store {w w' : World} (h : w.store.SameRequests w'.store)
    (hscripts : w'.store.oracleScripts = w.store.oracleScripts)
    (hcount : w'.store.oracleScriptCount = w.store.oracleScriptCount)
    (hfiles : w'.files = w.files) (htrace : w'.trace = w.trace) : Quiet w w' := by
  refine ⟨h.1, h.2, h.3, h.4, h.5, h.6, by rw [hfiles]; exact w.files.le_refl,
    fun hb => ⟨?_, ?_⟩, [], by simp [htrace], by simp⟩
  · unfold World.ScriptsBounded Store.getOracleScriptCount
    rw [hscripts, hcount]
    exact hb
  · rintro id ⟨o, ho, hf⟩
    exact ⟨o, by rw [hscripts]; exact ho, by rw [hfiles]; exact hf⟩

/-! ## Data sources and reporters -/

lemma quiet_handleMsgCreateDataSource (k : Keeper) (m : MsgCreateDataSource) :
    Exits Quiet (handleMsgCreateDataSource k m) := by
  refine (exits_plainFile _ _ _).bind fun _ => (quiet_addFile _).bind fun _ =>
    (Exits.modifyStore fun w => ?_).bind fun _ => Exits.get_bind fun _ => quiet_emitEvent _ _
  exact quiet_of_store ⟨rfl, rfl, rfl, rfl, rfl, rfl⟩ rfl rfl rfl rfl

lemma quiet_mustEditDataSource (id : DataSourceID) (new : DataSource) :
    Exits Quiet (mustEditDataSource id new) := by
  refine (Exits.readStore _).bind fun _ => Exits.modifyStore fun w => ?_
  exact quiet_of_store ⟨rfl, rfl, rfl, rfl, rfl, rfl⟩ rfl rfl rfl rfl

lemma quiet_handleMsgEditDataSource (k : Keeper) (m : MsgEditDataSource) :
    Exits Quiet (handleMsgEditDataSource k m) :=
  (Exits.readStore _).bind fun _ => (Exits.failIf _).bind fun _ =>
    (exits_plainFile _ _ _).bind fun _ => (quiet_addFile _).bind fun _ =>
    (quiet_mustEditDataSource _ _).bind fun _ => quiet_emitEvent _ _

lemma quiet_handleMsgAddReporter (m : MsgAddReporter) : Exits Quiet (handleMsgAddReporter m) := by
  refine Exits.bind (Exits.get_bind fun _ => (Exits.failIf _).bind fun _ =>
    Exits.modifyStore fun w => ?_) fun _ => quiet_emitEvent _ _
  exact quiet_of_store ⟨rfl, rfl, rfl, rfl, rfl, rfl⟩ rfl rfl rfl rfl

lemma quiet_handleMsgRemoveReporter (m : MsgRemoveReporter) :
    Exits Quiet (handleMsgRemoveReporter m) := by
  refine Exits.bind (Exits.get_bind fun _ => (Exits.failIf _).bind fun _ =>
    Exits.modifyStore fun w => ?_) fun _ => quiet_emitEvent _ _
  exact quiet_of_store ⟨rfl, rfl, rfl, rfl, rfl, rfl⟩ rfl rfl rfl rfl

/-! ## Oracle scripts -/

/-- The name that `AddFile` returns is the marker or the name of a cached file. -/
lemma addFile_eq_ok {file name : Bytes} {w w' : World} (h : (addFile file).run w = .ok name w') :
    name = doNotModify ∨ w'.files.Has name := by
  unfold addFile at h
  split_ifs at h with hfile
  · obtain ⟨rfl, rfl⟩ : doNotModify = name ∧ w = w' := by simpa using h
    exact .inl rfl
  · rw [bind_eq_ok] at h
    obtain ⟨_, _, hmod, hret⟩ := h
    obtain rfl : _ = _ := (EStateM.Result.ok.inj hmod).2
    obtain ⟨rfl, rfl⟩ := EStateM.Result.ok.inj hret
    exact .inr (w.files.has_addFile file)

/-- A new script does not take the place of another one. -/
lemma quiet_addOracleScript (o : OracleScript) :
    Exits Quiet (modifyStore (·.addOracleScript o)) := by
  refine Exits.modifyStore fun w => ⟨rfl, rfl, rfl, rfl, rfl, rfl, w.files.le_refl,
    fun hb => ⟨?_, ?_⟩, [], by simp, by simp⟩
  · intro id o' ho'
    show id ≤ w.store.getOracleScriptCount + 1
    by_cases hid : w.store.getOracleScriptCount + 1 = id
    · exact hid.ge
    · have hold : w.store.oracleScripts[id]? = some o' := by
        simpa only [Store.addOracleScript, Table.getElem?_insert_ne _ _ hid] using ho'
      exact (hb id o' hold).trans (Int.le_add_one le_rfl)
  · rintro id ⟨o', ho', hf⟩
    have hid : w.store.getOracleScriptCount + 1 ≠ id := by
      rintro rfl
      have := hb _ o' ho'
      omega
    exact ⟨o',
      by simpa only [Store.addOracleScript, Table.getElem?_insert_ne _ _ hid] using ho', hf⟩

lemma quiet_handleMsgCreateOracleScript (k : Keeper) (m : MsgCreateOracleScript) :
    Exits Quiet (handleMsgCreateOracleScript k m) :=
  (exits_plainFile _ _ _).bind fun _ => (quiet_addFile _).bind fun _ =>
    (quiet_addOracleScript _).bind fun _ => Exits.get_bind fun _ => quiet_emitEvent _ _

/-- An edit gives a script a cached file, or leaves it the one it has. -/
lemma quiet_mustEditOracleScript {id : OracleScriptID} {new : OracleScript} {w : World}
    (hnew : new.filename = doNotModify ∨ w.files.Has new.filename) :
    ExitsAt Quiet w (mustEditOracleScript id new) := by
  refine (Exits.readStore _ w).bind fun o w' hread => ?_
  obtain ⟨hold, rfl⟩ := readStore_eq_ok.mp hread
  have hid : w'.store.oracleScripts[id]? = some o := Store.mustGetOracleScript_eq_ok.mp hold
  refine ⟨rfl, rfl, rfl, rfl, rfl, rfl, w'.files.le_refl, fun hb => ⟨fun x o' ho' => ?_, ?_⟩, [],
    (List.append_nil _).symm, by simp⟩
  · by_cases hx : id = x
    · exact hb x o (hx ▸ hid)
    · exact hb x o' ((Table.getElem?_insert_ne _ _ hx).symm.trans ho')
  · rintro x ⟨o', ho', hf⟩
    by_cases hx : id = x
    · subst hx
      refine ⟨_, Table.getElem?_insert_self _ _ _, ?_⟩
      obtain rfl := Option.some.inj (hid.symm.trans ho')
      show w'.files.Has (modifyVal o.filename new.filename)
      unfold modifyVal
      split_ifs with hmark
      · exact hf
      · exact hnew.resolve_left hmark
    · exact ⟨o', (Table.getElem?_insert_ne _ _ hx).trans ho', hf⟩

lemma quiet_handleMsgEditOracleScript (k : Keeper) (m : MsgEditOracleScript) :
    Exits Quiet (handleMsgEditOracleScript k m) := by
  refine (Exits.readStore _).bind fun _ => (Exits.failIf _).bind fun _ =>
    (exits_plainFile _ _ _).bind fun code w => (quiet_addFile code w).bind fun name w' hadd => ?_
  exact (quiet_mustEditOracleScript (addFile_eq_ok hadd)).bind fun _ w'' _ =>
    quiet_emitEvent _ _ w''

/-! ## Report infos -/

/-- What comes of a call of `HandleValidatorReport`, for the validator that was found: the new
number of consecutive misses, and the address to jail. -/
def verdict (found : Option Validator) (reported : Bool) (missed max : UInt64) :
    UInt64 × Option Bytes :=
  match found with
  | none => (0, none)
  | some validator =>
    if validator.jailed then (0, none)
    else if (if reported then 0 else missed + 1) > max then (0, some validator.consAddr)
    else (if reported then 0 else missed + 1, none)

/-- The verdict on a validator in a world. -/
def World.verdict (w : World) (val : ValAddress) (reported : Bool) : UInt64 × Option Bytes :=
  Oracle.verdict (w.staking.validator val) reported
    (w.store.getValidatorReportInfoWithDefault val).consecutiveMissed
    w.store.params.maxConsecutiveMisses

/-- The calls made when an address is jailed. -/
def jailCalls : Option Bytes → List Call
  | none => []
  | some consAddr => [.event ⟨"slash", [("jailed", .addr consAddr)]⟩, .jail consAddr]

/-- The world after a call of `HandleValidatorReport`. -/
def World.afterReport (k : Keeper) (val : ValAddress) (reported : Bool) (w : World) : World :=
  { w with
    store := { w.store with
      reportInfos := w.store.reportInfos.insert val
        { w.store.getValidatorReportInfoWithDefault val with
          consecutiveMissed := (w.verdict val reported).1 } }
    staking := (w.verdict val reported).2.elim w.staking (k.jail w.staking)
    trace := w.trace ++ (.handleValidatorReport val reported ::
      .stakingValidator val ((w.staking.validator val).map Validator.status) ::
      jailCalls (w.verdict val reported).2) }

lemma handleValidatorReport_run (k : Keeper) (val : ValAddress) (reported : Bool) (w : World) :
    (handleValidatorReport k val reported).run w = .ok () (w.afterReport k val reported) := by
  rw [handleValidatorReport, run_record_bind, run_get_bind, run_record_bind]
  unfold World.afterReport World.verdict verdict
  dsimp only
  cases w.staking.validator val with
  | none => simp [setValidatorReportInfo, modifyStore, jailCalls]
  | some validator =>
    dsimp only
    by_cases hjailed : validator.jailed = true
    · simp [hjailed, setValidatorReportInfo, modifyStore, jailCalls]
    · rw [if_neg hjailed, if_neg hjailed]
      by_cases hmax : (if reported = true then 0
          else (w.store.getValidatorReportInfoWithDefault val).consecutiveMissed + 1) >
          w.store.params.maxConsecutiveMisses
      · rw [if_pos hmax, if_pos hmax, emitEvent, run_record_bind, run_modify_bind, run_record_bind]
        simp [setValidatorReportInfo, modifyStore, jailCalls]
      · rw [if_neg hmax, if_neg hmax]
        simp [setValidatorReportInfo, modifyStore, jailCalls]

lemma quiet_jailCalls (consAddr : Option Bytes) : ∀ c ∈ jailCalls consAddr, c.IsQuiet := by
  cases consAddr <;> simp [jailCalls, Call.IsQuiet]

lemma quiet_handleValidatorReport (k : Keeper) (val : ValAddress) (reported : Bool) :
    Exits Quiet (handleValidatorReport k val reported) := by
  intro w
  rw [ExitsAt, handleValidatorReport_run]
  refine ⟨rfl, rfl, rfl, rfl, rfl, rfl, w.files.le_refl, fun hb => ⟨hb, subset_rfl⟩, _, rfl, ?_⟩
  intro c hc
  simp only [List.mem_cons] at hc
  rcases hc with rfl | rfl | hc
  · trivial
  · trivial
  · exact quiet_jailCalls _ c hc

lemma quiet_updateReportInfos (k : Keeper) (rid : RequestID) :
    Exits Quiet (updateReportInfos k rid) :=
  Exits.get_bind fun _ => (Exits.readStore _).bind fun _ =>
    Exits.forM fun _ _ => quiet_handleValidatorReport _ _ _

/-! ## What all handlers respect -/

section Handlers

variable [IsPreorder World R]

lemma exits_getRandomValidators (size nextReqID : ℤ) :
    Exits R (getRandomValidators size nextReqID) :=
  Exits.get_bind fun _ => (Exits.failIf _).bind fun _ => (Exits.failIf _).bind fun _ =>
    (Exits.valueOf _).bind fun _ => (Exits.failIf _).bind fun _ => Exits.valueOf _

lemma exits_prepareRequest (hstore : ∀ f, Exits R (modifyStore f))
    (hrecord : ∀ c, Exits R (record c)) (k : Keeper) (spec : RequestSpec)
    (ibcInfo : Option IBCInfo) : Exits R (prepareRequest k spec ibcInfo) := by
  refine Exits.get_bind fun _ => (Exits.failIf _).bind fun _ =>
    (exits_getRandomValidators _ _).bind fun _ => (Exits.readStore _).bind fun _ =>
    Exits.bind (Exits.get_bind fun _ => Exits.valueOf _) fun _ => (Exits.failIf _).bind fun _ =>
    (Exits.valueOf _).bind fun _ => (hstore _).bind fun _ => (hrecord _).bind fun _ =>
    (hrecord _).bind fun _ => Exits.forM fun _ _ => ?_
  exact (Exits.readStore _).bind fun _ => hrecord _

/-- A report writes to the store and to the history only. -/
lemma exits_handleMsgReportData (hstore : ∀ f, Exits R (modifyStore f))
    (hrecord : ∀ c, Exits R (record c)) (m : MsgReportData) :
    Exits R (handleMsgReportData m) := by
  refine Exits.get_bind fun _ => (Exits.failIf _).bind fun _ => Exits.bind ?_ fun _ =>
    (Exits.readStore _).bind fun _ => Exits.get_bind fun _ => ?_
  · exact (Exits.readStore _).bind fun _ => Exits.get_bind fun _ => (Exits.failIf _).bind fun _ =>
      (Exits.failIf _).bind fun _ => (Exits.failIf _).bind fun _ =>
      (Exits.forM fun _ _ => Exits.failIf _).bind fun _ =>
      (hstore _).bind fun _ => hrecord _
  · refine Exits.ite (Exits.bind ?_ fun _ => hrecord _) (hrecord _)
    exact (hstore _).bind fun _ => hrecord _

/-- **Frame rule.**  Every handler respects what its writes to the store, its records and the
files that it adds respect. -/
theorem exits_handle (hstore : ∀ f, Exits R (modifyStore f)) (hrecord : ∀ c, Exits R (record c))
    (hfile : ∀ (w : World) (file : Bytes), R w { w with files := w.files.addFile file })
    (k : Keeper) (m : Msg) : Exits R (m.handle k) := by
  have hadd : ∀ file, Exits R (addFile file) := fun file => exits_addFile fun w => hfile w file
  cases m with
  | createDataSource m =>
    exact (exits_plainFile _ _ _).bind fun _ => (hadd _).bind fun _ => (hstore _).bind fun _ =>
      Exits.get_bind fun _ => hrecord _
  | editDataSource m =>
    exact (Exits.readStore _).bind fun _ => (Exits.failIf _).bind fun _ =>
      (exits_plainFile _ _ _).bind fun _ => (hadd _).bind fun _ =>
      Exits.bind ((Exits.readStore _).bind fun _ => hstore _) fun _ => hrecord _
  | createOracleScript m =>
    exact (exits_plainFile _ _ _).bind fun _ => (hadd _).bind fun _ => (hstore _).bind fun _ =>
      Exits.get_bind fun _ => hrecord _
  | editOracleScript m =>
    exact (Exits.readStore _).bind fun _ => (Exits.failIf _).bind fun _ =>
      (exits_plainFile _ _ _).bind fun _ => (hadd _).bind fun _ =>
      Exits.bind ((Exits.readStore _).bind fun _ => hstore _) fun _ => hrecord _
  | requestData m => exact exits_prepareRequest hstore hrecord k m.toSpec none
  | reportData m => exact exits_handleMsgReportData hstore hrecord m
  | addReporter m =>
    exact Exits.bind (Exits.get_bind fun _ => (Exits.failIf _).bind fun _ => hstore _) fun _ =>
      hrecord _
  | removeReporter m =>
    exact Exits.bind (Exits.get_bind fun _ => (Exits.failIf _).bind fun _ => hstore _) fun _ =>
      hrecord _
  | recvPacket p =>
    show Exits R (onRecvPacket k p)
    unfold onRecvPacket
    cases k.unmarshalJSON p.data with
    | none => exact Exits.throw _
    | some req => exact exits_prepareRequest hstore hrecord k _ _

end Handlers

lemma keepsFiles_handle (k : Keeper) (m : Msg) : Exits KeepsFiles (m.handle k) :=
  exits_handle (fun _ => Exits.modifyStore fun w => w.files.le_refl)
    (fun _ => Exits.modify fun w => w.files.le_refl) (fun w file => w.files.le_addFile file) k m

end Programs

end Bandchain.Oracle
