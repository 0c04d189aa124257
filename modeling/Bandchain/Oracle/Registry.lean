import Bandchain.Lib.Catalog
import Bandchain.Oracle.Effects

/-!
# Data sources and oracle scripts

The catalogs of data sources and oracle scripts over a whole run: who can change an entry, and
whether its file is on disk.  A message that creates an entry with the do-not-modify marker as
its content is refused; but the check is made before the content is decompressed, so a
compressed marker gets through and leaves an entry whose file name is the marker.
-/

namespace Bandchain.Oracle

open Exec

def Store.dataSourceCatalog (s : Store) : Catalog DataSource :=
  ⟨s.getDataSourceCount, s.dataSources⟩

def Store.oracleScriptCatalog (s : Store) : Catalog OracleScript :=
  ⟨s.getOracleScriptCount, s.oracleScripts⟩

/-! ## Changes of the catalogs -/

/-- The content of a file is on disk, unless it is the marker. -/
def OnDisk (w : World) (c : Bytes) : Prop := c = doNotModify ∨ w.files.Has (getFilename c)

lemma onDisk_addFile (w : World) (c : Bytes) : OnDisk (w.addFile c) c := by
  by_cases hc : c = doNotModify
  · exact .inl hc
  · exact .inr (w.has_addFile hc)

/-- The step delivers a message that creates the data source. -/
def CreatesDataSource (k : Keeper) (l : Label) (w' : World) (d : DataSource) : Prop :=
  ∃ m c, l = .deliver (.createDataSource m) ∧ m.validateBasic = .ok () ∧
    content k m.executable maxExecutableSize = .ok c ∧ OnDisk w' c ∧ d = m.entry c

/-- The step delivers a message of the owner that edits the data source. -/
def EditsDataSource (k : Keeper) (l : Label) (w' : World) (id : DataSourceID)
    (d d' : DataSource) : Prop :=
  ∃ m c, l = .deliver (.editDataSource m) ∧ m.validateBasic = .ok () ∧ m.dataSourceID = id ∧
    m.sender = d.owner ∧ content k m.executable maxExecutableSize = .ok c ∧ OnDisk w' c ∧
    d' = m.edited d c

/-- The step delivers a message that creates the oracle script. -/
def CreatesOracleScript (k : Keeper) (l : Label) (w' : World) (o : OracleScript) : Prop :=
  ∃ m c, l = .deliver (.createOracleScript m) ∧ m.validateBasic = .ok () ∧
    content k m.code maxWasmCodeSize = .ok c ∧ OnDisk w' c ∧ o = m.entry c

/-- The step delivers a message of the owner that edits the oracle script. -/
def EditsOracleScript (k : Keeper) (l : Label) (w' : World) (id : OracleScriptID)
    (o o' : OracleScript) : Prop :=
  ∃ m c, l = .deliver (.editOracleScript m) ∧ m.validateBasic = .ok () ∧ m.oracleScriptID = id ∧
    m.sender = o.owner ∧ content k m.code maxWasmCodeSize = .ok c ∧ OnDisk w' c ∧
    o' = m.edited o c

section Change

variable {k : Keeper} {w w' : World} {l : Label}

lemma dataSourceCatalog_congr {s s' : Store} (hcount : s'.dataSourceCount = s.dataSourceCount)
    (h : s'.dataSources = s.dataSources) : s'.dataSourceCatalog = s.dataSourceCatalog := by
  rw [Store.dataSourceCatalog, Store.dataSourceCatalog, h, Store.getDataSourceCount, hcount]
  rfl

lemma oracleScriptCatalog_congr {s s' : Store}
    (hcount : s'.oracleScriptCount = s.oracleScriptCount)
    (h : s'.oracleScripts = s.oracleScripts) : s'.oracleScriptCatalog = s.oracleScriptCatalog := by
  rw [Store.oracleScriptCatalog, Store.oracleScriptCatalog, h, Store.getOracleScriptCount, hcount]
  rfl

/-- **Changes.**  A data source or an oracle script changes only by messages that create it or
by which its owner edits it. -/
lemma catalogs_change (h : Effect k w l w') :
    Catalog.Change (CreatesDataSource k l w') (EditsDataSource k l w') w.store.dataSourceCatalog
        w'.store.dataSourceCatalog ∧
      Catalog.Change (CreatesOracleScript k l w') (EditsOracleScript k l w')
        w.store.oracleScriptCatalog w'.store.oracleScriptCatalog := by
  cases h with
  | beginBlock _ => exact ⟨.same, .same⟩
  | rejected _ => exact ⟨.same, .same⟩
  | @createDataSource m c _ hbasic hc hlogs =>
    obtain ⟨cs, rfl, _⟩ := hlogs
    exact ⟨.add ⟨m, c, rfl, hbasic, hc, onDisk_addFile w c, rfl⟩, .same⟩
  | @editDataSource m d c _ hbasic hd howner hc hlogs =>
    obtain ⟨cs, rfl, _⟩ := hlogs
    exact ⟨.set hd ⟨m, c, rfl, hbasic, rfl, howner.symm, hc, onDisk_addFile w c, rfl⟩, .same⟩
  | @createOracleScript m c _ hbasic hc hlogs =>
    obtain ⟨cs, rfl, _⟩ := hlogs
    exact ⟨.same, .add ⟨m, c, rfl, hbasic, hc, onDisk_addFile w c, rfl⟩⟩
  | @editOracleScript m o c _ hbasic ho howner hc hlogs =>
    obtain ⟨cs, rfl, _⟩ := hlogs
    exact ⟨.same, .set ho ⟨m, c, rfl, hbasic, rfl, howner.symm, hc, onDisk_addFile w c, rfl⟩⟩
  | addReporter _ hlogs =>
    obtain ⟨cs, rfl, _⟩ := hlogs
    exact ⟨.same, .same⟩
  | removeReporter hlogs =>
    obtain ⟨cs, rfl, _⟩ := hlogs
    exact ⟨.same, .same⟩
  | request _ hprep =>
    obtain ⟨cs, rfl, _⟩ := hprep.logs
    exact ⟨.same, .same⟩
  | report _ _ _ hlogs =>
    obtain ⟨cs, rfl, _⟩ := hlogs
    unfold World.acceptReport
    split_ifs <;> exact ⟨.same, .same⟩
  | writeFile => exact ⟨.same, .same⟩
  | updateParams _ => exact ⟨.same, .same⟩
  | updateStaking => exact ⟨.same, .same⟩
  | updateChannels => exact ⟨.same, .same⟩
  | endBlock hrun =>
    have hsame := sameSetting_handleEndBlock hrun
    rw [dataSourceCatalog_congr hsame.dataSourceCount hsame.dataSources,
      oracleScriptCatalog_congr hsame.oracleScriptCount hsame.oracleScripts]
    exact ⟨.same, .same⟩

end Change

/-! ## Catalogs are dense -/

lemma dataSourceCatalog_initGenesis (data : GenesisState) :
    (initGenesis data).dataSourceCatalog = Catalog.ofList data.dataSources := by
  have hadd : ∀ (l : List DataSource) (s : Store),
      (l.foldl Store.addDataSource s).dataSourceCatalog =
        l.foldl Catalog.add s.dataSourceCatalog := by
    intro l
    induction l with
    | nil => exact fun _ => rfl
    | cons d l ih => exact fun s => ih (s.addDataSource d)
  have hscripts := foldl_proj Store.dataSourceCatalog (f := Store.addOracleScript) (fun _ _ => rfl)
    data.oracleScripts
    (data.dataSources.foldl Store.addDataSource { Store.empty with params := data.params })
  exact hscripts.trans (hadd data.dataSources _)

lemma oracleScriptCatalog_initGenesis (data : GenesisState) :
    (initGenesis data).oracleScriptCatalog = Catalog.ofList data.oracleScripts := by
  have hadd : ∀ (l : List OracleScript) (s : Store),
      (l.foldl Store.addOracleScript s).oracleScriptCatalog =
        l.foldl Catalog.add s.oracleScriptCatalog := by
    intro l
    induction l with
    | nil => exact fun _ => rfl
    | cons o l ih => exact fun s => ih (s.addOracleScript o)
  have hsources := foldl_proj Store.oracleScriptCatalog (f := Store.addDataSource) (fun _ _ => rfl)
    data.dataSources { Store.empty with params := data.params }
  refine (hadd data.oracleScripts _).trans ?_
  rw [hsources]
  rfl

/-- Both catalogs are dense. -/
def Store.Catalogued (s : Store) : Prop :=
  s.dataSourceCatalog.Dense ∧ s.oracleScriptCatalog.Dense

lemma catalogued_step {k : Keeper} {w w' : World} {l : Label} (h : w.store.Catalogued)
    (hst : Step k w l w') : w'.store.Catalogued := by
  obtain ⟨hd, ho⟩ := catalogs_change (step_effect hst)
  exact ⟨hd.dense h.1, ho.dense h.2⟩

lemma catalogued_of_run {k : Keeper} {data : GenesisState} {w₀ w : World} {ls : List Label}
    (h₀ : Starts data w₀) (h : Run (Step k) w₀ ls w) : w.store.Catalogued := by
  refine h.invariant (I := fun w => w.store.Catalogued)
    (fun _ hst hI => catalogued_step hI hst) ?_
  rw [h₀.1]
  refine ⟨?_, ?_⟩
  · rw [dataSourceCatalog_initGenesis]
    exact Catalog.dense_ofList _
  · rw [oracleScriptCatalog_initGenesis]
    exact Catalog.dense_ofList _

/-! ## Only the owner edits -/

/-- The message passes its stateless checks, and its handler succeeds. -/
def Accepts (k : Keeper) (w : World) (m : Msg) : Prop :=
  m.validateBasic = .ok () ∧ ∃ w', (m.handle k).run w = .ok () w'

lemma Accepts.run {k : Keeper} {w : World} {m : Msg} (h : Accepts k w m) :
    (m.handle k).run w = .ok () (deliver k m w) := by
  obtain ⟨hbasic, w', hrun⟩ := h
  have : deliver k m w = w' := by simp only [deliver, hbasic, hrun]
  rw [this, hrun]

/-- A delivery that is not accepted leaves the store as it is. -/
lemma store_of_not_accepts {k : Keeper} {w : World} {m : Msg} (h : ¬Accepts k w m) :
    (deliver k m w).store = w.store := by
  unfold deliver
  rcases hbasic : m.validateBasic with e | u
  · rfl
  · rcases hrun : (m.handle k).run w with ⟨u, w'⟩ | ⟨e, w'⟩
    · exact absurd ⟨hbasic, w', hrun⟩ h
    · rfl

/-- The step from `w` to `w'` changes a data source or an oracle script only as its owner says. -/
structure OwnersDecide (k : Keeper) (w : World) (l : Label) (w' : World) : Prop where
  dataSources : ∀ (id : DataSourceID) (d : DataSource), w.store.dataSources[id]? = some d →
    ∃ d', w'.store.dataSources[id]? = some d' ∧ (d' = d ∨ EditsDataSource k l w' id d d')
  oracleScripts : ∀ (id : OracleScriptID) (o : OracleScript), w.store.oracleScripts[id]? = some o →
    ∃ o', w'.store.oracleScripts[id]? = some o' ∧ (o' = o ∨ EditsOracleScript k l w' id o o')
  /-- An accepted edit takes effect, and changes nothing else in the store. -/
  editDataSource : ∀ m, l = .deliver (.editDataSource m) → Accepts k w (.editDataSource m) →
    ∃ d c, w.store.dataSources[m.dataSourceID]? = some d ∧ d.owner = m.sender ∧
      content k m.executable maxExecutableSize = .ok c ∧
      w'.store = w.store.setDataSource m.dataSourceID (m.edited d c)
  editOracleScript : ∀ m, l = .deliver (.editOracleScript m) → Accepts k w (.editOracleScript m) →
    ∃ o c, w.store.oracleScripts[m.oracleScriptID]? = some o ∧ o.owner = m.sender ∧
      content k m.code maxWasmCodeSize = .ok c ∧
      w'.store = w.store.setOracleScript m.oracleScriptID (m.edited o c)
  failed : ∀ m, l = .deliver m → ¬Accepts k w m → w'.store = w.store

/-- **Owners decide.**  In every run, a data source or an oracle script changes only in a step
that delivers an edit of its owner, which replaces the fields that are not marked, and nothing
else; no entry is ever removed, and a message that fails leaves the store as it is. -/
theorem ownersDecide_of_run {k : Keeper} {w₀ w w' : World} {ls : List Label} {l : Label}
    (h₀ : Starts defaultGenesisState w₀) (hrun : Run (Step k) w₀ ls w) (h : Step k w l w') :
    OwnersDecide k w l w' := by
  obtain ⟨hd, ho⟩ := catalogs_change (step_effect h)
  obtain ⟨hdense, hdense'⟩ := catalogued_of_run h₀ hrun
  refine ⟨fun id d he => hd.entry hdense he, fun id o he => ho.entry hdense' he, ?_, ?_, ?_⟩
  · rintro m rfl hacc
    obtain rfl := Option.some.inj h
    obtain ⟨d, c, he, howner, hc, cs, hw', _⟩ := handleMsgEditDataSource_eq_ok hacc.run
    refine ⟨d, c, he, howner, hc, ?_⟩
    rw [hw']
    rfl
  · rintro m rfl hacc
    obtain rfl := Option.some.inj h
    obtain ⟨o, c, he, howner, hc, cs, hw', _⟩ := handleMsgEditOracleScript_eq_ok hacc.run
    refine ⟨o, c, he, howner, hc, ?_⟩
    rw [hw']
    rfl
  · rintro m rfl hnot
    obtain rfl := Option.some.inj h
    exact store_of_not_accepts hnot

namespace Sample

/-- The owner gives the data source 1 to another account and renames it, and keeps its
description and its executable. -/
def editMsg : MsgEditDataSource :=
  ⟨1, List.replicate 20 4, Bytes.ascii "prices", doNotModify, doNotModify, owner⟩

end Sample

theorem ownersDecide_editMsg : ∃ w w', Run (Step Sample.keeper) Sample.genesis
    (Sample.create Sample.askingScript) w ∧
    Step Sample.keeper w (.deliver (.editDataSource Sample.editMsg)) w' ∧
    OwnersDecide Sample.keeper w (.deliver (.editDataSource Sample.editMsg)) w' ∧
    w'.store.dataSources[(1 : ℤ)]? = some ⟨List.replicate 20 4, Bytes.ascii "prices", [],
      getFilename (Bytes.ascii "#!/bin/sh")⟩ := by
  obtain ⟨w', hrun, hedited⟩ := exists_runWhere (f := next Sample.keeper) (P := fun _ _ => True)
    (s := Sample.genesis)
    (Sample.create Sample.askingScript ++ [.deliver (.editDataSource Sample.editMsg)])
    (I := fun w => w.store.dataSources[(1 : ℤ)]? = some ⟨List.replicate 20 4,
      Bytes.ascii "prices", [], getFilename (Bytes.ascii "#!/bin/sh")⟩) (by decide +kernel)
  obtain ⟨w, hcreate, hlast⟩ := hrun.split
  cases hlast with
  | cons _ hst hnil =>
    cases hnil
    exact ⟨w, w', hcreate, hst, ownersDecide_of_run Sample.starts_genesis hcreate hst, hedited⟩

/-! ## Every file is on disk -/

/-- The file name is the digest of a content that can be read from the cache. -/
def World.Readable (w : World) (name : Bytes) : Prop :=
  ∃ data, getFilename data = name ∧ w.files.mustGetFile name = .ok data

lemma readable_iff_has {w : World} {name : Bytes} : w.Readable name ↔ w.files.Has name := by
  constructor
  · rintro ⟨data, _, hget⟩
    exact ⟨data, FileCache.mustGetFile_eq_ok.mp hget⟩
  · rintro ⟨data, hdata⟩
    exact ⟨data, w.files.consistent _ _ hdata, FileCache.mustGetFile_eq_ok.mpr hdata⟩

/-- The files of all data sources and oracle scripts can be read. -/
structure World.Filed (w : World) : Prop where
  dataSources : ∀ (id : DataSourceID) (d : DataSource), w.store.dataSources[id]? = some d →
    w.Readable d.filename
  oracleScripts : ∀ (id : OracleScriptID) (o : OracleScript), w.store.oracleScripts[id]? = some o →
    w.Readable o.filename

/-- The step delivers a message to create something from the marker, compressed. -/
def CreatesMarker (k : Keeper) : Label → Prop
  | .deliver (.createDataSource m) =>
      m.validateBasic = .ok () ∧ content k m.executable maxExecutableSize = .ok doNotModify
  | .deliver (.createOracleScript m) =>
      m.validateBasic = .ok () ∧ content k m.code maxWasmCodeSize = .ok doNotModify
  | _ => False

instance (k : Keeper) (l : Label) : Decidable (CreatesMarker k l) :=
  match l with
  | .deliver (.createDataSource _) => instDecidableAnd
  | .deliver (.createOracleScript _) => instDecidableAnd
  | .deliver (.editDataSource _) | .deliver (.editOracleScript _) | .deliver (.requestData _)
  | .deliver (.reportData _) | .deliver (.addReporter _) | .deliver (.removeReporter _)
  | .deliver (.recvPacket _) | .beginBlock _ | .writeFile _ | .updateParams _
  | .updateStaking _ | .updateChannels _ | .endBlock => .isFalse id

lemma readable_storedName {w : World} {c : Bytes} (hdisk : OnDisk w c) (hc : c ≠ doNotModify) :
    w.Readable (storedName c) := by
  rw [readable_iff_has, storedName, if_neg hc]
  exact hdisk.resolve_left hc

lemma readable_editedName {w : World} {old c : Bytes} (hold : w.Readable old)
    (hdisk : OnDisk w c) : w.Readable (editedName old c) := by
  rw [editedName]
  split_ifs with hc
  · exact hold
  · rw [readable_iff_has]
    exact hdisk.resolve_left hc

lemma Filed.step {k : Keeper} {w w' : World} {l : Label} (hl : ¬CreatesMarker k l)
    (h : Step k w l w') (hw : w.Filed) : w'.Filed := by
  have hfiles := (step_effect h).files_le
  have hkept : ∀ name, w.Readable name → w'.Readable name := by
    intro name hname
    rw [readable_iff_has] at hname ⊢
    exact hfiles name hname
  obtain ⟨hd, ho⟩ := catalogs_change (step_effect h)
  refine ⟨?_, ?_⟩
  · refine hd.forall_entries (p := fun d => w'.Readable d.filename) ?_ ?_ ?_
    · rintro d ⟨m, c, rfl, hbasic, hc, hdisk, rfl⟩
      refine readable_storedName hdisk ?_
      rintro rfl
      exact hl ⟨hbasic, hc⟩
    · rintro id d d' hold ⟨m, c, rfl, _, _, _, _, hdisk, rfl⟩
      exact readable_editedName hold hdisk
    · exact fun id d he => hkept _ (hw.dataSources id d he)
  · refine ho.forall_entries (p := fun o => w'.Readable o.filename) ?_ ?_ ?_
    · rintro o ⟨m, c, rfl, hbasic, hc, hdisk, rfl⟩
      refine readable_storedName hdisk ?_
      rintro rfl
      exact hl ⟨hbasic, hc⟩
    · rintro id o o' hold ⟨m, c, rfl, _, _, _, _, hdisk, rfl⟩
      exact readable_editedName hold hdisk
    · exact fun id o he => hkept _ (hw.oracleScripts id o he)

lemma not_readable_marker (w : World) : ¬w.Readable doNotModify := by
  rintro ⟨data, hname, _⟩
  exact getFilename_ne data hname

lemma handleMsgCreateDataSource_run {k : Keeper} {m : MsgCreateDataSource} {c : Bytes} (w : World)
    (hc : content k m.executable maxExecutableSize = .ok c) :
    ∃ w', (handleMsgCreateDataSource k m).run w = .ok () w' :=
  ⟨_, plainFile_bind_eq_ok.mpr ⟨c, hc, addFile_bind.trans rfl⟩⟩

lemma handleMsgCreateOracleScript_run {k : Keeper} {m : MsgCreateOracleScript} {c : Bytes}
    (w : World) (hc : content k m.code maxWasmCodeSize = .ok c) :
    ∃ w', (handleMsgCreateOracleScript k m).run w = .ok () w' :=
  ⟨_, plainFile_bind_eq_ok.mpr ⟨c, hc, addFile_bind.trans rfl⟩⟩

/-- Right after such a step there is an entry whose file name is the marker. -/
lemma not_filed_of_createsMarker {k : Keeper} {w w' : World} {l : Label} (hl : CreatesMarker k l)
    (h : Step k w l w') : ¬w'.Filed := by
  have hname : storedName doNotModify = doNotModify := if_pos rfl
  intro hfiled
  match l, hl with
  | .deliver (.createDataSource m), ⟨hbasic, hc⟩ =>
    obtain rfl := Option.some.inj h
    have hacc : Accepts k w (.createDataSource m) := ⟨hbasic, handleMsgCreateDataSource_run w hc⟩
    obtain ⟨c, hc', cs, hw', _⟩ := handleMsgCreateDataSource_eq_ok hacc.run
    obtain rfl := Except.ok.inj (hc.symm.trans hc')
    refine not_readable_marker (deliver k (.createDataSource m) w) ?_
    rw [← hname]
    refine hfiled.dataSources (w.store.getDataSourceCount + 1) (m.entry doNotModify) ?_
    rw [hw']
    exact Table.getElem?_insert_self _ _ _
  | .deliver (.createOracleScript m), ⟨hbasic, hc⟩ =>
    obtain rfl := Option.some.inj h
    have hacc : Accepts k w (.createOracleScript m) :=
      ⟨hbasic, handleMsgCreateOracleScript_run w hc⟩
    obtain ⟨c, hc', cs, hw', _⟩ := handleMsgCreateOracleScript_eq_ok hacc.run
    obtain rfl := Except.ok.inj (hc.symm.trans hc')
    refine not_readable_marker (deliver k (.createOracleScript m) w) ?_
    rw [← hname]
    refine hfiled.oracleScripts (w.store.getOracleScriptCount + 1) (m.entry doNotModify) ?_
    rw [hw']
    exact Table.getElem?_insert_self _ _ _

/-- **Files.**  In a run from the default genesis state the files of all data sources and
oracle scripts can be read at every moment exactly if no message creates something from the
compressed marker. -/
theorem filed_iff_not_createsMarker {k : Keeper} {w₀ w : World} {ls : List Label}
    (h₀ : Starts defaultGenesisState w₀) (hrun : Run (Step k) w₀ ls w) :
    (∀ ls₁ ls₂ w₁, ls = ls₁ ++ ls₂ → Run (Step k) w₀ ls₁ w₁ → w₁.Filed) ↔
      ∀ l ∈ ls, ¬CreatesMarker k l := by
  constructor
  · intro hfiled l hl hmarker
    obtain ⟨ls₁, ls₂, rfl⟩ := List.append_of_mem hl
    obtain ⟨w₁, h₁, hrest⟩ := hrun.split
    cases hrest with
    | @cons _ w₂ _ _ _ _ hst _ =>
      refine not_filed_of_createsMarker hmarker hst (hfiled (ls₁ ++ [l]) ls₂ w₂ (by simp) ?_)
      exact h₁.append (.single trivial hst)
  · rintro hmarker ls₁ ls₂ w₁ rfl h₁
    -- the condition is on the labels only, so it holds along the first part of the run
    have hwhere : RunWhere (Step k) (fun _ l => ¬CreatesMarker k l) w₀ ls₁ w₁ := by
      rcases h₁.all_or_exists_not (Q := fun _ l => ¬CreatesMarker k l) with h | h
      · exact h
      · obtain ⟨ks, l, ks', _, _, rfl, _, hnot, _⟩ := h
        exact absurd (hmarker l (by simp)) hnot
    refine hwhere.invariant (I := World.Filed) (fun hl hst hI => Filed.step hl hst hI) ?_
    have hempty : w₀.store.dataSources = ∅ ∧ w₀.store.oracleScripts = ∅ := by
      rw [h₀.1]
      exact ⟨rfl, rfl⟩
    refine ⟨fun id d hd => ?_, fun id o ho => ?_⟩
    · rw [hempty.1] at hd
      simp at hd
    · rw [hempty.2] at ho
      simp at ho

namespace Sample

/-- The do-not-modify marker, compressed. -/
def gzippedMarker : Bytes :=
  [31, 139, 8, 0, 0, 0, 0, 0, 2, 255, 139, 78, 201, 215, 205, 203, 47, 209, 205, 205, 79, 201,
   76, 171, 140, 5, 0, 51, 50, 130, 206, 15, 0, 0, 0]

/-- A machine that can decompress the marker. -/
def gzipKeeper : Keeper :=
  { keeper with gunzip := fun b => if b = gzippedMarker then some doNotModify else none }

/-- Create a data source from the compressed marker. -/
def markerMsg : MsgCreateDataSource := ⟨owner, [], [], gzippedMarker, owner⟩

end Sample

theorem filed_askingScript : ∃ w, ReachableWorld Sample.keeper w ∧ w.Filed ∧
    ∃ d, w.store.dataSources[(1 : ℤ)]? = some d := by
  obtain ⟨w, hrun, ⟨d, hd⟩, hnot⟩ := exists_runWhere (f := next Sample.keeper)
    (P := fun _ _ => True) (s := Sample.genesis) (Sample.create Sample.askingScript)
    (I := fun w => (∃ d ∈ w.store.dataSources[(1 : ℤ)]?, True) ∧
      ∀ l ∈ Sample.create Sample.askingScript, ¬CreatesMarker Sample.keeper l) (by decide +kernel)
  refine ⟨w, ⟨_, _, Sample.starts_genesis, hrun⟩, ?_, d, hd.1⟩
  exact (filed_iff_not_createsMarker Sample.starts_genesis hrun).mpr hnot _ [] w (by simp) hrun

/-- A data source whose file name is the marker. -/
theorem not_filed_markerMsg : ∃ w, Run (Step Sample.gzipKeeper) Sample.genesis
    [.deliver (.createDataSource Sample.markerMsg)] w ∧
    Sample.markerMsg.validateBasic = .ok () ∧
    w.store.dataSources[(1 : ℤ)]? = some ⟨Sample.owner, [], [], doNotModify⟩ ∧ ¬w.Filed := by
  obtain ⟨w, hrun, hd, hbasic⟩ := exists_runWhere (f := next Sample.gzipKeeper)
    (P := fun _ _ => True) (s := Sample.genesis) [.deliver (.createDataSource Sample.markerMsg)]
    (I := fun w => w.store.dataSources[(1 : ℤ)]? = some ⟨Sample.owner, [], [], doNotModify⟩ ∧
      Sample.markerMsg.validateBasic = .ok ())
    (by decide +kernel)
  refine ⟨w, hrun, hbasic, hd, fun hfiled => ?_⟩
  exact not_readable_marker w (hfiled.dataSources 1 _ hd)

end Bandchain.Oracle
