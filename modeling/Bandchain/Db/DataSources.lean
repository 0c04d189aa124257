import Bandchain.Oracle.EventLog
import Bandchain.Oracle.Registry

/-!
# The database mirror of the data sources

The indexing node keeps a table of data sources of its own: it replays every message that the
chain has accepted.  The keeper stores the decompressed executable in a file, the mirror stores
the executable as it stands in the message.
-/

namespace Bandchain.Db

open Oracle Exec

/-! ## Tables -/

/-- A row of the table of data sources; its primary key is the ID. -/
structure DataSourceRow where
  name : Bytes
  description : Bytes
  owner : Bytes
  executable : Bytes
  lastUpdated : ℤ
deriving DecidableEq, Repr

structure DataSourceRevision where
  dataSourceID : DataSourceID
  name : Bytes
  timestamp : ℤ
  blockHeight : ℤ
  txHash : Bytes
deriving DecidableEq, Repr

/-- The tables that the messages about data sources write. -/
structure BandDB where
  dataSources : Table DataSourceID DataSourceRow
  dataSourceRevisions : List DataSourceRevision

def BandDB.empty : BandDB := ⟨∅, []⟩

/-- The block time in milliseconds. -/
def milliseconds (header : Header) : ℤ :=
  (header.time * 1000000000 + header.nanosecond).tdiv 1000000

/-- `modify`, on text. -/
def modify (oldVal newVal : Bytes) : Bytes := if newVal = doNotModify then oldVal else newVal

/-- `modifyCode`, on bytes. -/
def modifyCode (oldVal newVal : Bytes) : Bytes := if newVal = doNotModify then oldVal else newVal

/-! ## Messages -/

section Mirror

-- the text of an account address
variable (addr : AccAddress → Bytes)

def createDataSource (name description : Bytes) (owner : AccAddress) (executable : Bytes)
    (header : Header) : DataSourceRow where
  name := name
  description := description
  owner := addr owner
  executable := executable
  lastUpdated := milliseconds header

namespace BandDB

/-- Write a row, and the revision that goes with it. -/
def save (b : BandDB) (id : DataSourceID) (row : DataSourceRow) (header : Header)
    (txHash : Bytes) : BandDB where
  dataSources := b.dataSources.insert id row
  dataSourceRevisions :=
    b.dataSourceRevisions ++ [⟨id, row.name, milliseconds header, header.height, txHash⟩]

def addDataSource (b : BandDB) (id : DataSourceID) (name description : Bytes) (owner : AccAddress)
    (executable : Bytes) (header : Header) (txHash : Bytes) : Option BandDB :=
  -- a second row with the same primary key is refused
  if b.dataSources.contains id then none
  else
    some (b.save id (createDataSource addr name description owner executable header) header txHash)

def handleMsgCreateDataSource (b : BandDB) (txHash : Bytes) (m : MsgCreateDataSource)
    (events : String → List Bytes) (header : Header) : Option BandDB :=
  match events "create_data_source.id" with
  | [v] => (Decimal.parseInt64 v).bind fun id =>
    b.addDataSource addr id m.name m.description m.owner m.executable header txHash
  | _ => none

def handleMsgEditDataSource (b : BandDB) (txHash : Bytes) (m : MsgEditDataSource)
    (header : Header) : Option BandDB :=
  (b.dataSources[m.dataSourceID]?).map fun dataSource =>
    let newName := modify dataSource.name m.name
    let newDescription := modify dataSource.description m.description
    let newExecutable := modifyCode dataSource.executable m.executable
    b.save m.dataSourceID
      (createDataSource addr newName newDescription m.owner newExecutable header) header txHash

/-- `HandleMessage`; the other messages write other tables. -/
def handleMessage (b : BandDB) (txHash : Bytes) (m : Msg) (events : String → List Bytes)
    (header : Header) : Option BandDB :=
  match m with
  | .createDataSource m => b.handleMsgCreateDataSource addr txHash m events header
  | .editDataSource m => b.handleMsgEditDataSource addr txHash m header
  | _ => some b

end BandDB

/-- The map that `HandleTransaction` makes of the events of a message: every value under the type
of its event and its key, joined by a dot. -/
def kvMap (events : List AbciEvent) (key : String) : List Bytes :=
  events.flatMap fun e =>
    (e.attributes.filter fun kv => e.type ++ "." ++ kv.1 = key).map Prod.snd

/-- The events of the message that led from `w` to `w'`. -/
def messageEvents (w w' : World) : List AbciEvent :=
  (emitted (w'.trace.drop w.trace.length)).map (Event.toAbci addr)

/-! ## The chain and its mirror -/

/-- The state of an indexing node; `none` is a node that has panicked. -/
structure Node where
  world : World
  db : Option BandDB

/-- The mirror takes part in the messages that the chain accepts. -/
def replay (k : Keeper) (txHash : Bytes) (l : Label) (w w' : World) (b : BandDB) :
    Option BandDB :=
  match l with
  | .deliver m =>
    match m.validateBasic, (m.handle k).run w with
    | .ok _, .ok _ _ => b.handleMessage addr txHash m (kvMap (messageEvents addr w w')) w.header
    | _, _ => some b
  | _ => some b

/-- A step of the chain, with the hash of the transaction, and what the mirror makes of it. -/
def next (k : Keeper) (l : Label × Bytes) (n : Node) : Option Node :=
  (Oracle.next k l.1 n.world).map fun w' =>
    ⟨w', n.db.bind fun b => replay addr k l.2 l.1 n.world w' b⟩

/-- The row shows the data source: the file that the keeper's `Filename` names is its
executable. -/
structure Shows (w : World) (d : DataSource) (row : DataSourceRow) : Prop where
  name : row.name = d.name
  description : row.description = d.description
  owner : row.owner = addr d.owner
  executable : w.files.mustGetFile d.filename = .ok row.executable

/-- The table has a row for every data source, which shows it, and no others. -/
structure Mirrors (w : World) (b : BandDB) : Prop where
  row : ∀ (id : ℤ) (d : DataSource), w.store.dataSources[id]? = some d →
    ∃ row, b.dataSources[id]? = some row ∧ Shows addr w d row
  known : ∀ (id : ℤ) (row : DataSourceRow), b.dataSources[id]? = some row →
    ∃ d, w.store.dataSources[id]? = some d

/-- The keeper gets the executable as it stands in the message, and no other file on disk has its
digest. -/
def SentPlain (k : Keeper) (w : World) (executable : Bytes) : Prop :=
  (∀ c ∈ (content k executable maxExecutableSize).toOption, c = executable) ∧
    (executable = doNotModify ∨
      ∀ data ∈ w.files.files[getFilename executable]?, data = executable)

instance (k : Keeper) (w : World) (executable : Bytes) :
    Decidable (SentPlain k w executable) := instDecidableAnd

/-- The condition on a step: the executables of its messages are sent plain, and identifiers are
64-bit numbers. -/
def Plain (k : Keeper) (n : Node) (l : Label × Bytes) : Prop :=
  match l.1 with
  | .deliver (.createDataSource m) =>
    SentPlain k n.world m.executable ∧ n.world.store.getDataSourceCount + 1 < 2 ^ 63
  | .deliver (.editDataSource m) => SentPlain k n.world m.executable
  | _ => True

instance (k : Keeper) (n : Node) (l : Label × Bytes) : Decidable (Plain k n l) :=
  match l with
  | (.deliver (.createDataSource _), _) => instDecidableAnd
  | (.deliver (.editDataSource _), _) => instDecidableAnd
  | (.deliver (.createOracleScript _), _) | (.deliver (.editOracleScript _), _)
  | (.deliver (.requestData _), _) | (.deliver (.reportData _), _) | (.deliver (.addReporter _), _)
  | (.deliver (.removeReporter _), _) | (.deliver (.recvPacket _), _) | (.beginBlock _, _)
  | (.writeFile _, _) | (.updateParams _, _) | (.updateStaking _, _) | (.updateChannels _, _)
  | (.endBlock, _) => .isTrue trivial

end Mirror

/-! ## Files stay -/

/-- Every file of the first world is in the second, with the same content. -/
def FilesStay (w w' : World) : Prop :=
  ∀ name data, w.files.mustGetFile name = .ok data → w'.files.mustGetFile name = .ok data

instance : IsPreorder World FilesStay where
  refl _ _ _ h := h
  trans _ _ _ h h' name data hd := h' name data (h name data hd)

lemma mustGetFile_addFile_of_ok {c : FileCache} {name data : Bytes} (file : Bytes)
    (h : c.mustGetFile name = .ok data) : (c.addFile file).mustGetFile name = .ok data := by
  rw [FileCache.mustGetFile_eq_ok] at h ⊢
  unfold FileCache.addFile
  split_ifs with hc
  · exact h
  · have hne : getFilename file ≠ name := by
      rintro rfl
      exact hc (by rw [Std.ExtTreeMap.contains_eq_isSome_getElem?, h]; rfl)
    exact (Table.getElem?_insert_ne _ _ hne).trans h

/-- A file that is added can be read, unless another one has its digest. -/
lemma mustGetFile_addFile {c : FileCache} {file : Bytes}
    (hfree : ∀ data, c.files[getFilename file]? = some data → data = file) :
    (c.addFile file).mustGetFile (getFilename file) = .ok file := by
  rw [FileCache.mustGetFile_eq_ok]
  unfold FileCache.addFile
  split_ifs with hc
  · rw [Std.ExtTreeMap.contains_eq_isSome_getElem?] at hc
    obtain ⟨data, hdata⟩ := Option.isSome_iff_exists.mp hc
    rw [hdata, hfree data hdata]
  · exact Table.getElem?_insert_self _ _ _

lemma filesStay_handle (k : Keeper) (m : Msg) : Exits FilesStay (m.handle k) :=
  exits_handle (fun _ => Exits.modifyStore fun _ _ _ h => h)
    (fun _ => Exits.modify fun _ _ _ h => h)
    (fun _ file _ _ h => mustGetFile_addFile_of_ok file h) k m

lemma filesStay_step {k : Keeper} {w w' : World} {l : Label} (h : Step k w l w') :
    FilesStay w w' := by
  cases l with
  | deliver m =>
    obtain rfl := Option.some.inj h
    have hexits := filesStay_handle k m w
    rw [ExitsAt] at hexits
    unfold deliver
    rcases m.validateBasic with e | u
    · exact fun _ _ h => h
    · rcases hrun : (m.handle k).run w with ⟨u, w'⟩ | ⟨e, w'⟩ <;>
      · rw [hrun] at hexits
        exact hexits
  | endBlock =>
    have hfiles := (sameSetting_handleEndBlock (step_endBlock_iff.mp h)).files
    intro name data hdata
    rwa [hfiles]
  | writeFile data =>
    obtain rfl := Option.some.inj h
    exact fun _ _ h => mustGetFile_addFile_of_ok data h
  | beginBlock header =>
    simp only [Step, stepOf, Oracle.next] at h
    split_ifs at h
    obtain rfl := Option.some.inj h
    exact fun _ _ h => h
  | updateParams params =>
    simp only [Step, stepOf, Oracle.next] at h
    split_ifs at h
    obtain rfl := Option.some.inj h
    exact fun _ _ h => h
  | updateStaking staking =>
    obtain rfl := Option.some.inj h
    exact fun _ _ h => h
  | updateChannels channels =>
    obtain rfl := Option.some.inj h
    exact fun _ _ h => h

/-! ## Every step is mirrored -/

section Steps

variable {addr : AccAddress → Bytes} {k : Keeper} {w w' : World} {b : BandDB}

lemma Shows.stay {d : DataSource} {row : DataSourceRow} (h : Shows addr w d row)
    (hstay : FilesStay w w') : Shows addr w' d row :=
  ⟨h.name, h.description, h.owner, hstay _ _ h.executable⟩

lemma Mirrors.of_same (h : Mirrors addr w b) (hstay : FilesStay w w')
    (hsame : w'.store.dataSources = w.store.dataSources) : Mirrors addr w' b where
  row id d hd := by
    rw [hsame] at hd
    obtain ⟨row, hrow, hshows⟩ := h.row id d hd
    exact ⟨row, hrow, hshows.stay hstay⟩
  known id row hrow := by
    rw [hsame]
    exact h.known id row hrow

/-- A data source is written, and so is a row that shows it. -/
lemma Mirrors.save {id : DataSourceID} {d : DataSource} {row : DataSourceRow} {header : Header}
    {txHash : Bytes} (h : Mirrors addr w b) (hstay : FilesStay w w')
    (hd : w'.store.dataSources = w.store.dataSources.insert id d) (hshows : Shows addr w' d row) :
    Mirrors addr w' (b.save id row header txHash) where
  row x d' hd' := by
    rw [hd] at hd'
    rw [BandDB.save]
    by_cases hx : id = x
    · subst hx
      rw [Table.getElem?_insert_self] at hd'
      obtain rfl := Option.some.inj hd'
      exact ⟨row, Table.getElem?_insert_self _ _ _, hshows⟩
    · rw [Table.getElem?_insert_ne _ _ hx] at hd' ⊢
      obtain ⟨row', hrow', hshows'⟩ := h.row x d' hd'
      exact ⟨row', hrow', hshows'.stay hstay⟩
  known x row' hrow' := by
    rw [BandDB.save] at hrow'
    rw [hd]
    by_cases hx : id = x
    · subst hx
      exact ⟨d, Table.getElem?_insert_self _ _ _⟩
    · rw [Table.getElem?_insert_ne _ _ hx] at hrow' ⊢
      exact h.known x row' hrow'

/-- What the handler does, with the event that it emits. -/
lemma handleMsgCreateDataSource_ok {m : MsgCreateDataSource} {c : Bytes}
    (hc : content k m.executable maxExecutableSize = .ok c) (w : World) :
    (handleMsgCreateDataSource k m).run w = .ok ()
      (World.log { w.addFile c with store := w.store.addDataSource (m.entry c) }
        [.event ⟨"create_data_source", [("id", .dec (w.store.getDataSourceCount + 1))]⟩]) := by
  refine plainFile_bind_eq_ok.mpr ⟨c, hc, addFile_bind.trans ?_⟩
  rw [run_modifyStore_bind, World.addFile_store]
  rfl

lemma kvMap_create (htrace : w'.trace = w.trace ++
      [.event ⟨"create_data_source", [("id", .dec (w.store.getDataSourceCount + 1))]⟩]) :
    kvMap (messageEvents addr w w') "create_data_source.id" =
      [Decimal.print (w.store.getDataSourceCount + 1)] := by
  rw [messageEvents, htrace, List.drop_left]
  rfl

/-- A message that creates a data source is not the marker. -/
lemma ne_doNotModify {m : MsgCreateDataSource} (h : m.validateBasic = .ok ()) :
    m.executable ≠ doNotModify := by
  rw [MsgCreateDataSource.validateBasic] at h
  obtain ⟨_, _, h⟩ := except_bind_eq_ok.mp h
  obtain ⟨_, _, h⟩ := except_bind_eq_ok.mp h
  exact failWhen_eq_ok.mp h

/-- Creating a data source adds its row. -/
lemma mirrors_create {m : MsgCreateDataSource} {txHash : Bytes} (hcat : w.store.Catalogued)
    (h : Mirrors addr w b) (hsent : SentPlain k w m.executable)
    (hcount : w.store.getDataSourceCount + 1 < 2 ^ 63) (hbasic : m.validateBasic = .ok ())
    (hrun : (handleMsgCreateDataSource k m).run w = .ok () w') (hstay : FilesStay w w') :
    ∃ b', b.handleMsgCreateDataSource addr txHash m (kvMap (messageEvents addr w w')) w.header =
      some b' ∧ Mirrors addr w' b' := by
  obtain ⟨c, hc, _⟩ := handleMsgCreateDataSource_eq_ok hrun
  obtain rfl := (EStateM.Result.ok.inj ((handleMsgCreateDataSource_ok hc w).symm.trans hrun)).2
  obtain rfl := hsent.1 c (toOption_eq_some.mpr hc)
  have hmarker := ne_doNotModify hbasic
  have hparse : Decimal.parseInt64 (Decimal.print (w.store.getDataSourceCount + 1)) =
      some (w.store.getDataSourceCount + 1) := by
    have hnonneg : 0 ≤ w.store.getDataSourceCount := hcat.1.nonneg
    exact Decimal.parseInt64_print ⟨by omega, hcount⟩
  -- the keeper's next number is free in the table, too
  have hfree : b.dataSources.contains (w.store.getDataSourceCount + 1) = false := by
    by_contra hne
    rw [Bool.not_eq_false, Std.ExtTreeMap.contains_eq_isSome_getElem?] at hne
    obtain ⟨row, hrow⟩ := Option.isSome_iff_exists.mp hne
    obtain ⟨d, hd⟩ := h.known _ row hrow
    exact absurd (hcat.1.next_free.symm.trans hd) (by simp)
  have hid : kvMap (messageEvents addr w (World.log { w.addFile m.executable with
      store := w.store.addDataSource (m.entry m.executable) } [.event ⟨"create_data_source",
        [("id", .dec (w.store.getDataSourceCount + 1))]⟩])) "create_data_source.id" =
      [Decimal.print (w.store.getDataSourceCount + 1)] :=
    kvMap_create (by rw [World.log, World.addFile_trace])
  refine ⟨b.save (w.store.getDataSourceCount + 1) (createDataSource addr m.name m.description
    m.owner m.executable w.header) w.header txHash, ?_, h.save hstay rfl ⟨rfl, rfl, rfl, ?_⟩⟩
  · rw [BandDB.handleMsgCreateDataSource, hid]
    show (Decimal.parseInt64 _).bind _ = _
    rw [hparse, Option.bind_some, BandDB.addDataSource, if_neg (by rw [hfree]; simp)]
  · rw [MsgCreateDataSource.entry, storedName, if_neg hmarker, World.log, World.addFile,
      if_neg hmarker]
    exact mustGetFile_addFile (hsent.2.resolve_left hmarker)

/-- The marker keeps the executable, and any other one replaces it. -/
lemma mirrors_edit {m : MsgEditDataSource} {txHash : Bytes} (h : Mirrors addr w b)
    (hsent : SentPlain k w m.executable) (hrun : (handleMsgEditDataSource k m).run w = .ok () w')
    (hstay : FilesStay w w') :
    ∃ b', b.handleMsgEditDataSource addr txHash m w.header = some b' ∧ Mirrors addr w' b' := by
  obtain ⟨d, c, hd, _, hc, cs, rfl, _⟩ := handleMsgEditDataSource_eq_ok hrun
  obtain rfl := hsent.1 c (toOption_eq_some.mpr hc)
  obtain ⟨row, hrow, hshows⟩ := h.row m.dataSourceID d hd
  refine ⟨_, by rw [BandDB.handleMsgEditDataSource, hrow]; rfl, h.save hstay rfl
    ⟨?_, ?_, rfl, ?_⟩⟩
  · exact congrArg (modify · m.name) hshows.name
  · exact congrArg (modify · m.description) hshows.description
  · rw [MsgEditDataSource.edited, editedName, createDataSource, modifyCode, World.log,
      World.addFile]
    split_ifs with hmarker
    · exact hshows.executable
    · exact mustGetFile_addFile (hsent.2.resolve_left hmarker)

/-- Nothing else touches the data sources. -/
lemma dataSources_of_other {l : Label} (h : Step k w l w')
    (hcreate : ∀ m, l ≠ .deliver (.createDataSource m))
    (hedit : ∀ m, l ≠ .deliver (.editDataSource m)) :
    w'.store.dataSources = w.store.dataSources := by
  have hchange := (catalogs_change (step_effect h)).1
  generalize hc : w'.store.dataSourceCatalog = c at hchange
  cases hchange with
  | same => exact congrArg Catalog.entries hc
  | add hcr =>
    obtain ⟨m, _, hl, _⟩ := hcr
    exact absurd hl (hcreate m)
  | set _ hed =>
    obtain ⟨m, _, hl, _⟩ := hed
    exact absurd hl (hedit m)

/-- **Step.**  A plain step of a node that mirrors the chain leads to one that does. -/
lemma mirrors_step {n n' : Node} {l : Label × Bytes} (hcat : n.world.store.Catalogued)
    (hdb : n.db = some b) (hm : Mirrors addr n.world b) (hplain : Plain k n l)
    (h : next addr k l n = some n') : ∃ b', n'.db = some b' ∧ Mirrors addr n'.world b' := by
  obtain ⟨w', hst, rfl⟩ := Option.map_eq_some_iff.mp h
  have hstay := filesStay_step (k := k) hst
  rw [hdb, Option.bind_some]
  obtain ⟨label, txHash⟩ := l
  -- where the mirror takes no part, the data sources stay as they are
  have hother : replay addr k txHash label n.world w' b = some b →
      w'.store.dataSources = n.world.store.dataSources →
      ∃ b', replay addr k txHash label n.world w' b = some b' ∧ Mirrors addr w' b' :=
    fun hreplay hsame => ⟨b, hreplay, hm.of_same hstay hsame⟩
  cases label with
  | deliver m =>
    obtain rfl := Option.some.inj hst
    rcases hbasic : m.validateBasic with e | u
    · refine hother (by rw [replay, hbasic]) (congrArg Store.dataSources ?_)
      exact store_of_not_accepts fun hacc => by simp [hacc.1] at hbasic
    rcases hrun : (m.handle k).run n.world with ⟨u, w'⟩ | ⟨e, w'⟩
    · have hdeliver : deliver k m n.world = w' := by simp only [deliver, hbasic, hrun]
      rw [hdeliver] at hst hstay hother ⊢
      cases m with
      | createDataSource m =>
        obtain ⟨b', hb', hm'⟩ := mirrors_create hcat hm hplain.1 hplain.2 hbasic hrun hstay
        exact ⟨b', by rw [replay, hbasic, hrun]; exact hb', hm'⟩
      | editDataSource m =>
        obtain ⟨b', hb', hm'⟩ := mirrors_edit hm hplain hrun hstay
        exact ⟨b', by rw [replay, hbasic, hrun]; exact hb', hm'⟩
      | _ =>
        refine hother (by rw [replay, hbasic, hrun]; rfl) ?_
        exact dataSources_of_other hst (by simp) (by simp)
    · refine hother (by rw [replay, hbasic, hrun]) (congrArg Store.dataSources ?_)
      refine store_of_not_accepts fun hacc => ?_
      obtain ⟨_, w'', hrun'⟩ := hacc
      rw [hrun] at hrun'
      cases hrun'
  | beginBlock header => exact hother rfl (dataSources_of_other hst (by simp) (by simp))
  | writeFile data => exact hother rfl (dataSources_of_other hst (by simp) (by simp))
  | updateParams params => exact hother rfl (dataSources_of_other hst (by simp) (by simp))
  | updateStaking staking => exact hother rfl (dataSources_of_other hst (by simp) (by simp))
  | updateChannels channels => exact hother rfl (dataSources_of_other hst (by simp) (by simp))
  | endBlock => exact hother rfl (dataSources_of_other hst (by simp) (by simp))

/-- **The mirror.**  In every run whose messages send their executables plain, every state
reached has a row for each data source, with its name, its description, its owner and the content
of its file; and the mirror does not panic. -/
theorem mirrors_of_run {data : GenesisState} {w₀ : World} {b₀ : BandDB} {ls : List (Label × Bytes)}
    {n : Node} (h₀ : Starts data w₀) (hm : Mirrors addr w₀ b₀)
    (hrun : RunWhere (stepOf (next addr k)) (Plain k) ⟨w₀, some b₀⟩ ls n) :
    ∃ b, n.db = some b ∧ Mirrors addr n.world b := by
  have hinv : n.world.store.Catalogued ∧ ∃ b, n.db = some b ∧ Mirrors addr n.world b := by
    refine hrun.invariant (I := fun n => n.world.store.Catalogued ∧
      ∃ b, n.db = some b ∧ Mirrors addr n.world b) ?_ ⟨?_, b₀, rfl, hm⟩
    · rintro n l n' hplain hst ⟨hcat, b, hdb, hmirrors⟩
      obtain ⟨w', hchain, hn'⟩ := Option.map_eq_some_iff.mp hst
      refine ⟨?_, mirrors_step hcat hdb hmirrors hplain hst⟩
      rw [← hn']
      exact catalogued_step hcat hchain
    · exact catalogued_of_run h₀ (RunWhere.nil w₀ : Run (Step k) w₀ [] w₀)
  exact hinv.2

end Steps

/-- Before the first data source, the empty tables mirror the chain. -/
lemma mirrors_genesis (addr : AccAddress → Bytes) : Mirrors addr Sample.genesis .empty where
  row id d hd := by
    have : (∅ : Table ℤ DataSource)[id]? = some d := hd
    simp at this
  known id row hrow := by
    have : (∅ : Table ℤ DataSourceRow)[id]? = some row := hrow
    simp at this

namespace Sample

open Oracle.Sample

/-- A script, compressed. -/
def gzippedScript : Bytes :=
  [31, 139, 8, 0, 0, 0, 0, 0, 2, 3, 83, 86, 212, 79, 202, 204, 211, 47, 206, 0, 0, 170, 120, 209,
   47, 9, 0, 0, 0]

/-- A machine that can decompress the script. -/
def gzipKeeper : Keeper :=
  { keeper with
    gunzip := fun b => if b = gzippedScript then some (Bytes.ascii "#!/bin/sh") else none }

def create (executable : Bytes) : Label × Bytes :=
  (.deliver (.createDataSource ⟨owner, Bytes.ascii "prices", [], executable, owner⟩), [1])

/-- Keep the name and the executable, and change the owner and the description. -/
def edit : Label × Bytes :=
  (.deliver (.editDataSource ⟨1, List.replicate 20 4, doNotModify, Bytes.ascii "daily", doNotModify,
    owner⟩), [2])

end Sample

theorem mirrors_of_run_sample : ∃ (n : Node) (b : BandDB), n.db = some b ∧
    Mirrors (fun a => a) n.world b ∧
    ∃ d, n.world.store.dataSources[(1 : ℤ)]? = some d ∧ d.description = Bytes.ascii "daily" := by
  obtain ⟨n, hrun, d, hd, hdesc⟩ := exists_runWhere (f := next (fun a => a) Sample.gzipKeeper)
    (P := Plain Sample.gzipKeeper) (s := ⟨Oracle.Sample.genesis, some .empty⟩)
    [Sample.create (Bytes.ascii "#!/bin/sh"), Sample.edit]
    (I := fun n : Node => ∃ d ∈ n.world.store.dataSources[(1 : ℤ)]?,
      d.description = Bytes.ascii "daily")
    (by decide +kernel)
  obtain ⟨b, hdb, hm⟩ := mirrors_of_run Oracle.Sample.starts_genesis (mirrors_genesis _) hrun
  exact ⟨n, b, hdb, hm, d, hd, hdesc⟩

/-- The mirror keeps the compressed file. -/
theorem not_mirrors_gzipped : ∃ n, Run (stepOf (next (fun a => a) Sample.gzipKeeper))
    ⟨Oracle.Sample.genesis, some .empty⟩ [Sample.create Sample.gzippedScript] n ∧
    (∃ d, n.world.store.dataSources[(1 : ℤ)]? = some d) ∧
    ¬∃ b, n.db = some b ∧ Mirrors (fun a => a) n.world b := by
  obtain ⟨n, hrun, d, hd, b, hb, hne⟩ :=
    exists_runWhere (f := next (fun a => a) Sample.gzipKeeper) (P := fun _ _ => True)
    (s := ⟨Oracle.Sample.genesis, some .empty⟩) [Sample.create Sample.gzippedScript]
    (I := fun n : Node => ∃ d ∈ n.world.store.dataSources[(1 : ℤ)]?, ∃ b ∈ n.db,
      ∀ row ∈ b.dataSources[(1 : ℤ)]?, n.world.files.mustGetFile d.filename ≠ .ok row.executable)
    (by decide +kernel)
  refine ⟨n, hrun, ⟨d, hd⟩, ?_⟩
  rintro ⟨b', hb', hm⟩
  obtain rfl := Option.some.inj (hb.symm.trans hb')
  obtain ⟨row, hrow, hshows⟩ := hm.row 1 d hd
  exact hne row hrow hshows.executable

end Bandchain.Db
