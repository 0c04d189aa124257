import Bandchain.Oracle.Chain
import Bandchain.Oracle.Effects

/-!
# Uploads that panic

The four messages that create or edit a data source or an oracle script carry a file.  The handler
looks at its first three bytes to see whether it is compressed, while `ValidateBasic` only asks for
one byte.
-/

namespace Bandchain.Oracle

open Exec

/-- A message with a file. -/
inductive Upload
  | createDataSource (m : MsgCreateDataSource)
  | editDataSource (m : MsgEditDataSource)
  | createOracleScript (m : MsgCreateOracleScript)
  | editOracleScript (m : MsgEditOracleScript)

namespace Upload

def validateBasic : Upload → Except Err Unit
  | createDataSource m => m.validateBasic
  | editDataSource m => m.validateBasic
  | createOracleScript m => m.validateBasic
  | editOracleScript m => m.validateBasic

def handle (k : Keeper) : Upload → OracleM Unit
  | createDataSource m => handleMsgCreateDataSource k m
  | editDataSource m => handleMsgEditDataSource k m
  | createOracleScript m => handleMsgCreateOracleScript k m
  | editOracleScript m => handleMsgEditOracleScript k m

def payload : Upload → Bytes
  | createDataSource m => m.executable
  | editDataSource m => m.executable
  | createOracleScript m => m.code
  | editOracleScript m => m.code

def maxSize : Upload → ℕ
  | createDataSource _ => maxExecutableSize
  | editDataSource _ => maxExecutableSize
  | createOracleScript _ => maxWasmCodeSize
  | editOracleScript _ => maxWasmCodeSize

/-- The handler gets as far as the file: what is edited exists and belongs to the sender. -/
def Reaches (s : Store) : Upload → Prop
  | createDataSource _ => True
  | editDataSource m => ∃ d, s.dataSources[m.dataSourceID]? = some d ∧ d.owner = m.sender
  | createOracleScript _ => True
  | editOracleScript m => ∃ o, s.oracleScripts[m.oracleScriptID]? = some o ∧ o.owner = m.sender

end Upload

/-! ## Errors -/

/-- A file is only too short for the format to be told; all else is an error that is returned. -/
lemma content_eq_panic_iff {k : Keeper} {file : Bytes} {maxSize : ℕ} :
    (∃ r, content k file maxSize = .error (.panic r)) ↔ file.length < 3 := by
  unfold content isGzipped
  split_ifs with h
  · exact iff_of_true ⟨_, rfl⟩ h
  · refine iff_of_false ?_ h
    rintro ⟨r, hr⟩
    simp only [bind, Except.bind] at hr
    split_ifs at hr
    rw [uncompress] at hr
    split at hr
    · cases hr
    · split_ifs at hr
      cases hr

/-- What a handler does, from where it gets to the file: it fails with the error of the file, and
with no other. -/
def FailsWith (x : OracleM Unit) (c : Except Err Bytes) (w : World) : Prop :=
  (∃ f w', c = .ok f ∧ x.run w = .ok () w') ∨ ∃ e, c = .error e ∧ x.run w = .error e w

lemma failsWith_plainFile {k : Keeper} {file : Bytes} {maxSize : ℕ} {f : Bytes → OracleM Unit}
    {w : World} (hf : ∀ c, ∃ w', (f c).run w = .ok () w') :
    FailsWith (plainFile k file maxSize >>= f) (content k file maxSize) w := by
  rw [plainFile_eq]
  cases hc : content k file maxSize with
  | ok c =>
    obtain ⟨w', hw'⟩ := hf c
    exact .inl ⟨c, w', rfl, valueOf_bind_eq_ok.mpr ⟨c, rfl, hw'⟩⟩
  | error e => exact .inr ⟨e, rfl, rfl⟩

/-- An edit first looks for its target and then at who owns it. -/
lemma guarded_cases {α : Type} {get : Store → Except Err α} {found : Option α} {missing : Err}
    (owner : α → AccAddress) (sender : AccAddress) (rest : OracleM Unit) {w : World}
    (hget : get w.store = found.elim (.error missing) .ok)
    (hmissing : ∀ r, missing ≠ .panic r) :
    let guarded : OracleM Unit := do
      let a ← readStore get
      failIf (owner a ≠ sender) .editorNotAuthorized
      rest
    (∃ a, found = some a ∧ owner a = sender) ∧ guarded.run w = rest.run w ∨
      (¬∃ a, found = some a ∧ owner a = sender) ∧
        ∃ e, (∀ r, e ≠ .panic r) ∧ guarded.run w = .error e w := by
  intro guarded
  cases found with
  | none =>
    refine .inr ⟨by simp, missing, hmissing, bind_eq_error.mpr (.inl ?_)⟩
    exact valueOf_eq_error.mpr ⟨hget, rfl⟩
  | some a =>
    have hread : (readStore get).run w = .ok a w := readStore_eq_ok.mpr ⟨hget, rfl⟩
    have hrun : guarded.run w =
        (failIf (owner a ≠ sender) .editorNotAuthorized >>= fun _ => rest : OracleM Unit).run w :=
      run_bind_of_ok hread
    rw [hrun]
    by_cases howner : owner a = sender
    · refine .inl ⟨⟨a, rfl, howner⟩, ?_⟩
      rw [run_bind_of_ok (run_failIf_of_not (not_not.mpr howner))]
    · refine .inr ⟨?_, .editorNotAuthorized, by simp, bind_eq_error.mpr (.inl ?_)⟩
      · rintro ⟨a', ha', howner'⟩
        obtain rfl := Option.some.inj ha'
        exact howner howner'
      · exact failIf_eq_error.mpr ⟨howner, rfl, rfl⟩

/-- The handler fails before it gets to the file, or with the error of the file. -/
lemma Upload.handle_cases (k : Keeper) (u : Upload) (w : World) :
    u.Reaches w.store ∧ FailsWith (u.handle k) (content k u.payload u.maxSize) w ∨
      ¬u.Reaches w.store ∧ ∃ e, (∀ r, e ≠ .panic r) ∧ (u.handle k).run w = .error e w := by
  cases u with
  | createDataSource m =>
    refine .inl ⟨trivial, failsWith_plainFile fun c => ?_⟩
    rw [addFile_bind]
    exact ⟨_, rfl⟩
  | createOracleScript m =>
    refine .inl ⟨trivial, failsWith_plainFile fun c => ?_⟩
    rw [addFile_bind]
    exact ⟨_, rfl⟩
  | editDataSource m =>
    have hget : w.store.getDataSource m.dataSourceID =
        w.store.dataSources[m.dataSourceID]?.elim (.error (.dataSourceNotFound m.dataSourceID))
          .ok := by
      rw [Store.getDataSource]
      cases w.store.dataSources[m.dataSourceID]? <;> rfl
    refine (guarded_cases DataSource.owner m.sender _ hget (by simp)).imp_left fun h => ⟨h.1, ?_⟩
    obtain ⟨⟨d, hd, -⟩, hrun⟩ := h
    rw [FailsWith, show (handle k (.editDataSource m)).run w = _ from hrun]
    refine failsWith_plainFile fun c => ?_
    have hedit := Store.mustGetDataSource_eq_ok.mpr hd
    rw [addFile_bind, mustEditDataSource, bind_assoc,
      run_bind_of_ok (readStore_eq_ok.mpr ⟨by rwa [World.addFile_store], rfl⟩)]
    exact ⟨_, rfl⟩
  | editOracleScript m =>
    have hget : w.store.getOracleScript m.oracleScriptID =
        w.store.oracleScripts[m.oracleScriptID]?.elim
          (.error (.oracleScriptNotFound m.oracleScriptID)) .ok := by
      rw [Store.getOracleScript]
      cases w.store.oracleScripts[m.oracleScriptID]? <;> rfl
    refine (guarded_cases OracleScript.owner m.sender _ hget (by simp)).imp_left fun h => ⟨h.1, ?_⟩
    obtain ⟨⟨o, ho, -⟩, hrun⟩ := h
    rw [FailsWith, show (handle k (.editOracleScript m)).run w = _ from hrun]
    refine failsWith_plainFile fun c => ?_
    have hedit := Store.mustGetOracleScript_eq_ok.mpr ho
    rw [addFile_bind, mustEditOracleScript, bind_assoc,
      run_bind_of_ok (readStore_eq_ok.mpr ⟨by rwa [World.addFile_store], rfl⟩)]
    exact ⟨_, rfl⟩

/-- **Uploads.**  The handler of a message that has passed `ValidateBasic` does not panic, and
leaves the store as it was after an error, exactly if the file has at least three bytes wherever
the handler gets to it. -/
theorem upload_safe_iff (k : Keeper) (u : Upload) (w : World) (_ : u.validateBasic = .ok ()) :
    (∀ e w', (u.handle k).run w = .error e w' → (∀ r, e ≠ .panic r) ∧ w'.store = w.store) ↔
      (u.Reaches w.store → 3 ≤ u.payload.length) := by
  rcases u.handle_cases k w with ⟨hreaches, hfails⟩ | ⟨hnot, e, he, hrun⟩
  · rw [imp_iff_right hreaches, ← not_lt, ← @content_eq_panic_iff k _ u.maxSize]
    rcases hfails with ⟨f, w', hc, hrun⟩ | ⟨e, hc, hrun⟩
    · rw [hrun, hc]
      simp
    · rw [hrun, hc]
      constructor
      · rintro h ⟨r, hr⟩
        exact (h e w rfl).1 r (Except.error.inj hr)
      · intro h e' w' hres
        obtain ⟨rfl, rfl⟩ := EStateM.Result.error.inj hres
        exact ⟨fun r hr => h ⟨r, by rw [hr]⟩, rfl⟩
  · refine iff_of_true (fun e' w' hres => ?_) fun h => absurd h hnot
    rw [hrun] at hres
    obtain ⟨rfl, rfl⟩ := EStateM.Result.error.inj hres
    exact ⟨he, rfl⟩

namespace Sample

/-- A new data source with a file of the given bytes. -/
def upload (file : Bytes) : Upload := .createDataSource ⟨owner, [], [], file, owner⟩

lemma validateBasic_upload : ∀ file ∈ ([[1], [1, 2, 3]] : List Bytes),
    (upload file).validateBasic = .ok () := by decide +kernel

end Sample

open Sample

theorem upload_safe_iff_sample : (upload [1, 2, 3]).validateBasic = .ok () ∧
    ∀ e w', ((upload [1, 2, 3]).handle keeper).run genesis = .error e w' →
      (∀ r, e ≠ .panic r) ∧ w'.store = genesis.store :=
  ⟨validateBasic_upload _ (by simp),
    (upload_safe_iff keeper (upload [1, 2, 3]) genesis (validateBasic_upload _ (by simp))).mpr
      fun _ => le_rfl⟩

/-- A file of one byte. -/
theorem not_upload_safe :
    ¬∀ (k : Keeper) (u : Upload) (w : World), u.validateBasic = .ok () →
      ∀ e w', (u.handle k).run w = .error e w' → (∀ r, e ≠ .panic r) ∧ w'.store = w.store := by
  intro h
  exact (h keeper (upload [1]) genesis (validateBasic_upload _ (by simp))
    (.panic "slice bounds out of range") genesis rfl).1 _ rfl

end Bandchain.Oracle
