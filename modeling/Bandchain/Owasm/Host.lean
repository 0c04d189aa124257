import Bandchain.Lib.Text
import Bandchain.Oracle.ExecEnv
import Mathlib.Data.List.DropRight

/-!
# External data on its way to a script

The data of a report reaches an oracle script through four layers: the execution environment, the
cache of spans at the border between Go and C, the host functions of the Wasm machine, and the
wrappers of the script's library.  The environment says `nil` where there is no report, the cache
has an empty span for it, and the library expects a size of -1.
-/

namespace Bandchain.Owasm

open Oracle (ExecEnv RawReport Report Request ExternalID ValAddress newExecEnv)

/-! ## The cache of spans -/

/-- A copy of Go bytes in C memory. -/
structure Span where
  bytes : Bytes
deriving DecidableEq

def copySpan (data : Bytes) : Span := ⟨data⟩

structure EnvIntl where
  ext : ExecEnv
  calldata : Span
  null : Span
  extData : Table (ℤ ×ₗ ℤ) Span

def createEnvIntl (ext : ExecEnv) : EnvIntl := ⟨ext, copySpan ext.getCalldata, copySpan [], ∅⟩

/-- Data that is empty may also be `nil`, but then its span is empty as well. -/
def cGetExternalData (env : EnvIntl) (eid vid : ℤ) : Span × EnvIntl :=
  let key := toLex (eid, vid)
  match env.extData[key]? with
  | some span => (span, env)
  | none =>
    match env.ext.getExternalData eid vid with
    | none => (env.null, env)
    | some data => (copySpan data, { env with extData := env.extData.insert key (copySpan data) })

/-! ## The host functions -/

def getExternalDataSize (eid vid : ℤ) : StateM EnvIntl ℤ := do
  let span ← modifyGet fun env => cGetExternalData env eid vid
  return span.bytes.length

/-- Overwrite the cells of a buffer, as far as both the data and the buffer go. -/
def readExternalData (eid vid : ℤ) (buffer : Bytes) : StateM EnvIntl Bytes := do
  let span ← modifyGet fun env => cGetExternalData env eid vid
  return span.bytes.take buffer.length ++ buffer.drop span.bytes.length

/-! ## The library of the script -/

def getExternalData (externalID validatorIndex : ℤ) : StateM EnvIntl (Option Bytes) := do
  let dataSize ← getExternalDataSize externalID validatorIndex
  if dataSize = -1 then return none
  else
    let data ← readExternalData externalID validatorIndex (List.replicate dataSize.toNat 0)
    return some data

/-- The characters with the Unicode property `White_Space`. -/
def isWhitespace (c : Char) : Bool :=
  (9 ≤ c.toNat && c.toNat ≤ 13) || c.toNat == 0x20 || c.toNat == 0x85 || c.toNat == 0xA0 ||
    c.toNat == 0x1680 || (0x2000 ≤ c.toNat && c.toNat ≤ 0x200A) || c.toNat == 0x2028 ||
    c.toNat == 0x2029 || c.toNat == 0x202F || c.toNat == 0x205F || c.toNat == 0x3000

def trimEnd (s : String) : String := String.ofList (s.toList.rdropWhile isWhitespace)

/-- `from_utf8_unchecked` is not specified on bytes that are no text. -/
def fromUtf8Unchecked (data : Bytes) : String := (Text.ofUtf8 data).getD ""

/-- `trim_end().parse().ok()` for the `FromStr` of a type. -/
def parseTrimmed {T : Type} (fromStr : String → Option T) (data : Bytes) : Option T :=
  fromStr (trimEnd (fromUtf8Unchecked data))

/-- The body of the loop of `loadInput`. -/
def loadStep {T : Type} (fromStr : String → Option T) (externalID : ℤ) (vals : List T) (idx : ℕ) :
    StateM EnvIntl (List T) := do
  let externalData ← getExternalData externalID idx
  match externalData.bind (parseTrimmed fromStr) with
  | some v => return vals ++ [v]
  | none => return vals

def loadInput {T : Type} (fromStr : String → Option T) (externalID : ℤ) :
    StateM EnvIntl (List T) := do
  let env ← get
  (List.range env.ext.getAskCount.toNat).foldlM (loadStep fromStr externalID) []

/-! ## What the cache returns -/

/-- The bytes of the span for a report, which is the empty one if there is none. -/
def spanBytes (ext : ExecEnv) (eid vid : ℤ) : Bytes := (ext.getExternalData eid vid).getD []

/-- Every span in the cache is that of its key. -/
structure EnvIntl.Serves (env : EnvIntl) (ext : ExecEnv) : Prop where
  ext_eq : env.ext = ext
  null_eq : env.null = copySpan []
  cached : ∀ eid vid span, env.extData[toLex (eid, vid)]? = some span →
    span = copySpan (spanBytes ext eid vid)

lemma serves_createEnvIntl (ext : ExecEnv) : (createEnvIntl ext).Serves ext where
  ext_eq := rfl
  null_eq := rfl
  cached eid vid span h := by
    have hnone : (∅ : Table (ℤ ×ₗ ℤ) Span)[toLex (eid, vid)]? = none := by simp
    rw [show (createEnvIntl ext).extData = ∅ from rfl, hnone] at h
    cases h

/-- A read returns the bytes of its report and leaves a cache that does so, too. -/
lemma EnvIntl.Serves.read {env : EnvIntl} {ext : ExecEnv} (h : env.Serves ext) (eid vid : ℤ) :
    (cGetExternalData env eid vid).1 = copySpan (spanBytes ext eid vid) ∧
      (cGetExternalData env eid vid).2.Serves ext := by
  rw [cGetExternalData]
  cases hcached : env.extData[toLex (eid, vid)]? with
  | some span => exact ⟨h.cached eid vid span hcached, h⟩
  | none =>
    rw [spanBytes, h.ext_eq]
    cases hdata : ext.getExternalData eid vid with
    | none => exact ⟨h.null_eq, h⟩
    | some data =>
      refine ⟨rfl, rfl, h.null_eq, fun eid' vid' span hspan => ?_⟩
      by_cases hkey : toLex (eid, vid) = toLex (eid', vid')
      · obtain ⟨rfl, rfl⟩ := Prod.mk.inj (toLex.injective hkey)
        rw [Table.getElem?_insert_self] at hspan
        rw [← Option.some.inj hspan, spanBytes, hdata]
        rfl
      · rw [Table.getElem?_insert_ne _ _ hkey] at hspan
        exact h.cached eid' vid' span hspan

/-- The size is never -1, so the library always returns a text. -/
lemma EnvIntl.Serves.getExternalData {env : EnvIntl} {ext : ExecEnv} (h : env.Serves ext)
    (eid vid : ℤ) :
    ∃ env', Owasm.getExternalData eid vid env = (some (spanBytes ext eid vid), env') ∧
      env'.Serves ext := by
  obtain ⟨hsize, hserves⟩ := h.read eid vid
  obtain ⟨hread, hserves'⟩ := hserves.read eid vid
  refine ⟨_, ?_, hserves'⟩
  have hnonneg : ((spanBytes ext eid vid).length : ℤ) ≠ -1 := by omega
  have hsizeRun : getExternalDataSize eid vid env =
      (((spanBytes ext eid vid).length : ℤ), (cGetExternalData env eid vid).2) := by
    show (((cGetExternalData env eid vid).1.bytes.length : ℤ), (cGetExternalData env eid vid).2) = _
    rw [hsize]
    rfl
  have hreadRun : ∀ buffer : Bytes, buffer.length = (spanBytes ext eid vid).length →
      readExternalData eid vid buffer (cGetExternalData env eid vid).2 =
        (spanBytes ext eid vid, (cGetExternalData (cGetExternalData env eid vid).2 eid vid).2) := by
    intro buffer hbuffer
    show ((cGetExternalData (cGetExternalData env eid vid).2 eid vid).1.bytes.take buffer.length ++
      buffer.drop (cGetExternalData (cGetExternalData env eid vid).2 eid vid).1.bytes.length,
      (cGetExternalData (cGetExternalData env eid vid).2 eid vid).2) = _
    rw [hread, hbuffer]
    show ((spanBytes ext eid vid).take _ ++ buffer.drop (spanBytes ext eid vid).length, _) = _
    rw [List.take_length, List.drop_eq_nil_of_le hbuffer.le, List.append_nil]
  simp only [Owasm.getExternalData, bind, StateT.bind, hsizeRun, if_neg hnonneg, Int.toNat_natCast,
    hreadRun _ List.length_replicate]
  rfl

/-! ## What is loaded -/

lemma EnvIntl.Serves.loadSteps {T : Type} {env : EnvIntl} {ext : ExecEnv} (h : env.Serves ext)
    (fromStr : String → Option T) (eid : ℤ) (idxs : List ℕ) (vals : List T) :
    (idxs.foldlM (loadStep fromStr eid) vals env).1 =
      vals ++ idxs.filterMap fun (idx : ℕ) => parseTrimmed fromStr (spanBytes ext eid idx) := by
  induction idxs generalizing env vals with
  | nil => exact (List.append_nil vals).symm
  | cons idx idxs ih =>
    obtain ⟨env', hget, hserves⟩ := h.getExternalData eid idx
    have hstep : ∃ vals', loadStep fromStr eid vals idx env = (vals', env') ∧
        vals' = vals ++ (parseTrimmed fromStr (spanBytes ext eid idx)).toList := by
      simp only [loadStep, bind, StateT.bind, hget, Option.bind_some]
      cases parseTrimmed fromStr (spanBytes ext eid idx) with
      | none => exact ⟨vals, rfl, (List.append_nil vals).symm⟩
      | some v => exact ⟨vals ++ [v], rfl, rfl⟩
    obtain ⟨vals', hstep, rfl⟩ := hstep
    have hcons : (idx :: idxs).foldlM (loadStep fromStr eid) vals env =
        idxs.foldlM (loadStep fromStr eid)
          (vals ++ (parseTrimmed fromStr (spanBytes ext eid idx)).toList) env' := by
      simp only [List.foldlM_cons, bind, StateT.bind, hstep]
    rw [hcons, ih hserves, List.append_assoc, List.filterMap_cons]
    cases parseTrimmed fromStr (spanBytes ext eid idx) <;> rfl

/-- The data that a validator reported for an external ID; the last one if there are several. -/
def reportedData (reports : List Report) (val : ValAddress) (eid : ExternalID) : Option Bytes :=
  (reports.findRev? (·.validator = val)).bind fun report =>
    (report.rawReports.findRev? (·.externalID = eid)).map RawReport.data

/-- The environment of an execution finds what was reported. -/
lemma getExternalData_setReports {req : Request} {now : ℤ} {reports : List Report} {env : ExecEnv}
    (henv : (newExecEnv req now 0).setReports reports = .ok env) {eid : ℤ} {idx : ℕ}
    (hidx : idx < req.requestedValidators.length) :
    env.getExternalData eid idx = reportedData reports req.requestedValidators[idx] eid := by
  obtain rfl := Except.ok.inj henv
  have hget : req.requestedValidators.getD (idx : ℤ).toNat [] = req.requestedValidators[idx] := by
    rw [Int.toNat_natCast, List.getD_eq_getElem _ _ hidx]
  rw [ExecEnv.getExternalData, ExecEnv.getExternalDataFull,
    if_neg (by show ¬((idx : ℤ) < 0 ∨ (idx : ℤ) ≥ req.requestedValidators.length); omega)]
  simp only [newExecEnv, hget, Table.getElem?_foldl_insert, reportedData]
  cases reports.findRev? (·.validator = req.requestedValidators[idx]) with
  | none => simp
  | some report =>
    have hraw : (report.rawReports.foldl (fun u each => u.insert each.externalID each)
        (∅ : Table ExternalID RawReport))[eid]? =
        report.rawReports.findRev? (·.externalID = eid) := by
      rw [Table.getElem?_foldl_insert RawReport.externalID fun each => each]
      simp
    simp only [Option.map_some, Option.some_or, Option.bind_some, hraw]
    cases report.rawReports.findRev? (·.externalID = eid) <;> rfl

/-- The values that the requested validators reported, in their order. -/
def inputs {T : Type} (fromStr : String → Option T) (req : Request) (reports : List Report)
    (eid : ℤ) : List T :=
  req.requestedValidators.filterMap fun val =>
    (reportedData reports val eid).bind (parseTrimmed fromStr)

/-- A validator without a report counts as one with empty data. -/
lemma loadInput_eq {T : Type} (fromStr : String → Option T) {req : Request} {now : ℤ}
    {reports : List Report} {ext : ExecEnv}
    (hext : (newExecEnv req now 0).setReports reports = .ok ext) {env : EnvIntl}
    (h : env.Serves ext) (eid : ℤ) :
    (loadInput fromStr eid env).1 = req.requestedValidators.filterMap fun val =>
      parseTrimmed fromStr ((reportedData reports val eid).getD []) := by
  have hcount : env.ext.getAskCount.toNat = req.requestedValidators.length := by
    rw [h.ext_eq, ← Except.ok.inj hext]
    rfl
  have hrun : (loadInput fromStr eid env).1 =
      ((List.range env.ext.getAskCount.toNat).foldlM (loadStep fromStr eid) [] env).1 := rfl
  rw [hrun, h.loadSteps, List.nil_append, hcount]
  have hmap : req.requestedValidators =
      (List.range req.requestedValidators.length).map fun idx =>
        req.requestedValidators.getD idx [] := by
    refine List.ext_getElem (by simp) fun idx hidx _ => ?_
    rw [List.getElem_map, List.getElem_range, List.getD_eq_getElem _ _ hidx]
  conv_rhs => rw [hmap, List.filterMap_map]
  refine List.filterMap_congr fun idx hidx => ?_
  have hlt := List.mem_range.mp hidx
  rw [spanBytes, getExternalData_setReports hext hlt, Function.comp_apply,
    List.getD_eq_getElem _ _ hlt]

/-- A function that finds more finds a longer list. -/
lemma length_filterMap_le {α β : Type} {f g : α → Option β} (h : ∀ a, f a = none ∨ f a = g a)
    (l : List α) : (l.filterMap f).length ≤ (l.filterMap g).length := by
  induction l with
  | nil => exact le_rfl
  | cons a l ih =>
    rw [List.filterMap_cons, List.filterMap_cons]
    rcases h a with hf | hf
    · rw [hf]
      cases g a with
      | none => exact ih
      | some b => exact ih.trans (Nat.le_succ _)
    · rw [hf]
      cases g a with
      | none => exact ih
      | some b => exact Nat.succ_le_succ ih

lemma filterMap_eq_iff {α β : Type} {f g : α → Option β} (h : ∀ a, f a = none ∨ f a = g a)
    (l : List α) : l.filterMap g = l.filterMap f ↔ ∀ a ∈ l, g a = f a := by
  refine ⟨fun hl => ?_, List.filterMap_congr⟩
  induction l with
  | nil => exact fun a ha => absurd ha List.not_mem_nil
  | cons a l ih =>
    have hle := length_filterMap_le h l
    rw [List.filterMap_cons, List.filterMap_cons] at hl
    rw [List.forall_mem_cons]
    rcases h a with hf | hf
    · rw [hf] at hl ⊢
      cases hg : g a with
      | none => exact ⟨rfl, ih (by rwa [hg] at hl)⟩
      | some b =>
        rw [hg] at hl
        have hlen := congrArg List.length (show b :: l.filterMap g = l.filterMap f from hl)
        rw [List.length_cons] at hlen
        omega
    · refine ⟨hf.symm, ih ?_⟩
      rw [hf] at hl
      cases hg : g a with
      | none => rwa [hg] at hl
      | some b =>
        rw [hg] at hl
        exact (List.cons.inj hl).2

lemma parseTrimmed_nil {T : Type} (fromStr : String → Option T) :
    parseTrimmed fromStr [] = fromStr "" := by
  have htext : Text.ofUtf8 [] = some "" := Text.ofUtf8_eq_some.mpr rfl
  rw [parseTrimmed, fromUtf8Unchecked, htext]
  rfl

/-- The cache after a script has read some external data. -/
def afterReads (env : EnvIntl) (reads : List (ℤ × ℤ)) : EnvIntl :=
  reads.foldl (fun env r => (cGetExternalData env r.1 r.2).2) env

lemma EnvIntl.Serves.afterReads {env : EnvIntl} {ext : ExecEnv} (h : env.Serves ext)
    (reads : List (ℤ × ℤ)) : (afterReads env reads).Serves ext := by
  induction reads generalizing env with
  | nil => exact h
  | cons r reads ih => exact ih (h.read r.1 r.2).2

/-- **Loading external data.**  In an execution, whatever the script has read before, the values
loaded are those that the requested validators reported, exactly if the type does not parse the
empty text or all of the validators have reported. -/
theorem loadInput_eq_iff {T : Type} (fromStr : String → Option T) (req : Request) (now : ℤ)
    (reports : List Report) (reads : List (ℤ × ℤ)) (eid : ℤ) :
    ∃ env, (newExecEnv req now 0).setReports reports = .ok env ∧
      ((loadInput fromStr eid (afterReads (createEnvIntl env) reads)).1 =
          inputs fromStr req reports eid ↔
        fromStr "" = none ∨
          ∀ val ∈ req.requestedValidators, reportedData reports val eid ≠ none) := by
  refine ⟨_, rfl, ?_⟩
  rw [loadInput_eq fromStr rfl ((serves_createEnvIntl _).afterReads reads), inputs,
    filterMap_eq_iff]
  · constructor
    · intro h
      refine or_iff_not_imp_left.mpr fun hempty val hval hnone => hempty ?_
      have hparse := h val hval
      rwa [hnone, Option.getD_none, parseTrimmed_nil] at hparse
    · intro h val hval
      cases hdata : reportedData reports val eid with
      | some data => rfl
      | none =>
        rw [Option.getD_none, parseTrimmed_nil]
        exact h.resolve_right fun hall => hall val hval hdata
  · intro val
    cases reportedData reports val eid with
    | none => exact .inl rfl
    | some data => exact .inr rfl

/-- A text is loaded for the only requested validator, who has not reported. -/
theorem not_loadInput_eq :
    ¬∀ (T : Type) (fromStr : String → Option T) (req : Request) (now : ℤ) (reports : List Report)
      (eid : ℤ) (env : ExecEnv), (reports.map Report.validator).Nodup →
      (∀ report ∈ reports, ∀ raw ∈ report.rawReports, Text.ValidUtf8 raw.data) →
      (newExecEnv req now 0).setReports reports = .ok env →
      (loadInput fromStr eid (createEnvIntl env)).1 = inputs fromStr req reports eid := by
  intro h
  have hload := h String some ⟨1, [], [List.replicate 20 1], 1, 0, 0, [], none, [1]⟩ 0 [] 1 _
    List.nodup_nil (by simp) rfl
  rw [loadInput_eq some rfl (serves_createEnvIntl _)] at hload
  exact absurd hload (by simp [inputs, reportedData, parseTrimmed_nil])

end Bandchain.Owasm
