import Bandchain.Lib.KeyedStore
import Bandchain.Oracle.Key

/-!
# The store behind the tables

The oracle module keeps all its data in one key-value store.  Its keys are a prefix for the kind
of data and the arguments of the key constructor.  Different arguments have different keys, so the
store is a map on them, and iterating over a prefix visits what the prefix says.
-/

namespace Bandchain.Oracle

/-! ## Keys -/

/-- An address of the right length. -/
abbrev Addr : Type := { b : Bytes // b.length = addrLen }

def reportStoreKey (requestID : RequestID) : Bytes :=
  reportStoreKeyPrefix ++ uint64ToBigEndian requestID

/-- The kinds of data. -/
inductive Kind
  | global
  | request
  | report
  | dataSource
  | oracleScript
  | reporter
  | reportInfo
  | result
deriving DecidableEq

def Kind.storeKeyPrefix : Kind → Bytes
  | .global => globalStoreKeyPrefix
  | .request => requestStoreKeyPrefix
  | .report => reportStoreKeyPrefix
  | .dataSource => dataSourceStoreKeyPrefix
  | .oracleScript => oracleScriptStoreKeyPrefix
  | .reporter => reporterStoreKeyPrefix
  | .reportInfo => validatorReportInfoKeyPrefix
  | .result => resultStoreKeyPrefix

/-- The global variables. -/
inductive Global
  | requestCount
  | requestLastExpired
  | pendingResolveList
  | dataSourceCount
  | oracleScriptCount
deriving DecidableEq

/-- The name of a variable; it follows the prefix. -/
def Global.name : Global → Bytes
  | .requestCount => Bytes.ascii "RequestCount"
  | .requestLastExpired => Bytes.ascii "RequestLastExpired"
  | .pendingResolveList => Bytes.ascii "PendingList"
  | .dataSourceCount => Bytes.ascii "DataSourceCount"
  | .oracleScriptCount => Bytes.ascii "OracleScriptCount"

def Global.storeKey : Global → Bytes
  | .requestCount => requestCountStoreKey
  | .requestLastExpired => requestLastExpiredStoreKey
  | .pendingResolveList => pendingResolveListStoreKey
  | .dataSourceCount => dataSourceCountStoreKey
  | .oracleScriptCount => oracleScriptCountStoreKey

/-- What an entry of the store is about: identifiers have 64 bits, addresses the right length. -/
inductive Key
  | global (g : Global)
  | request (id : Int64)
  | report (id : Int64) (val : Addr)
  | dataSource (id : Int64)
  | oracleScript (id : Int64)
  | reporter (val addr : Addr)
  | reportInfo (val : Addr)
  | result (id : Int64)
deriving DecidableEq

namespace Key

/-- The key in the store. -/
def bytes : Key → Bytes
  | .global g => g.storeKey
  | .request id => requestStoreKey id.toInt
  | .report id val => reportStoreKeyPerValidator id.toInt val.1
  | .dataSource id => dataSourceStoreKey id.toInt
  | .oracleScript id => oracleScriptStoreKey id.toInt
  | .reporter val addr => reporterStoreKey val.1 addr.1
  | .reportInfo val => validatorReportInfoStoreKey val.1
  | .result id => resultStoreKey id.toInt

def kind : Key → Kind
  | .global _ => .global
  | .request _ => .request
  | .report _ _ => .report
  | .dataSource _ => .dataSource
  | .oracleScript _ => .oracleScript
  | .reporter _ _ => .reporter
  | .reportInfo _ => .reportInfo
  | .result _ => .result

/-- The identifier in a key. -/
def id : Key → Option Int64
  | .request id => some id
  | .report id _ => some id
  | .dataSource id => some id
  | .oracleScript id => some id
  | .result id => some id
  | _ => none

/-- What follows the prefix. -/
def arguments : Key → Bytes
  | .global g => g.name
  | .request id => uint64ToBigEndian id.toInt
  | .report id val => uint64ToBigEndian id.toInt ++ val.1
  | .dataSource id => uint64ToBigEndian id.toInt
  | .oracleScript id => uint64ToBigEndian id.toInt
  | .reporter val addr => val.1 ++ addr.1
  | .reportInfo val => val.1
  | .result id => uint64ToBigEndian id.toInt

lemma bytes_eq (key : Key) : key.bytes = key.kind.storeKeyPrefix ++ key.arguments := by
  cases key with
  | global g => cases g <;> rfl
  | report id val => exact List.append_assoc _ _ _
  | reporter val addr => exact List.append_assoc _ _ _
  | _ => rfl

end Key

/-! ## Different arguments have different keys -/

lemma Kind.length_storeKeyPrefix (kind : Kind) : kind.storeKeyPrefix.length = 1 := by
  cases kind <;> rfl

lemma Kind.storeKeyPrefix_injective : Function.Injective Kind.storeKeyPrefix := by
  intro a b h
  cases a <;> cases b <;> first | rfl | exact absurd h (by decide)

lemma Global.name_injective : Function.Injective Global.name := by
  intro a b h
  cases a <;> cases b <;> first | rfl | exact absurd h (by decide +kernel)

lemma uint64ToBigEndian_injective :
    Function.Injective fun id : Int64 => uint64ToBigEndian id.toInt := by
  intro a b h
  have ha := a.le_toInt
  have ha' := a.toInt_lt
  have hb := b.le_toInt
  have hb' := b.toInt_lt
  have hmod : (a.toInt % 2 ^ 64).toNat = (b.toInt % 2 ^ 64).toNat :=
    Bytes.be_inj (by omega) (by omega) h
  exact Int64.toInt_inj.mp (by omega)

lemma Key.arguments_injective {key key' : Key} (hkind : key.kind = key'.kind)
    (h : key.arguments = key'.arguments) : key = key' := by
  cases key <;> cases key' <;> try cases hkind
  case global => rw [Global.name_injective h]
  case report id val id' val' =>
    obtain ⟨hid, hval⟩ := List.append_inj h (by simp)
    rw [uint64ToBigEndian_injective hid, Subtype.ext hval]
  case reporter val addr val' addr' =>
    obtain ⟨hval, haddr⟩ := List.append_inj h (by rw [val.2, val'.2])
    rw [Subtype.ext hval, Subtype.ext haddr]
  case reportInfo => rw [Subtype.ext h]
  all_goals rw [uint64ToBigEndian_injective h]

lemma Key.bytes_injective : Function.Injective Key.bytes := by
  intro key key' h
  rw [bytes_eq, bytes_eq] at h
  obtain ⟨hpre, harguments⟩ := List.append_inj h (by
    rw [Kind.length_storeKeyPrefix, Kind.length_storeKeyPrefix])
  exact arguments_injective (Kind.storeKeyPrefix_injective hpre) harguments

/-! ## What a prefix says -/

lemma Kind.prefix_bytes_iff {kind : Kind} {key : Key} :
    kind.storeKeyPrefix <+: key.bytes ↔ key.kind = kind := by
  rw [Key.bytes_eq]
  constructor
  · intro h
    have heq := List.IsPrefix.eq_of_length
      (List.prefix_of_prefix_length_le h (List.prefix_append _ _) (by
        rw [length_storeKeyPrefix, length_storeKeyPrefix]))
      (by rw [length_storeKeyPrefix, length_storeKeyPrefix])
    exact (storeKeyPrefix_injective heq).symm
  · rintro rfl
    exact List.prefix_append _ _

lemma reportStoreKey_prefix_bytes_iff {rid : Int64} {key : Key} :
    reportStoreKey rid.toInt <+: key.bytes ↔ ∃ val, key = .report rid val := by
  constructor
  · intro h
    have hkind : key.kind = .report :=
      Kind.prefix_bytes_iff.mp ((List.prefix_append _ _).trans h)
    cases key with
    | report id val =>
      have heq := List.IsPrefix.eq_of_length
        (List.prefix_of_prefix_length_le h (List.prefix_append (reportStoreKey id.toInt) val.1) (by
          simp [reportStoreKey]))
        (by simp [reportStoreKey])
      rw [uint64ToBigEndian_injective (List.append_cancel_left heq)]
      exact ⟨val, rfl⟩
    | _ => cases hkind
  · rintro ⟨val, rfl⟩
    exact List.prefix_append _ _

/-- Keys with identifiers are ordered by these, as long as they are not negative. -/
lemma Key.id_le_of_bytes_lt {key key' : Key} (hkind : key.kind = key'.kind)
    (hlt : key.bytes < key'.bytes) {i i' : Int64} (hi : key.id = some i) (hi' : key'.id = some i')
    (hpos : 0 ≤ i.toInt) (hpos' : 0 ≤ i'.toInt) :
    i.toInt ≤ i'.toInt ∧ (key.kind ≠ .report → i.toInt < i'.toInt) := by
  have hbound := i.toInt_lt
  have hbound' := i'.toInt_lt
  have hids : ∀ family : Bytes, family ++ uint64ToBigEndian i.toInt <
      family ++ uint64ToBigEndian i'.toInt ↔ i.toInt < i'.toInt := fun family =>
    prefix_uint64ToBigEndian_lt_iff family hpos (by omega) hpos' (by omega)
  cases key <;> cases key' <;> try cases hkind
  case report id val id' val' =>
    obtain rfl := Option.some.inj hi
    obtain rfl := Option.some.inj hi'
    refine ⟨?_, fun h => absurd rfl h⟩
    rcases (Bytes.append_lt_append_iff (by simp)).mp hlt with hlt | ⟨heq, _⟩
    · exact ((hids _).mp hlt).le
    · rw [uint64ToBigEndian_injective (List.append_cancel_left heq)]
  all_goals
    cases hi
    try cases hi'
  all_goals
    have hlt' := (hids _).mp hlt
    exact ⟨hlt'.le, fun _ => hlt'⟩

/-! ## The store -/

/-- A store that holds keys of the module only. -/
abbrev KvStore : Type := KeyedStore Key.bytes

namespace KvStore

def getReportIterator (s : KvStore) (rid : Int64) : List (Bytes × Bytes) :=
  s.iterator (reportStoreKey rid.toInt)

def getReportCount (s : KvStore) (rid : Int64) : ℕ := (getReportIterator s rid).length

/-- The reports of a request, still encoded. -/
def getReports (s : KvStore) (rid : Int64) : List Bytes := (getReportIterator s rid).map Prod.snd

def deleteReports (s : KvStore) (rid : Int64) : KvStore := s.deletePrefix (reportStoreKey rid.toInt)

/-- The identifier that follows the prefix of one byte. -/
def idOfKey (k : Bytes) : ℤ := toInt64 (Bytes.ofBe (k.drop 1))

/-- The loop of `GetAllResults`: an identifier that is left out leaves a gap in the list. -/
def resultsFrom (previousReqID : ℤ) : List (Bytes × Bytes) → List (Option Bytes)
  | [] => []
  | (k, v) :: rest =>
    let currentReqID := idOfKey k
    let diffReqIDCount := toInt64 (currentReqID - previousReqID)
    List.replicate (diffReqIDCount - 1).toNat none ++ some v :: resultsFrom currentReqID rest

def getAllResults (s : KvStore) : List (Option Bytes) :=
  resultsFrom 0 (s.iterator resultStoreKeyPrefix)

/-! ## Reports -/

lemma mem_getReportIterator {s : KvStore} {rid : Int64} {e : Bytes × Bytes} :
    e ∈ getReportIterator s rid ↔
      ∃ val, e.1 = (Key.report rid val).bytes ∧ s.get (.report rid val) = some e.2 := by
  rw [getReportIterator, KeyedStore.mem_iterator]
  constructor
  · rintro ⟨key, hkey, hpre, hget⟩
    obtain ⟨val, rfl⟩ := reportStoreKey_prefix_bytes_iff.mp hpre
    exact ⟨val, hkey, hget⟩
  · rintro ⟨val, hkey, hget⟩
    exact ⟨_, hkey, reportStoreKey_prefix_bytes_iff.mpr ⟨val, rfl⟩, hget⟩

/-- A request has as many reports as validators have reported on it. -/
lemma getReportCount_eq (s : KvStore) (rid : Int64) :
    ∃ vals : List Addr, vals.Nodup ∧ vals.length = getReportCount s rid ∧
      ∀ val, val ∈ vals ↔ (s.get (.report rid val)).isSome := by
  have hkeys : (getReportIterator s rid).map Prod.fst ∈
      Set.range (List.map fun val => (Key.report rid val).bytes) := by
    rw [Set.range_list_map]
    intro k hk
    obtain ⟨e, he, rfl⟩ := List.mem_map.mp hk
    obtain ⟨val, hval, _⟩ := mem_getReportIterator.mp he
    exact ⟨val, hval.symm⟩
  obtain ⟨vals, hvals⟩ := hkeys
  have hinj : ∀ {val val' : Addr}, (Key.report rid val).bytes = (Key.report rid val').bytes →
      val = val' := fun h => (Key.report.inj (Key.bytes_injective h)).2
  refine ⟨vals, ?_, ?_, fun val => ?_⟩
  · refine List.Nodup.of_map (fun val => (Key.report rid val).bytes) ?_
    rw [hvals]
    exact s.nodup_iterator _
  · rw [getReportCount, ← List.length_map (Key.bytes ∘ Key.report rid), ← List.length_map Prod.fst,
      ← hvals]
    rfl
  · rw [Option.isSome_iff_exists]
    constructor
    · intro hval
      have hmem := List.mem_map_of_mem (f := fun val => (Key.report rid val).bytes) hval
      rw [hvals] at hmem
      obtain ⟨e, he, hkey⟩ := List.mem_map.mp hmem
      obtain ⟨val', hkey', hget⟩ := mem_getReportIterator.mp he
      obtain rfl := hinj (hkey.symm.trans hkey')
      exact ⟨e.2, hget⟩
    · rintro ⟨v, hget⟩
      have hmem := List.mem_map_of_mem (f := Prod.fst)
        (mem_getReportIterator.mpr ⟨val, rfl, hget⟩ :
          ((Key.report rid val).bytes, v) ∈ getReportIterator s rid)
      rw [← hvals] at hmem
      obtain ⟨val', hval', hkey⟩ := List.mem_map.mp hmem
      rwa [← hinj hkey]

/-- No report of the request is left. -/
lemma get_deleteReports_report (s : KvStore) (rid : Int64) (val : Addr) :
    (deleteReports s rid).get (.report rid val) = none := by
  rw [deleteReports, KeyedStore.get_deletePrefix,
    if_pos (reportStoreKey_prefix_bytes_iff.mpr ⟨val, rfl⟩)]

/-- Deleting the reports of a request deletes nothing else. -/
lemma get_deleteReports_of_ne (s : KvStore) {rid : Int64} {key : Key}
    (hkey : ∀ val, key ≠ .report rid val) : (deleteReports s rid).get key = s.get key := by
  rw [deleteReports, KeyedStore.get_deletePrefix, if_neg]
  intro hpre
  obtain ⟨val, hval⟩ := reportStoreKey_prefix_bytes_iff.mp hpre
  exact hkey val hval

/-! ## Results -/

lemma idOfKey_resultStoreKey {id : ℤ} (h : 0 ≤ id) (h' : id < 2 ^ 63) :
    idOfKey (resultStoreKey id) = id := by
  have hbe : Bytes.ofBe (Bytes.be 8 (id % 2 ^ 64).toNat) = (id % 2 ^ 64).toNat :=
    Bytes.ofBe_be (by omega)
  have hdrop : (resultStoreKey id).drop 1 = Bytes.be 8 (id % 2 ^ 64).toNat := rfl
  rw [idOfKey, hdrop, hbe, toInt64, Int.bmod_eq_of_le (by omega) (by omega)]
  omega

/-- With increasing identifiers every result is listed at its own place. -/
lemma getElem?_resultsFrom {l : List (ℤ × Bytes)} {previous : ℤ} (hprevious : 0 ≤ previous)
    (hl : (previous :: l.map Prod.fst).Pairwise (· < ·)) (hbound : ∀ e ∈ l, e.1 < 2 ^ 63) (n : ℕ) :
    ((resultsFrom previous (l.map fun e => (resultStoreKey e.1, e.2)))[n]?).join =
      (l.find? (·.1 = previous + n + 1)).map Prod.snd := by
  induction l generalizing previous n with
  | nil => rfl
  | cons e l ih =>
    obtain ⟨id, v⟩ := e
    obtain ⟨hlt, hl⟩ := List.pairwise_cons.mp hl
    have hid : previous < id := hlt id List.mem_cons_self
    have hid' : id < 2 ^ 63 := hbound _ List.mem_cons_self
    have hafter : ∀ e ∈ l, id < e.1 := fun e he =>
      (List.pairwise_cons.mp hl).1 e.1 (List.mem_map_of_mem he)
    have hdiff : toInt64 (id - previous) = id - previous := by
      rw [toInt64, Int.bmod_eq_of_le (by omega) (by omega)]
    rw [List.map_cons, resultsFrom, idOfKey_resultStoreKey (by omega) hid', hdiff,
      List.getElem?_append, List.length_replicate]
    split_ifs with hgap
    · -- a gap before the first result
      have hnone : ((id, v) :: l).find? (·.1 = previous + n + 1) = none := by
        rw [List.find?_eq_none]
        intro e he
        rw [decide_eq_true_eq]
        rcases List.mem_cons.mp he with rfl | he
        · show id ≠ _
          omega
        · have := hafter e he
          omega
      rw [hnone, List.getElem?_replicate, if_pos hgap]
      rfl
    · obtain ⟨m, hm⟩ : ∃ m, n - (id - previous - 1).toNat = m := ⟨_, rfl⟩
      rw [hm, List.find?_cons]
      cases m with
      | zero =>
        have heq : id = previous + n + 1 := by omega
        simp only [heq, decide_true, List.getElem?_cons_zero]
        rfl
      | succ m =>
        -- the rest of the list is counted from this result on
        have hne : id ≠ previous + n + 1 := by omega
        have hshift : id + m + 1 = previous + n + 1 := by omega
        simp only [decide_eq_false hne, List.getElem?_cons_succ]
        rw [ih (by omega) hl (fun e he => hbound e (List.mem_cons_of_mem _ he)), hshift]

/-- The entries under the prefix of the results are the results. -/
lemma exists_iterator_results (s : KvStore) :
    ∃ l : List (Int64 × Bytes),
      l.map (fun e => ((Key.result e.1).bytes, e.2)) = s.iterator resultStoreKeyPrefix ∧
        ∀ (id : Int64) (v : Bytes), (id, v) ∈ l ↔ s.get (.result id) = some v := by
  have hrange : s.iterator resultStoreKeyPrefix ∈
      Set.range (List.map fun e : Int64 × Bytes => ((Key.result e.1).bytes, e.2)) := by
    rw [Set.range_list_map]
    intro e he
    obtain ⟨key, hkey, hpre, _⟩ := KeyedStore.mem_iterator.mp he
    have hkind : key.kind = .result := Kind.prefix_bytes_iff.mp hpre
    cases key with
    | result id => exact ⟨(id, e.2), Prod.ext hkey.symm rfl⟩
    | _ => cases hkind
  obtain ⟨l, hl⟩ := hrange
  refine ⟨l, hl, fun id v => ?_⟩
  constructor
  · intro h
    have he := List.mem_map_of_mem (f := fun e : Int64 × Bytes =>
      ((Key.result e.1).bytes, e.2)) h
    rw [hl] at he
    obtain ⟨key, hkey, _, hget⟩ := KeyedStore.mem_iterator.mp he
    obtain rfl : Key.result id = key := Key.bytes_injective hkey
    exact hget
  · intro hget
    have hpre : Kind.result.storeKeyPrefix <+: (Key.result id).bytes :=
      Kind.prefix_bytes_iff.mpr rfl
    have he : ((Key.result id).bytes, v) ∈ s.iterator resultStoreKeyPrefix :=
      KeyedStore.mem_iterator.mpr ⟨_, rfl, hpre, hget⟩
    rw [← hl] at he
    obtain ⟨⟨id', v'⟩, he, heq⟩ := List.mem_map.mp he
    obtain ⟨hkey, rfl⟩ := Prod.mk.inj heq
    rwa [← (Key.result.inj (Key.bytes_injective hkey))]

/-- The results in the store, in the order of their identifiers if these are positive. -/
lemma exists_results {s : KvStore}
    (hpos : ∀ id : Int64, (s.get (.result id)).isSome → 0 < id.toInt) :
    ∃ l : List (ℤ × Bytes),
      s.iterator resultStoreKeyPrefix = l.map (fun e => (resultStoreKey e.1, e.2)) ∧
        (0 :: l.map Prod.fst).Pairwise (· < ·) ∧ (∀ e ∈ l, e.1 < 2 ^ 63) ∧
        ∀ (id : Int64) (v : Bytes), (id.toInt, v) ∈ l ↔ s.get (.result id) = some v := by
  obtain ⟨l, hl, hmem⟩ := s.exists_iterator_results
  have hids : ∀ e ∈ l, 0 < e.1.toInt := by
    rintro ⟨id, v⟩ he
    exact hpos id (Option.isSome_iff_exists.mpr ⟨v, (hmem id v).mp he⟩)
  refine ⟨l.map fun e => (e.1.toInt, e.2), ?_, ?_, ?_, fun id v => ?_⟩
  · rw [← hl, List.map_map]
    rfl
  · rw [List.map_map, List.pairwise_cons, List.pairwise_map]
    constructor
    · intro i hi
      obtain ⟨e, he, rfl⟩ := List.mem_map.mp hi
      exact hids e he
    · have hsorted := s.pairwise_iterator resultStoreKeyPrefix
      rw [← hl, List.pairwise_map] at hsorted
      refine hsorted.imp_of_mem fun {e e'} he he' hlt => ?_
      have hlt' : (Key.result e.1).bytes < (Key.result e'.1).bytes := hlt
      have hkind : (Key.result e.1).kind = (Key.result e'.1).kind := rfl
      exact (Key.id_le_of_bytes_lt hkind hlt' rfl rfl (hids e he).le (hids e' he').le).2
        (by rintro ⟨⟩)
  · intro e he
    obtain ⟨e, _, rfl⟩ := List.mem_map.mp he
    exact e.1.toInt_lt
  · rw [← hmem]
    constructor
    · intro h
      obtain ⟨⟨id', v'⟩, he, heq⟩ := List.mem_map.mp h
      obtain ⟨hid, rfl⟩ := Prod.mk.inj heq
      rwa [← Int64.toInt_inj.mp hid]
    · exact fun h => List.mem_map_of_mem (f := fun e : Int64 × Bytes => (e.1.toInt, e.2)) h

/-- If all results belong to positive identifiers, the list of all results has each at its place,
with gaps where there is none. -/
lemma getElem?_getAllResults {s : KvStore}
    (hpos : ∀ id : Int64, (s.get (.result id)).isSome → 0 < id.toInt) {n : ℕ} {id : Int64}
    (hid : id.toInt = n + 1) : ((getAllResults s)[n]?).join = s.get (.result id) := by
  obtain ⟨l, hl, hsorted, hbound, hmem⟩ := exists_results hpos
  rw [getAllResults, hl, getElem?_resultsFrom (le_refl 0) hsorted hbound]
  cases hfind : l.find? (·.1 = 0 + (n : ℤ) + 1) with
  | none =>
    cases hget : s.get (.result id) with
    | none => rfl
    | some v =>
      have hne := List.find?_eq_none.mp hfind _ ((hmem id v).mpr hget)
      rw [decide_eq_true_eq] at hne
      omega
  | some e =>
    have hfound := List.find?_some hfind
    rw [decide_eq_true_eq] at hfound
    have he : (id.toInt, e.2) ∈ l := by
      rw [show id.toInt = e.1 by omega]
      exact List.mem_of_find?_eq_some hfind
    exact ((hmem id e.2).mp he).symm

end KvStore

/-- **The store is well partitioned.**  Different arguments have different keys.  In any store that
holds such keys only, iteration over the reports of a request visits exactly the reports of it,
and iteration over the prefix of a kind exactly the entries of that kind, each of them once, in
the order of their identifiers as long as these are not negative. -/
theorem storeKeys_partition :
    Function.Injective Key.bytes ∧
      ∀ s : KvStore,
        (∀ (rid : Int64) (e : Bytes × Bytes), e ∈ s.iterator (reportStoreKey rid.toInt) ↔
          ∃ val, e.1 = (Key.report rid val).bytes ∧ s.get (.report rid val) = some e.2) ∧
        (∀ (kind : Kind) (e : Bytes × Bytes), e ∈ s.iterator kind.storeKeyPrefix ↔
          ∃ key : Key, key.kind = kind ∧ e.1 = key.bytes ∧ s.get key = some e.2) ∧
        (∀ pre : Bytes, ((s.iterator pre).map Prod.fst).Nodup) ∧
        ∀ kind : Kind, (s.iterator kind.storeKeyPrefix).Pairwise fun e e' =>
          ∀ (key key' : Key) (i i' : Int64), e.1 = key.bytes → e'.1 = key'.bytes →
            key.id = some i → key'.id = some i' → 0 ≤ i.toInt → 0 ≤ i'.toInt →
              i.toInt ≤ i'.toInt ∧ (kind ≠ .report → i.toInt < i'.toInt) := by
  refine ⟨Key.bytes_injective, fun s => ⟨fun rid e => KvStore.mem_getReportIterator, ?_,
    s.nodup_iterator, ?_⟩⟩
  · intro kind e
    simp only [KeyedStore.mem_iterator, Kind.prefix_bytes_iff]
    constructor
    · rintro ⟨key, hkey, hkind, hget⟩
      exact ⟨key, hkind, hkey, hget⟩
    · rintro ⟨key, hkind, hkey, hget⟩
      exact ⟨key, hkey, hkind, hget⟩
  · intro kind
    refine (s.pairwise_iterator _).imp_of_mem ?_
    rintro e e' he he' hlt key key' i i' hkey hkey' hi hi' hpos hpos'
    have hkind : ∀ {e : Bytes × Bytes} {key : Key}, e ∈ s.iterator kind.storeKeyPrefix →
        e.1 = key.bytes → key.kind = kind := by
      intro e key he hkey
      obtain ⟨key₀, hkey₀, hpre, _⟩ := KeyedStore.mem_iterator.mp he
      obtain rfl := Key.bytes_injective (hkey.symm.trans hkey₀)
      exact Kind.prefix_bytes_iff.mp hpre
    have hk := hkind he hkey
    rw [hkey, hkey'] at hlt
    rw [← hk]
    exact Key.id_le_of_bytes_lt (hk.trans (hkind he' hkey').symm) hlt hi hi' hpos hpos'

end Bandchain.Oracle
