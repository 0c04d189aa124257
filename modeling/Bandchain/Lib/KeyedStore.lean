import Bandchain.Lib.Bytes
import Bandchain.Lib.Table

/-!
# Stores with encoded keys

A key-value store knows only byte strings.  A program that uses it has keys of its own and an
encoding of these.  If the encoding is injective, the store is a map on the keys; iterating over
the strings with a given prefix visits the keys whose encoding has it, in the order of the
strings.
-/

namespace Bandchain

namespace Bytes

/-- The order of a table with byte strings as keys is that of byte strings. -/
lemma compare_eq_lt_iff {a b : Bytes} : compare a b = .lt ↔ a < b := by
  rw [List.compare_eq_compareLex]
  induction a generalizing b with
  | nil => cases b <;> simp [List.compareLex]
  | cons x a ih =>
    cases b with
    | nil => simp [List.compareLex]
    | cons y b =>
      rw [List.compareLex_cons_cons, Ordering.then_eq_lt, ih, List.cons_lt_cons_iff,
        Std.compare_eq_lt, Std.compare_eq_iff_eq]

end Bytes

/-- A store that holds encodings of keys only. -/
structure KeyedStore {K : Type} (encode : K → Bytes) where
  entries : Table Bytes Bytes
  exists_key : ∀ k v, entries[k]? = some v → ∃ key, k = encode key

namespace KeyedStore

variable {K : Type} {encode : K → Bytes}

def get (s : KeyedStore encode) (key : K) : Option Bytes := s.entries[encode key]?

def set (s : KeyedStore encode) (key : K) (v : Bytes) : KeyedStore encode where
  entries := s.entries.insert (encode key) v
  exists_key := by
    intro k v' h
    by_cases hk : encode key = k
    · exact ⟨key, hk.symm⟩
    · rw [Table.getElem?_insert_ne _ _ hk] at h
      exact s.exists_key k v' h

/-- Remove the entry under the given string. -/
def erase (s : KeyedStore encode) (k : Bytes) : KeyedStore encode where
  entries := s.entries.erase k
  exists_key := by
    intro k' v h
    rw [Std.ExtTreeMap.getElem?_erase] at h
    split_ifs at h
    exact s.exists_key k' v h

/-- The entries with the prefix, in ascending order of their keys. -/
def iterator (s : KeyedStore encode) (pre : Bytes) : List (Bytes × Bytes) :=
  s.entries.entriesWhere (pre.isPrefixOf ·)

/-- Remove the entries with the prefix, one after the other. -/
def deletePrefix (s : KeyedStore encode) (pre : Bytes) : KeyedStore encode :=
  ((s.iterator pre).map Prod.fst).foldl erase s

/-! ## The store as a map on keys -/

@[simp] lemma get_set_self (s : KeyedStore encode) (key : K) (v : Bytes) :
    (s.set key v).get key = some v := Table.getElem?_insert_self _ _ _

lemma get_set_ne (hinj : Function.Injective encode) (s : KeyedStore encode) {key key' : K}
    (v : Bytes) (h : key ≠ key') : (s.set key v).get key' = s.get key' :=
  Table.getElem?_insert_ne _ _ (hinj.ne h)

lemma getElem?_erase (s : KeyedStore encode) (k k' : Bytes) :
    (s.erase k).entries[k']? = if k = k' then none else s.entries[k']? := by
  have hcompare : compare k k' = .eq ↔ k = k' := Std.compare_eq_iff_eq
  rw [erase, Std.ExtTreeMap.getElem?_erase]
  simp only [hcompare]

/-! ## Iteration -/

/-- Iteration visits the keys whose encoding has the prefix. -/
lemma mem_iterator {s : KeyedStore encode} {pre : Bytes} {e : Bytes × Bytes} :
    e ∈ s.iterator pre ↔ ∃ key, e.1 = encode key ∧ pre <+: encode key ∧ s.get key = some e.2 := by
  obtain ⟨k, v⟩ := e
  rw [iterator, Table.mem_entriesWhere, List.isPrefixOf_iff_prefix]
  constructor
  · rintro ⟨hv, hpre⟩
    obtain ⟨key, rfl⟩ := s.exists_key k v hv
    exact ⟨key, rfl, hpre, hv⟩
  · rintro ⟨key, rfl, hpre, hv⟩
    exact ⟨hv, hpre⟩

/-- Iteration is in the order of the encodings. -/
lemma pairwise_iterator (s : KeyedStore encode) (pre : Bytes) :
    (s.iterator pre).Pairwise (·.1 < ·.1) := by
  refine List.Pairwise.filter _ (Std.ExtTreeMap.ordered_keys_toList.imp ?_)
  exact fun h => Bytes.compare_eq_lt_iff.mp h

/-- Iteration visits no key twice. -/
lemma nodup_iterator (s : KeyedStore encode) (pre : Bytes) :
    ((s.iterator pre).map Prod.fst).Nodup := by
  rw [List.Nodup, List.pairwise_map]
  refine (s.pairwise_iterator pre).imp fun {e e'} hlt heq => ?_
  rw [heq] at hlt
  exact List.lt_irrefl _ hlt

lemma getElem?_foldl_erase (s : KeyedStore encode) (ks : List Bytes) (k : Bytes) :
    (ks.foldl erase s).entries[k]? = if k ∈ ks then none else s.entries[k]? := by
  induction ks generalizing s with
  | nil => rfl
  | cons k' ks ih =>
    rw [List.foldl_cons, ih, getElem?_erase]
    by_cases hk : k' = k
    · simp [hk]
    · simp [hk, Ne.symm hk]

/-- Removing what iteration visits removes the keys whose encoding has the prefix. -/
lemma get_deletePrefix (s : KeyedStore encode) (pre : Bytes) (key : K) :
    (s.deletePrefix pre).get key = if pre <+: encode key then none else s.get key := by
  rw [get, deletePrefix, getElem?_foldl_erase]
  by_cases hpre : pre <+: encode key
  · cases hget : s.get key with
    | none => simp [hpre, show s.entries[encode key]? = none from hget]
    | some v =>
      have hmem : encode key ∈ (s.iterator pre).map Prod.fst :=
        List.mem_map.mpr ⟨(encode key, v), mem_iterator.mpr ⟨key, rfl, hpre, hget⟩, rfl⟩
      rw [if_pos hmem, if_pos hpre]
  · have hnot : encode key ∉ (s.iterator pre).map Prod.fst := by
      intro hmem
      obtain ⟨e, he, hkey⟩ := List.mem_map.mp hmem
      obtain ⟨key', hkey', hpre', _⟩ := mem_iterator.mp he
      rw [← hkey', hkey] at hpre'
      exact hpre hpre'
    rw [if_neg hnot, if_neg hpre, get]

end KeyedStore

end Bandchain
