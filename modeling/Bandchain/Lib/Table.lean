import Mathlib

/-!
# Ordered tables

A table is an ordered finite map; iterating over it visits the entries in key order.  A
key-value store whose keys carry a prefix is used through *group iteration*: the entries
whose key satisfies a predicate.  This file gives that iteration its membership rule, and
the effect of an insertion on it.
-/

namespace Bandchain

open Std

/-- An ordered finite map. -/
abbrev Table (K V : Type) [Ord K] : Type := ExtTreeMap K V

/-- Keys made of two parts are ordered by the first part, then by the second. -/
instance instLawfulEqOrdLex {α β : Type} [Ord α] [Ord β] [LawfulEqOrd α] [LawfulEqOrd β] :
    LawfulEqOrd (α ×ₗ β) where
  compare_self := by
    intro a
    show (compare a.1 a.1).then (compare a.2 a.2) = .eq
    simp
  eq_of_compare := by
    intro a b h
    change (compare a.1 b.1).then (compare a.2 b.2) = .eq at h
    rw [Ordering.then_eq_eq] at h
    exact Prod.ext (LawfulEqOrd.eq_of_compare h.1) (LawfulEqOrd.eq_of_compare h.2)

namespace Table

variable {K V : Type} [Ord K] [TransOrd K]

/-- The entries whose key satisfies `p`, in key order. -/
def entriesWhere (t : Table K V) (p : K → Bool) : List (K × V) :=
  t.toList.filter fun e => p e.1

lemma foldl_insert (t : Table K V) (l : List (K × V)) :
    l.foldl (fun u e => u.insert e.1 e.2) t = t.insertMany l := by
  induction l generalizing t with
  | nil => rfl
  | cons e l ih => rw [List.foldl_cons, ih, ExtTreeMap.insertMany_cons]

variable [LawfulEqOrd K]

lemma getElem?_insert_self (t : Table K V) (k : K) (v : V) : (t.insert k v)[k]? = some v := by
  simp

lemma getElem?_insert_ne (t : Table K V) {k k' : K} (v : V) (h : k ≠ k') :
    (t.insert k v)[k']? = t[k']? := by
  rw [ExtTreeMap.getElem?_insert, if_neg]
  simpa using h

/-- Of the entries inserted under one key the last one counts. -/
lemma getElem?_foldl_insert {α : Type} [DecidableEq K] (key : α → K) (value : α → V)
    (l : List α) (t : Table K V) (k : K) :
    (l.foldl (fun t a => t.insert (key a) (value a)) t)[k]? =
      ((l.findRev? (key · = k)).map value).or t[k]? := by
  induction l generalizing t with
  | nil => rfl
  | cons a l ih =>
    rw [List.foldl_cons, ih, List.findRev?]
    cases l.findRev? (key · = k) with
    | some b => rfl
    | none =>
      by_cases hk : key a = k
      · rw [if_pos (decide_eq_true hk), hk, getElem?_insert_self]
        rfl
      · rw [if_neg (by simpa using hk), getElem?_insert_ne _ _ hk]

/-- Entries under different keys can be inserted in any order. -/
lemma insert_comm (t : Table K V) {k k' : K} (v v' : V) (h : k ≠ k') :
    (t.insert k v).insert k' v' = (t.insert k' v').insert k v := by
  refine ExtTreeMap.ext_getElem? fun x => ?_
  by_cases hx : k = x
  · subst hx
    rw [getElem?_insert_ne _ _ h.symm, getElem?_insert_self, getElem?_insert_self]
  · rw [getElem?_insert_ne _ _ hx]
    by_cases hx' : k' = x
    · subst hx'
      rw [getElem?_insert_self, getElem?_insert_self]
    · rw [getElem?_insert_ne _ _ hx', getElem?_insert_ne _ _ hx', getElem?_insert_ne _ _ hx]

lemma nodup_toList (t : Table K V) : t.toList.Nodup := by
  refine ExtTreeMap.distinct_keys_toList.imp ?_
  rintro a b hab rfl
  exact hab (by simp)

@[simp] lemma mem_entriesWhere {t : Table K V} {p : K → Bool} {k : K} {v : V} :
    (k, v) ∈ entriesWhere t p ↔ t[k]? = some v ∧ p k = true := by
  simp [entriesWhere, ExtTreeMap.mem_toList_iff_getElem?_eq_some]

lemma nodup_entriesWhere (t : Table K V) (p : K → Bool) : (entriesWhere t p).Nodup :=
  (nodup_toList t).filter _

/-- A new key of the group adds one entry to the iteration. -/
lemma perm_entriesWhere_insert {t : Table K V} {p : K → Bool} {k : K} {v : V}
    (hk : t[k]? = none) (hp : p k = true) :
    List.Perm (entriesWhere (t.insert k v) p) ((k, v) :: entriesWhere t p) := by
  rw [List.perm_ext_iff_of_nodup (nodup_entriesWhere _ _)]
  · rintro ⟨k', v'⟩
    by_cases h : k = k'
    · subst h
      simp [hk, hp, eq_comm]
    · simp [getElem?_insert_ne t v h, Ne.symm h]
  · rw [List.nodup_cons]
    exact ⟨by simp [hk], nodup_entriesWhere _ _⟩

lemma length_entriesWhere_insert {t : Table K V} {p : K → Bool} {k : K} {v : V}
    (hk : t[k]? = none) (hp : p k = true) :
    (entriesWhere (t.insert k v) p).length = (entriesWhere t p).length + 1 := by
  rw [(perm_entriesWhere_insert hk hp).length_eq, List.length_cons]

/-- A key outside the group does not change the entries visited. -/
lemma perm_entriesWhere_insert_of_not {t : Table K V} {p : K → Bool} {k : K} {v : V}
    (hp : p k = false) : List.Perm (entriesWhere (t.insert k v) p) (entriesWhere t p) := by
  rw [List.perm_ext_iff_of_nodup (nodup_entriesWhere _ _) (nodup_entriesWhere _ _)]
  rintro ⟨k', v'⟩
  by_cases h : k = k'
  · subst h
    simp [hp]
  · simp [getElem?_insert_ne t v h]

/-! ## Many insertions -/

lemma getElem?_insertMany_of_notMem {t : Table K V} {l : List (K × V)} {k : K}
    (h : k ∉ l.map Prod.fst) : (t.insertMany l)[k]? = t[k]? := by
  induction l generalizing t with
  | nil => rfl
  | cons e l ih =>
    obtain ⟨hne, hl⟩ := not_or.mp (List.mem_cons.not.mp h)
    rw [ExtTreeMap.insertMany_cons, ih hl, getElem?_insert_ne _ _ (Ne.symm hne)]

lemma getElem?_insertMany_of_mem {t : Table K V} {l : List (K × V)} {k : K} {v : V}
    (hnodup : (l.map Prod.fst).Nodup) (h : (k, v) ∈ l) : (t.insertMany l)[k]? = some v := by
  induction l generalizing t with
  | nil => simp at h
  | cons e l ih =>
    obtain ⟨hnot, hl⟩ := List.nodup_cons.mp hnodup
    rw [ExtTreeMap.insertMany_cons]
    rcases List.mem_cons.mp h with rfl | h
    · rw [getElem?_insertMany_of_notMem hnot, getElem?_insert_self]
    · exact ih hl h

lemma nodup_keys_toList (t : Table K V) : (t.toList.map Prod.fst).Nodup := by
  rw [List.Nodup, List.pairwise_map]
  refine ExtTreeMap.distinct_keys_toList.imp fun hab heq => hab ?_
  rw [heq]
  exact compare_self

/-- A table is built from its entries. -/
lemma insertMany_toList (t : Table K V) : (∅ : Table K V).insertMany t.toList = t := by
  refine ExtTreeMap.ext_getElem? fun k => ?_
  rcases hk : t[k]? with _ | v
  · rw [getElem?_insertMany_of_notMem]
    · simp
    · intro hmem
      obtain ⟨⟨_, v⟩, hv, rfl⟩ := List.mem_map.mp hmem
      rw [ExtTreeMap.mem_toList_iff_getElem?_eq_some, hk] at hv
      cases hv
  · exact getElem?_insertMany_of_mem (nodup_keys_toList t)
      (ExtTreeMap.mem_toList_iff_getElem?_eq_some.mpr hk)

end Table

end Bandchain
