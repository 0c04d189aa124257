import Bandchain.Lib.Table

/-!
# Catalogs

A catalog numbers its entries from 1 in the order in which they are added.  Entries can be
replaced, but their numbers stay; so a catalog can be rebuilt from the list of its entries.
-/

namespace Bandchain

open Std

/-- Numbered entries, and the number of the last one. -/
@[ext]
structure Catalog (E : Type) where
  count : ℤ
  entries : Table ℤ E

namespace Catalog

variable {E : Type}

def empty : Catalog E := ⟨0, ∅⟩

/-- Add an entry under the next number. -/
def add (c : Catalog E) (e : E) : Catalog E := ⟨c.count + 1, c.entries.insert (c.count + 1) e⟩

/-- Replace the entry with the given number. -/
def set (c : Catalog E) (id : ℤ) (e : E) : Catalog E := ⟨c.count, c.entries.insert id e⟩

/-- The entries in the order of their numbers. -/
def values (c : Catalog E) : List E := c.entries.toList.map Prod.snd

/-- The catalog of a list of entries. -/
def ofList (l : List E) : Catalog E := l.foldl add empty

/-- The numbers in use are those from 1 to the count. -/
structure Dense (c : Catalog E) : Prop where
  nonneg : 0 ≤ c.count
  iff : ∀ id : ℤ, (∃ e, c.entries[id]? = some e) ↔ 1 ≤ id ∧ id ≤ c.count

variable {c : Catalog E}

lemma dense_empty : (empty : Catalog E).Dense where
  nonneg := le_rfl
  iff := by
    intro id
    show (∃ e, (∅ : Table ℤ E)[id]? = some e) ↔ 1 ≤ id ∧ id ≤ 0
    simp
    omega

lemma Dense.next_free (h : c.Dense) : c.entries[c.count + 1]? = none := by
  by_contra hne
  obtain ⟨e, he⟩ := Option.ne_none_iff_exists'.mp hne
  have := ((h.iff _).mp ⟨e, he⟩).2
  omega

lemma getElem?_add_ne (e : E) {id : ℤ} (h : c.count + 1 ≠ id) :
    (c.add e).entries[id]? = c.entries[id]? :=
  Table.getElem?_insert_ne _ _ h

/-- A new entry takes the place of none. -/
lemma Dense.getElem?_add (h : c.Dense) {id : ℤ} {e e' : E} (he' : c.entries[id]? = some e') :
    (c.add e).entries[id]? = some e' := by
  rw [getElem?_add_ne, he']
  rintro rfl
  rw [h.next_free] at he'
  cases he'

lemma Dense.add (h : c.Dense) (e : E) : (c.add e).Dense where
  nonneg := by
    have := h.nonneg
    show 0 ≤ c.count + 1
    omega
  iff := by
    intro id
    have h0 := h.nonneg
    show _ ↔ 1 ≤ id ∧ id ≤ c.count + 1
    by_cases hid : c.count + 1 = id
    · subst hid
      simp only [Catalog.add, Table.getElem?_insert_self]
      constructor
      · intro _
        omega
      · intro _
        exact ⟨e, rfl⟩
    · rw [getElem?_add_ne e hid, h.iff]
      omega

lemma dense_ofList (l : List E) : (ofList l).Dense := by
  have hfold : ∀ c : Catalog E, c.Dense → (l.foldl Catalog.add c).Dense := by
    induction l with
    | nil => exact fun _ hc => hc
    | cons e l ih => exact fun c hc => ih _ (hc.add e)
  exact hfold empty dense_empty

lemma Dense.set (h : c.Dense) {id : ℤ} {e e' : E} (he : c.entries[id]? = some e) :
    (c.set id e').Dense where
  nonneg := h.nonneg
  iff := by
    intro x
    show (∃ e, (c.entries.insert id e')[x]? = some e) ↔ 1 ≤ x ∧ x ≤ c.count
    rw [← h.iff]
    by_cases hx : id = x
    · subst hx
      simp [he]
    · rw [Table.getElem?_insert_ne _ _ hx]

/-! ## Changes -/

/-- One change of a catalog: none, a new entry, or an entry replaced by another one. -/
inductive Change (creates : E → Prop) (edits : ℤ → E → E → Prop) (c : Catalog E) : Catalog E → Prop
  | same : Change creates edits c c
  | add {e : E} : creates e → Change creates edits c (c.add e)
  | set {id : ℤ} {e e' : E} :
      c.entries[id]? = some e → edits id e e' → Change creates edits c (c.set id e')

section Change

variable {creates : E → Prop} {edits : ℤ → E → E → Prop} {c' : Catalog E}

lemma Change.dense (h : Change creates edits c c') (hc : c.Dense) : c'.Dense := by
  cases h with
  | same => exact hc
  | add _ => exact hc.add _
  | set he _ => exact hc.set he

/-- An entry stays as it is, or is edited. -/
lemma Change.entry (h : Change creates edits c c') (hc : c.Dense) {id : ℤ} {e : E}
    (he : c.entries[id]? = some e) :
    ∃ e', c'.entries[id]? = some e' ∧ (e' = e ∨ edits id e e') := by
  cases h with
  | same => exact ⟨e, he, .inl rfl⟩
  | add _ => exact ⟨e, hc.getElem?_add he, .inl rfl⟩
  | @set x e₀ e' he₀ hedit =>
    by_cases hx : x = id
    · subst hx
      obtain rfl := Option.some.inj (he.symm.trans he₀)
      exact ⟨e', Table.getElem?_insert_self _ _ _, .inr hedit⟩
    · exact ⟨e, (Table.getElem?_insert_ne _ _ hx).trans he, .inl rfl⟩

/-- What holds of all entries is kept if it holds of new and edited ones. -/
lemma Change.forall_entries {p : E → Prop} (h : Change creates edits c c')
    (hadd : ∀ e, creates e → p e) (hset : ∀ id e e', p e → edits id e e' → p e')
    (hc : ∀ (id : ℤ) (e : E), c.entries[id]? = some e → p e) :
    ∀ (id : ℤ) (e : E), c'.entries[id]? = some e → p e := by
  intro id e he
  cases h with
  | same => exact hc id e he
  | @add e₀ hcreate =>
    by_cases hid : c.count + 1 = id
    · subst hid
      obtain rfl := Option.some.inj ((Table.getElem?_insert_self _ _ _).symm.trans he)
      exact hadd _ hcreate
    · exact hc id e ((getElem?_add_ne _ hid).symm.trans he)
  | @set x e₀ e' he₀ hedit =>
    by_cases hx : x = id
    · subst hx
      obtain rfl := Option.some.inj ((Table.getElem?_insert_self _ _ _).symm.trans he)
      exact hset x e₀ _ (hc x e₀ he₀) hedit
    · exact hc id e ((Table.getElem?_insert_ne _ _ hx).symm.trans he)

end Change

/-! ## Rebuilding -/

lemma foldl_add (l : List E) (c : Catalog E) :
    (l.foldl add c).count = c.count + l.length ∧
      (l.foldl add c).entries = c.entries.insertMany
        (l.mapIdx fun i e => (c.count + 1 + i, e)) := by
  induction l generalizing c with
  | nil => exact ⟨(add_zero _).symm, rfl⟩
  | cons e l ih =>
    obtain ⟨hcount, hentries⟩ := ih (c.add e)
    refine ⟨?_, ?_⟩
    · rw [List.foldl_cons, hcount]
      simp only [Catalog.add, List.length_cons, Nat.cast_add, Nat.cast_one]
      omega
    · rw [List.foldl_cons, hentries, List.mapIdx_cons, ExtTreeMap.insertMany_cons]
      simp only [Catalog.add, Nat.cast_zero, add_zero, Nat.cast_add, Nat.cast_one]
      congr 2
      funext i x
      rw [add_right_comm, add_assoc]

/-- The numbers in use, in order. -/
lemma Dense.keys_eq (h : c.Dense) :
    c.entries.toList.map Prod.fst = (List.range c.count.toNat).map fun i : ℕ => (i : ℤ) + 1 := by
  have hsorted : (c.entries.toList.map Prod.fst).Pairwise (· < ·) := by
    rw [List.pairwise_map]
    exact ExtTreeMap.ordered_keys_toList.imp fun hab => compare_lt_iff_lt.mp hab
  have hsorted' : ((List.range c.count.toNat).map fun i : ℕ => (i : ℤ) + 1).Pairwise (· < ·) := by
    rw [List.pairwise_map]
    exact List.pairwise_lt_range.imp fun hab => by omega
  refine List.Perm.eq_of_pairwise' hsorted hsorted' ?_
  rw [List.perm_ext_iff_of_nodup hsorted.nodup hsorted'.nodup]
  intro id
  have hiff := h.iff id
  simp only [List.mem_map, Prod.exists, exists_and_right, exists_eq_right,
    ExtTreeMap.mem_toList_iff_getElem?_eq_some, List.mem_range]
  rw [hiff]
  constructor
  · rintro ⟨h1, h2⟩
    exact ⟨(id - 1).toNat, by omega, by omega⟩
  · rintro ⟨i, hi, rfl⟩
    omega

/-- A dense catalog is rebuilt from the list of its entries. -/
theorem Dense.ofList_values (h : c.Dense) : ofList c.values = c := by
  obtain ⟨hcount, hentries⟩ := foldl_add c.values empty
  have hlen : (c.values.length : ℤ) = c.count := by
    have := congrArg List.length h.keys_eq
    have h0 := h.nonneg
    simp only [List.length_map, List.length_range] at this
    rw [values, List.length_map, this]
    omega
  -- numbering the entries gives back the numbers they had
  have hlist : (c.values.mapIdx fun i e => ((empty : Catalog E).count + 1 + i, e)) =
      c.entries.toList := by
    refine List.ext_getElem (by simp [values]) fun i hi hi' => ?_
    have hkey : (c.entries.toList.map Prod.fst).get ⟨i, by simpa using hi'⟩ = (i : ℤ) + 1 := by
      simp only [h.keys_eq, List.get_eq_getElem, List.getElem_map, List.getElem_range]
    simp only [List.get_eq_getElem, List.getElem_map] at hkey
    refine Prod.ext ?_ ?_
    · simp only [List.getElem_mapIdx, hkey, empty]
      omega
    · simp [values]
  rw [hlist] at hentries
  have hcount' : (ofList c.values).count = c.count := by
    rw [← hlen]
    exact hcount.trans (zero_add _)
  have hentries' : (ofList c.values).entries = c.entries :=
    hentries.trans (Table.insertMany_toList c.entries)
  exact Catalog.ext hcount' hentries'

end Catalog

end Bandchain
