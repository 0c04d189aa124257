import Bandchain.Lib.Bytes

/-!
# Merkle trees

Binary Merkle trees in which a leaf is hashed behind the byte 0 and an inner node behind the
byte 1.  A verifier knows such a tree only in part: some subtrees are given by their hash.  Two
partly known trees of the same shape with the same hash have the same leaves, whatever the
given hashes are, if no two of the strings that are hashed collide.

The tree over a list of values splits the list at the largest power of two below its length.
-/

namespace Bandchain
namespace Merkle

/-! ## Partly known trees -/

/-- A tree some of whose subtrees are given by their hash. -/
inductive Tree
  | digest (d : Bytes32)
  | leaf (value : Bytes)
  | node (left right : Tree)

/-- The known leaves, from left to right. -/
def Tree.leaves : Tree → List Bytes
  | digest _ => []
  | leaf value => [value]
  | node left right => left.leaves ++ right.leaves

/-- The same subtrees are known, with leaves at the same places. -/
def Tree.SameShape : Tree → Tree → Prop
  | digest _, digest _ => True
  | leaf _, leaf _ => True
  | node left right, node left' right' => left.SameShape left' ∧ right.SameShape right'
  | _, _ => False

section Hash

variable (H : Bytes → Bytes32)

def leafHash (value : Bytes) : Bytes32 := H ([0] ++ value)

def innerHash (left right : Bytes32) : Bytes32 := H ([1] ++ left.1 ++ right.1)

/-- The hash of a tree. -/
def Tree.hash : Tree → Bytes32
  | digest d => d
  | leaf value => leafHash H value
  | node left right => innerHash H left.hash right.hash

/-- The strings that are hashed for a tree. -/
def Tree.hashed : Tree → List Bytes
  | digest _ => []
  | leaf value => [[0] ++ value]
  | node left right =>
      ([1] ++ (left.hash H).1 ++ (right.hash H).1) :: (left.hashed ++ right.hashed)

/-- No two strings at the same place of the two lists collide. -/
def Apart (l m : List Bytes) : Prop := ∀ p ∈ l.zip m, H p.1 = H p.2 → p.1 = p.2

variable {H} {l m : List Bytes} {x y : Bytes}

lemma Apart.refl (l : List Bytes) : Apart H l l := by
  intro p hp _
  have hself : l.zip l = l.map fun x => (x, x) := by
    conv_lhs => rw [← List.map_id l, List.zip_map']
    rfl
  rw [hself] at hp
  obtain ⟨x, _, rfl⟩ := List.mem_map.mp hp
  rfl

lemma Apart.of_injOn (h : Set.InjOn H { x | x ∈ l ∨ x ∈ m }) : Apart H l m := by
  intro p hp heq
  obtain ⟨hl, hm⟩ := List.of_mem_zip hp
  exact h (.inl hl) (.inr hm) heq

lemma Apart.head (h : Apart H (x :: l) (y :: m)) (heq : H x = H y) : x = y :=
  h (x, y) (by simp) heq

lemma Apart.tail (h : Apart H (x :: l) (y :: m)) : Apart H l m :=
  fun p hp => h p (by rw [List.zip_cons_cons]; exact List.mem_cons_of_mem _ hp)

lemma apart_append {l' m' : List Bytes} (hlen : l.length = m.length) :
    Apart H (l ++ l') (m ++ m') ↔ Apart H l m ∧ Apart H l' m' := by
  simp only [Apart, List.zip_append hlen, List.mem_append, or_imp, forall_and]

lemma Tree.length_hashed {t u : Tree} (hshape : t.SameShape u) :
    (t.hashed H).length = (u.hashed H).length := by
  induction t generalizing u with
  | digest d => cases u <;> first | rfl | exact hshape.elim
  | leaf value => cases u <;> first | rfl | exact hshape.elim
  | node left right ihl ihr =>
    cases u with
    | digest d => exact hshape.elim
    | leaf value => exact hshape.elim
    | node left' right' => simp only [hashed, List.length_cons, List.length_append, ihl hshape.1,
        ihr hshape.2]

/-- **Binding.**  The hash of a partly known tree determines its known leaves. -/
theorem Tree.leaves_eq_of_apart {t u : Tree} (hshape : t.SameShape u)
    (hapart : Apart H (t.hashed H) (u.hashed H)) (h : t.hash H = u.hash H) :
    t.leaves = u.leaves := by
  induction t generalizing u with
  | digest d =>
    cases u with
    | digest d' => rfl
    | leaf value => exact hshape.elim
    | node left right => exact hshape.elim
  | leaf value =>
    cases u with
    | digest d => exact hshape.elim
    | leaf value' =>
      have hbytes := hapart.head h
      rw [List.append_cancel_left_eq] at hbytes
      rw [hbytes]
    | node left right => exact hshape.elim
  | node left right ihl ihr =>
    cases u with
    | digest d => exact hshape.elim
    | leaf value => exact hshape.elim
    | node left' right' =>
      have hbytes := hapart.head h
      -- the two hashes inside have a fixed length
      simp only [List.append_assoc, List.append_cancel_left_eq] at hbytes
      obtain ⟨hleft, hright⟩ := List.append_inj hbytes (by
        rw [(left.hash H).2, (left'.hash H).2])
      obtain ⟨hapartl, hapartr⟩ := (apart_append (length_hashed hshape.1)).mp hapart.tail
      rw [leaves, leaves, ihl hshape.1 hapartl (Subtype.ext hleft),
        ihr hshape.2 hapartr (Subtype.ext hright)]

lemma Tree.leaves_eq_of_hash_eq {t u : Tree} (hshape : t.SameShape u)
    (hinj : Set.InjOn H { m | m ∈ t.hashed H ∨ m ∈ u.hashed H }) (h : t.hash H = u.hash H) :
    t.leaves = u.leaves :=
  leaves_eq_of_apart hshape (.of_injOn hinj) h

end Hash

/-! ## The tree over a list -/

/-- The largest power of two below `n`, for `n` at least two. -/
def splitPoint (n : ℕ) : ℕ := 2 ^ Nat.log2 (n - 1)

lemma splitPoint_lt {n : ℕ} (h : 2 ≤ n) : splitPoint n < n := by
  have hle : splitPoint n ≤ n - 1 := Nat.log2_self_le (by omega)
  omega

lemma splitPoint_pos (n : ℕ) : 0 < splitPoint n := Nat.two_pow_pos _

/-- A list that consists of a power of two and of no more than that is split there. -/
lemma splitPoint_add {k n : ℕ} (hpos : 1 ≤ n) (hle : n ≤ 2 ^ k) :
    splitPoint (2 ^ k + n) = 2 ^ k := by
  have hlog : Nat.log2 (2 ^ k + n - 1) = k := by
    rw [Nat.log2_eq_iff (by have := Nat.two_pow_pos k; omega), Nat.pow_succ]
    omega
  rw [splitPoint, hlog]

section Root

variable (H : Bytes → Bytes32)

/-- The hash of the tree over a list; the empty list has the empty hash. -/
def root : List Bytes → Bytes
  | [] => []
  | [value] => (leafHash H value).1
  | v :: w :: values =>
    let k := splitPoint (values.length + 2)
    (H ([1] ++ root ((v :: w :: values).take k) ++ root ((v :: w :: values).drop k))).1
termination_by values => values.length
decreasing_by
  · have := splitPoint_lt (n := values.length + 2) (by omega)
    simp only [List.length_take, List.length_cons]
    omega
  · have := splitPoint_pos (values.length + 2)
    simp only [List.length_drop, List.length_cons]
    omega

variable {H}

@[simp] lemma root_singleton (value : Bytes) : root H [value] = (leafHash H value).1 := by
  rw [root]

lemma root_of_two_le {values : List Bytes} (h : 2 ≤ values.length) :
    root H values = (H ([1] ++ root H (values.take (splitPoint values.length)) ++
      root H (values.drop (splitPoint values.length)))).1 := by
  rcases values with _ | ⟨v, _ | ⟨w, values⟩⟩
  · simp at h
  · simp at h
  · rw [root]
    rfl

/-- The root of a list whose first part is as long as a power of two, and not shorter than the
rest. -/
lemma root_append {k : ℕ} {l r : List Bytes} (hl : l.length = 2 ^ k) (hr : 1 ≤ r.length)
    (hle : r.length ≤ 2 ^ k) :
    root H (l ++ r) = (H ([1] ++ root H l ++ root H r)).1 := by
  have hsplit : splitPoint (l ++ r).length = l.length := by
    rw [List.length_append, hl, splitPoint_add hr hle]
  have hpos : 0 < l.length := by
    rw [hl]
    exact Nat.two_pow_pos k
  rw [root_of_two_le (by rw [List.length_append]; omega), hsplit, List.take_left, List.drop_left]

@[simp] lemma length_root {values : List Bytes} (h : values ≠ []) :
    (root H values).length = 32 := by
  rcases values with _ | ⟨v, _ | ⟨w, values⟩⟩
  · exact absurd rfl h
  · rw [root_singleton]
    exact (leafHash H v).2
  · rw [root]
    exact (H _).2

end Root

end Merkle
end Bandchain
