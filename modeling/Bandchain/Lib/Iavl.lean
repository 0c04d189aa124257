import Bandchain.Lib.Leb128

/-!
# Merkle proofs of IAVL trees

The hash of an IAVL tree, and proofs that a key has a value in it.  A node is hashed with its
height, its size and its version in front; a leaf carries its key and the hash of its value,
an inner node the hashes of its two children.  A proof starts from a leaf and climbs from
child to parent, and whoever made it chose every part of it.

The proof is sound as soon as no key of the tree has the length of a digest.  Otherwise a
leaf could pass for an inner node: the length of its key stands where the length of a digest
stands in an inner node.  The hash function is only assumed to be free of collisions on the
strings that are hashed for the tree and for the proof.
-/

namespace Bandchain
namespace Iavl

/-! ## What is hashed -/

/-- The string hashed for a leaf; `version` is the number that is written. -/
def leafBytes (version : ℕ) (key : Bytes) (valueHash : Bytes32) : Bytes :=
  [0, 2] ++ Leb128.encode version ++ Leb128.encode key.length ++ key ++ [32] ++ valueHash.1

/-- The string hashed for an inner node; `height`, `size` and `version` are the numbers that
are written. -/
def innerBytes (height : UInt8) (size version : ℕ) (left right : Bytes32) : Bytes :=
  [height] ++ Leb128.encode size ++ Leb128.encode version ++ [32] ++ left.1 ++ [32] ++ right.1

lemma leafBytes_inj {v v' : ℕ} {key key' : Bytes} {d d' : Bytes32}
    (h : leafBytes v key d = leafBytes v' key' d') : key = key' ∧ d = d' := by
  simp only [leafBytes, List.append_assoc, List.append_cancel_left_eq] at h
  obtain ⟨_, h⟩ := Leb128.encode_append_inj h
  obtain ⟨hlen, h⟩ := Leb128.encode_append_inj h
  obtain ⟨hkey, h⟩ := List.append_inj h hlen
  exact ⟨hkey, Subtype.ext (List.append_cancel_left h)⟩

lemma innerBytes_inj {b b' : UInt8} {s s' v v' : ℕ} {l l' r r' : Bytes32}
    (h : innerBytes b s v l r = innerBytes b' s' v' l' r') : l = l' ∧ r = r' := by
  simp only [innerBytes, List.append_assoc] at h
  obtain ⟨_, h⟩ := List.append_inj h rfl
  obtain ⟨_, h⟩ := Leb128.encode_append_inj h
  obtain ⟨_, h⟩ := Leb128.encode_append_inj h
  obtain ⟨hleft, h⟩ := List.append_inj (List.append_cancel_left h) (by rw [l.2, l'.2])
  exact ⟨Subtype.ext hleft, Subtype.ext (List.append_cancel_left h)⟩

/-- An inner node whose string is that of a leaf has a key of the length of a digest. -/
lemma length_key_of_innerBytes_eq {b : UInt8} {s v v' : ℕ} {l r d : Bytes32} {key : Bytes}
    (h : innerBytes b s v l r = leafBytes v' key d) : key.length = 32 := by
  have htwo : ([0, 2] : Bytes) = [0] ++ Leb128.encode 2 := by
    rw [Leb128.encode_of_lt (by decide)]
    rfl
  have hlen : ([32] : Bytes) = Leb128.encode 32 := by
    rw [Leb128.encode_of_lt (by decide)]
    rfl
  rw [innerBytes, leafBytes, htwo, hlen] at h
  simp only [List.append_assoc] at h
  obtain ⟨_, h⟩ := List.append_inj h rfl
  obtain ⟨_, h⟩ := Leb128.encode_append_inj h
  obtain ⟨_, h⟩ := Leb128.encode_append_inj h
  exact (Leb128.encode_append_inj h).1.symm

/-! ## Trees -/

inductive Tree
  | leaf (version : ℕ) (key value : Bytes)
  | inner (height size version : ℕ) (left right : Tree)
deriving DecidableEq

/-- The keys and values, from left to right. -/
def Tree.entries : Tree → List (Bytes × Bytes)
  | leaf _ key value => [(key, value)]
  | inner _ _ _ left right => left.entries ++ right.entries

/-- The heights of inner nodes are positive and fit the byte in which they are written. -/
def Tree.HeightsFit : Tree → Prop
  | leaf _ _ _ => True
  | inner height _ _ left right =>
      1 ≤ height ∧ height < 128 ∧ left.HeightsFit ∧ right.HeightsFit

section Hash

variable (H : Bytes → Bytes32)

/-- The string hashed for the root of a tree, given the hashes of its children. -/
def Tree.bytes : Tree → Bytes
  | leaf version key value => leafBytes (2 * version) key (H value)
  | inner height size version left right =>
      innerBytes (UInt8.ofNat (2 * height)) (2 * size) (2 * version) (H left.bytes) (H right.bytes)

/-- The hash of a tree. -/
def Tree.hash (t : Tree) : Bytes32 := H (t.bytes H)

/-- All strings hashed for a tree. -/
def Tree.hashed : Tree → List Bytes
  | leaf version key value => [(leaf version key value).bytes H, value]
  | inner height size version left right =>
      (inner height size version left right).bytes H :: (left.hashed ++ right.hashed)

/-! ## Proofs -/

/-- One step of a proof: the numbers in front, the hash of the other child, and the side of
the child where the key is. -/
structure Link where
  height : UInt8
  size : ℕ
  version : ℕ
  sibling : Bytes32
  onRight : Bool

/-- The string hashed for the parent of a node with the given hash. -/
def Link.bytes (p : Link) (d : Bytes32) : Bytes :=
  if p.onRight then innerBytes p.height p.size p.version p.sibling d
  else innerBytes p.height p.size p.version d p.sibling

/-- The hash at the end of a proof. -/
def climb (d : Bytes32) (ps : List Link) : Bytes32 := ps.foldl (fun d p => H (p.bytes d)) d

/-- The strings hashed on the way. -/
def climbHashed (d : Bytes32) : List Link → List Bytes
  | [] => []
  | p :: ps => p.bytes d :: climbHashed (H (p.bytes d)) ps

lemma climb_append (d : Bytes32) (ps : List Link) (p : Link) :
    climb H d (ps ++ [p]) = H (p.bytes (climb H d ps)) := by
  simp [climb]

lemma climbHashed_append (d : Bytes32) (ps : List Link) (p : Link) :
    climbHashed H d (ps ++ [p]) = climbHashed H d ps ++ [p.bytes (climb H d ps)] := by
  induction ps generalizing d with
  | nil => rfl
  | cons q ps ih =>
    rw [List.cons_append, climbHashed, climbHashed, ih]
    rfl

variable {H}

lemma Tree.bytes_mem_hashed (t : Tree) : t.bytes H ∈ t.hashed H := by
  cases t <;> exact List.mem_cons_self

/-- **Soundness.**  A proof that ends in the hash of a tree starts from one of its leaves. -/
theorem exists_entry_of_climb {t : Tree} {ps : List Link} {version : ℕ} {key : Bytes}
    {d : Bytes32}
    (hinj : Set.InjOn H { m | m ∈ t.hashed H ∨ m = leafBytes version key d ∨
      m ∈ climbHashed H (H (leafBytes version key d)) ps })
    (hfit : t.HeightsFit) (hkeys : ∀ e ∈ t.entries, e.1.length ≠ 32)
    (h : climb H (H (leafBytes version key d)) ps = t.hash H) :
    ∃ value, (key, value) ∈ t.entries ∧ value ∈ t.hashed H ∧ H value = d := by
  induction ps using List.reverseRecOn generalizing t with
  | nil =>
    -- the proof has no steps: its leaf is the root
    have hbytes := hinj (.inr (.inl rfl)) (.inl t.bytes_mem_hashed) h
    cases t with
    | leaf v k value =>
      obtain ⟨rfl, rfl⟩ := leafBytes_inj hbytes
      exact ⟨value, by simp [Tree.entries], by simp [Tree.hashed], rfl⟩
    | inner height size v left right =>
      obtain ⟨hpos, hlt, _⟩ := hfit
      have hzero : (0 : UInt8) = UInt8.ofNat (2 * height) := (List.cons.inj hbytes).1
      have := Leb128.ofNat_inj_of_lt (m := 0) (by omega) (by omega) hzero
      omega
  | append_singleton ps p ih =>
    rw [climb_append] at h
    rw [climbHashed_append] at hinj
    have hbytes := hinj (.inr (.inr (List.mem_append_right _ (List.mem_singleton.mpr rfl))))
      (.inl t.bytes_mem_hashed) h
    cases t with
    | leaf v k value =>
      refine absurd ?_ (hkeys (k, value) (by simp [Tree.entries]))
      unfold Link.bytes at hbytes
      split_ifs at hbytes <;> exact length_key_of_innerBytes_eq hbytes
    | inner height size v left right =>
      -- the child where the key is said to be is a child of the root
      have hchild : ∀ c : Tree, (c = left ∨ c = right) →
          climb H (H (leafBytes version key d)) ps = c.hash H →
          ∃ value, (key, value) ∈ (Tree.inner height size v left right).entries ∧
            value ∈ (Tree.inner height size v left right).hashed H ∧ H value = d := by
        intro c hc hclimb
        have hsub : ∀ m, m ∈ c.hashed H → m ∈ (Tree.inner height size v left right).hashed H := by
          intro m hm
          rcases hc with rfl | rfl <;> simp [Tree.hashed, hm]
        have hentries : ∀ e, e ∈ c.entries →
            e ∈ (Tree.inner height size v left right).entries := by
          intro e he
          rcases hc with rfl | rfl <;> simp [Tree.entries, he]
        obtain ⟨value, hmem, hval, hd⟩ := ih (t := c)
          (hinj.mono fun m hm => hm.imp (hsub m) (Or.imp_right (List.mem_append_left _)))
          (by rcases hc with rfl | rfl; exacts [hfit.2.2.1, hfit.2.2.2])
          (fun e he => hkeys e (hentries e he)) hclimb
        exact ⟨value, hentries _ hmem, hsub _ hval, hd⟩
      unfold Link.bytes at hbytes
      split_ifs at hbytes
      · exact hchild right (.inr rfl) (innerBytes_inj hbytes).2
      · exact hchild left (.inl rfl) (innerBytes_inj hbytes).1

end Hash

end Iavl
end Bandchain
