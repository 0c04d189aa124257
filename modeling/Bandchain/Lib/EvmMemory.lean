import Bandchain.Lib.Bytes

/-!
# The memory of a contract

Memory is a byte at every address; contracts read and write it in words of 32 bytes, at any
address.  Values of the compiler's memory types are built from words: a byte array is a word with
its length and the bytes behind it, an array of anything has one word for each element.
-/

namespace Bandchain

/-- The first digit, and the others. -/
lemma Bytes.be_succ_eq_cons (w n : ℕ) :
    Bytes.be (w + 1) n = UInt8.ofNat (n / 256 ^ w) :: Bytes.be w n := by
  induction w generalizing n with
  | zero => simp [Bytes.be]
  | succ w ih =>
    rw [Bytes.be, ih, Nat.div_div_eq_div_mul, ← Nat.pow_succ', List.cons_append]
    rfl

namespace Evm

/-- A machine word. -/
abbrev Word : Type := BitVec 256

abbrev Memory : Type := ℕ → UInt8

/-- The `n` bytes from an address on. -/
def read (m : Memory) (a n : ℕ) : Bytes := (List.range n).map fun i => m (a + i)

/-- Write a byte string from an address on. -/
def write (m : Memory) (a : ℕ) (b : Bytes) : Memory := fun c =>
  if a ≤ c then (b[c - a]?).getD (m c) else m c

/-- The instruction `mload`. -/
def mload (m : Memory) (a : Word) : Word := BitVec.ofNat 256 (Bytes.ofBe (read m a.toNat 32))

/-- The instruction `mstore`. -/
def mstore (m : Memory) (a w : Word) : Memory := write m a.toNat (Bytes.be 32 w.toNat)

/-! ## Bytes -/

@[simp] lemma length_read (m : Memory) (a n : ℕ) : (read m a n).length = n := by
  rw [read, List.length_map, List.length_range]

lemma getElem?_read (m : Memory) (a : ℕ) {n i : ℕ} (h : i < n) :
    (read m a n)[i]? = some (m (a + i)) := by
  rw [read, List.getElem?_map, List.getElem?_range h]
  rfl

lemma read_congr {m m' : Memory} {a n : ℕ} (h : ∀ i < n, m (a + i) = m' (a + i)) :
    read m a n = read m' a n :=
  List.map_congr_left fun i hi => h i (List.mem_range.mp hi)

lemma read_add (m : Memory) (a n k : ℕ) : read m a (n + k) = read m a n ++ read m (a + n) k := by
  rw [read, read, read, List.range_add, List.map_append, List.map_map]
  congr 2
  funext i
  rw [Function.comp_apply, Nat.add_assoc]

/-- Part of what is read is read at its own place. -/
lemma read_eq_take_drop {m : Memory} {a n i k : ℕ} (h : i + k ≤ n) :
    read m (a + i) k = ((read m a n).drop i).take k := by
  obtain ⟨j, rfl⟩ : ∃ j, n = i + (k + j) := ⟨n - i - k, by omega⟩
  rw [read_add m a i, read_add m (a + i) k, List.drop_append_of_le_length (by rw [length_read]),
    List.drop_eq_nil_of_le (by rw [length_read]), List.nil_append,
    List.take_append_of_le_length (by rw [length_read]),
    List.take_of_length_le (by rw [length_read])]

lemma write_of_outside {m : Memory} {a : ℕ} {b : Bytes} {c : ℕ} (h : c < a ∨ a + b.length ≤ c) :
    write m a b c = m c := by
  rw [write]
  split_ifs with hle
  · rw [List.getElem?_eq_none (by omega), Option.getD_none]
  · rfl

lemma write_add {m : Memory} {a : ℕ} {b : Bytes} {i : ℕ} {x : UInt8} (h : b[i]? = some x) :
    write m a b (a + i) = x := by
  rw [write, if_pos (Nat.le_add_right a i), Nat.add_sub_cancel_left, h, Option.getD_some]

/-- **Frame rule.**  Writing changes nothing elsewhere. -/
lemma read_write_of_disjoint {m : Memory} {a c n : ℕ} {b : Bytes}
    (h : c + n ≤ a ∨ a + b.length ≤ c) : read (write m a b) c n = read m c n :=
  read_congr fun i hi => write_of_outside (by omega)

@[simp] lemma read_write_self (m : Memory) (a : ℕ) (b : Bytes) :
    read (write m a b) a b.length = b := by
  refine List.ext_getElem? fun i => ?_
  by_cases hi : i < b.length
  · rw [getElem?_read _ _ hi, List.getElem?_eq_getElem hi,
      write_add (List.getElem?_eq_getElem hi)]
  · rw [List.getElem?_eq_none (by rw [length_read]; omega), List.getElem?_eq_none (by omega)]

/-! ## Words -/

lemma toNat_mload (m : Memory) (a : Word) : (mload m a).toNat = Bytes.ofBe (read m a.toNat 32) := by
  have hlt := Bytes.ofBe_lt (read m a.toNat 32)
  rw [length_read] at hlt
  rw [mload, BitVec.toNat_ofNat]
  exact Nat.mod_eq_of_lt hlt

lemma mload_congr {m m' : Memory} {a : Word} (h : read m a.toNat 32 = read m' a.toNat 32) :
    mload m a = mload m' a := by
  rw [mload, mload, h]

@[simp] lemma mload_mstore_self (m : Memory) (a w : Word) : mload (mstore m a w) a = w := by
  have hread := read_write_self m a.toNat (Bytes.be 32 w.toNat)
  rw [Bytes.length_be] at hread
  apply BitVec.eq_of_toNat_eq
  rw [toNat_mload, mstore, hread, Bytes.ofBe_be w.isLt]

lemma mload_mstore_of_disjoint {m : Memory} {a c w : Word}
    (h : c.toNat + 32 ≤ a.toNat ∨ a.toNat + 32 ≤ c.toNat) :
    mload (mstore m a w) c = mload m c :=
  mload_congr (read_write_of_disjoint (by rwa [Bytes.length_be]))

lemma mstore_of_outside {m : Memory} {a w : Word} {c : ℕ}
    (h : c < a.toNat ∨ a.toNat + 32 ≤ c) : mstore m a w c = m c :=
  write_of_outside (by rwa [Bytes.length_be])

/-- A copied word has the bytes of the original. -/
lemma mstore_mload_add (m m' : Memory) (a c : Word) {i : ℕ} (h : i < 32) :
    mstore m' a (mload m c) (a.toNat + i) = m (c.toNat + i) := by
  refine write_add ?_
  have hbe := Bytes.be_ofBe (read m c.toNat 32)
  rw [length_read] at hbe
  rw [toNat_mload, hbe, getElem?_read _ _ h]

/-- A byte at the upper end of a word is stored first. -/
lemma mstore_upper (m : Memory) (a : Word) (x : UInt8) :
    mstore m a (BitVec.ofNat 256 (x.toNat * 256 ^ 31)) a.toNat = x := by
  have hx := x.toNat_lt
  have hlt : x.toNat * 256 ^ 31 < 2 ^ 256 := by omega
  have hfirst : (Bytes.be 32 (x.toNat * 256 ^ 31))[0]? = some x := by
    rw [Bytes.be_succ_eq_cons, Nat.mul_div_cancel _ (by decide), UInt8.ofNat_toNat]
    rfl
  rw [mstore, BitVec.toNat_ofNat, Nat.mod_eq_of_lt hlt]
  exact write_add (a := a.toNat) (i := 0) hfirst

/-- The low bytes of a word are the last ones. -/
lemma toNat_mload_mod (m : Memory) {a : Word} {n k : ℕ} (h : n + k = 32) :
    (mload m a).toNat % 256 ^ k = Bytes.ofBe (read m (a.toNat + n) k) := by
  have hlt := Bytes.ofBe_lt (read m (a.toNat + n) k)
  rw [length_read] at hlt
  rw [toNat_mload, ← h, read_add, Bytes.ofBe_append, length_read, Nat.mul_add_mod_self_right,
    Nat.mod_eq_of_lt hlt]

/-! ## Arrays in memory -/

/-- The memory of a call, with the pointer to its free part. -/
structure State where
  memory : Memory
  free : Word

/-- Take `n` bytes from the free part and fill them with zeros. -/
def allocate (s : State) (n : Word) : Word × State :=
  (s.free, ⟨write s.memory s.free.toNat (List.replicate n.toNat 0), s.free + n⟩)

/-- A byte array stands at an address, below the free part.  Memory is paid for by the square of
its size, so all of it is far below `2 ^ 64`. -/
structure HoldsBytes (s : State) (a : Word) (data : Bytes) : Prop where
  length_eq : (mload s.memory a).toNat = data.length
  read_eq : read s.memory (a.toNat + 32) data.length = data
  le_free : a.toNat + 32 + data.length ≤ s.free.toNat
  free_lt : s.free.toNat < 2 ^ 64

lemma HoldsBytes.getElem?_eq {s : State} {a : Word} {data : Bytes} (h : HoldsBytes s a data)
    {i : ℕ} (hi : i < data.length) : data[i]? = some (s.memory (a.toNat + 32 + i)) := by
  conv_lhs => rw [← h.read_eq]
  exact getElem?_read s.memory (a.toNat + 32) hi

/-- Allocation changes nothing below the free part. -/
lemma read_allocate {s : State} {n : Word} {a k : ℕ} (h : a + k ≤ s.free.toNat) :
    read (allocate s n).2.memory a k = read s.memory a k :=
  read_write_of_disjoint (.inl h)

end Evm

end Bandchain
