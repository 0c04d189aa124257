import Bandchain.Bridge.Contract
import Bandchain.Lib.EvmMemory
import Bandchain.Lib.Exec

/-!
# Lists of integers in a contract

The library `BandChainLib.sol`, which takes a byte array for a list of 64-bit integers.  An integer
is read as the end of a word of memory that starts 24 bytes before it.
-/

namespace Bandchain.Bridge.BandChainLib

open Evm Exec

/-! ## The library -/

/-- Storing an integer of 64 bits clears the rest of the word. -/
def cleanUint64 (w : Word) : Word := (w.setWidth 64).setWidth 256

/-- `new uint64[](length)`: a word with the length, and one word for each element. -/
def newUint64List (s : State) (length : Word) : Word × State :=
  let (result, s) := allocate s (32 + 32 * length)
  (result, { s with memory := mstore s.memory result length })

/-- The body of the loop. -/
def storeElement (data result : Word) (m : Memory) (i : ℕ) : Memory :=
  let tmp := mload m (data + (0x08 + BitVec.ofNat 256 i * 0x08))
  mstore m (result + 32 + BitVec.ofNat 256 i * 32) (cleanUint64 tmp)

def toUint64List (s : State) (data : Word) : Except Revert (Word × State) := do
  let (result, s) := newUint64List s (mload s.memory data / 8)
  require (mload s.memory result * 8 = mload s.memory data) "DATA_LENGTH_IS_INVALID"
  let m := (List.range (mload s.memory result).toNat).foldl (storeElement data result) s.memory
  return (result, { s with memory := m })

/-- The list in an array of integers. -/
def uint64List (m : Memory) (result : Word) : List UInt64 :=
  (List.range (mload m result).toNat).map fun i =>
    UInt64.ofNat (mload m (result + 32 + BitVec.ofNat 256 i * 32)).toNat

/-! ## The loop -/

lemma toNat_element (result : Word) (i : ℕ) (h : result.toNat + 32 + 32 * i < 2 ^ 256) :
    (result + 32 + BitVec.ofNat 256 i * 32).toNat = result.toNat + 32 + 32 * i := by
  have h32 : (32 : Word).toNat = 32 := rfl
  simp only [BitVec.toNat_add, BitVec.toNat_mul, BitVec.toNat_ofNat, h32]
  omega

lemma toNat_source (data : Word) (i : ℕ) (h : data.toNat + 8 + 8 * i < 2 ^ 256) :
    (data + (0x08 + BitVec.ofNat 256 i * 0x08)).toNat = data.toNat + 8 + 8 * i := by
  have h8 : (8 : Word).toNat = 8 := rfl
  simp only [BitVec.toNat_add, BitVec.toNat_mul, BitVec.toNat_ofNat, h8]
  omega

/-- The first `k` elements are stored, each as the loop has read it, and nothing below them has
changed. -/
structure Stored (data result : Word) (m : Memory) (k : ℕ) (m' : Memory) : Prop where
  below : ∀ c < result.toNat + 32, m' c = m c
  element : ∀ i < k, mload m' (result + 32 + BitVec.ofNat 256 i * 32) =
    cleanUint64 (mload m (data + (0x08 + BitVec.ofNat 256 i * 0x08)))

/-- A round of the loop.  It reads below the array, so it reads what stood there before. -/
lemma Stored.storeElement {data result : Word} {m m' : Memory} {k : ℕ}
    (h : Stored data result m k m') (hroom : result.toNat + 32 + 32 * (k + 1) < 2 ^ 256)
    (hdata : data.toNat + 40 + 8 * k ≤ result.toNat) :
    Stored data result m (k + 1) (storeElement data result m' k) where
  below c hc := by
    have hslot := toNat_element result k (by omega)
    rw [BandChainLib.storeElement, mstore_of_outside (by omega), h.below c hc]
  element i hi := by
    have hslot := toNat_element result k (by omega)
    rcases Nat.lt_succ_iff_lt_or_eq.mp hi with hi | rfl
    · have hslot' := toNat_element result i (by omega)
      have hdisjoint : (result + 32 + BitVec.ofNat 256 i * 32).toNat + 32 ≤
          (result + 32 + BitVec.ofNat 256 k * 32).toNat := by omega
      exact (mload_mstore_of_disjoint (.inl hdisjoint)).trans (h.element i hi)
    · rw [BandChainLib.storeElement, mload_mstore_self]
      refine congrArg cleanUint64 (mload_congr (read_congr fun j hj => h.below _ ?_))
      rw [toNat_source data i (by omega)]
      omega

lemma stored_foldl {data result : Word} (m : Memory) {k : ℕ}
    (hroom : result.toNat + 32 + 32 * k < 2 ^ 256)
    (hdata : data.toNat + 32 + 8 * k ≤ result.toNat) :
    Stored data result m k ((List.range k).foldl (BandChainLib.storeElement data result) m) := by
  induction k with
  | zero => exact ⟨fun _ _ => rfl, fun _ hi => absurd hi (Nat.not_lt_zero _)⟩
  | succ k ih =>
    rw [List.range_succ, List.foldl_append, List.foldl_cons, List.foldl_nil]
    exact (ih (by omega) (by omega)).storeElement hroom (by omega)

/-! ## The list that is returned -/

/-- An element is the end of the word that was read. -/
lemma toNat_cleanUint64_mload {m : Memory} {data : Word} {i : ℕ}
    (h : data.toNat + 8 + 8 * i < 2 ^ 256) :
    (cleanUint64 (mload m (data + (0x08 + BitVec.ofNat 256 i * 0x08)))).toNat =
      Bytes.ofBe (read m (data.toNat + 32 + 8 * i) 8) := by
  have hmod := toNat_mload_mod (n := 24) (k := 8) m rfl
    (a := data + (0x08 + BitVec.ofNat 256 i * 0x08))
  rw [toNat_source data i h,
    show data.toNat + 8 + 8 * i + 24 = data.toNat + 32 + 8 * i by omega] at hmod
  rw [← hmod, cleanUint64, BitVec.toNat_setWidth, BitVec.toNat_setWidth]
  omega

/-- The array that is allocated has the length that it is given, and what stood in memory before
is still there. -/
lemma newUint64List_spec (s : State) (length : Word) :
    (newUint64List s length).1 = s.free ∧
      mload (newUint64List s length).2.memory s.free = length ∧
      ∀ a k, a + k ≤ s.free.toNat →
        read (newUint64List s length).2.memory a k = read s.memory a k := by
  refine ⟨rfl, mload_mstore_self _ _ _, fun a k hak => ?_⟩
  rw [← read_allocate hak (n := 32 + 32 * length)]
  exact read_write_of_disjoint (.inl hak)

section Call

variable {s : State} {a : Word} {data : Bytes}

/-- The number of elements that are allocated. -/
lemma toNat_length (h : HoldsBytes s a data) : (mload s.memory a / 8).toNat = data.length / 8 := by
  rw [BitVec.toNat_udiv, h.length_eq]
  rfl

/-- The byte array keeps its length when the list is allocated. -/
lemma mload_newUint64List (h : HoldsBytes s a data) (length : Word) :
    mload (newUint64List s length).2.memory a = mload s.memory a :=
  mload_congr ((newUint64List_spec s length).2.2 _ _ (by
    have := h.le_free
    omega))

/-- The check of the length. -/
lemma length_mul_eq_iff (h : HoldsBytes s a data) :
    mload s.memory a / 8 * 8 = mload s.memory a ↔ data.length % 8 = 0 := by
  have hlt := (mload s.memory a).isLt
  have h8 : (8 : Word).toNat = 8 := rfl
  rw [h.length_eq] at hlt
  rw [← BitVec.toNat_inj, BitVec.toNat_mul, toNat_length h, h.length_eq, h8]
  omega

lemma toUint64List_of_mod_ne (h : HoldsBytes s a data) (hlength : data.length % 8 ≠ 0) :
    toUint64List s a = .error (.require "DATA_LENGTH_IS_INVALID") := by
  obtain ⟨hresult, hlist, _⟩ := newUint64List_spec s (mload s.memory a / 8)
  simp only [toUint64List, hresult, hlist, mload_newUint64List h, length_mul_eq_iff h, require,
    if_neg hlength]
  rfl

/-- The list holds the numbers of the pieces of eight bytes. -/
lemma exists_toUint64List (h : HoldsBytes s a data) (hlength : data.length % 8 = 0) :
    ∃ t, toUint64List s a = .ok (s.free, t) ∧
      uint64List t.memory s.free = (List.range (data.length / 8)).map fun i =>
        UInt64.ofNat (Bytes.ofBe ((data.drop (8 * i)).take 8)) := by
  obtain ⟨hresult, hlist, hread⟩ := newUint64List_spec s (mload s.memory a / 8)
  have hle := h.le_free
  have hlt := h.free_lt
  have hroom : s.free.toNat + 32 + 32 * (data.length / 8) < 2 ^ 256 := by omega
  have hbelow : a.toNat + 32 + 8 * (data.length / 8) ≤ s.free.toNat := by omega
  have hstored := stored_foldl (newUint64List s (mload s.memory a / 8)).2.memory hroom hbelow
  have hrun : toUint64List s a = .ok (s.free, { (newUint64List s (mload s.memory a / 8)).2 with
      memory := (List.range (data.length / 8)).foldl (storeElement a s.free)
        (newUint64List s (mload s.memory a / 8)).2.memory }) := by
    simp only [toUint64List, hresult, hlist, mload_newUint64List h, length_mul_eq_iff h, require,
      if_pos hlength, toNat_length h]
    rfl
  refine ⟨_, hrun, ?_⟩
  -- the word with the length is below the elements
  have hlist' := (mload_congr (read_congr fun j hj => hstored.below (s.free.toNat + j)
    (by omega))).trans hlist
  rw [uint64List, hlist', toNat_length h]
  refine List.map_congr_left fun i hi => ?_
  have hi := List.mem_range.mp hi
  rw [hstored.element i hi, toNat_cleanUint64_mload (by omega), hread _ _ (by omega),
    read_eq_take_drop (show 8 * i + 8 ≤ data.length by omega), h.read_eq]

end Call

/-! ## Lists and their encodings -/

lemma take_drop_flatMap_be {values : List UInt64} {i : ℕ} {v : UInt64} (h : values[i]? = some v) :
    ((values.flatMap fun v => Bytes.be 8 v.toNat).drop (8 * i)).take 8 = Bytes.be 8 v.toNat := by
  induction values generalizing i with
  | nil => cases h
  | cons w values ih =>
    rw [List.flatMap_cons]
    cases i with
    | zero =>
      obtain rfl := Option.some.inj h
      exact List.take_left' (Bytes.length_be 8 _)
    | succ i =>
      rw [show 8 * (i + 1) = (Bytes.be 8 w.toNat).length + 8 * i by
        rw [Bytes.length_be]
        omega, ← List.drop_drop, List.drop_left]
      exact ih h

lemma length_flatMap_be (values : List UInt64) :
    (values.flatMap fun v => Bytes.be 8 v.toNat).length = 8 * values.length := by
  induction values with
  | nil => rfl
  | cons v values ih =>
    rw [List.flatMap_cons, List.length_append, ih, Bytes.length_be, List.length_cons]
    omega

/-- **Lists of integers.**  The library reads back every list of integers from its encoding, and
it reverts on the byte strings whose length is no multiple of eight, and on no other. -/
theorem toUint64List_correct {s : State} {a : Word} {data : Bytes} (h : HoldsBytes s a data) :
    (∀ values : List UInt64, data = values.flatMap (fun v => Bytes.be 8 v.toNat) →
      ∃ result t, toUint64List s a = .ok (result, t) ∧ uint64List t.memory result = values) ∧
      ((∃ e, toUint64List s a = .error e) ↔ ¬8 ∣ data.length) := by
  constructor
  · rintro values rfl
    have hlength := length_flatMap_be values
    obtain ⟨t, ht, hlist⟩ := exists_toUint64List h (by omega)
    refine ⟨s.free, t, ht, ?_⟩
    rw [hlist, hlength, Nat.mul_div_cancel_left _ (by decide)]
    refine List.ext_getElem? fun i => ?_
    rw [List.getElem?_map]
    cases hv : values[i]? with
    | none =>
      have hi := List.getElem?_eq_none_iff.mp hv
      rw [List.getElem?_eq_none (by rwa [List.length_range]), Option.map_none]
    | some v =>
      obtain ⟨hi, _⟩ := List.getElem?_eq_some_iff.mp hv
      rw [List.getElem?_range hi, Option.map_some, take_drop_flatMap_be hv,
        Bytes.ofBe_be v.toNat_lt, UInt64.ofNat_toNat]
  · rw [Nat.dvd_iff_mod_eq_zero]
    constructor
    · rintro ⟨e, he⟩ hlength
      obtain ⟨t, ht, _⟩ := exists_toUint64List h hlength
      rw [ht] at he
      cases he
    · intro hlength
      exact ⟨_, toUint64List_of_mod_ne h hlength⟩

namespace Sample

def values : List UInt64 := [1, 2 ^ 64 - 1]

def encoded : Bytes := values.flatMap fun v => Bytes.be 8 v.toNat

/-- The encoding in the memory of a new call. -/
def state : State where
  memory := write (mstore (fun _ => 0) 0x80 16) 0xA0 encoded
  free := 0xC0

lemma holdsBytes : HoldsBytes state 0x80 encoded := by
  constructor <;> decide +kernel

end Sample

/-- Two integers are read back. -/
theorem toUint64List_correct_sample :
    ∃ result t, toUint64List Sample.state 0x80 = .ok (result, t) ∧
      uint64List t.memory result = [1, 2 ^ 64 - 1] :=
  (toUint64List_correct Sample.holdsBytes).1 Sample.values rfl

end Bandchain.Bridge.BandChainLib
