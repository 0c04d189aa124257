import Bandchain.Lib.EvmMemory

/-!
# Fixed byte arrays in Solidity

The functions of `Obi.sol` that read 32, 64 or 65 bytes into an array, by copying words of
memory.  An array of single bytes has a word for each of them, so a word that is copied does not
fill 32 elements: its first byte is one element, and the rest of it is not part of the array.
-/

namespace Bandchain.Obi.SolidityBytes

open Evm

/-! ## The functions -/

/-- The modifier `shift`, around a body that works on memory.  A `Data` has two words: the offset,
and the address of the raw bytes. -/
def shift (data size : Word) (body : Memory → Except String Memory) (m : Memory) :
    Except String Memory :=
  if mload m data + size ≤ mload m (mload m (data + 32)) then do
    let m ← body m
    return mstore m data (mload m data + size)
  else .error "Obi: Out of range"

/-- The assembly for the word at position `k` of the array. -/
def copyWord (data value k : Word) (m : Memory) : Memory :=
  let raw := mload m (data + 32)
  let offset := mload m data
  mstore m (value + k) (mload m (raw + (32 + k) + offset))

/-- `data.raw[i]`; a single byte stands at the upper end of its word. -/
def rawByte (data i : Word) (m : Memory) : Except String Word :=
  let raw := mload m (data + 32)
  if i < mload m raw then
    .ok (BitVec.ofNat 256 ((m (raw.toNat + 32 + i.toNat)).toNat * 256 ^ 31))
  else .error "invalid opcode"

def decodeBytes32 (s : State) (data : Word) : Except String (Word × State) := do
  let (value, s) := allocate s (32 * 32)
  let m ← shift data 32 (fun m => .ok (copyWord data value 0 m)) s.memory
  return (value, { s with memory := m })

def decodeBytes64 (s : State) (data : Word) : Except String (Word × State) := do
  let (value, s) := allocate s (32 * 64)
  let m ← shift data 64 (fun m => .ok (copyWord data value 32 (copyWord data value 0 m))) s.memory
  return (value, { s with memory := m })

def decodeBytes65 (s : State) (data : Word) : Except String (Word × State) := do
  let (value, s) := allocate s (32 * 65)
  let m ← shift data 65 (fun m => do
    let m := copyWord data value 32 (copyWord data value 0 m)
    let byte ← rawByte data (mload m data + 64) m
    return mstore m (value + 64 * 32) byte) s.memory
  return (value, { s with memory := m })

/-! ## What is in memory -/

/-- A `Data` stands at an address, with the given offset and raw bytes. -/
structure HoldsData (s : State) (data : Word) (offset : ℕ) (raw : Bytes) : Prop where
  offset_eq : (mload s.memory data).toNat = offset
  raw : HoldsBytes s (mload s.memory (data + 32)) raw
  le_free : data.toNat + 64 ≤ s.free.toNat

/-- The function has read the next `n` bytes into the array, and has written nowhere else but to
the offset. -/
structure Decodes (n : ℕ) (s : State) (data : Word) (offset : ℕ) (raw : Bytes) (value : Word)
    (t : State) : Prop where
  element : ∀ i < n, raw[offset + i]? = some (t.memory (value.toNat + 32 * i))
  outside : ∀ c, c < value.toNat ∨ value.toNat + 32 * n ≤ c →
    c < data.toNat ∨ data.toNat + 32 ≤ c → t.memory c = s.memory c
  offset_eq : (mload t.memory data).toNat = offset + n

/-- The new array of `n` single bytes has the elements `f`, and nothing else has changed. -/
structure Filled (s : State) (n : ℕ) (f : ℕ → UInt8) (m : Memory) : Prop where
  element : ∀ i < n, m (s.free.toNat + 32 * i) = f i
  outside : ∀ c, c < s.free.toNat ∨ s.free.toNat + 32 * n ≤ c → m c = s.memory c

lemma filled_allocate (s : State) (n : ℕ) (size : Word) (hsize : size.toNat = 32 * n) :
    Filled s n (fun _ => 0) (allocate s size).2.memory where
  element i hi := by
    refine write_add ?_
    rw [List.getElem?_replicate, if_pos (by omega)]
  outside c hc := write_of_outside (by rwa [List.length_replicate, hsize])

/-- A word that is written to an element changes it to the first byte of the word, and no other
element. -/
lemma Filled.mstore {s : State} {n j : ℕ} {f : ℕ → UInt8} {m : Memory} {a w : Word} {x : UInt8}
    (h : Filled s n f m) (hj : j < n) (ha : a.toNat = s.free.toNat + 32 * j)
    (hx : mstore m a w a.toNat = x) : Filled s n (Function.update f j x) (mstore m a w) where
  element i hi := by
    by_cases hij : i = j
    · subst hij
      rw [Function.update_self, ← ha, hx]
    · rw [Function.update_of_ne hij, mstore_of_outside (by omega), h.element i hi]
  outside c hc := by
    rw [mstore_of_outside (by omega), h.outside c hc]

/-- What stands below the array can still be read. -/
lemma Filled.mload_eq {s : State} {n : ℕ} {f : ℕ → UInt8} {m : Memory} {a : Word}
    (h : Filled s n f m) (ha : a.toNat + 32 ≤ s.free.toNat) : mload m a = mload s.memory a :=
  mload_congr (read_congr fun i hi => h.outside _ (.inl (by omega)))

/-! ## The steps of the functions -/

section Steps

variable {s : State} {data : Word} {offset : ℕ} {raw : Bytes}

/-- The byte `i` after the offset. -/
def HoldsData.byte (_ : HoldsData s data offset raw) (i : ℕ) : UInt8 :=
  s.memory ((mload s.memory (data + 32)).toNat + 32 + (offset + i))

lemma HoldsData.getElem?_eq (h : HoldsData s data offset raw) {i : ℕ}
    (hi : offset + i < raw.length) : raw[offset + i]? = some (h.byte i) :=
  h.raw.getElem?_eq hi

lemma HoldsData.toNat_add (h : HoldsData s data offset raw) :
    (data + 32).toNat = data.toNat + 32 := by
  have hle := h.le_free
  have hlt := h.raw.free_lt
  have h32 : (32 : Word).toNat = 32 := rfl
  rw [BitVec.toNat_add, h32]
  omega

/-- The fields can still be read when the array is filled. -/
lemma Filled.fields_eq {n : ℕ} {f : ℕ → UInt8} {m : Memory} (h : Filled s n f m)
    (hdata : HoldsData s data offset raw) :
    mload m data = mload s.memory data ∧ mload m (data + 32) = mload s.memory (data + 32) := by
  have hle := hdata.le_free
  have hadd := hdata.toNat_add
  exact ⟨h.mload_eq (by omega), h.mload_eq (by omega)⟩

/-- Copying a word sets one element. -/
lemma Filled.copyWord {n : ℕ} {f : ℕ → UInt8} {m : Memory} (h : Filled s n f m) (j : ℕ) (k : Word)
    (hdata : HoldsData s data offset raw) (hn : n ≤ 65) (hj : j < n) (hk : k.toNat = 32 * j)
    (hlength : offset + 32 * j + 32 ≤ raw.length) :
    Filled s n (Function.update f j (hdata.byte (32 * j))) (copyWord data s.free k m) := by
  obtain ⟨hoffset, hraw⟩ := h.fields_eq hdata
  have hle := hdata.raw.le_free
  have hlt := hdata.raw.free_lt
  have h32 : (32 : Word).toNat = 32 := rfl
  have hsource : (mload m (data + 32) + (32 + k) + mload m data).toNat =
      (mload s.memory (data + 32)).toNat + 32 + (offset + 32 * j) := by
    rw [hoffset, hraw, BitVec.toNat_add, BitVec.toNat_add, BitVec.toNat_add, h32, hk,
      hdata.offset_eq]
    omega
  have htarget : (s.free + k).toNat = s.free.toNat + 32 * j := by
    rw [BitVec.toNat_add, hk]
    omega
  refine h.mstore hj htarget ?_
  have hcopy := mstore_mload_add m m (s.free + k)
    (mload m (data + 32) + (32 + k) + mload m data) (i := 0) (by decide)
  rw [Nat.add_zero, Nat.add_zero] at hcopy
  rw [hcopy, hsource, h.outside _ (.inl (by omega))]
  rfl

/-- A byte after the offset can still be read. -/
lemma Filled.rawByte_eq {n : ℕ} {f : ℕ → UInt8} {m : Memory} (h : Filled s n f m)
    (hdata : HoldsData s data offset raw) (j : ℕ) (i : Word) (hi : i.toNat = offset + j)
    (hlength : offset + j < raw.length) :
    rawByte data i m = .ok (BitVec.ofNat 256 ((hdata.byte j).toNat * 256 ^ 31)) := by
  obtain ⟨_, hraw⟩ := h.fields_eq hdata
  have hle := hdata.raw.le_free
  have hguard : i < mload m (mload m (data + 32)) := by
    rw [hraw, h.mload_eq (by omega), BitVec.lt_def, hi, hdata.raw.length_eq]
    exact hlength
  simp only [rawByte, if_pos hguard]
  rw [hraw, hi, h.outside _ (.inl (by omega))]
  rfl

/-- The modifier passes if enough bytes are left, and then moves the offset. -/
lemma shift_of_filled {n : ℕ} (size : Word) {f f' : ℕ → UInt8} {m m' : Memory}
    {body : Memory → Except String Memory} (hdata : HoldsData s data offset raw)
    (hsize : size.toNat = n) (hlength : offset + n ≤ raw.length) (h : Filled s n f m)
    (hbody : body m = .ok m') (h' : Filled s n f' m') :
    ∃ m'', shift data size body m = .ok m'' ∧ ∀ free : Word,
      Decodes n s data offset raw s.free ⟨m'', free⟩ ↔
        ∀ i < n, raw[offset + i]? = some (f' i) := by
  obtain ⟨hoffset, hraw⟩ := h.fields_eq hdata
  have hle := hdata.le_free
  have hbelow := hdata.raw.le_free
  have hlt := hdata.raw.free_lt
  have hguard : mload m data + size ≤ mload m (mload m (data + 32)) := by
    rw [hoffset, hraw, h.mload_eq (by omega), BitVec.le_def, BitVec.toNat_add, hdata.offset_eq,
      hdata.raw.length_eq]
    omega
  have hrun : shift data size body m = .ok (mstore m' data (mload m' data + size)) := by
    rw [shift, if_pos hguard, hbody]
    rfl
  refine ⟨_, hrun, fun free => ?_⟩
  have helement : ∀ i < n, mstore m' data (mload m' data + size) (s.free.toNat + 32 * i) = f' i :=
    fun i hi => by rw [mstore_of_outside (by omega), h'.element i hi]
  constructor
  · intro hdecodes i hi
    exact (hdecodes.element i hi).trans (congrArg some (helement i hi))
  · intro hf
    refine ⟨fun i hi => ?_, fun c hc hc' => ?_, ?_⟩
    · exact (hf i hi).trans (congrArg some (helement i hi).symm)
    · exact (mstore_of_outside hc').trans (h'.outside c hc)
    · have hsum : mload (mstore m' data (mload m' data + size)) data = mload m' data + size :=
        mload_mstore_self _ _ _
      have hbound : offset + n < 2 ^ 256 := by omega
      rw [hsum, (h'.fields_eq hdata).1, BitVec.toNat_add, hdata.offset_eq, hsize,
        Nat.mod_eq_of_lt hbound]

end Steps

/-! ## When the array is right -/

/-- The elements of an array of `n` bytes after `w` words have been copied: the first byte of
each word, and zeros.  The elements behind the words are right. -/
structure Packed (byte : ℕ → UInt8) (n w : ℕ) (f : ℕ → UInt8) : Prop where
  copied : ∀ i < w, f i = byte (32 * i)
  zero : ∀ i, w ≤ i → i < 32 * w → f i = 0
  rest : ∀ i, 32 * w ≤ i → i < n → f i = byte i

/-- Such an array is right if and only if all bytes of the words but the first one are zero. -/
lemma Packed.forall_eq_iff {byte f : ℕ → UInt8} {n w : ℕ} (h : Packed byte n w f) (hw : 0 < w)
    (hw' : w ≤ 2) (hn : 32 * w ≤ n) :
    (∀ i < n, byte i = f i) ↔ ∀ i, 1 ≤ i → i < 32 * w → byte i = 0 := by
  constructor
  · intro heq i hi hi'
    by_cases hiw : i < w
    · -- the element has the first byte of a word further on, and that one is zero as well
      rw [heq i (by omega), h.copied i hiw, heq (32 * i) (by omega),
        h.zero (32 * i) (by omega) (by omega)]
    · rw [heq i (by omega), h.zero i (by omega) hi']
  · intro hzero i hi
    by_cases hiw : i < w
    · rw [h.copied i hiw]
      by_cases hi0 : i = 0
      · rw [hi0]
      · rw [hzero i (by omega) (by omega), hzero (32 * i) (by omega) (by omega)]
    · by_cases hi' : i < 32 * w
      · rw [h.zero i (by omega) hi', hzero i (by omega) hi']
      · rw [h.rest i (by omega) hi]

section Functions

variable {s : State} {data : Word} {offset : ℕ} {raw : Bytes}

/-- The elements against the bytes after the offset. -/
lemma HoldsData.forall_getElem?_iff (h : HoldsData s data offset raw) {n : ℕ} {f : ℕ → UInt8}
    (hlength : offset + n ≤ raw.length) :
    (∀ i < n, raw[offset + i]? = some (f i)) ↔ ∀ i < n, h.byte i = f i := by
  refine forall₂_congr fun i hi => ?_
  rw [h.getElem?_eq (by omega), Option.some.injEq]

/-- A function that copies `w` words, and perhaps the last byte. -/
lemma exists_decodes (n w : ℕ) (size : Word) (body : Memory → Except String Memory)
    {f₀ f : ℕ → UInt8} {m₀ m : Memory} (h : HoldsData s data offset raw)
    (hsize : size.toNat = n) (hlength : offset + n ≤ raw.length) (h₀ : Filled s n f₀ m₀)
    (hbody : body m₀ = .ok m) (hm : Filled s n f m) (hf : Packed h.byte n w f) (hw : 0 < w)
    (hw' : w ≤ 2) (hn : 32 * w ≤ n) :
    ∃ m', shift data size body m₀ = .ok m' ∧ ∀ free : Word,
      Decodes n s data offset raw s.free ⟨m', free⟩ ↔
        ∀ i, 1 ≤ i → i < 32 * w → raw[offset + i]? = some 0 := by
  obtain ⟨m', hrun, hiff⟩ := shift_of_filled size h hsize hlength h₀ hbody hm
  refine ⟨m', hrun, fun free => ?_⟩
  rw [hiff, h.forall_getElem?_iff hlength, hf.forall_eq_iff hw hw' hn]
  refine forall₃_congr fun i _ hi => ?_
  rw [h.getElem?_eq (by omega), Option.some.injEq]

lemma decodeBytes32_iff (h : HoldsData s data offset raw) (hlength : offset + 32 ≤ raw.length) :
    ∃ value t, decodeBytes32 s data = .ok (value, t) ∧
      (Decodes 32 s data offset raw value t ↔
        ∀ i, 1 ≤ i → i < 32 → raw[offset + i]? = some 0) := by
  have hnew := filled_allocate s 32 (32 * 32) rfl
  have hcopy := hnew.copyWord 0 0 h (by decide) (by decide) rfl (by omega)
  have hpacked : Packed h.byte 32 1 (Function.update (fun _ => 0) 0 (h.byte (32 * 0))) := by
    refine ⟨fun i hi => ?_, fun i hi _ => Function.update_of_ne (by omega) _ _,
      fun i hi hi' => by omega⟩
    obtain rfl : i = 0 := by omega
    rfl
  obtain ⟨m, hm, hiff⟩ := exists_decodes 32 1 32 (fun m => .ok (copyWord data s.free 0 m)) h rfl
    hlength hnew rfl hcopy hpacked (by decide) (by decide) (by decide)
  refine ⟨s.free, ⟨m, (allocate s (32 * 32)).2.free⟩, ?_, hiff _⟩
  have hfree : (allocate s (32 * 32)).1 = s.free := rfl
  simp only [decodeBytes32, hfree, hm]
  rfl

/-- Two words are copied. -/
lemma filled_two_words {n : ℕ} {m : Memory} (h : HoldsData s data offset raw) (hn : 64 ≤ n)
    (hn' : n ≤ 65) (hlength : offset + n ≤ raw.length) (hm : Filled s n (fun _ => 0) m) :
    Filled s n (Function.update (Function.update (fun _ => 0) 0 (h.byte 0)) 1 (h.byte 32))
      (copyWord data s.free 32 (copyWord data s.free 0 m)) :=
  (hm.copyWord 0 0 h hn' (by omega) rfl (by omega)).copyWord 1 32 h hn' (by omega) rfl (by omega)

lemma decodeBytes64_iff (h : HoldsData s data offset raw) (hlength : offset + 64 ≤ raw.length) :
    ∃ value t, decodeBytes64 s data = .ok (value, t) ∧
      (Decodes 64 s data offset raw value t ↔
        ∀ i, 1 ≤ i → i < 64 → raw[offset + i]? = some 0) := by
  have hnew := filled_allocate s 64 (32 * 64) rfl
  have hcopy := filled_two_words h le_rfl (by decide) hlength hnew
  have hpacked : Packed h.byte 64 2
      (Function.update (Function.update (fun _ => 0) 0 (h.byte 0)) 1 (h.byte 32)) := by
    refine ⟨fun i hi => ?_, fun i hi _ => ?_, fun i hi hi' => by omega⟩
    · interval_cases i <;> rfl
    · rw [Function.update_of_ne (by omega), Function.update_of_ne (by omega)]
  obtain ⟨m, hm, hiff⟩ := exists_decodes 64 2 64
    (fun m => .ok (copyWord data s.free 32 (copyWord data s.free 0 m))) h rfl hlength hnew rfl hcopy
    hpacked (by decide) (by decide) (by decide)
  refine ⟨s.free, ⟨m, (allocate s (32 * 64)).2.free⟩, ?_, hiff _⟩
  have hfree : (allocate s (32 * 64)).1 = s.free := rfl
  simp only [decodeBytes64, hfree, hm]
  rfl

lemma decodeBytes65_iff (h : HoldsData s data offset raw) (hlength : offset + 65 ≤ raw.length) :
    ∃ value t, decodeBytes65 s data = .ok (value, t) ∧
      (Decodes 65 s data offset raw value t ↔
        ∀ i, 1 ≤ i → i < 64 → raw[offset + i]? = some 0) := by
  have hnew := filled_allocate s 65 (32 * 65) rfl
  have hcopy := filled_two_words h (by decide) le_rfl hlength hnew
  have hlt := h.raw.free_lt
  have hle := h.raw.le_free
  have h64 : (64 : Word).toNat = 64 := rfl
  have hindex : (mload (copyWord data s.free 32 (copyWord data s.free 0
      (allocate s (32 * 65)).2.memory)) data + 64).toNat = offset + 64 := by
    rw [(hcopy.fields_eq h).1, BitVec.toNat_add, h.offset_eq, h64]
    omega
  have hbyte := hcopy.rawByte_eq h 64 _ hindex (by omega)
  have htarget : (s.free + 64 * 32).toNat = s.free.toNat + 32 * 64 := by
    have hoffset : (64 * 32 : Word).toNat = 2048 := rfl
    rw [BitVec.toNat_add, hoffset]
    omega
  have hlast := hcopy.mstore (j := 64) (by decide) htarget (mstore_upper _ _ (h.byte 64))
  have hpacked : Packed h.byte 65 2 (Function.update
      (Function.update (Function.update (fun _ => 0) 0 (h.byte 0)) 1 (h.byte 32)) 64
        (h.byte 64)) := by
    refine ⟨fun i hi => ?_, fun i hi hi' => ?_, fun i hi hi' => ?_⟩
    · interval_cases i <;> rfl
    · rw [Function.update_of_ne (by omega), Function.update_of_ne (by omega),
        Function.update_of_ne (by omega)]
    · obtain rfl : i = 64 := by omega
      rw [Function.update_self]
  obtain ⟨m, hm, hiff⟩ := exists_decodes 65 2 65 (fun m => do
    let m := copyWord data s.free 32 (copyWord data s.free 0 m)
    let byte ← rawByte data (mload m data + 64) m
    return mstore m (s.free + 64 * 32) byte) h rfl hlength hnew
    (by
      simp only [hbyte]
      rfl) hlast hpacked (by decide) (by decide) (by decide)
  refine ⟨s.free, ⟨m, (allocate s (32 * 65)).2.free⟩, ?_, hiff _⟩
  have hfree : (allocate s (32 * 65)).1 = s.free := rfl
  simp only [decodeBytes65, hfree]
  rw [hm]
  rfl

end Functions

/-- **Fixed byte arrays.**  If enough bytes are left, the functions return, and they have read the
bytes after the offset, written only to the array and moved the offset if and only if all bytes
that are copied by words are zero, but for the first one. -/
theorem decodeBytes_iff {s : State} {data : Word} {offset : ℕ} {raw : Bytes}
    (h : HoldsData s data offset raw) :
    (offset + 32 ≤ raw.length → ∃ value t, decodeBytes32 s data = .ok (value, t) ∧
      (Decodes 32 s data offset raw value t ↔
        ∀ i, 1 ≤ i → i < 32 → raw[offset + i]? = some 0)) ∧
    (offset + 64 ≤ raw.length → ∃ value t, decodeBytes64 s data = .ok (value, t) ∧
      (Decodes 64 s data offset raw value t ↔
        ∀ i, 1 ≤ i → i < 64 → raw[offset + i]? = some 0)) ∧
    (offset + 65 ≤ raw.length → ∃ value t, decodeBytes65 s data = .ok (value, t) ∧
      (Decodes 65 s data offset raw value t ↔
        ∀ i, 1 ≤ i → i < 64 → raw[offset + i]? = some 0)) :=
  ⟨decodeBytes32_iff h, decodeBytes64_iff h, decodeBytes65_iff h⟩

namespace Sample

/-- A `Data` in the memory of a new call: the offset, the address of the raw bytes, their length
and the bytes. -/
def stateOf (raw : Bytes) : State where
  memory := write (mstore (mstore (mstore (fun _ => 0) 0x80 0) 0xA0 0xC0) 0xC0
    (BitVec.ofNat 256 raw.length)) 0xE0 raw
  free := 0x140

/-- A number of 32 bytes, all of them needed. -/
def counting : Bytes := (List.range 32).map fun i => UInt8.ofNat (i + 1)

def oneByte : Bytes := 7 :: List.replicate 31 0

lemma holdsData_counting : HoldsData (stateOf counting) 0x80 0 counting :=
  ⟨by decide +kernel, ⟨by decide +kernel, by decide +kernel, by decide +kernel, by decide +kernel⟩,
    by decide +kernel⟩

lemma holdsData_oneByte : HoldsData (stateOf oneByte) 0x80 0 oneByte :=
  ⟨by decide +kernel, ⟨by decide +kernel, by decide +kernel, by decide +kernel, by decide +kernel⟩,
    by decide +kernel⟩

end Sample

/-- The second element of the array is zero, not the second byte. -/
theorem not_decodes_counting :
    HoldsData (Sample.stateOf Sample.counting) 0x80 0 Sample.counting ∧
      ∀ value t, decodeBytes32 (Sample.stateOf Sample.counting) 0x80 = .ok (value, t) →
        ¬Decodes 32 (Sample.stateOf Sample.counting) 0x80 0 Sample.counting value t := by
  refine ⟨Sample.holdsData_counting, fun value t h hdecodes => ?_⟩
  obtain ⟨value', t', h', hiff⟩ :=
    decodeBytes32_iff Sample.holdsData_counting (show 0 + 32 ≤ Sample.counting.length by decide)
  obtain ⟨rfl, rfl⟩ := Prod.mk.inj (Except.ok.inj (h.symm.trans h'))
  exact absurd (hiff.mp hdecodes 1 (by decide) (by decide)) (by decide)

/-- A single byte with zeros behind it is read. -/
theorem decodeBytes_iff_sample :
    ∃ value t, decodeBytes32 (Sample.stateOf Sample.oneByte) 0x80 = .ok (value, t) ∧
      Decodes 32 (Sample.stateOf Sample.oneByte) 0x80 0 Sample.oneByte value t := by
  obtain ⟨value, t, h, hiff⟩ := (decodeBytes_iff Sample.holdsData_oneByte).1 (by decide)
  refine ⟨value, t, h, hiff.mpr fun i hi hi' => ?_⟩
  interval_cases i <;> rfl

end Bandchain.Obi.SolidityBytes
