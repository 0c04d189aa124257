import Bandchain.Obi.Solidity

/-!
# Signed integers of OBI in Solidity

A wide signed integer is read as two signed integers of half the width.  The low half is extended
with its sign, too, so its top bit overwrites the high half.
-/

namespace Bandchain.Obi.Solidity

open Exec

def decodeI8 : Decoder (BitVec 8) := shift 1 do
  let data ← get
  match data.raw[data.offset]? with
  | some byte => return byte.toBitVec
  | none => throw "invalid opcode"

/-- A signed integer of twice the width: both halves are extended with their signs. -/
def wideSigned (n : ℕ) (half : Decoder (BitVec n)) : Decoder (BitVec (2 * n)) := do
  let high ← half
  let value := high.signExtend (2 * n) <<< n
  let low ← half
  return value ||| low.signExtend (2 * n)

def decodeI16 : Decoder (BitVec 16) := wideSigned 8 decodeI8
def decodeI32 : Decoder (BitVec 32) := wideSigned 16 decodeI16
def decodeI64 : Decoder (BitVec 64) := wideSigned 32 decodeI32
def decodeI128 : Decoder (BitVec 128) := wideSigned 64 decodeI64
def decodeI256 : Decoder (BitVec 256) := wideSigned 128 decodeI128

/-- The number in two's complement. -/
def twosComplement (b : Bytes) : ℤ := Int.bmod (Bytes.ofBe b) (256 ^ b.length)

/-- Only bytes 255 come before a byte with its top bit set. -/
def Unmixed (b : Bytes) : Prop := b.Pairwise fun x y => 128 ≤ y.toNat → x = 255

instance (b : Bytes) : Decidable (Unmixed b) := inferInstanceAs (Decidable (b.Pairwise _))

/-! ## Halves -/

lemma ofBe_eq_iff_forall (b : Bytes) : Bytes.ofBe b = 256 ^ b.length - 1 ↔ ∀ x ∈ b, x = 255 := by
  induction b with
  | nil => simp [Bytes.ofBe]
  | cons x b ih =>
    have hx := x.toNat_lt
    have hb := Bytes.ofBe_lt b
    have hpos : 0 < 256 ^ b.length := Nat.pow_pos (by decide)
    rw [List.forall_mem_cons, ← ih, ← UInt8.toNat_inj, Bytes.ofBe_cons, List.length_cons, pow_succ]
    constructor
    · intro h
      have hx' : x.toNat = 255 := by
        by_contra hne
        have hle : x.toNat ≤ 254 := by omega
        have := Nat.mul_le_mul_right (256 ^ b.length) hle
        omega
      rw [hx'] at h
      exact ⟨hx', by omega⟩
    · rintro ⟨h, h'⟩
      have h255 : x.toNat = 255 := h
      rw [h255, h']
      omega

/-- The top bit of a string is that of its first byte. -/
lemma msb_ofBe {n k : ℕ} (hn : n = 8 * (k + 1)) (x : UInt8) {b : Bytes} (hb : b.length = k) :
    (BitVec.ofNat n (Bytes.ofBe (x :: b))).msb = decide (128 ≤ x.toNat) := by
  have hlt := Bytes.ofBe_lt (x :: b)
  have hpow : (256 : ℕ) ^ k = 2 ^ (8 * k) := by rw [pow_mul]; norm_num
  have htop : 2 ^ (n - 1) = 128 * 2 ^ (8 * k) := by
    rw [show n - 1 = 7 + 8 * k by omega, pow_add]
    norm_num
  have hwidth : 2 ^ n = 256 * 2 ^ (8 * k) := by
    rw [show n = 8 + 8 * k by omega, pow_add]
    norm_num
  have hrest := Bytes.ofBe_lt b
  rw [List.length_cons, hb, pow_succ, hpow] at hlt
  rw [hb, hpow] at hrest
  rw [BitVec.msb_eq_decide, BitVec.toNat_ofNat, htop, hwidth,
    Nat.mod_eq_of_lt (by omega), Bytes.ofBe_cons, hb, hpow]
  congr 1
  apply propext
  constructor
  · intro h
    by_contra hx
    have hle : x.toNat ≤ 127 := by omega
    have := Nat.mul_le_mul_right (2 ^ (8 * k)) hle
    omega
  · intro h
    have := Nat.mul_le_mul_right (2 ^ (8 * k)) h
    omega

/-- The number in a string of bytes. -/
def number (n : ℕ) (b : Bytes) : BitVec n := BitVec.ofNat n (Bytes.ofBe b)

/-- What comes of a string of bytes: no bit is lost, and none is added if the string is unmixed. -/
structure Covers {n : ℕ} (b : Bytes) (v : BitVec n) : Prop where
  keeps : ∀ i, (number n b).getLsbD i = true → v.getLsbD i = true
  eq_iff : v = number n b ↔ Unmixed b

section Halves

variable {n k : ℕ} {b₁ b₂ : Bytes} {v₁ v₂ : BitVec n}

/-- The bits of both halves. -/
lemma getLsbD_number_append (hn : n = 8 * k) (h₁ : b₁.length = k) (h₂ : b₂.length = k) {i : ℕ}
    (hi : i < n) :
    (number (2 * n) (b₁ ++ b₂)).getLsbD i = (number n b₂).getLsbD i ∧
      (number (2 * n) (b₁ ++ b₂)).getLsbD (n + i) = (number n b₁).getLsbD i := by
  have hpow : (256 : ℕ) ^ k = 2 ^ n := by rw [hn, pow_mul]; norm_num
  have hlt₁ := Bytes.ofBe_lt b₁
  have hlt₂ := Bytes.ofBe_lt b₂
  rw [h₁, hpow] at hlt₁
  rw [h₂, hpow] at hlt₂
  rw [number, Bytes.ofBe_append, h₂, hpow, ← wide_ofNat hlt₁ hlt₂, BitVec.getLsbD_or,
    BitVec.getLsbD_or,
    BitVec.getLsbD_shiftLeft, BitVec.getLsbD_shiftLeft, BitVec.getLsbD_setWidth,
    BitVec.getLsbD_setWidth, BitVec.getLsbD_setWidth, BitVec.getLsbD_setWidth, number, number]
  constructor
  · simp [hi, show i < 2 * n by omega]
  · simp [hi, show n + i < 2 * n by omega, show i < 2 * n by omega]

/-- The bits of the code's value: the top bit of the low half is added to all of the high half. -/
lemma getLsbD_wideSigned {i : ℕ} (hi : i < n) :
    (v₁.signExtend (2 * n) <<< n ||| v₂.signExtend (2 * n)).getLsbD i = v₂.getLsbD i ∧
      (v₁.signExtend (2 * n) <<< n ||| v₂.signExtend (2 * n)).getLsbD (n + i) =
        (v₁.getLsbD i || v₂.msb) := by
  rw [BitVec.getLsbD_or, BitVec.getLsbD_or, BitVec.getLsbD_shiftLeft, BitVec.getLsbD_shiftLeft,
    BitVec.getLsbD_signExtend, BitVec.getLsbD_signExtend, BitVec.getLsbD_signExtend,
    BitVec.getLsbD_signExtend]
  constructor
  · simp [hi, show i < 2 * n by omega]
  · simp [hi, show n + i < 2 * n by omega, show i < 2 * n by omega]

lemma number_eq_allOnes_iff (hn : n = 8 * k) (h₁ : b₁.length = k) :
    (∀ i < n, (number n b₁).getLsbD i = true) ↔ ∀ x ∈ b₁, x = 255 := by
  have hpow : (256 : ℕ) ^ k = 2 ^ n := by rw [hn, pow_mul]; norm_num
  have hlt := Bytes.ofBe_lt b₁
  rw [h₁, hpow] at hlt
  have hones : (∀ i < n, (number n b₁).getLsbD i = true) ↔ number n b₁ = BitVec.allOnes n := by
    constructor
    · intro h
      refine BitVec.eq_of_getLsbD_eq fun i hi => ?_
      rw [h i hi, BitVec.getLsbD_allOnes, decide_eq_true hi]
    · intro h i hi
      rw [h, BitVec.getLsbD_allOnes, decide_eq_true hi]
  rw [hones, ← ofBe_eq_iff_forall, h₁, hpow, ← BitVec.toNat_inj, number, BitVec.toNat_ofNat,
    Nat.mod_eq_of_lt hlt, BitVec.toNat_allOnes]

/-- Two halves are unmixed together if they are on their own, and only bytes 255 come before a
half with its top bit set. -/
lemma unmixed_append_iff (hn : n = 8 * k) (hk : 0 < k) (h₂ : b₂.length = k) :
    Unmixed (b₁ ++ b₂) ↔ Unmixed b₁ ∧ Unmixed b₂ ∧
      ((number n b₂).msb = true → ∀ x ∈ b₁, x = 255) := by
  obtain ⟨y, t, rfl⟩ := List.exists_cons_of_length_pos (h₂ ▸ hk)
  have hmsb : (number n (y :: t)).msb = decide (128 ≤ y.toNat) :=
    msb_ofBe (k := t.length) (by rw [List.length_cons] at h₂; omega) y rfl
  rw [Unmixed, List.pairwise_append, hmsb, decide_eq_true_iff]
  refine and_congr_right fun _ => and_congr_right fun h => ⟨fun hcross hy x hx => ?_,
    fun hcross x hx z hz htop => ?_⟩
  · exact hcross x hx y List.mem_cons_self hy
  · rcases List.mem_cons.mp hz with rfl | hz
    · exact hcross htop x hx
    · have hy := (List.pairwise_cons.mp h).1 z hz htop
      exact hcross (by rw [hy]; decide) x hx

lemma forall_lt_two_mul {p : ℕ → Prop} : (∀ i < 2 * n, p i) ↔ ∀ i < n, p i ∧ p (n + i) := by
  refine ⟨fun h i hi => ⟨h i (by omega), h (n + i) (by omega)⟩, fun h i hi => ?_⟩
  rcases Nat.lt_or_ge i n with hlow | hhigh
  · exact (h i hlow).1
  · have := (h (i - n) (by omega)).2
    rwa [Nat.add_sub_cancel' hhigh] at this

lemma eq_iff_getLsbD {m : ℕ} {x y : BitVec m} : x = y ↔ ∀ i < m, x.getLsbD i = y.getLsbD i :=
  ⟨fun h _ _ => by rw [h], BitVec.eq_of_getLsbD_eq⟩

/-- The value of two halves. -/
lemma Covers.wide (hn : n = 8 * k) (hk : 0 < k) (hb₁ : b₁.length = k) (hb₂ : b₂.length = k)
    (h₁ : Covers b₁ v₁) (h₂ : Covers b₂ v₂) :
    Covers (b₁ ++ b₂) (v₁.signExtend (2 * n) <<< n ||| v₂.signExtend (2 * n)) := by
  have hnumber := fun i => @getLsbD_number_append _ _ _ _ hn hb₁ hb₂ i
  have hvalue := fun i => @getLsbD_wideSigned _ v₁ v₂ i
  generalize v₁.signExtend (2 * n) <<< n ||| v₂.signExtend (2 * n) = v at hvalue ⊢
  constructor
  · have hkeeps : ∀ i < 2 * n, (number (2 * n) (b₁ ++ b₂)).getLsbD i = true →
        v.getLsbD i = true := by
      refine forall_lt_two_mul.mpr fun i hi => ?_
      rw [(hnumber i hi).1, (hnumber i hi).2, (hvalue i hi).1, (hvalue i hi).2]
      refine ⟨h₂.keeps i, fun h => ?_⟩
      rw [h₁.keeps i h, Bool.true_or]
    exact fun i h => hkeeps i (BitVec.lt_of_getLsbD h) h
  · have hbits : v = number (2 * n) (b₁ ++ b₂) ↔ v₂ = number n b₂ ∧
        ∀ i < n, (v₁.getLsbD i || v₂.msb) = (number n b₁).getLsbD i := by
      rw [eq_iff_getLsbD, forall_lt_two_mul, eq_iff_getLsbD, ← forall₂_and]
      refine forall₂_congr fun i hi => ?_
      rw [(hnumber i hi).1, (hnumber i hi).2, (hvalue i hi).1, (hvalue i hi).2]
    rw [hbits, unmixed_append_iff hn hk hb₂, ← h₁.eq_iff, ← h₂.eq_iff]
    constructor
    · rintro ⟨rfl, hhigh⟩
      cases hmsb : (number n b₂).msb with
      | false =>
        refine ⟨eq_iff_getLsbD.mpr fun i hi => ?_, rfl, fun h => by cases h⟩
        rw [← hhigh i hi, hmsb, Bool.or_false]
      | true =>
        -- the top bit of the low half fills the high half
        have hones : ∀ i < n, (number n b₁).getLsbD i = true := fun i hi => by
          rw [← hhigh i hi, hmsb, Bool.or_true]
        refine ⟨eq_iff_getLsbD.mpr fun i hi => ?_, rfl, fun _ =>
          (number_eq_allOnes_iff hn hb₁).mp hones⟩
        rw [hones i hi, h₁.keeps i (hones i hi)]
    · rintro ⟨rfl, rfl, hcross⟩
      refine ⟨rfl, fun i hi => ?_⟩
      cases hmsb : (number n b₂).msb with
      | false => exact Bool.or_false _
      | true =>
        rw [Bool.or_true, (number_eq_allOnes_iff hn hb₁).mpr (hcross hmsb) i hi]

end Halves

/-! ## The decoders -/

/-- The decoder reads what the next `k` bytes cover. -/
def TakesSigned {n : ℕ} (k : ℕ) (dec : Decoder (BitVec n)) : Prop :=
  ∀ d : Data, d.raw.length < 2 ^ 256 → k ≤ d.rest.length →
    ∃ v, dec.run d = .ok v (d.advance k) ∧ Covers (d.rest.take k) v

lemma takesSigned_decodeI8 : TakesSigned 1 decodeI8 := by
  intro d hraw hlen
  obtain ⟨b, hb⟩ : ∃ b, d.rest.take 1 = [b] :=
    List.length_eq_one_iff.mp (by rw [List.length_take]; omega)
  rw [Data.length_rest] at hlen
  refine ⟨number 8 (d.rest.take 1), ?_, ?_⟩
  · -- a byte is read in the same way with a sign and without one
    have hsame : decodeI8 = decodeU8 := rfl
    rw [hsame]
    exact decodeU8_run hraw (by omega)
  · rw [hb]
    exact ⟨fun i h => h, iff_of_true rfl (List.pairwise_singleton _ _)⟩

lemma TakesSigned.wide {n k : ℕ} (hn : n = 8 * k) (hk : 0 < k) {half : Decoder (BitVec n)}
    (h : TakesSigned k half) : TakesSigned (2 * k) (wideSigned n half) := by
  intro d hraw hlen
  obtain ⟨v₁, hread₁, h₁⟩ := h d hraw (by omega)
  have hrest : (d.advance k).rest = d.rest.drop k := Data.rest_advance
  obtain ⟨v₂, hread₂, h₂⟩ := h (d.advance k) hraw (by rw [hrest, List.length_drop]; omega)
  rw [hrest] at h₂
  refine ⟨v₁.signExtend (2 * n) <<< n ||| v₂.signExtend (2 * n), ?_, ?_⟩
  · rw [wideSigned, run_bind_of_ok hread₁, run_bind_of_ok hread₂, Data.advance_advance, ← two_mul]
    rfl
  · rw [two_mul k, List.take_add]
    refine Covers.wide hn hk ?_ ?_ h₁ h₂
    · rw [List.length_take]
      omega
    · rw [List.length_take, List.length_drop]
      omega

lemma takesSigned_decodeI16 : TakesSigned 2 decodeI16 :=
  takesSigned_decodeI8.wide (k := 1) rfl (by decide)

lemma takesSigned_decodeI32 : TakesSigned 4 decodeI32 :=
  takesSigned_decodeI16.wide (k := 2) rfl (by decide)

lemma takesSigned_decodeI64 : TakesSigned 8 decodeI64 :=
  takesSigned_decodeI32.wide (k := 4) rfl (by decide)

lemma takesSigned_decodeI128 : TakesSigned 16 decodeI128 :=
  takesSigned_decodeI64.wide (k := 8) rfl (by decide)

lemma takesSigned_decodeI256 : TakesSigned 32 decodeI256 :=
  takesSigned_decodeI128.wide (k := 16) rfl (by decide)

/-- The number of bytes of a signed integer of the library. -/
inductive SignedKind
  | i8
  | i16
  | i32
  | i64
  | i128
  | i256

def SignedKind.size : SignedKind → ℕ
  | i8 => 1
  | i16 => 2
  | i32 => 4
  | i64 => 8
  | i128 => 16
  | i256 => 32

def readSigned : (kind : SignedKind) → Decoder (BitVec (8 * kind.size))
  | .i8 => decodeI8
  | .i16 => decodeI16
  | .i32 => decodeI32
  | .i64 => decodeI64
  | .i128 => decodeI128
  | .i256 => decodeI256

lemma takesSigned_readSigned : ∀ kind : SignedKind, TakesSigned kind.size (readSigned kind)
  | .i8 => takesSigned_decodeI8
  | .i16 => takesSigned_decodeI16
  | .i32 => takesSigned_decodeI32
  | .i64 => takesSigned_decodeI64
  | .i128 => takesSigned_decodeI128
  | .i256 => takesSigned_decodeI256

lemma Covers.toInt_eq_iff {b : Bytes} {k : ℕ} (hb : b.length = k) {v : BitVec (8 * k)}
    (h : Covers b v) : v.toInt = twosComplement b ↔ Unmixed b := by
  have hpow : (256 : ℕ) ^ k = 2 ^ (8 * k) := by rw [pow_mul]; norm_num
  have hlt := Bytes.ofBe_lt b
  rw [hb, hpow] at hlt
  have hnumber : (number (8 * k) b).toInt = twosComplement b := by
    rw [BitVec.toInt_eq_toNat_bmod, number, BitVec.toNat_ofNat, Nat.mod_eq_of_lt hlt,
      twosComplement, hb, hpow]
  rw [← hnumber, BitVec.toInt_inj, h.eq_iff]

/-- A signed integer of Go. -/
inductive GoSigned
  | i8 (v : Int8)
  | i16 (v : Int16)
  | i32 (v : Int32)
  | i64 (v : Int64)

namespace GoSigned

def kind : GoSigned → SignedKind
  | i8 _ => .i8
  | i16 _ => .i16
  | i32 _ => .i32
  | i64 _ => .i64

def toInt : GoSigned → ℤ
  | i8 v => v.toInt
  | i16 v => v.toInt
  | i32 v => v.toInt
  | i64 v => v.toInt

def encode : GoSigned → Bytes
  | i8 v => encodeSigned8 v
  | i16 v => encodeSigned16 v
  | i32 v => encodeSigned32 v
  | i64 v => encodeSigned64 v

lemma length_encode (x : GoSigned) : x.encode.length = x.kind.size := by
  cases x <;> exact Bytes.length_be _ _

lemma twosComplement_be {k : ℕ} {v : BitVec (8 * k)} :
    twosComplement (Bytes.be k v.toNat) = v.toInt := by
  have hpow : (256 : ℕ) ^ k = 2 ^ (8 * k) := by rw [pow_mul]; norm_num
  rw [twosComplement, Bytes.length_be, Bytes.ofBe_be (by rw [hpow]; exact v.isLt), hpow,
    BitVec.toInt_eq_toNat_bmod]

lemma twosComplement_encode (x : GoSigned) : twosComplement x.encode = x.toInt := by
  cases x with
  | i8 v => exact twosComplement_be (k := 1)
  | i16 v => exact twosComplement_be (k := 2)
  | i32 v => exact twosComplement_be (k := 4)
  | i64 v => exact twosComplement_be (k := 8)

end GoSigned

/-- Every read moves on, and reads what its bytes say if no byte is mixed. -/
lemma readSigned_run (kind : SignedKind) (d : Data) (hraw : d.raw.length < 2 ^ 256)
    (hlen : d.offset + kind.size ≤ d.raw.length) :
    ∃ v, (readSigned kind).run d = .ok v ⟨d.offset + kind.size, d.raw⟩ ∧
      (v.toInt = twosComplement ((d.raw.drop d.offset).take kind.size) ↔
        Unmixed ((d.raw.drop d.offset).take kind.size)) := by
  have hrest : kind.size ≤ d.rest.length := by
    rw [Data.length_rest]
    omega
  obtain ⟨v, hrun, hcovers⟩ := takesSigned_readSigned kind d hraw hrest
  refine ⟨v, hrun, hcovers.toInt_eq_iff ?_⟩
  rw [List.length_take, min_eq_left hrest]

/-- **Signed integers.**  Every read moves on by the size of the integer.  The value is the number
in two's complement, and so the integer that Go has encoded, exactly if every byte before one with
its top bit set is 255. -/
theorem readSigned_eq_iff (kind : SignedKind) (d : Data) (x : GoSigned) (rest : Bytes) :
    (d.raw.length < 2 ^ 256 → d.offset + kind.size ≤ d.raw.length →
      ∃ v, (readSigned kind).run d = .ok v ⟨d.offset + kind.size, d.raw⟩ ∧
        (v.toInt = twosComplement ((d.raw.drop d.offset).take kind.size) ↔
          Unmixed ((d.raw.drop d.offset).take kind.size))) ∧
    ((x.encode ++ rest).length < 2 ^ 256 →
      ∃ v, (readSigned x.kind).run (ofRaw (x.encode ++ rest)) =
          .ok v ⟨x.kind.size, x.encode ++ rest⟩ ∧
        (v.toInt = x.toInt ↔ Unmixed x.encode)) := by
  refine ⟨readSigned_run kind d, fun hlen => ?_⟩
  have hsize : x.kind.size ≤ (x.encode ++ rest).length := by
    rw [List.length_append, x.length_encode]
    omega
  obtain ⟨v, hrun, hiff⟩ := readSigned_run x.kind (ofRaw (x.encode ++ rest)) hlen
    (by rw [ofRaw, Nat.zero_add]; exact hsize)
  have htake : ((ofRaw (x.encode ++ rest)).raw.drop (ofRaw (x.encode ++ rest)).offset).take
      x.kind.size = x.encode := by
    rw [ofRaw, List.drop_zero, List.take_left' x.length_encode]
  rw [htake, x.twosComplement_encode] at hiff
  refine ⟨v, ?_, hiff⟩
  rw [hrun, ofRaw, Nat.zero_add]

theorem readSigned_eq_iff_sample :
    (∃ v, (readSigned .i16).run ⟨1, [9, 1, 2]⟩ = .ok v ⟨3, [9, 1, 2]⟩ ∧
      v.toInt = twosComplement [1, 2]) ∧
    ∃ v, (readSigned .i32).run (ofRaw (encodeSigned32 (-2) ++ [7])) =
        .ok v ⟨4, encodeSigned32 (-2) ++ [7]⟩ ∧ v.toInt = (-2 : Int32).toInt := by
  obtain ⟨hread, hinvert⟩ := readSigned_eq_iff .i16 ⟨1, [9, 1, 2]⟩ (.i32 (-2)) [7]
  obtain ⟨v, hv, h⟩ := hread (by decide) (by decide)
  obtain ⟨v', hv', h'⟩ := hinvert (by decide)
  exact ⟨⟨v, hv, h.mpr (by decide)⟩, v', hv', h'.mpr (by decide)⟩

/-- The integer 128 in two bytes. -/
theorem not_readSigned_eq :
    ¬∀ (kind : SignedKind) (d : Data), d.raw.length < 2 ^ 256 →
      d.offset + kind.size ≤ d.raw.length →
      ∃ v, (readSigned kind).run d = .ok v ⟨d.offset + kind.size, d.raw⟩ ∧
        v.toInt = twosComplement ((d.raw.drop d.offset).take kind.size) := by
  intro h
  obtain ⟨v, hrun, hv⟩ := h .i16 ⟨0, [0, 128]⟩ (by decide) (by decide)
  have hvalue : (readSigned .i16).run ⟨0, [0, 128]⟩ =
      .ok (BitVec.ofInt 16 (-128)) ⟨2, [0, 128]⟩ := by
    rfl
  rw [hvalue] at hrun
  obtain ⟨rfl, -⟩ := EStateM.Result.ok.inj hrun
  exact absurd hv (by decide)

end Bandchain.Obi.Solidity
