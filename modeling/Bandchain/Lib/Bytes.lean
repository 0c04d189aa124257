import Mathlib

/-!
# Byte strings

Byte strings are lists of bytes.  This file fixes the fixed-width big-endian encoding of
a number, with the facts every format built from it uses: the width of the encoding, that
equal encodings come from numbers that agree modulo the width, and that it keeps the order.
-/

namespace Bandchain

/-- A byte string.  Go strings are byte strings too. -/
abbrev Bytes : Type := List UInt8

instance : LawfulBEq Bytes := inferInstance

namespace Bytes

/-- The big-endian encoding of `n` in `w` bytes; digits that do not fit are dropped. -/
def be : ℕ → ℕ → Bytes
  | 0, _ => []
  | w + 1, n => be w (n / 256) ++ [UInt8.ofNat n]

@[simp] lemma length_be (w n : ℕ) : (be w n).length = w := by
  induction w generalizing n with
  | zero => rfl
  | succ w ih => simp [be, ih]

/-- Encodings of the same width are equal only for numbers with the same low digits. -/
lemma be_inj_mod {w m n : ℕ} (h : be w m = be w n) : m % 256 ^ w = n % 256 ^ w := by
  induction w generalizing m n with
  | zero => simp [Nat.mod_one]
  | succ w ih =>
    simp only [be] at h
    obtain ⟨hhigh, hlow⟩ := List.append_inj h (by simp)
    have hlow' : m % 256 = n % 256 := by
      have := congrArg UInt8.toNat (List.cons.inj hlow).1
      simpa using this
    have hhigh' := ih hhigh
    rw [Nat.pow_succ', Nat.mod_mul, Nat.mod_mul, hlow', hhigh']

/-- The digits that do not fit make no difference. -/
lemma be_mod (w n : ℕ) : be w (n % 256 ^ w) = be w n := by
  induction w generalizing n with
  | zero => rfl
  | succ w ih =>
    have hdiv : n % 256 ^ (w + 1) / 256 = n / 256 % 256 ^ w := by
      rw [Nat.pow_succ', Nat.mod_mul_right_div_self]
    have hlow : UInt8.ofNat (n % 256 ^ (w + 1)) = UInt8.ofNat n := by
      apply UInt8.toNat_inj.mp
      rw [UInt8.toNat_ofNat', UInt8.toNat_ofNat', Nat.pow_succ']
      exact Nat.mod_mul_right_mod n 256 (256 ^ w)
    rw [be, be, hdiv, ih, hlow]

/-- On numbers that fit, the fixed-width encoding is injective. -/
lemma be_inj {w m n : ℕ} (hm : m < 256 ^ w) (hn : n < 256 ^ w) (h : be w m = be w n) :
    m = n := by
  have := be_inj_mod h
  rwa [Nat.mod_eq_of_lt hm, Nat.mod_eq_of_lt hn] at this

/-- The number that a string is the big-endian encoding of. -/
def ofBe (b : Bytes) : ℕ := b.foldl (fun n x => n * 256 + x.toNat) 0

@[simp] lemma ofBe_append_singleton (b : Bytes) (x : UInt8) :
    ofBe (b ++ [x]) = ofBe b * 256 + x.toNat := by
  rw [ofBe, List.foldl_append]
  rfl

/-- Every string is the encoding of its number. -/
lemma ofBe_cons (x : UInt8) (b : Bytes) : ofBe (x :: b) = x.toNat * 256 ^ b.length + ofBe b := by
  induction b using List.reverseRecOn with
  | nil => simp [ofBe]
  | append_singleton b y ih =>
    rw [← List.cons_append, ofBe_append_singleton, ofBe_append_singleton, ih, List.length_append,
      List.length_singleton, pow_succ]
    ring

lemma ofBe_append (a b : Bytes) : ofBe (a ++ b) = ofBe a * 256 ^ b.length + ofBe b := by
  induction a with
  | nil => simp [ofBe]
  | cons x a ih =>
    rw [List.cons_append, ofBe_cons, ofBe_cons, ih, List.length_append, pow_add]
    ring

@[simp] lemma be_ofBe (b : Bytes) : be b.length (ofBe b) = b := by
  induction b using List.reverseRecOn with
  | nil => rfl
  | append_singleton b x ih =>
    have hx := x.toNat_lt
    rw [List.length_append, List.length_singleton, be, ofBe_append_singleton]
    have hdiv : (ofBe b * 256 + x.toNat) / 256 = ofBe b := by omega
    have hlow : UInt8.ofNat (ofBe b * 256 + x.toNat) = x := by
      apply UInt8.toNat_inj.mp
      rw [UInt8.toNat_ofNat']
      omega
    rw [hdiv, hlow, ih]

lemma ofBe_lt (b : Bytes) : ofBe b < 256 ^ b.length := by
  induction b using List.reverseRecOn with
  | nil => decide
  | append_singleton b x ih =>
    have hx := x.toNat_lt
    rw [List.length_append, List.length_singleton, ofBe_append_singleton, Nat.pow_succ]
    omega

/-- A number that fits is read back. -/
lemma ofBe_be {w n : ℕ} (h : n < 256 ^ w) : ofBe (be w n) = n := by
  have hlt := ofBe_lt (be w n)
  rw [length_be] at hlt
  have hbe := be_ofBe (be w n)
  rw [length_be] at hbe
  exact be_inj hlt h hbe

lemma be_uint64_inj {a b : UInt64} (h : be 8 a.toNat = be 8 b.toNat) : a = b :=
  UInt64.toNat_inj.mp (be_inj (w := 8) a.toNat_lt b.toNat_lt h)

/-- Strings of the same length decide the order of what they are continued to. -/
lemma append_lt_append_iff {a b c d : Bytes} (h : a.length = b.length) :
    a ++ c < b ++ d ↔ a < b ∨ a = b ∧ c < d := by
  induction a generalizing b with
  | nil =>
    obtain rfl := List.length_eq_zero_iff.mp h.symm
    simp
  | cons x a ih =>
    cases b with
    | nil => simp at h
    | cons y b =>
      simp only [List.cons_append, List.cons_lt_cons_iff, ih (Nat.succ.inj h), List.cons.injEq,
        and_or_left, or_assoc, and_assoc]

/-- The fixed-width encoding of numbers that fit keeps their order. -/
lemma be_lt_be_iff {w m n : ℕ} (hm : m < 256 ^ w) (hn : n < 256 ^ w) :
    be w m < be w n ↔ m < n := by
  induction w generalizing m n with
  | zero =>
    simp only [pow_zero, Nat.lt_one_iff] at hm hn
    simp [be, hm, hn]
  | succ w ih =>
    have hm' : m / 256 < 256 ^ w := Nat.div_lt_of_lt_mul (by rw [← Nat.pow_succ']; exact hm)
    have hn' : n / 256 < 256 ^ w := Nat.div_lt_of_lt_mul (by rw [← Nat.pow_succ']; exact hn)
    have heq : be w (m / 256) = be w (n / 256) ↔ m / 256 = n / 256 :=
      ⟨be_inj hm' hn', fun h => by rw [h]⟩
    have hlast : [UInt8.ofNat m] < [UInt8.ofNat n] ↔ m % 256 < n % 256 := by
      simp [List.cons_lt_cons_iff, UInt8.lt_iff_toNat_lt]
    rw [be, be, append_lt_append_iff (by simp), ih hm' hn', heq, hlast]
    omega

/-- The bytes of an ASCII literal. -/
def ascii (s : String) : Bytes := s.toUTF8.toList

/-- The lower-case hexadecimal digit of a number below 16. -/
def hexDigit (n : ℕ) : UInt8 :=
  if n < 10 then UInt8.ofNat (48 + n) else UInt8.ofNat (87 + n)

/-- Lower-case hexadecimal text, two digits for each byte. -/
def hex (b : Bytes) : Bytes :=
  b.flatMap fun x => [hexDigit (x.toNat / 16), hexDigit (x.toNat % 16)]

end Bytes

/-- A string of exactly 32 bytes, the type of a digest. -/
abbrev Bytes32 : Type := { b : Bytes // b.length = 32 }

end Bandchain
