import Bandchain.Lib.Bytes

/-!
# Variable-length numbers

The little-endian base-128 encoding of a number: seven bits to a byte, with the high bit set
on every byte but the last.  No encoding is a proper prefix of another one, so a number at the
start of a string can be read off in one way only.
-/

namespace Bandchain
namespace Leb128

/-- The encoding of a number, with the lowest seven bits first. -/
def encode (n : ℕ) : Bytes :=
  if n < 128 then [UInt8.ofNat n] else UInt8.ofNat (128 + n % 128) :: encode (n / 128)

lemma encode_of_lt {n : ℕ} (h : n < 128) : encode n = [UInt8.ofNat n] := by
  rw [encode, if_pos h]

lemma encode_of_le {n : ℕ} (h : 128 ≤ n) :
    encode n = UInt8.ofNat (128 + n % 128) :: encode (n / 128) := by
  rw [encode, if_neg (Nat.not_lt.mpr h)]

lemma ofNat_inj_of_lt {m n : ℕ} (hm : m < 256) (hn : n < 256) (h : UInt8.ofNat m = UInt8.ofNat n) :
    m = n := by
  have := congrArg UInt8.toNat h
  rwa [UInt8.toNat_ofNat_of_lt' hm, UInt8.toNat_ofNat_of_lt' hn] at this

/-- **Prefix code.**  A string that starts with an encoded number does so in one way. -/
theorem encode_append_inj {m n : ℕ} {x y : Bytes} (h : encode m ++ x = encode n ++ y) :
    m = n ∧ x = y := by
  induction m using Nat.strong_induction_on generalizing n with
  | _ m ih =>
    rcases Nat.lt_or_ge m 128 with hm | hm <;> rcases Nat.lt_or_ge n 128 with hn | hn
    · rw [encode_of_lt hm, encode_of_lt hn] at h
      obtain ⟨hhead, htail⟩ := List.cons.inj h
      exact ⟨ofNat_inj_of_lt (by omega) (by omega) hhead, htail⟩
    · -- the high bit of the first byte tells whether more bytes follow
      rw [encode_of_lt hm, encode_of_le hn] at h
      have := ofNat_inj_of_lt (by omega) (by omega) (List.cons.inj h).1
      omega
    · rw [encode_of_le hm, encode_of_lt hn] at h
      have := ofNat_inj_of_lt (by omega) (by omega) (List.cons.inj h).1
      omega
    · rw [encode_of_le hm, encode_of_le hn] at h
      obtain ⟨hhead, htail⟩ := List.cons.inj h
      have hlow := ofNat_inj_of_lt (by omega) (by omega) hhead
      obtain ⟨hhigh, hrest⟩ := ih (m / 128) (by omega) htail
      exact ⟨by omega, hrest⟩

/-- The number at the start of a string, and the rest of the string. -/
def decode : Bytes → ℕ × Bytes
  | [] => (0, [])
  | x :: b =>
    if x.toNat < 128 then (x.toNat, b)
    else
      let (n, rest) := decode b
      (x.toNat % 128 + 128 * n, rest)

/-- Decoding gives back the number, and what follows its encoding. -/
@[simp] lemma decode_encode_append (n : ℕ) (x : Bytes) : decode (encode n ++ x) = (n, x) := by
  induction n using Nat.strong_induction_on with
  | _ n ih =>
    rcases Nat.lt_or_ge n 128 with hn | hn
    · have hto : (UInt8.ofNat n).toNat = n := UInt8.toNat_ofNat_of_lt' (show n < 256 by omega)
      rw [encode_of_lt hn, List.singleton_append, decode, hto, if_pos hn]
    · have hto : (UInt8.ofNat (128 + n % 128)).toNat = 128 + n % 128 :=
        UInt8.toNat_ofNat_of_lt' (show 128 + n % 128 < 256 by omega)
      rw [encode_of_le hn, List.cons_append, decode, hto, if_neg (by omega),
        ih (n / 128) (by omega)]
      refine Prod.ext ?_ rfl
      show (128 + n % 128) % 128 + 128 * (n / 128) = n
      omega

/-! ## Shortest encodings -/

/-- A string of a given length stands for a number below a power of 128. -/
lemma decode_lt (b : Bytes) : (decode b).1 < 128 ^ b.length := by
  induction b with
  | nil => exact Nat.one_pos
  | cons x b ih =>
    have hpos : 0 < 128 ^ b.length := Nat.pow_pos (by decide)
    rw [decode, List.length_cons, pow_succ]
    split_ifs with hx
    · show x.toNat < _
      omega
    · show x.toNat % 128 + 128 * (decode b).1 < _
      omega

lemma length_encode_le {n k : ℕ} (h : n < 128 ^ (k + 1)) : (encode n).length ≤ k + 1 := by
  induction k generalizing n with
  | zero =>
    rw [encode_of_lt (by simpa using h)]
    exact le_rfl
  | succ k ih =>
    rcases Nat.lt_or_ge n 128 with hn | hn
    · rw [encode_of_lt hn]
      exact Nat.succ_le_succ (Nat.zero_le _)
    · rw [encode_of_le hn, List.length_cons]
      refine Nat.succ_le_succ (ih ?_)
      rw [pow_succ] at h
      exact Nat.div_lt_of_lt_mul (by omega)

/-- No shorter string stands for the number. -/
lemma length_encode_le_of_decode {n : ℕ} {b : Bytes} (hpos : 0 < n) (h : (decode b).1 = n) :
    (encode n).length ≤ b.length := by
  have hlt := decode_lt b
  rw [h] at hlt
  cases b with
  | nil =>
    rw [List.length_nil, pow_zero] at hlt
    omega
  | cons x b => exact length_encode_le hlt

end Leb128
end Bandchain
