import Bandchain.Bridge.Soundness

/-!
# Varints on both sides of the bridge

The contract encodes a number in a buffer whose size it computes before.  The size of zero is zero,
so there is no last byte whose high bit could be dropped, and the call reverts.
-/

namespace Bandchain.Bridge

/-! ## The chain -/

/-- `binary.PutUvarint`. -/
def putUvarint (x : ℕ) : Bytes :=
  if 128 ≤ x then (UInt8.ofNat x ||| 128) :: putUvarint (x / 128) else [UInt8.ofNat x]

/-- `binary.PutVarint`: the sign goes to the lowest bit. -/
def encodeVarint (value : Int64) : Bytes :=
  let ux := value.toUInt64 <<< 1
  putUvarint (if value < 0 then ~~~ux else ux).toNat

/-- The high bit of a byte is set, whatever it was. -/
lemma or_high_bit (n : ℕ) : UInt8.ofNat n ||| 128 = UInt8.ofNat (128 + n % 128) := by
  have hadd : ∀ m < 128, 128 + m = 128 ||| m := fun m hm =>
    Nat.two_pow_add_eq_or_of_lt (i := 7) hm 1
  have hor : n % 256 ||| 128 = 128 + n % 128 := by
    have hlow : n % 128 < 128 := Nat.mod_lt n (by decide)
    rcases Nat.lt_or_ge (n % 256) 128 with h | h
    · rw [show n % 256 = n % 128 by omega, Nat.or_comm, hadd _ hlow]
    · rw [show n % 256 = 128 + n % 128 by omega, hadd _ hlow, Nat.or_comm, ← Nat.or_assoc,
        Nat.or_self]
  apply UInt8.toNat_inj.mp
  rw [UInt8.toNat_or, UInt8.toNat_ofNat', UInt8.toNat_ofNat', ← hor]
  have hbyte : (n % 256 ||| 128) < 256 := by omega
  exact (Nat.mod_eq_of_lt hbyte).symm

lemma putUvarint_eq (x : ℕ) : putUvarint x = Leb128.encode x := by
  induction x using Nat.strong_induction_on with
  | _ x ih =>
    rw [putUvarint, Leb128.encode]
    rcases Nat.lt_or_ge x 128 with hx | hx
    · rw [if_neg (by omega), if_pos hx]
    · rw [if_pos hx, if_neg (by omega), or_high_bit, ih _ (by omega)]

/-- A number that is not negative is doubled. -/
lemma encodeVarint_ofNat {v : ℕ} (hv : v < 2 ^ 63) :
    encodeVarint (Int64.ofNat v) = Leb128.encode (2 * v) := by
  have hnonneg : ¬Int64.ofNat v < 0 := by
    rw [Int64.lt_iff_toInt_lt, Int64.toInt_ofNat_of_lt hv]
    exact Int.not_lt.mpr (Int.natCast_nonneg v)
  have hshift : ((Int64.ofNat v).toUInt64 <<< 1).toNat = 2 * v := by
    rw [Int64.toUInt64_ofNat', UInt64.toNat_shiftLeft,
      UInt64.toNat_ofNat_of_lt' (hv.trans (by decide))]
    show v <<< 1 % 2 ^ 64 = 2 * v
    rw [Nat.shiftLeft_eq, pow_one, Nat.mod_eq_of_lt (by omega), Nat.mul_comm]
  simp only [encodeVarint, if_neg hnonneg, hshift, putUvarint_eq]

/-! ## The contract -/

open Utils

/-- The encoding of a number: it is read back, no string that is read so is shorter, and none is
the start of another number's. -/
structure IsVarint (v : UInt256) (b : Bytes) : Prop where
  decode_eq : Leb128.decode b = (v.toNat, [])
  shortest : ∀ b', Leb128.decode b' = (v.toNat, []) → b.length ≤ b'.length
  prefix_free : ∀ v' b', encodeVarintUnsigned v' = .ok b' → b <+: b' → v' = v

lemma encodeVarintUnsigned_eq_ok {v : UInt256} {b : Bytes} (h : encodeVarintUnsigned v = .ok b) :
    v ≠ 0 ∧ b = Leb128.encode v.toNat := by
  rw [encodeVarintUnsigned_eq] at h
  split_ifs at h with hzero
  exact ⟨hzero, (Except.ok.inj h).symm⟩

lemma isVarint_encode {v : UInt256} (hv : v ≠ 0) : IsVarint v (Leb128.encode v.toNat) where
  decode_eq := by
    have := Leb128.decode_encode_append v.toNat []
    rwa [List.append_nil] at this
  shortest b' hb' := by
    refine Leb128.length_encode_le_of_decode (Nat.pos_of_ne_zero fun h => hv ?_) (by rw [hb'])
    exact BitVec.eq_of_toNat_eq h
  prefix_free v' b' hb' := by
    obtain ⟨-, rfl⟩ := encodeVarintUnsigned_eq_ok hb'
    rintro ⟨t, ht⟩
    have := Leb128.encode_append_inj (ht.trans (List.append_nil _).symm)
    exact BitVec.eq_of_toNat_eq this.1.symm

/-- **Varints.**  The contract encodes a number as it should, and as the chain does where both have
it, exactly if the number is not zero. -/
theorem encodeVarint_iff (v : UInt256) :
    ((∃ b, encodeVarintUnsigned v = .ok b ∧ IsVarint v b) ↔ v ≠ 0) ∧
    (v.toNat < 2 ^ 63 →
      (encodeVarintSigned v = .ok (encodeVarint (Int64.ofNat v.toNat)) ↔ v ≠ 0)) := by
  constructor
  · constructor
    · rintro ⟨b, hb, -⟩
      exact (encodeVarintUnsigned_eq_ok hb).1
    · intro hv
      refine ⟨_, ?_, isVarint_encode hv⟩
      rw [encodeVarintUnsigned_eq, if_neg hv]
  · intro hv
    have hdouble : (v * 2).toNat = 2 * v.toNat := by
      rw [BitVec.toNat_mul]
      show v.toNat * 2 % 2 ^ 256 = 2 * v.toNat
      omega
    have hzero : v * 2 = 0 ↔ v = 0 := by
      rw [← BitVec.toNat_inj, ← BitVec.toNat_inj, hdouble]
      show 2 * v.toNat = 0 ↔ v.toNat = 0
      omega
    rw [encodeVarintSigned, encodeVarintUnsigned_eq, encodeVarint_ofNat hv, hdouble]
    split_ifs with h
    · exact iff_of_false (fun h' => by cases h') (not_not.mpr (hzero.mp h))
    · exact iff_of_true rfl (fun h' => h (hzero.mpr h'))

theorem encodeVarint_iff_sample :
    (∃ b, encodeVarintUnsigned 300 = .ok b ∧ IsVarint 300 b) ∧
      encodeVarintSigned 64 = .ok (encodeVarint (Int64.ofNat 64)) :=
  ⟨(encodeVarint_iff 300).1.mpr (by decide), ((encodeVarint_iff 64).2 (by decide)).mpr (by decide)⟩

/-- Zero has no encoding. -/
theorem not_encodeVarint_zero :
    ¬∀ v : UInt256, ∃ b, encodeVarintUnsigned v = .ok b ∧ IsVarint v b := by
  intro h
  obtain ⟨b, hb, -⟩ := h 0
  exact (encodeVarintUnsigned_eq_ok hb).1 rfl

end Bandchain.Bridge
