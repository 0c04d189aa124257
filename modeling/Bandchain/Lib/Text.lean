import Bandchain.Lib.Bytes

/-!
# Text as bytes

Text is a sequence of Unicode characters, and its bytes are its UTF-8 encoding.  Languages count
its length in bytes, in characters, or in units of UTF-16; the three lengths are the same only for
ASCII text.
-/

namespace Bandchain
namespace Text

/-- The UTF-8 encoding. -/
def utf8 (s : String) : Bytes := s.toByteArray.data.toList

/-- The bytes are the encoding of some text. -/
def ValidUtf8 (b : Bytes) : Prop := ByteArray.IsValidUTF8 ⟨b.toArray⟩

instance (b : Bytes) : Decidable (ValidUtf8 b) :=
  inferInstanceAs (Decidable (ByteArray.IsValidUTF8 ⟨b.toArray⟩))

/-- The text with the given encoding. -/
def ofUtf8 (b : Bytes) : Option String := String.fromUTF8? ⟨b.toArray⟩

lemma validUtf8_utf8 (s : String) : ValidUtf8 (utf8 s) := s.isValidUTF8

lemma utf8_inj {s t : String} (h : utf8 s = utf8 t) : s = t := by
  apply String.toByteArray_inj.mp
  exact ByteArray.ext (Array.toList_inj.mp h)

lemma exists_utf8 {b : Bytes} (h : ValidUtf8 b) : ∃ s, utf8 s = b := ⟨String.fromUTF8 _ h, rfl⟩

@[simp] lemma ofUtf8_utf8 (s : String) : ofUtf8 (utf8 s) = some s := dif_pos (validUtf8_utf8 s)

lemma ofUtf8_eq_some {b : Bytes} {s : String} : ofUtf8 b = some s ↔ b = utf8 s := by
  constructor
  · intro h
    rw [ofUtf8, String.fromUTF8?] at h
    split_ifs at h with hvalid
    rw [← Option.some.inj h]
    rfl
  · rintro rfl
    exact ofUtf8_utf8 s

lemma ofUtf8_eq_none {b : Bytes} : ofUtf8 b = none ↔ ¬ValidUtf8 b := by
  rw [Option.eq_none_iff_forall_ne_some]
  simp only [ne_eq, ofUtf8_eq_some]
  constructor
  · intro h hvalid
    obtain ⟨s, rfl⟩ := exists_utf8 hvalid
    exact h s rfl
  · rintro h s rfl
    exact h (validUtf8_utf8 s)

/-! ## Lengths -/

/-- The number of units in UTF-16: two for a character beyond the basic plane. -/
def utf16Length (s : String) : ℕ := (s.toList.map fun c => if c.toNat < 0x10000 then 1 else 2).sum

/-- Every character is below 128. -/
def IsAscii (s : String) : Prop := ∀ c ∈ s.toList, c.toNat < 128

instance (s : String) : Decidable (IsAscii s) :=
  inferInstanceAs (Decidable (∀ c ∈ s.toList, c.toNat < 128))

lemma length_utf8 (s : String) : (utf8 s).length = (s.toList.map Char.utf8Size).sum := by
  have hbytes : utf8 s = s.toList.flatMap String.utf8EncodeChar := by
    rw [utf8, ← String.utf8Encode_toList, List.utf8Encode, List.data_toByteArray]
  rw [hbytes, List.length_flatMap]
  simp only [String.length_utf8EncodeChar]

/-- The number of bytes of a character, in terms of its number. -/
lemma utf8Size_cases (c : Char) :
    c.toNat < 128 ∧ c.utf8Size = 1 ∨ 128 ≤ c.toNat ∧ c.toNat < 0x10000 ∧ 2 ≤ c.utf8Size ∨
      0x10000 ≤ c.toNat ∧ c.utf8Size = 4 := by
  have htoNat : c.val.toNat = c.toNat := rfl
  rcases Char.utf8Size_eq c with h | h | h | h
  · have hc := Char.utf8Size_eq_one_iff.mp h
    rw [UInt32.le_iff_toNat_le, htoNat] at hc
    exact .inl ⟨Nat.lt_succ_of_le hc, h⟩
  · obtain ⟨hlow, hhigh⟩ := Char.utf8Size_eq_two_iff.mp h
    rw [UInt32.lt_iff_toNat_lt, htoNat] at hlow
    rw [UInt32.le_iff_toNat_le, htoNat] at hhigh
    exact .inr (.inl ⟨hlow, Nat.lt_of_le_of_lt hhigh (by decide), by omega⟩)
  · obtain ⟨hlow, hhigh⟩ := Char.utf8Size_eq_three_iff.mp h
    rw [UInt32.lt_iff_toNat_lt, htoNat] at hlow
    rw [UInt32.le_iff_toNat_le, htoNat] at hhigh
    exact .inr (.inl ⟨Nat.le_trans (by decide) hlow, Nat.lt_succ_of_le hhigh, by omega⟩)
  · have hlow := Char.utf8Size_eq_four_iff.mp h
    rw [UInt32.lt_iff_toNat_lt, htoNat] at hlow
    exact .inr (.inr ⟨hlow, h⟩)

/-- A measure of characters that is below the number of bytes, and strictly so unless the character
is ASCII, adds up to the number of bytes for ASCII text only. -/
lemma sum_eq_length_utf8_iff {f : Char → ℕ} (hle : ∀ c, f c ≤ c.utf8Size)
    (heq : ∀ c, f c = c.utf8Size ↔ c.toNat < 128) (s : String) :
    (s.toList.map f).sum ≤ (utf8 s).length ∧
      ((s.toList.map f).sum = (utf8 s).length ↔ IsAscii s) := by
  rw [length_utf8, IsAscii]
  induction s.toList with
  | nil => simp
  | cons c cs ih =>
    obtain ⟨ihle, iheq⟩ := ih
    have hc := hle c
    have hc' := heq c
    rw [List.map_cons, List.map_cons, List.sum_cons, List.sum_cons, List.forall_mem_cons, ← iheq,
      ← hc']
    omega

/-- The length in UTF-16 is the length in bytes for ASCII text only. -/
lemma utf16Length_eq_iff (s : String) :
    utf16Length s ≤ (utf8 s).length ∧ (utf16Length s = (utf8 s).length ↔ IsAscii s) := by
  refine sum_eq_length_utf8_iff (fun c => ?_) (fun c => ?_) s
  · split_ifs <;> have := utf8Size_cases c <;> omega
  · split_ifs <;> have := utf8Size_cases c <;> omega

/-- The number of characters is the length in bytes for ASCII text only. -/
lemma length_eq_iff (s : String) :
    s.length ≤ (utf8 s).length ∧ (s.length = (utf8 s).length ↔ IsAscii s) := by
  have hlen : s.length = (s.toList.map fun _ => 1).sum := by
    simp [← String.length_toList]
  rw [hlen]
  refine sum_eq_length_utf8_iff (fun c => ?_) (fun c => ?_) s
  · have := utf8Size_cases c
    omega
  · have := utf8Size_cases c
    omega

end Text
end Bandchain
