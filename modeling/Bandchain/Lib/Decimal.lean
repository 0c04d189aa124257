import Bandchain.Lib.Text

/-!
# Decimal text

Numbers written in decimal, and the parsers that read them back as 64-bit numbers.  A parser
takes digits only, after a sign where the number may be negative, and refuses what does not fit.
-/

namespace Bandchain

namespace Bytes

lemma toList_loop (b : ByteArray) (i : ℕ) (acc : Bytes) :
    ByteArray.toList.loop b i acc = acc.reverse ++ b.data.toList.drop i := by
  fun_induction ByteArray.toList.loop b i acc with
  | case1 i acc hi ih =>
    have hi' : i < b.data.toList.length := hi
    rw [ih, List.drop_eq_getElem_cons hi']
    simp [ByteArray.get!, hi]
  | case2 i acc hi =>
    have hi' : b.data.toList.length ≤ i := Nat.le_of_not_lt hi
    rw [List.drop_eq_nil_of_le hi', List.append_nil]

/-- The bytes of a literal are those of its characters. -/
lemma ascii_eq (s : String) : ascii s = s.toList.flatMap String.utf8EncodeChar := by
  have hlist : s.toByteArray.toList = s.toByteArray.data.toList := by
    rw [ByteArray.toList, toList_loop]
    rfl
  rw [ascii, String.toUTF8_eq_toByteArray, hlist, ← String.utf8Encode_toList, List.utf8Encode,
    List.data_toByteArray]

end Bytes

namespace Decimal

/-- A number in decimal. -/
def print (n : ℤ) : Bytes := Bytes.ascii (toString n)

/-- The value of a digit. -/
def digit (c : UInt8) : Option ℕ :=
  if 48 ≤ c.toNat ∧ c.toNat ≤ 57 then some (c.toNat - 48) else none

/-- The number that continues `n` with the given digits. -/
def digits : ℕ → Bytes → Option ℕ
  | n, [] => some n
  | n, c :: b => (digit c).bind fun d => digits (10 * n + d) b

/-- A number: one digit or more. -/
def number (b : Bytes) : Option ℕ := if b = [] then none else digits 0 b

/-- `strconv.ParseUint(s, 10, 64)`. -/
def parseUint64 (b : Bytes) : Option UInt64 :=
  (number b).bind fun n => if n < 2 ^ 64 then some (UInt64.ofNat n) else none

/-- `strconv.ParseInt(s, 10, 64)`. -/
def parseInt64 : Bytes → Option ℤ
  | 43 :: b => (number b).bind fun n => if n < 2 ^ 63 then some (n : ℤ) else none
  | 45 :: b => (number b).bind fun n => if n ≤ 2 ^ 63 then some (-n : ℤ) else none
  | b => (number b).bind fun n => if n < 2 ^ 63 then some (n : ℤ) else none

/-- The range of a signed 64-bit number. -/
def FitsInt64 (n : ℤ) : Prop := -2 ^ 63 ≤ n ∧ n < 2 ^ 63

instance (n : ℤ) : Decidable (FitsInt64 n) := inferInstanceAs (Decidable (_ ∧ _))

lemma toNat_of_isDigit {c : Char} (h : c.isDigit = true) : 48 ≤ c.toNat ∧ c.toNat ≤ 57 := by
  simpa [Char.isDigit, UInt32.le_iff_toNat_le] using h

/-- A digit is one byte, with the value of the digit. -/
lemma digit_of_isDigit {c : Char} (h : c.isDigit = true) :
    ∃ x, String.utf8EncodeChar c = [x] ∧ digit x = some (c.toNat - 48) := by
  obtain ⟨hlo, hhi⟩ := toNat_of_isDigit h
  have hsize : c.utf8Size = 1 := by
    rw [Char.utf8Size_eq_one_iff, UInt32.le_iff_toNat_le]
    exact hhi.trans (by decide)
  have hval : c.val.toUInt8.toNat = c.toNat := by
    rw [UInt32.toNat_toUInt8]
    exact Nat.mod_eq_of_lt (by change c.toNat < _; omega)
  exact ⟨_, String.utf8EncodeChar_eq_singleton hsize, by rw [digit, hval, if_pos ⟨hlo, hhi⟩]⟩

/-- Printed digits continue a number. -/
lemma digits_of_isDigit {cs : List Char} (h : ∀ c ∈ cs, c.isDigit = true) (n : ℕ) :
    digits n (cs.flatMap String.utf8EncodeChar) = some (Nat.ofDigitChars 10 cs n) := by
  induction cs generalizing n with
  | nil => rfl
  | cons c cs ih =>
    obtain ⟨x, hx, hdigit⟩ := digit_of_isDigit (h c List.mem_cons_self)
    rw [List.flatMap_cons, hx, List.singleton_append, digits, hdigit, Option.bind_some,
      ih fun d hd => h d (List.mem_cons_of_mem _ hd)]
    rfl

lemma number_repr (n : ℕ) : number (Bytes.ascii n.repr) = some n := by
  have hdigits : digits 0 (Bytes.ascii n.repr) = some n := by
    rw [Bytes.ascii_eq, Nat.toList_repr, digits_of_isDigit fun c hc =>
      Nat.isDigit_of_mem_toDigits (by decide) (by decide) hc, Nat.ofDigitChars_ten_toDigits]
  have hne : Bytes.ascii n.repr ≠ [] := by
    rw [Bytes.ascii_eq, Nat.toList_repr, ne_eq, List.flatMap_eq_nil_iff]
    intro hnil
    exact Nat.toDigits_ne_nil (List.eq_nil_iff_forall_not_mem.mpr fun c hc =>
      String.utf8EncodeChar_ne_nil (hnil c hc))
  rw [number, if_neg hne, hdigits]

/-- The text of a number starts with a digit, not with a sign. -/
lemma ascii_repr (n : ℕ) : ∃ x b, Bytes.ascii n.repr = x :: b ∧ x ≠ 43 ∧ x ≠ 45 := by
  rcases hb : Bytes.ascii n.repr with _ | ⟨x, b⟩
  · have hnum := number_repr n
    rw [hb] at hnum
    cases hnum
  · have hnum := number_repr n
    refine ⟨x, b, rfl, ?_, ?_⟩ <;>
    · rintro rfl
      rw [hb] at hnum
      cases hnum

lemma print_natCast (n : ℕ) : print n = Bytes.ascii n.repr := rfl

lemma print_negSucc (n : ℕ) : print (Int.negSucc n) = 45 :: Bytes.ascii (n + 1).repr := by
  have hsign : toString (Int.negSucc n) = "-" ++ (n + 1).repr := rfl
  rw [print, hsign, Bytes.ascii_eq, Bytes.ascii_eq, String.toList_append, List.flatMap_append]
  rfl

/-- Different numbers have different texts. -/
lemma print_inj {m n : ℤ} (h : print m = print n) : m = n := by
  -- the text of a negative number starts with a sign, that of another number with a digit
  have hsign : ∀ i j : ℕ, Bytes.ascii i.repr ≠ 45 :: Bytes.ascii j.repr := by
    intro i j hij
    obtain ⟨x, b, hx, _, hminus⟩ := ascii_repr i
    exact hminus (List.cons.inj (hx.symm.trans hij)).1
  have hrepr : ∀ i j : ℕ, Bytes.ascii i.repr = Bytes.ascii j.repr → i = j := by
    intro i j hij
    exact Option.some.inj ((number_repr i).symm.trans ((congrArg number hij).trans (number_repr j)))
  cases m with
  | ofNat m =>
    cases n with
    | ofNat n => exact congrArg Int.ofNat (hrepr m n h)
    | negSucc n => exact (hsign m (n + 1) (h.trans (print_negSucc n))).elim
  | negSucc m =>
    cases n with
    | ofNat n => exact (hsign n (m + 1) (h.symm.trans (print_negSucc m))).elim
    | negSucc n =>
      rw [print_negSucc, print_negSucc] at h
      have := hrepr (m + 1) (n + 1) (List.cons.inj h).2
      omega

/-- An unsigned number is read back. -/
@[simp] lemma parseUint64_print (n : UInt64) : parseUint64 (print n.toNat) = some n := by
  rw [parseUint64, print_natCast, number_repr, Option.bind_some, if_pos n.toNat_lt,
    UInt64.ofNat_toNat]

/-- A signed number is read back. -/
lemma parseInt64_print {n : ℤ} (h : FitsInt64 n) : parseInt64 (print n) = some n := by
  obtain ⟨hlo, hhi⟩ := h
  cases n with
  | ofNat n =>
    obtain ⟨x, b, hx, hplus, hminus⟩ := ascii_repr n
    have hnum := number_repr n
    have hlt : n < 2 ^ 63 := by
      have : (n : ℤ) < 2 ^ 63 := hhi
      omega
    rw [hx] at hnum
    rw [Int.ofNat_eq_natCast, print_natCast, hx, parseInt64, hnum, Option.bind_some, if_pos hlt]
    · intro c hc
      exact hplus (List.cons.inj hc).1
    · intro c hc
      exact hminus (List.cons.inj hc).1
  | negSucc n =>
    have hle : n + 1 ≤ 2 ^ 63 := by omega
    rw [print_negSucc, parseInt64, number_repr, Option.bind_some, if_pos hle]
    rfl

end Decimal
end Bandchain
