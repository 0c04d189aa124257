import Bandchain.Lib.Bytes

/-!
# Hexadecimal text

Reading hexadecimal text back, and splitting a text at the occurrences of another one.  A split
of hexadecimal text need not be between bytes: an occurrence may start in the middle of one.  It
does not if one of the pieces can be read back.
-/

namespace Bandchain

namespace Bytes

lemma hex_append (a b : Bytes) : hex (a ++ b) = hex a ++ hex b := List.flatMap_append

lemma length_hex (b : Bytes) : (hex b).length = 2 * b.length := by
  induction b with
  | nil => rfl
  | cons x b ih =>
    rw [hex, List.flatMap_cons, List.length_append]
    show 2 + (hex b).length = 2 * (b.length + 1)
    omega

end Bytes

namespace Hex

/-- The value of a digit, in lower or in upper case. -/
def fromHexChar (c : UInt8) : Option ℕ :=
  if 48 ≤ c.toNat ∧ c.toNat ≤ 57 then some (c.toNat - 48)
  else if 97 ≤ c.toNat ∧ c.toNat ≤ 102 then some (c.toNat - 87)
  else if 65 ≤ c.toNat ∧ c.toNat ≤ 70 then some (c.toNat - 55)
  else none

/-- `hex.DecodeString`: fails on an odd number of digits and on other characters. -/
def decodeString : Bytes → Option Bytes
  | [] => some []
  | [_] => none
  | a :: b :: s =>
    (fromHexChar a).bind fun x => (fromHexChar b).bind fun y =>
      (decodeString s).map fun t => UInt8.ofNat (16 * x + y) :: t

lemma fromHexChar_hexDigit {n : ℕ} (h : n < 16) : fromHexChar (Bytes.hexDigit n) = some n := by
  interval_cases n <;> rfl

@[simp] lemma decodeString_hex (b : Bytes) : decodeString (Bytes.hex b) = some b := by
  induction b with
  | nil => rfl
  | cons x b ih =>
    have hx := x.toNat_lt
    have hhigh : x.toNat / 16 < 16 := by omega
    have hvalue : UInt8.ofNat (16 * (x.toNat / 16) + x.toNat % 16) = x := by
      rw [Nat.div_add_mod, UInt8.ofNat_toNat]
    have hcons : Bytes.hex (x :: b) = Bytes.hexDigit (x.toNat / 16) ::
        Bytes.hexDigit (x.toNat % 16) :: Bytes.hex b := rfl
    rw [hcons, decodeString, fromHexChar_hexDigit hhigh, Option.bind_some,
      fromHexChar_hexDigit (Nat.mod_lt _ (by decide)), Option.bind_some, ih, Option.map_some,
      hvalue]

lemma hex_inj {a b : Bytes} (h : Bytes.hex a = Bytes.hex b) : a = b :=
  Option.some.inj ((decodeString_hex a).symm.trans ((congrArg decodeString h).trans
    (decodeString_hex b)))

/-- Only an even number of digits can be read. -/
lemma length_of_decodeString {s t : Bytes} (h : decodeString s = some t) :
    s.length = 2 * t.length := by
  induction s using decodeString.induct generalizing t with
  | case1 =>
    obtain rfl := Option.some.inj h
    rfl
  | case2 => cases h
  | case3 a b s ih =>
    simp only [decodeString, Option.bind_eq_some_iff, Option.map_eq_some_iff] at h
    obtain ⟨x, _, y, _, t', ht', rfl⟩ := h
    rw [List.length_cons, List.length_cons, ih ht', List.length_cons]
    omega

/-- An even number of leading digits is the text of leading bytes. -/
lemma hex_eq_append {m s t : Bytes} {n : ℕ} (h : Bytes.hex m = s ++ t) (hs : s.length = 2 * n) :
    s = Bytes.hex (m.take n) ∧ t = Bytes.hex (m.drop n) := by
  have hlen := congrArg List.length h
  rw [Bytes.length_hex, List.length_append, hs] at hlen
  have hsplit : Bytes.hex (m.take n) ++ Bytes.hex (m.drop n) = s ++ t := by
    rw [← Bytes.hex_append, List.take_append_drop, h]
  obtain ⟨hleft, hright⟩ := List.append_inj hsplit (by
    rw [Bytes.length_hex, List.length_take, hs, min_eq_left (by omega)])
  exact ⟨hleft.symm, hright.symm⟩

/-! ## Splitting -/

/-- The text before and after the first occurrence of `sep`. -/
def cut (sep : Bytes) : Bytes → Option (Bytes × Bytes)
  | [] => if sep = [] then some ([], []) else none
  | c :: s =>
    if sep.isPrefixOf (c :: s) then some ([], (c :: s).drop sep.length)
    else (cut sep s).map fun p => (c :: p.1, p.2)

/-- Cut off at most `n` pieces. -/
def genSplit (sep : Bytes) : ℕ → Bytes → List Bytes
  | 0, s => [s]
  | n + 1, s =>
    match cut sep s with
    | none => [s]
    | some (a, b) => a :: genSplit sep n b

/-- `strings.Split`.  A text has no more occurrences of another one than it has characters; the
empty text splits it into its characters, which are single bytes in ASCII text. -/
def split (s sep : Bytes) : List Bytes :=
  if sep = [] then s.map fun c => [c] else genSplit sep s.length s

lemma eq_append_of_cut {sep s a b : Bytes} (h : cut sep s = some (a, b)) :
    s = a ++ sep ++ b := by
  induction s generalizing a with
  | nil =>
    rw [cut] at h
    split_ifs at h with hsep
    obtain ⟨rfl, rfl⟩ := Prod.mk.inj (Option.some.inj h)
    rw [hsep]
    rfl
  | cons c s ih =>
    rw [cut] at h
    split_ifs at h with hpre
    · obtain ⟨rfl, rfl⟩ := Prod.mk.inj (Option.some.inj h)
      exact (List.prefix_iff_eq_append.mp (List.isPrefixOf_iff_prefix.mp hpre)).symm
    · obtain ⟨⟨a', b'⟩, hcut, hab⟩ := Option.map_eq_some_iff.mp h
      obtain ⟨rfl, rfl⟩ := Prod.mk.inj hab
      rw [ih hcut]
      rfl

lemma genSplit_ne_nil (sep : Bytes) (n : ℕ) (s : Bytes) : genSplit sep n s ≠ [] := by
  cases n with
  | zero => simp [genSplit]
  | succ n =>
    rw [genSplit]
    cases cut sep s <;> simp

lemma eq_of_genSplit_singleton {sep s a : Bytes} {n : ℕ} (h : genSplit sep n s = [a]) :
    s = a := by
  cases n with
  | zero => exact (List.cons.inj h).1
  | succ n =>
    rw [genSplit] at h
    cases hcut : cut sep s with
    | none =>
      rw [hcut] at h
      exact (List.cons.inj h).1
    | some p =>
      rw [hcut] at h
      exact absurd (List.cons.inj h).2 (genSplit_ne_nil _ _ _)

/-- Two pieces have one occurrence of the other text between them. -/
lemma split_eq_pair {s sep l r : Bytes} (hsep : sep ≠ []) (h : split s sep = [l, r]) :
    s = l ++ sep ++ r := by
  rw [split, if_neg hsep] at h
  cases hn : s.length with
  | zero =>
    rw [hn] at h
    cases h
  | succ n =>
    rw [hn, genSplit] at h
    cases hcut : cut sep s with
    | none =>
      rw [hcut] at h
      cases h
    | some p =>
      obtain ⟨a, b⟩ := p
      rw [hcut] at h
      obtain ⟨rfl, hrest⟩ := List.cons.inj h
      rw [eq_append_of_cut hcut, eq_of_genSplit_singleton hrest]

/-- If hexadecimal text is split in two at the text of `sep`, and the second piece can be read,
then the bytes are split at `sep`. -/
lemma split_hex {m sep l r t : Bytes} (h : split (Bytes.hex m) (Bytes.hex sep) = [l, r])
    (hr : decodeString r = some t) :
    ∃ p, l = Bytes.hex p ∧ m = p ++ sep ++ t := by
  by_cases hsep : sep = []
  · -- the pieces are single digits, and these cannot be read
    subst hsep
    have hmap : (Bytes.hex m).map (fun c => [c]) = [l, r] := h
    have hmem : r ∈ (Bytes.hex m).map fun c => [c] := by
      rw [hmap]
      simp
    obtain ⟨c, _, rfl⟩ := List.mem_map.mp hmem
    cases hr
  · have hne : Bytes.hex sep ≠ [] := by
      intro hnil
      exact hsep (hex_inj hnil)
    have hm := split_eq_pair hne h
    -- the first piece has an even number of digits, since all the rest has
    obtain ⟨n, heven⟩ : ∃ n, l.length = 2 * n := by
      have hlen := congrArg List.length hm
      rw [List.length_append, List.length_append, Bytes.length_hex, Bytes.length_hex,
        length_of_decodeString hr] at hlen
      exact ⟨m.length - sep.length - t.length, by omega⟩
    rw [List.append_assoc] at hm
    obtain ⟨hl, hrest⟩ := hex_eq_append hm heven
    refine ⟨_, hl, ?_⟩
    obtain ⟨hsep', hr'⟩ := hex_eq_append hrest.symm (Bytes.length_hex sep)
    rw [hr', decodeString_hex] at hr
    calc m = m.take n ++ ((m.drop n).take sep.length ++ (m.drop n).drop sep.length) := by
          rw [List.take_append_drop, List.take_append_drop]
      _ = m.take n ++ sep ++ t := by
          rw [← hex_inj hsep', Option.some.inj hr, List.append_assoc]

end Hex

end Bandchain
