import Bandchain.Lib.Sha256

/-!
# SHA-256 on natural numbers

The same function with natural numbers for the words.  The kernel computes with these directly, and
a digest that it has to evaluate is rewritten to this form first.
-/

namespace Bandchain
namespace Sha256

/-! ## The words as natural numbers -/

def rotrNat (x n : ℕ) : ℕ := (x >>> n) ||| ((x <<< (32 - n)) % 4294967296)

/-- The eight chaining words. -/
structure StateNat where
  a : ℕ
  b : ℕ
  c : ℕ
  d : ℕ
  e : ℕ
  f : ℕ
  g : ℕ
  h : ℕ

def State.toNat (s : State) : StateNat :=
  ⟨s.a.toNat, s.b.toNat, s.c.toNat, s.d.toNat, s.e.toNat, s.f.toNat, s.g.toNat, s.h.toNat⟩

def wordNat : Bytes → ℕ
  | [a, b, c, d] => ((a.toNat * 256 + b.toNat) * 256 + c.toNat) * 256 + d.toNat
  | _ => 0

def extendNat : ℕ → List ℕ → List ℕ
  | 0, ws => ws
  | n + 1, ws =>
    let x := ws.getD 14 0
    let y := ws.getD 1 0
    let s0 := rotrNat x 7 ^^^ rotrNat x 18 ^^^ (x >>> 3)
    let s1 := rotrNat y 17 ^^^ rotrNat y 19 ^^^ (y >>> 10)
    extendNat n (((ws.getD 15 0 + s0 + ws.getD 6 0 + s1) % 4294967296) :: ws)

def roundNat (s : StateNat) (kw : ℕ × ℕ) : StateNat :=
  let s1 := rotrNat s.e 6 ^^^ rotrNat s.e 11 ^^^ rotrNat s.e 25
  let ch := (s.e &&& s.f) ^^^ ((4294967295 - s.e) &&& s.g)
  let t1 := s.h + s1 + ch + kw.1 + kw.2
  let s0 := rotrNat s.a 2 ^^^ rotrNat s.a 13 ^^^ rotrNat s.a 22
  let maj := (s.a &&& s.b) ^^^ (s.a &&& s.c) ^^^ (s.b &&& s.c)
  ⟨(t1 + (s0 + maj)) % 4294967296, s.a, s.b, s.c, (s.d + t1) % 4294967296, s.e, s.f, s.g⟩

def compressNat (s : StateNat) (block : Bytes) : StateNat :=
  let ws := (extendNat 48 ((chunks 4 16 block).map wordNat).reverse).reverse
  let t := ((roundConstants.map UInt32.toNat).zip ws).foldl roundNat s
  ⟨(s.a + t.a) % 4294967296, (s.b + t.b) % 4294967296, (s.c + t.c) % 4294967296,
    (s.d + t.d) % 4294967296, (s.e + t.e) % 4294967296, (s.f + t.f) % 4294967296,
    (s.g + t.g) % 4294967296, (s.h + t.h) % 4294967296⟩

def digestNat (s : StateNat) : Bytes :=
  Bytes.be 4 s.a ++ Bytes.be 4 s.b ++ Bytes.be 4 s.c ++ Bytes.be 4 s.d ++ Bytes.be 4 s.e ++
    Bytes.be 4 s.f ++ Bytes.be 4 s.g ++ Bytes.be 4 s.h

/-! ## The two agree -/

lemma toNat_rotr (x n : UInt32) (hpos : 0 < n.toNat) (hlt : n.toNat < 32) :
    (rotr x n).toNat = rotrNat x.toNat n.toNat := by
  have hsub : (32 - n).toNat = 32 - n.toNat := by
    rw [UInt32.toNat_sub_of_le _ _ (UInt32.le_iff_toNat_le.mpr hlt.le)]
    rfl
  rw [rotr, rotrNat, UInt32.toNat_or, UInt32.toNat_shiftRight, UInt32.toNat_shiftLeft, hsub,
    Nat.mod_eq_of_lt hlt, Nat.mod_eq_of_lt (by omega : 32 - n.toNat < 32)]

lemma toNat_wordOf (b : Bytes) : (wordOf b).toNat = wordNat b := by
  rcases b with _ | ⟨a, _ | ⟨b, _ | ⟨c, _ | ⟨d, _ | ⟨e, l⟩⟩⟩⟩⟩ <;> try rfl
  have ha := a.toNat_lt
  have hb := b.toNat_lt
  have hc := c.toNat_lt
  have hd := d.toNat_lt
  show (UInt32.ofNat (((a.toNat * 256 + b.toNat) * 256 + c.toNat) * 256 + d.toNat)).toNat =
    ((a.toNat * 256 + b.toNat) * 256 + c.toNat) * 256 + d.toNat
  rw [UInt32.toNat_ofNat']
  omega

lemma toNat_getD (ws : List UInt32) (i : ℕ) :
    (ws.getD i 0).toNat = (ws.map UInt32.toNat).getD i 0 := by
  rw [List.getD_eq_getElem?_getD, List.getD_eq_getElem?_getD, List.getElem?_map]
  cases ws[i]? <;> rfl

lemma map_extend (n : ℕ) (ws : List UInt32) :
    (extend n ws).map UInt32.toNat = extendNat n (ws.map UInt32.toNat) := by
  induction n generalizing ws with
  | zero => rfl
  | succ n ih =>
    rw [extend, extendNat, ih, List.map_cons]
    have hword : ∀ a s₀ b s₁ : UInt32, (a + s₀ + b + s₁).toNat =
        (a.toNat + s₀.toNat + b.toNat + s₁.toNat) % 4294967296 := by
      intro a s₀ b s₁
      rw [UInt32.toNat_add, UInt32.toNat_add, UInt32.toNat_add]
      omega
    rw [hword]
    simp only [UInt32.toNat_xor, UInt32.toNat_shiftRight, ← toNat_getD,
      toNat_rotr _ 7 (by decide) (by decide), toNat_rotr _ 18 (by decide) (by decide),
      toNat_rotr _ 17 (by decide) (by decide), toNat_rotr _ 19 (by decide) (by decide)]
    rfl

lemma toNat_round (s : State) (kw : UInt32 × UInt32) :
    (round s kw).toNat = roundNat s.toNat (kw.1.toNat, kw.2.toNat) := by
  have htemp : ∀ a b c d e x : UInt32, (x + (a + b + c + d + e)).toNat =
      (x.toNat + (a.toNat + b.toNat + c.toNat + d.toNat + e.toNat)) % 4294967296 := by
    intro a b c d e x
    rw [UInt32.toNat_add, UInt32.toNat_add, UInt32.toNat_add, UInt32.toNat_add, UInt32.toNat_add]
    omega
  have hfirst : ∀ a b c d e x y : UInt32, (a + b + c + d + e + (x + y)).toNat =
      (a.toNat + b.toNat + c.toNat + d.toNat + e.toNat + (x.toNat + y.toNat)) % 4294967296 := by
    intro a b c d e x y
    rw [UInt32.toNat_add, UInt32.toNat_add, UInt32.toNat_add, UInt32.toNat_add, UInt32.toNat_add,
      UInt32.toNat_add]
    omega
  have hrotr : ∀ x : UInt32,
      (rotr x 6).toNat = rotrNat x.toNat 6 ∧ (rotr x 11).toNat = rotrNat x.toNat 11 ∧
      (rotr x 25).toNat = rotrNat x.toNat 25 ∧ (rotr x 2).toNat = rotrNat x.toNat 2 ∧
      (rotr x 13).toNat = rotrNat x.toNat 13 ∧ (rotr x 22).toNat = rotrNat x.toNat 22 := fun x =>
    ⟨toNat_rotr x 6 (by decide) (by decide), toNat_rotr x 11 (by decide) (by decide),
      toNat_rotr x 25 (by decide) (by decide), toNat_rotr x 2 (by decide) (by decide),
      toNat_rotr x 13 (by decide) (by decide), toNat_rotr x 22 (by decide) (by decide)⟩
  have hnot : ∀ x : UInt32, (~~~x).toNat = 4294967295 - x.toNat := by
    intro x
    rw [UInt32.toNat_not]
    rfl
  simp only [State.toNat, round, roundNat, htemp, hfirst, UInt32.toNat_xor, UInt32.toNat_and, hnot,
    (hrotr _).1, (hrotr _).2.1, (hrotr _).2.2.1, (hrotr _).2.2.2.1, (hrotr _).2.2.2.2.1,
    (hrotr _).2.2.2.2.2]

lemma toNat_foldl_round (ks ws : List UInt32) (s : State) :
    ((ks.zip ws).foldl round s).toNat =
      ((ks.map UInt32.toNat).zip (ws.map UInt32.toNat)).foldl roundNat s.toNat := by
  rw [List.zip_map, List.foldl_map]
  induction ks.zip ws generalizing s with
  | nil => rfl
  | cons kw l ih =>
    rw [List.foldl_cons, List.foldl_cons, ih, toNat_round]
    rfl

lemma toNat_compress (s : State) (block : Bytes) :
    (compress s block).toNat = compressNat s.toNat block := by
  have hwords : (extend 48 ((chunks 4 16 block).map wordOf).reverse).reverse.map UInt32.toNat =
      (extendNat 48 ((chunks 4 16 block).map wordNat).reverse).reverse := by
    rw [List.map_reverse, map_extend, List.map_reverse, List.map_map]
    congr 3
    exact List.map_congr_left fun b _ => toNat_wordOf b
  rw [compressNat, ← hwords, ← toNat_foldl_round]
  simp only [compress, State.toNat, UInt32.toNat_add]

lemma toNat_foldl_compress (blocks : List Bytes) (s : State) :
    (blocks.foldl compress s).toNat = blocks.foldl compressNat s.toNat := by
  induction blocks generalizing s with
  | nil => rfl
  | cons block blocks ih => rw [List.foldl_cons, List.foldl_cons, ih, toNat_compress]

end Sha256

def sha256Nat (m : Bytes) : Bytes :=
  let p := Sha256.pad m
  Sha256.digestNat
    ((Sha256.chunks 64 (p.length / 64) p).foldl Sha256.compressNat Sha256.initial.toNat)

lemma sha256_eq_sha256Nat : sha256 = sha256Nat := by
  funext m
  rw [sha256, sha256Nat, ← Sha256.toNat_foldl_compress]
  rfl

lemma length_sha256Nat (m : Bytes) : (sha256Nat m).length = 32 := by
  rw [← sha256_eq_sha256Nat, length_sha256]

def sha256DigestNat (m : Bytes) : Bytes32 := ⟨sha256Nat m, length_sha256Nat m⟩

lemma sha256Digest_eq_sha256DigestNat : sha256Digest = sha256DigestNat := by
  funext m
  exact Subtype.ext (congrFun sha256_eq_sha256Nat m)

end Bandchain
