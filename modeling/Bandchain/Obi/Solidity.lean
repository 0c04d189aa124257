import Bandchain.Lib.Exec
import Bandchain.Obi.RoundTrip

/-!
# OBI in Solidity

The library `Obi.sol`, which reads unsigned integers and byte strings from a byte array in memory.
A wide integer is read as two integers of half the width.
-/

namespace Bandchain.Obi.Solidity

open Exec

/-- The byte array, and the position of the next byte. -/
structure Data where
  offset : ℕ
  raw : Bytes

/-- Code that reads, or reverts with a message. -/
abbrev Decoder (α : Type) : Type := EStateM String Data α

/-- `from` -/
def ofRaw (data : Bytes) : Data := ⟨0, data⟩

/-- The modifier `shift`: the position moves after the body. -/
def shift {α : Type} (size : ℕ) (body : Decoder α) : Decoder α := do
  let data ← get
  failIf (¬(data.offset + size) % 2 ^ 256 ≤ data.raw.length) "Obi: Out of range"
  let value ← body
  modify fun data => { data with offset := (data.offset + size) % 2 ^ 256 }
  return value

def finished (data : Data) : Bool := data.offset == data.raw.length

def decodeU8 : Decoder (BitVec 8) := shift 1 do
  let data ← get
  match data.raw[data.offset]? with
  | some byte => return byte.toBitVec
  | none => throw "invalid opcode"

/-- An integer of twice the width: the high half, shifted, or the low half. -/
def wide (n : ℕ) (half : Decoder (BitVec n)) : Decoder (BitVec (2 * n)) := do
  let high ← half
  let value := high.setWidth (2 * n) <<< n
  let low ← half
  return value ||| low.setWidth (2 * n)

def decodeU16 : Decoder (BitVec 16) := wide 8 decodeU8
def decodeU32 : Decoder (BitVec 32) := wide 16 decodeU16
def decodeU64 : Decoder (BitVec 64) := wide 32 decodeU32
def decodeU128 : Decoder (BitVec 128) := wide 64 decodeU64
def decodeU256 : Decoder (BitVec 256) := wide 128 decodeU128

/-- The loop of `decodeBytes` fills a new array. -/
def fillByte (value : Bytes) (i : ℕ) : Decoder Bytes := do
  let byte ← decodeU8
  return value.set i (.ofBitVec byte)

def decodeBytes : Decoder Bytes := do
  let length ← decodeU32
  (List.range length.toNat).foldlM fillByte (List.replicate length.toNat 0)

/-! ## Sequences of reads -/

/-- What is read in one call. -/
inductive Kind
  | u8
  | u16
  | u32
  | u64
  | u128
  | u256
  | bytes

/-- A value that is read in one call. -/
inductive Field
  | u8 (v : UInt8)
  | u16 (v : UInt16)
  | u32 (v : UInt32)
  | u64 (v : UInt64)
  | u128 (v : BitVec 128)
  | u256 (v : BitVec 256)
  | bytes (v : Bytes)

def Field.kind : Field → Kind
  | u8 _ => .u8
  | u16 _ => .u16
  | u32 _ => .u32
  | u64 _ => .u64
  | u128 _ => .u128
  | u256 _ => .u256
  | bytes _ => .bytes

/-- The encoding in Go, which has no integers of more than 64 bits; they are big-endian, too. -/
def Field.encode : Field → Bytes
  | u8 v => encodeUnsigned8 v
  | u16 v => encodeUnsigned16 v
  | u32 v => encodeUnsigned32 v
  | u64 v => encodeUnsigned64 v
  | u128 v => Bytes.be 16 v.toNat
  | u256 v => Bytes.be 32 v.toNat
  | bytes v => encodeBytes v

/-- One call of the library. -/
def read : Kind → Decoder Field
  | .u8 => return .u8 (.ofBitVec (← decodeU8))
  | .u16 => return .u16 (.ofBitVec (← decodeU16))
  | .u32 => return .u32 (.ofBitVec (← decodeU32))
  | .u64 => return .u64 (.ofBitVec (← decodeU64))
  | .u128 => return .u128 (← decodeU128)
  | .u256 => return .u256 (← decodeU256)
  | .bytes => return .bytes (← decodeBytes)

/-- The value that a decoder of Go has read. -/
def goField {α : Type} (f : α → Field) (dec : Bytes → Except String (α × Bytes)) (data : Bytes) :
    Except String (Field × Bytes) := do
  let (val, rem) ← dec data
  return (f val, rem)

/-- One call of a decoder of Go. -/
def goRead : Kind → Bytes → Except String (Field × Bytes)
  | .u8 => goField .u8 decodeUnsigned8
  | .u16 => goField .u16 decodeUnsigned16
  | .u32 => goField .u32 decodeUnsigned32
  | .u64 => goField .u64 decodeUnsigned64
  | .u128 => goField .u128 (decodeUnsigned 16 (BitVec.ofNat 128))
  | .u256 => goField .u256 (decodeUnsigned 32 (BitVec.ofNat 256))
  | .bytes => goField .bytes Obi.decodeBytes

def readAll : List Kind → Decoder (List Field)
  | [] => return []
  | kind :: kinds => do
    let field ← read kind
    let fields ← readAll kinds
    return field :: fields

def goReadAll : List Kind → Bytes → Except String (List Field × Bytes)
  | [], data => .ok ([], data)
  | kind :: kinds, data => do
    let (field, data) ← goRead kind data
    let (fields, data) ← goReadAll kinds data
    return (field :: fields, data)

/-! ## Positions -/

namespace Data

/-- The bytes that are not read yet. -/
def rest (d : Data) : Bytes := d.raw.drop d.offset

/-- The position is in the array, or at its end. -/
def Valid (d : Data) : Prop := d.offset ≤ d.raw.length ∧ d.raw.length < 2 ^ 32

def advance (d : Data) (k : ℕ) : Data := { d with offset := d.offset + k }

variable {d : Data} {k l : ℕ}

lemma length_rest (d : Data) : d.rest.length = d.raw.length - d.offset := List.length_drop

lemma rest_advance : (d.advance k).rest = d.rest.drop k := by
  rw [rest, rest, advance, List.drop_drop]

lemma advance_advance : (d.advance k).advance l = d.advance (k + l) := by
  rw [advance, advance, advance, Nat.add_assoc]

lemma Valid.advance (h : d.Valid) (hk : k ≤ d.rest.length) : (d.advance k).Valid := by
  obtain ⟨hoffset, hlt⟩ := h
  rw [length_rest] at hk
  exact ⟨show d.offset + k ≤ d.raw.length by omega, hlt⟩

lemma Valid.finished_iff (h : d.Valid) : finished d = true ↔ d.rest = [] := by
  obtain ⟨hoffset, -⟩ := h
  rw [finished, beq_iff_eq, rest, List.drop_eq_nil_iff]
  omega

end Data

/-! ## Integers -/

/-- The decoder reads a value from the next `k` bytes, and reverts if there are fewer. -/
def Takes {α : Type} (k : ℕ) (value : Bytes → α) (dec : Decoder α) : Prop :=
  ∀ d : Data, d.Valid →
    (d.rest.length < k → ∃ d', dec.run d = .error "Obi: Out of range" d') ∧
      (k ≤ d.rest.length → dec.run d = .ok (value (d.rest.take k)) (d.advance k))

lemma decodeU8_run {d : Data} (hraw : d.raw.length < 2 ^ 256) (hget : d.offset < d.raw.length) :
    decodeU8.run d = .ok (BitVec.ofNat 8 (Bytes.ofBe (d.rest.take 1))) (d.advance 1) := by
  have hmod : (d.offset + 1) % 2 ^ 256 = d.offset + 1 := Nat.mod_eq_of_lt (by omega)
  have hbyte : d.rest.take 1 = [d.raw[d.offset]] := by
    rw [Data.rest, List.drop_eq_getElem_cons hget]
    rfl
  have hread : (do
      let data ← get
      match data.raw[data.offset]? with
      | some byte => return byte.toBitVec
      | none => throw "invalid opcode" : Decoder (BitVec 8)).run d =
      .ok d.raw[d.offset].toBitVec d := by
    rw [run_get_bind, List.getElem?_eq_getElem hget]
    rfl
  rw [decodeU8, shift, run_get_bind, hmod, failIf_bind_eq_ok, run_bind_of_ok hread,
    run_modify_bind, hbyte]
  refine ⟨by omega, ?_⟩
  show EStateM.Result.ok d.raw[d.offset].toBitVec (Data.mk ((d.offset + 1) % 2 ^ 256) d.raw) = _
  rw [hmod]
  simp [Bytes.ofBe, Data.advance]

lemma takes_decodeU8 : Takes 1 (fun b => BitVec.ofNat 8 (Bytes.ofBe b)) decodeU8 := by
  rintro d ⟨hoffset, hlt⟩
  rw [Data.length_rest]
  constructor
  · intro hlen
    have hmod : (d.offset + 1) % 2 ^ 256 = d.offset + 1 := Nat.mod_eq_of_lt (by omega)
    rw [decodeU8, shift, run_get_bind, hmod]
    refine ⟨d, bind_eq_error.mpr (.inl (failIf_eq_error.mpr ⟨?_, rfl, rfl⟩))⟩
    omega
  · intro hlen
    exact decodeU8_run (by omega) (by omega)

/-- Two halves side by side. -/
lemma wide_ofNat {n x y : ℕ} (hx : x < 2 ^ n) (hy : y < 2 ^ n) :
    (BitVec.ofNat n x).setWidth (2 * n) <<< n ||| (BitVec.ofNat n y).setWidth (2 * n) =
      BitVec.ofNat (2 * n) (x * 2 ^ n + y) := by
  have hpow : 2 ^ (2 * n) = 2 ^ n * 2 ^ n := by rw [two_mul, pow_add]
  have hle : 2 ^ n ≤ 2 ^ (2 * n) := Nat.pow_le_pow_right (by decide) (by omega)
  have hlt : x * 2 ^ n < 2 ^ (2 * n) := by
    rw [hpow]
    exact Nat.mul_lt_mul_of_pos_right hx (Nat.two_pow_pos n)
  have hsum : x * 2 ^ n + y < 2 ^ (2 * n) := by
    have hx' : x + 1 ≤ 2 ^ n := hx
    calc x * 2 ^ n + y < x * 2 ^ n + 2 ^ n := by omega
      _ = (x + 1) * 2 ^ n := by ring
      _ ≤ 2 ^ n * 2 ^ n := Nat.mul_le_mul_right _ hx'
      _ = 2 ^ (2 * n) := hpow.symm
  apply BitVec.eq_of_toNat_eq
  rw [BitVec.toNat_or, BitVec.toNat_shiftLeft, BitVec.toNat_setWidth, BitVec.toNat_setWidth,
    BitVec.toNat_ofNat, BitVec.toNat_ofNat, BitVec.toNat_ofNat, Nat.mod_eq_of_lt hx,
    Nat.mod_eq_of_lt hy, Nat.mod_eq_of_lt (hx.trans_le hle), Nat.mod_eq_of_lt (hy.trans_le hle),
    Nat.shiftLeft_eq, Nat.mod_eq_of_lt hlt, Nat.mod_eq_of_lt hsum, ← Nat.shiftLeft_eq,
    Nat.shiftLeft_add_eq_or_of_lt hy]

lemma takes_wide {n k : ℕ} (hn : n = 8 * k) {half : Decoder (BitVec n)}
    (h : Takes k (fun b => BitVec.ofNat n (Bytes.ofBe b)) half) :
    Takes (2 * k) (fun b => BitVec.ofNat (2 * n) (Bytes.ofBe b)) (wide n half) := by
  intro d hd
  obtain ⟨hshort, hlong⟩ := h d hd
  by_cases hk : d.rest.length < k
  · obtain ⟨d', hd'⟩ := hshort hk
    exact ⟨fun _ => ⟨d', bind_eq_error.mpr (.inl hd')⟩, fun _ => by omega⟩
  · have hhigh := hlong (not_lt.mp hk)
    obtain ⟨hshort', hlong'⟩ := h _ (hd.advance (not_lt.mp hk))
    rw [Data.rest_advance, List.length_drop] at hshort' hlong'
    constructor
    · intro hlen
      obtain ⟨d', hd'⟩ := hshort' (by omega)
      exact ⟨d', bind_eq_error.mpr (.inr ⟨_, _, hhigh, bind_eq_error.mpr (.inl hd')⟩)⟩
    · intro hlen
      have hlow := hlong' (by omega)
      have hpow : (256 : ℕ) ^ k = 2 ^ n := by
        rw [hn, pow_mul]
        norm_num
      have hfirst : Bytes.ofBe (d.rest.take k) < 2 ^ n := by
        have := Bytes.ofBe_lt (d.rest.take k)
        rwa [List.length_take, min_eq_left (by omega), hpow] at this
      have hsecond : ((d.rest.drop k).take k).length = k := by
        rw [List.length_take, List.length_drop]
        omega
      have hsecond' : Bytes.ofBe ((d.rest.drop k).take k) < 2 ^ n := by
        have := Bytes.ofBe_lt ((d.rest.drop k).take k)
        rwa [hsecond, hpow] at this
      have hvalue : Bytes.ofBe (d.rest.take (2 * k)) =
          Bytes.ofBe (d.rest.take k) * 2 ^ n + Bytes.ofBe ((d.rest.drop k).take k) := by
        rw [two_mul, List.take_add, Bytes.ofBe_append, hsecond, hpow]
      rw [wide, run_bind_of_ok hhigh, run_bind_of_ok hlow, Data.advance_advance, ← two_mul,
        run_pure, wide_ofNat hfirst hsecond', ← hvalue]

lemma takes_decodeU16 : Takes 2 (fun b => BitVec.ofNat 16 (Bytes.ofBe b)) decodeU16 :=
  takes_wide (k := 1) rfl takes_decodeU8

lemma takes_decodeU32 : Takes 4 (fun b => BitVec.ofNat 32 (Bytes.ofBe b)) decodeU32 :=
  takes_wide (k := 2) rfl takes_decodeU16

lemma takes_decodeU64 : Takes 8 (fun b => BitVec.ofNat 64 (Bytes.ofBe b)) decodeU64 :=
  takes_wide (k := 4) rfl takes_decodeU32

lemma takes_decodeU128 : Takes 16 (fun b => BitVec.ofNat 128 (Bytes.ofBe b)) decodeU128 :=
  takes_wide (k := 8) rfl takes_decodeU64

lemma takes_decodeU256 : Takes 32 (fun b => BitVec.ofNat 256 (Bytes.ofBe b)) decodeU256 :=
  takes_wide (k := 16) rfl takes_decodeU128

/-! ## Byte strings -/

/-- A round of the loop that has bytes left. -/
lemma fillByte_eq_ok {d : Data} (hd : d.Valid) {value : Bytes} {i : ℕ} {x : UInt8} {rest : Bytes}
    (h : d.rest = x :: rest) : (fillByte value i).run d = .ok (value.set i x) (d.advance 1) := by
  have hread := (takes_decodeU8 d hd).2 (by rw [h]; simp)
  rw [fillByte, run_bind_of_ok hread, run_pure, h]
  simp [Bytes.ofBe]

/-- The array after `i` rounds of the loop. -/
lemma foldlM_fillByte {d : Data} (hd : d.Valid) {n i : ℕ} (hi : i ≤ n) (hlen : i ≤ d.rest.length) :
    ((List.range i).foldlM fillByte (List.replicate n 0)).run d =
      .ok (d.rest.take i ++ List.replicate (n - i) 0) (d.advance i) := by
  induction i with
  | zero => rfl
  | succ i ih =>
    have hget : i < d.rest.length := hlen
    have hrest : (d.advance i).rest = d.rest[i] :: d.rest.drop (i + 1) := by
      rw [Data.rest_advance, List.drop_eq_getElem_cons hget]
    have hzero : List.replicate (n - i) (0 : UInt8) = 0 :: List.replicate (n - (i + 1)) 0 := by
      rw [← List.replicate_succ]
      congr 1
      omega
    have hset : (d.rest.take i ++ List.replicate (n - i) 0).set i d.rest[i] =
        d.rest.take (i + 1) ++ List.replicate (n - (i + 1)) 0 := by
      rw [List.set_append_right _ _ (by simp), hzero]
      simp only [List.length_take, min_eq_left hget.le, Nat.sub_self, List.set_cons_zero]
      rw [List.take_succ_eq_append_getElem hget, List.append_assoc]
      rfl
    rw [List.range_succ, List.foldlM_append,
      run_bind_of_ok (ih (Nat.le_of_succ_le hi) (Nat.le_of_succ_le hlen)), List.foldlM_cons,
      run_bind_of_ok (fillByte_eq_ok (hd.advance (Nat.le_of_succ_le hlen)) hrest), hset,
      Data.advance_advance]
    rfl

/-- The loop reverts when the bytes end before the array is full. -/
lemma foldlM_fillByte_error {d : Data} (hd : d.Valid) {n : ℕ} (hlen : d.rest.length < n) :
    ∃ d', ((List.range n).foldlM fillByte (List.replicate n 0)).run d =
      .error "Obi: Out of range" d' := by
  obtain ⟨k, hk⟩ : ∃ k, n = d.rest.length + (k + 1) := ⟨n - d.rest.length - 1, by omega⟩
  obtain ⟨r, hr⟩ : ∃ r, List.range n = List.range d.rest.length ++ d.rest.length :: r := by
    rw [hk, List.range_add, List.range_succ_eq_map, List.map_cons, Nat.add_zero]
    exact ⟨_, rfl⟩
  have hempty : (d.advance d.rest.length).rest.length < 1 := by
    rw [Data.rest_advance, List.drop_length]
    simp
  obtain ⟨d', hd'⟩ := (takes_decodeU8 _ (hd.advance le_rfl)).1 hempty
  refine ⟨d', ?_⟩
  rw [hr, List.foldlM_append, run_bind_of_ok (foldlM_fillByte hd hlen.le le_rfl),
    List.foldlM_cons, fillByte]
  exact bind_eq_error.mpr (.inl (bind_eq_error.mpr (.inl hd')))

/-! ## Simulation -/

/-- From every position, both decoders read the same value and the same number of bytes, or both
are out of range. -/
def Simulates {α : Type} (dec : Decoder α) (go : Bytes → Except String (α × Bytes)) : Prop :=
  ∀ d : Data, d.Valid →
    (∃ a k, k ≤ d.rest.length ∧ go d.rest = .ok (a, d.rest.drop k) ∧
      dec.run d = .ok a (d.advance k)) ∨
    go d.rest = .error "obi: out of range" ∧ ∃ d', dec.run d = .error "Obi: Out of range" d'

lemma Takes.simulates {α β : Type} {k : ℕ} {value : Bytes → α} {dec : Decoder α}
    (h : Takes k value dec) (f : α → β) (g : Bytes → β)
    (hvalue : ∀ b, f (value b) = g b) :
    Simulates (do return f (← dec)) (Codec.readFixed k g "obi: out of range") := by
  intro d hd
  obtain ⟨hshort, hlong⟩ := h d hd
  rw [Codec.readFixed]
  by_cases hlen : d.rest.length < k
  · obtain ⟨d', hd'⟩ := hshort hlen
    exact .inr ⟨if_pos hlen, d', bind_eq_error.mpr (.inl hd')⟩
  · refine .inl ⟨g (d.rest.take k), k, not_lt.mp hlen, if_neg hlen, ?_⟩
    rw [run_bind_of_ok (hlong (not_lt.mp hlen)), hvalue]
    rfl

lemma Simulates.bind {α β : Type} {dec : Decoder α} {go : Bytes → Except String (α × Bytes)}
    (h : Simulates dec go) {dec' : α → Decoder β}
    {go' : α → Bytes → Except String (β × Bytes)} (h' : ∀ a, Simulates (dec' a) (go' a)) :
    Simulates (dec >>= dec') (fun b => go b >>= fun x => go' x.1 x.2) := by
  intro d hd
  rcases h d hd with ⟨a, k, hk, hgo, hdec⟩ | ⟨hgo, d', hdec⟩
  · have hnext := h' a _ (hd.advance hk)
    rw [Data.rest_advance] at hnext
    show (∃ b l, l ≤ d.rest.length ∧ (go d.rest >>= _) = _ ∧ _) ∨ (go d.rest >>= _) = _ ∧ _
    rw [hgo, run_bind_of_ok hdec]
    rcases hnext with ⟨b, l, hl, hgo', hdec'⟩ | ⟨hgo', d'', hdec'⟩
    · rw [List.length_drop] at hl
      rw [List.drop_drop] at hgo'
      rw [Data.advance_advance] at hdec'
      exact .inl ⟨b, k + l, by omega, hgo', hdec'⟩
    · exact .inr ⟨hgo', d'', hdec'⟩
  · refine .inr ⟨?_, d', bind_eq_error.mpr (.inl hdec)⟩
    show (go d.rest >>= _) = _
    rw [hgo]
    rfl

lemma simulates_decodeBytes : Simulates decodeBytes Obi.decodeBytes := by
  intro d hd
  obtain ⟨hshort, hlong⟩ := takes_decodeU32 d hd
  rw [Obi.decodeBytes_eq]
  by_cases hlen : d.rest.length < 4
  · obtain ⟨d', hd'⟩ := hshort hlen
    exact .inr ⟨if_neg (by omega), d', bind_eq_error.mpr (.inl hd')⟩
  · have hread := hlong (not_lt.mp hlen)
    have hlt := Bytes.ofBe_lt (d.rest.take 4)
    rw [List.length_take, min_eq_left (not_lt.mp hlen)] at hlt
    have hlength : (BitVec.ofNat 32 (Bytes.ofBe (d.rest.take 4))).toNat =
        Bytes.ofBe (d.rest.take 4) := by
      rw [BitVec.toNat_ofNat]
      exact Nat.mod_eq_of_lt hlt
    have hvalid := hd.advance (not_lt.mp hlen)
    have hdrop : (d.advance 4).rest = d.rest.drop 4 := Data.rest_advance
    have hmod : (d.rest.drop 4).length % 2 ^ 32 = (d.rest.drop 4).length := by
      have := d.length_rest
      have := hd.2
      rw [List.length_drop]
      exact Nat.mod_eq_of_lt (by omega)
    rw [hmod, decodeBytes]
    by_cases hrange : Bytes.ofBe (d.rest.take 4) ≤ (d.rest.drop 4).length
    · have hloop := foldlM_fillByte hvalid le_rfl (hdrop ▸ hrange)
      rw [Data.advance_advance, hdrop, Nat.sub_self, List.replicate_zero, List.append_nil] at hloop
      refine .inl ⟨(d.rest.drop 4).take (Bytes.ofBe (d.rest.take 4)),
        4 + Bytes.ofBe (d.rest.take 4), ?_, ?_, ?_⟩
      · rw [List.length_drop] at hrange
        omega
      · rw [if_pos ⟨not_lt.mp hlen, hrange⟩, List.drop_drop]
      · rw [run_bind_of_ok hread, hlength]
        exact hloop
    · obtain ⟨d', hd'⟩ := foldlM_fillByte_error hvalid (hdrop ▸ not_le.mp hrange)
      refine .inr ⟨if_neg fun h => hrange h.2, d', ?_⟩
      rw [run_bind_of_ok hread, hlength]
      exact hd'

lemma goField_decodeUnsigned {α : Type} (f : α → Field) (k : ℕ) (conv : ℕ → α) :
    goField f (decodeUnsigned k conv) =
      Codec.readFixed k (fun b => f (conv (Bytes.ofBe b))) "obi: out of range" := by
  funext data
  rw [goField, decodeUnsigned, Codec.readFixed, Codec.readFixed]
  split_ifs <;> rfl

/-- An integer of the library is the integer of Go. -/
lemma Takes.simulates_goField {α β : Type} {k : ℕ} {value : Bytes → α} {dec : Decoder α}
    (h : Takes k value dec) (f : α → Field) (g : β → Field) (conv : ℕ → β)
    (hvalue : ∀ b, f (value b) = g (conv (Bytes.ofBe b))) :
    Simulates (do return f (← dec)) (goField g (decodeUnsigned k conv)) := by
  rw [goField_decodeUnsigned]
  exact h.simulates f _ hvalue

lemma simulates_pure {α : Type} (a : α) : Simulates (pure a) fun b => .ok (a, b) :=
  fun _ _ => .inl ⟨a, 0, Nat.zero_le _, rfl, rfl⟩

lemma simulates_read : ∀ kind : Kind, Simulates (read kind) (goRead kind)
  | .u8 => takes_decodeU8.simulates_goField _ _ _ fun _ => rfl
  | .u16 => takes_decodeU16.simulates_goField _ _ _ fun _ => rfl
  | .u32 => takes_decodeU32.simulates_goField _ _ _ fun _ => rfl
  | .u64 => takes_decodeU64.simulates_goField _ _ _ fun _ => rfl
  | .u128 => takes_decodeU128.simulates_goField _ _ _ fun _ => rfl
  | .u256 => takes_decodeU256.simulates_goField _ _ _ fun _ => rfl
  | .bytes => by
    rw [read, goRead]
    exact simulates_decodeBytes.bind (fun v => simulates_pure (Field.bytes v))

lemma simulates_readAll : ∀ kinds : List Kind, Simulates (readAll kinds) (goReadAll kinds)
  | [] => simulates_pure []
  | kind :: kinds => (simulates_read kind).bind fun field =>
      (simulates_readAll kinds).bind fun fields => simulates_pure (field :: fields)

/-! ## Encodings -/

open Codec

lemma reads_goRead : ∀ kind : Kind,
    Reads (2 ^ 32) (fun field => field.kind = kind) Field.encode (goRead kind)
  | .u8 => reads_decodeUnsigned8.map Field.u8 (fun c => by cases c <;> simp [Field.kind])
      (fun _ _ => rfl)
  | .u16 => reads_decodeUnsigned16.map Field.u16 (fun c => by cases c <;> simp [Field.kind])
      (fun _ _ => rfl)
  | .u32 => reads_decodeUnsigned32.map Field.u32 (fun c => by cases c <;> simp [Field.kind])
      (fun _ _ => rfl)
  | .u64 => reads_decodeUnsigned64.map Field.u64 (fun c => by cases c <;> simp [Field.kind])
      (fun _ _ => rfl)
  | .u128 => (reads_decodeUnsigned (fun v : BitVec 128 => v.isLt)
      (fun _ => BitVec.ofNat_toNat _ _) (fun _ h => Nat.mod_eq_of_lt h)).map Field.u128
      (fun c => by cases c <;> simp [Field.kind]) (fun _ _ => rfl)
  | .u256 => (reads_decodeUnsigned (fun v : BitVec 256 => v.isLt)
      (fun _ => BitVec.ofNat_toNat _ _) (fun _ h => Nat.mod_eq_of_lt h)).map Field.u256
      (fun c => by cases c <;> simp [Field.kind]) (fun _ _ => rfl)
  | .bytes => reads_decodeBytes.map Field.bytes (fun c => by cases c <;> simp [Field.kind])
      (fun _ _ => rfl)

lemma reads_goReadAll (kinds : List Kind) :
    Reads (2 ^ 32) (fun fields => fields.map Field.kind = kinds)
      (fun fields => fields.flatMap Field.encode) (goReadAll kinds) := by
  induction kinds with
  | nil =>
    intro b _ fields rest
    show _ ↔ fields.map Field.kind = [] ∧ b = fields.flatMap Field.encode ++ rest
    rw [goReadAll, List.map_eq_nil_iff]
    constructor
    · intro h
      obtain ⟨rfl, rfl⟩ := Prod.mk.inj (Except.ok.inj h)
      exact ⟨rfl, rfl⟩
    · rintro ⟨rfl, rfl⟩
      rfl
  | cons kind kinds ih =>
    intro b hb fields rest
    show _ ↔ fields.map Field.kind = kind :: kinds ∧ b = fields.flatMap Field.encode ++ rest
    rw [goReadAll, (reads_goRead kind).bind_eq_ok hb]
    constructor
    · rintro ⟨field, mid, rfl, rfl, h⟩
      rw [ih.bind_eq_ok (length_rest_lt hb rfl)] at h
      obtain ⟨fields', rest', rfl, rfl, h⟩ := h
      obtain ⟨rfl, rfl⟩ := Prod.mk.inj (Except.ok.inj h)
      refine ⟨rfl, ?_⟩
      rw [List.flatMap_cons, List.append_assoc]
    · rintro ⟨hkinds, rfl⟩
      cases fields with
      | nil => cases hkinds
      | cons field fields =>
        obtain ⟨rfl, htail⟩ := List.cons.inj hkinds
        rw [List.flatMap_cons, List.append_assoc] at hb ⊢
        refine ⟨field, _, rfl, rfl, ?_⟩
        rw [ih.bind_eq_ok (length_rest_lt hb rfl)]
        exact ⟨fields, rest, htail, rfl, rfl⟩

lemma length_encode_pos (field : Field) : 0 < field.encode.length := by
  cases field <;> simp [Field.encode, encodeUnsigned8, encodeUnsigned16, encodeUnsigned32,
    encodeUnsigned64, encodeBytes]

/-- **The library reads what Go writes, and reverts where Go is out of range.**  Reading the
encodings of a sequence of values gives the values, and the library is finished after the last one
and not before; and on all bytes and for all reads, either both read the same values and leave the
same bytes, or Go is out of range and the library reverts. -/
theorem readAll_simulates_goReadAll :
    (∀ fields : List Field, (fields.flatMap Field.encode).length < 2 ^ 32 →
      ∀ j ≤ fields.length, ∃ d,
        (readAll ((fields.take j).map Field.kind)).run (ofRaw (fields.flatMap Field.encode)) =
          .ok (fields.take j) d ∧ (finished d = true ↔ j = fields.length)) ∧
    ∀ data : Bytes, data.length < 2 ^ 32 → ∀ kinds : List Kind,
      (∃ fields d, goReadAll kinds data = .ok (fields, d.rest) ∧
        (readAll kinds).run (ofRaw data) = .ok fields d ∧ (finished d = true ↔ d.rest = [])) ∨
      goReadAll kinds data = .error "obi: out of range" ∧
        ∃ d, (readAll kinds).run (ofRaw data) = .error "Obi: Out of range" d := by
  have hsimulates : ∀ data : Bytes, data.length < 2 ^ 32 → ∀ kinds : List Kind,
      (∃ fields d, goReadAll kinds data = .ok (fields, d.rest) ∧
        (readAll kinds).run (ofRaw data) = .ok fields d ∧ (finished d = true ↔ d.rest = [])) ∨
      goReadAll kinds data = .error "obi: out of range" ∧
        ∃ d, (readAll kinds).run (ofRaw data) = .error "Obi: Out of range" d := by
    intro data hdata kinds
    have hvalid : (ofRaw data).Valid := ⟨Nat.zero_le _, hdata⟩
    rcases simulates_readAll kinds _ hvalid with ⟨fields, k, hk, hgo, hread⟩ | h
    · refine .inl ⟨fields, _, ?_, hread, (hvalid.advance hk).finished_iff⟩
      rw [Data.rest_advance]
      exact hgo
    · exact .inr h
  refine ⟨fun fields hlen j hj => ?_, hsimulates⟩
  have hsplit : fields.flatMap Field.encode =
      (fields.take j).flatMap Field.encode ++ (fields.drop j).flatMap Field.encode := by
    rw [← List.flatMap_append, List.take_append_drop]
  have hgo := (reads_goReadAll ((fields.take j).map Field.kind) _ hlen (fields.take j) _).mpr
    ⟨rfl, hsplit⟩
  rcases hsimulates _ hlen ((fields.take j).map Field.kind) with
    ⟨fields', d, hgo', hread, hfinished⟩ | ⟨hgo', -⟩
  · obtain ⟨rfl, hrest⟩ := Prod.mk.inj (Except.ok.inj (hgo.symm.trans hgo'))
    refine ⟨d, hread, hfinished.trans ?_⟩
    rw [← hrest, List.flatMap_eq_nil_iff]
    constructor
    · intro h
      by_contra hne
      have hget : j < fields.length := by omega
      have := length_encode_pos fields[j]
      rw [h _ (List.mem_drop_iff_getElem.mpr ⟨0, by simpa using hget, by simp⟩)] at this
      simp at this
    · rintro rfl
      simp
  · rw [hgo] at hgo'
    cases hgo'

theorem readAll_simulates_goReadAll_sample :
    ∃ d, (readAll [.u16, .bytes]).run (ofRaw [1, 2, 0, 0, 0, 1, 7]) =
      .ok [.u16 258, .bytes [7]] d ∧ finished d = true := by
  obtain ⟨d, hread, hfinished⟩ :=
    readAll_simulates_goReadAll.1 [.u16 258, .bytes [7]] (by decide) 2 le_rfl
  exact ⟨d, hread, hfinished.mpr rfl⟩

end Bandchain.Obi.Solidity
