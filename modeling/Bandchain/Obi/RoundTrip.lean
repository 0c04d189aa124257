import Bandchain.Lib.Exec
import Bandchain.Obi.Decode

/-!
# OBI round trips

What the Go encoder writes is read back by the Go decoder, and what the decoder accepts was
written in no other way.  The only values that are not read back are those with a slice of
`2 ^ 32` or more elements, whose length does not fit its field.
-/

namespace Bandchain.Obi

open Codec Exec

/-! ## Values of a type -/

mutual

/-- The values of a type.  A slice of bytes is a byte string. -/
def Ty.Has : Ty → Value → Prop
  | .uint8, v => ∃ x, .uint8 x = v
  | .uint16, v => ∃ x, .uint16 x = v
  | .uint32, v => ∃ x, .uint32 x = v
  | .uint64, v => ∃ x, .uint64 x = v
  | .int8, v => ∃ x, .int8 x = v
  | .int16, v => ∃ x, .int16 x = v
  | .int32, v => ∃ x, .int32 x = v
  | .int64, v => ∃ x, .int64 x = v
  | .string, v => ∃ x, .string x = v
  | .slice elem, v =>
      if elem.isUint8 then ∃ x, .bytes x = v else ∃ vs, (∀ x ∈ vs, elem.Has x) ∧ .slice vs = v
  | .struct fields, v => ∃ vs, HasFields fields vs ∧ .struct vs = v
  | .unsupported _, _ => False

/-- The values of the fields of a struct. -/
def HasFields : List Ty → List Value → Prop
  | [], vs => vs = []
  | field :: fields, vs => ∃ x xs, field.Has x ∧ HasFields fields xs ∧ x :: xs = vs

end

mutual

/-- Every slice has fewer than `2 ^ 32` elements. -/
def Value.Short : Value → Prop
  | .slice vs => vs.length < 2 ^ 32 ∧ AllShort vs
  | .struct vs => AllShort vs
  | _ => True

def AllShort : List Value → Prop
  | [] => True
  | v :: vs => v.Short ∧ AllShort vs

end

lemma allShort_iff {vs : List Value} : AllShort vs ↔ ∀ v ∈ vs, v.Short := by
  induction vs with
  | nil => simp [AllShort]
  | cons v vs ih => rw [AllShort, ih, List.forall_mem_cons]

/-! ## Encodings -/

/-- The encoding of a value, if it has one. -/
def encoding (v : Value) : Bytes := (encode v).toOption.getD []

lemma encode_eq_encoding {v : Value} {b : Bytes} (h : encode v = .ok b) :
    encode v = .ok (encoding v) := by
  rw [encoding, h]
  rfl

lemma encodeAll_eq {vs : List Value} (h : ∀ v ∈ vs, encode v = .ok (encoding v)) :
    encodeAll vs = .ok (vs.flatMap encoding) := by
  induction vs with
  | nil => rfl
  | cons v vs ih =>
    obtain ⟨hv, hvs⟩ := List.forall_mem_cons.mp h
    rw [encodeAll, hv, ih hvs]
    rfl

lemma encode_slice {vs : List Value} (h : ∀ v ∈ vs, encode v = .ok (encoding v)) :
    encode (.slice vs) =
      .ok (encodeUnsigned32 (UInt32.ofNat vs.length) ++ vs.flatMap encoding) := by
  rw [encode, encodeAll_eq h]
  rfl

lemma encode_struct {vs : List Value} (h : ∀ v ∈ vs, encode v = .ok (encoding v)) :
    encode (.struct vs) = .ok (vs.flatMap encoding) := by
  rw [encode, encodeAll_eq h]

mutual

/-- Every value of a type has an encoding. -/
lemma encode_of_has : ∀ {t : Ty} {v : Value}, t.Has v → encode v = .ok (encoding v)
  | .uint8, _, ⟨_, rfl⟩ => rfl
  | .uint16, _, ⟨_, rfl⟩ => rfl
  | .uint32, _, ⟨_, rfl⟩ => rfl
  | .uint64, _, ⟨_, rfl⟩ => rfl
  | .int8, _, ⟨_, rfl⟩ => rfl
  | .int16, _, ⟨_, rfl⟩ => rfl
  | .int32, _, ⟨_, rfl⟩ => rfl
  | .int64, _, ⟨_, rfl⟩ => rfl
  | .string, _, ⟨_, rfl⟩ => rfl
  | .slice elem, v, h => by
    rw [Ty.Has] at h
    split_ifs at h with h8
    · obtain ⟨x, rfl⟩ := h
      rfl
    · obtain ⟨vs, hvs, rfl⟩ := h
      exact encode_eq_encoding (encode_slice fun x hx => encode_of_has (hvs x hx))
  | .struct fields, v, h => by
    rw [Ty.Has] at h
    obtain ⟨vs, hvs, rfl⟩ := h
    exact encode_eq_encoding (encode_struct (encode_of_hasFields hvs))

lemma encode_of_hasFields : ∀ {ts : List Ty} {vs : List Value}, HasFields ts vs →
    ∀ v ∈ vs, encode v = .ok (encoding v)
  | [], _, h => by
    rw [HasFields] at h
    subst h
    simp
  | t :: ts, _, h => by
    rw [HasFields] at h
    obtain ⟨x, xs, hx, hxs, rfl⟩ := h
    exact List.forall_mem_cons.mpr ⟨encode_of_has hx, encode_of_hasFields hxs⟩

end

lemma encoding_slice {vs : List Value} (h : ∀ v ∈ vs, encode v = .ok (encoding v)) :
    encoding (.slice vs) = encodeUnsigned32 (UInt32.ofNat vs.length) ++ vs.flatMap encoding := by
  rw [encoding, encode_slice h]
  rfl

lemma encoding_struct {vs : List Value} (h : ∀ v ∈ vs, encode v = .ok (encoding v)) :
    encoding (.struct vs) = vs.flatMap encoding := by
  rw [encoding, encode_struct h]
  rfl

/-! ## Numbers and byte strings -/

section Leaves

variable {N : ℕ}

/-- A number in big-endian bytes. -/
lemma reads_unsigned {ε α : Type} (e : ε) {size : ℕ} {conv : ℕ → α} {toNat : α → ℕ}
    (hlt : ∀ a, toNat a < 256 ^ size) (hconv : ∀ a, conv (toNat a) = a)
    (hto : ∀ n, n < 256 ^ size → toNat (conv n) = n) :
    Reads N (fun _ => True) (fun a => Bytes.be size (toNat a))
      (readFixed size (fun b => conv (Bytes.ofBe b)) e) := by
  refine reads_readFixed _ (fun a => Bytes.length_be _ _) (fun a => ?_) (fun b hb => ?_)
  · rw [Bytes.ofBe_be (hlt a), hconv]
  · rw [hto _ (hb ▸ Bytes.ofBe_lt b), ← hb, Bytes.be_ofBe]

lemma reads_decodeUnsigned {α : Type} {size : ℕ} {conv : ℕ → α} {toNat : α → ℕ}
    (hlt : ∀ a, toNat a < 256 ^ size) (hconv : ∀ a, conv (toNat a) = a)
    (hto : ∀ n, n < 256 ^ size → toNat (conv n) = n) :
    Reads N (fun _ => True) (fun a => Bytes.be size (toNat a)) (decodeUnsigned size conv) :=
  reads_unsigned _ hlt hconv hto

lemma reads_decodeUnsigned8 : Reads N (fun _ => True) encodeUnsigned8 decodeUnsigned8 :=
  reads_decodeUnsigned UInt8.toNat_lt (fun _ => UInt8.ofNat_toNat)
    fun _ h => UInt8.toNat_ofNat_of_lt' h

lemma reads_decodeUnsigned16 : Reads N (fun _ => True) encodeUnsigned16 decodeUnsigned16 :=
  reads_decodeUnsigned UInt16.toNat_lt (fun _ => UInt16.ofNat_toNat)
    fun _ h => UInt16.toNat_ofNat_of_lt' h

lemma reads_decodeUnsigned32 : Reads N (fun _ => True) encodeUnsigned32 decodeUnsigned32 :=
  reads_decodeUnsigned UInt32.toNat_lt (fun _ => UInt32.ofNat_toNat)
    fun _ h => UInt32.toNat_ofNat_of_lt' h

lemma reads_decodeUnsigned64 : Reads N (fun _ => True) encodeUnsigned64 decodeUnsigned64 :=
  reads_decodeUnsigned UInt64.toNat_lt (fun _ => UInt64.ofNat_toNat)
    fun _ h => UInt64.toNat_ofNat_of_lt' h

lemma reads_decodeSigned8 : Reads N (fun _ => True) encodeSigned8 decodeSigned8 :=
  reads_decodeUnsigned8.map UInt8.toInt8 (fun c => ⟨fun _ => ⟨c.toUInt8, trivial, by simp⟩,
    fun _ => trivial⟩) (fun a _ => by simp [encodeSigned8])

lemma reads_decodeSigned16 : Reads N (fun _ => True) encodeSigned16 decodeSigned16 :=
  reads_decodeUnsigned16.map UInt16.toInt16 (fun c => ⟨fun _ => ⟨c.toUInt16, trivial, by simp⟩,
    fun _ => trivial⟩) (fun a _ => by simp [encodeSigned16])

lemma reads_decodeSigned32 : Reads N (fun _ => True) encodeSigned32 decodeSigned32 :=
  reads_decodeUnsigned32.map UInt32.toInt32 (fun c => ⟨fun _ => ⟨c.toUInt32, trivial, by simp⟩,
    fun _ => trivial⟩) (fun a _ => by simp [encodeSigned32])

lemma reads_decodeSigned64 : Reads N (fun _ => True) encodeSigned64 decodeSigned64 :=
  reads_decodeUnsigned64.map UInt64.toInt64 (fun c => ⟨fun _ => ⟨c.toUInt64, trivial, by simp⟩,
    fun _ => trivial⟩) (fun a _ => by simp [encodeSigned64])

/-- The length that Go reads from four bytes. -/
lemma toNat_length {data : Bytes} (h : 4 ≤ data.length) :
    (UInt32.ofNat (Bytes.ofBe (data.take 4))).toNat = Bytes.ofBe (data.take 4) := by
  have hlt := Bytes.ofBe_lt (data.take 4)
  rw [List.length_take, min_eq_left h] at hlt
  exact UInt32.toNat_ofNat_of_lt' hlt

/-- A slice of Go, read in one piece. -/
lemma decodeBytes_eq (data : Bytes) :
    decodeBytes data =
      if 4 ≤ data.length ∧ Bytes.ofBe (data.take 4) ≤ (data.drop 4).length % 2 ^ 32 then
        .ok ((data.drop 4).take (Bytes.ofBe (data.take 4)),
          (data.drop 4).drop (Bytes.ofBe (data.take 4)))
      else .error "obi: out of range" := by
  rw [decodeBytes, decodeUnsigned32, decodeUnsigned, Codec.readFixed]
  by_cases hlen : data.length < 4
  · rw [if_pos hlen, if_neg (by omega)]
    rfl
  · have hlength := toNat_length (not_lt.mp hlen)
    have hrange : UInt32.ofNat (data.drop 4).length < UInt32.ofNat (Bytes.ofBe (data.take 4)) ↔
        ¬Bytes.ofBe (data.take 4) ≤ (data.drop 4).length % 2 ^ 32 := by
      rw [UInt32.lt_iff_toNat_lt, hlength, UInt32.toNat_ofNat', not_le]
    rw [if_neg hlen]
    show (if _ < UInt32.ofNat (Bytes.ofBe (data.take 4)) then _ else _) = _
    by_cases hout : Bytes.ofBe (data.take 4) ≤ (data.drop 4).length % 2 ^ 32
    · rw [if_neg (fun h => hrange.mp h hout), if_pos ⟨not_lt.mp hlen, hout⟩]
      show Except.ok ((data.drop 4).take (UInt32.ofNat (Bytes.ofBe (data.take 4))).toNat,
        (data.drop 4).drop (UInt32.ofNat (Bytes.ofBe (data.take 4))).toNat) = _
      rw [hlength]
    · rw [if_pos (hrange.mpr hout), if_neg (fun h => hout h.2)]
      rfl

/-- On strings shorter than `2 ^ 32` the comparison of lengths in 32 bits is exact. -/
lemma reads_decodeBytes : Reads (2 ^ 32) (fun _ => True) encodeBytes decodeBytes := by
  intro b hb x rest
  rw [decodeBytes, reads_decodeUnsigned32.bind_eq_ok hb]
  constructor
  · rintro ⟨length, rem, _, rfl, hout⟩
    have hrem : rem.length < 2 ^ 32 := length_rest_lt hb rfl
    simp only [UInt32.lt_iff_toNat_lt, UInt32.toNat_ofNat_of_lt' hrem] at hout
    rcases Nat.lt_or_ge rem.length length.toNat with hlt | hle
    · rw [if_pos hlt] at hout
      cases hout
    rw [if_neg (Nat.not_lt.mpr hle)] at hout
    obtain ⟨rfl, rfl⟩ := Prod.mk.inj (Except.ok.inj hout)
    have hlen : UInt32.ofNat (rem.take length.toNat).length = length := by
      rw [List.length_take, Nat.min_eq_left hle, UInt32.ofNat_toNat]
    rw [encodeBytes, hlen, List.append_assoc, List.take_append_drop]
    exact ⟨trivial, rfl⟩
  · rintro ⟨_, rfl⟩
    have hrem : (x ++ rest).length < 2 ^ 32 := length_rest_lt hb (by rw [encodeBytes,
      List.append_assoc])
    have hx : x.length < 2 ^ 32 := by
      rw [List.length_append] at hrem
      omega
    refine ⟨UInt32.ofNat x.length, x ++ rest, trivial, by rw [encodeBytes, List.append_assoc], ?_⟩
    simp only [UInt32.lt_iff_toNat_lt, UInt32.toNat_ofNat_of_lt' hrem, UInt32.toNat_ofNat_of_lt' hx]
    rw [if_neg (by rw [List.length_append]; omega), List.take_left, List.drop_left]
    rfl

lemma reads_decodeString : Reads (2 ^ 32) (fun _ => True) encodeString decodeString :=
  reads_decodeBytes

/-- A leaf of a value tree. -/
lemma reads_leaf {α : Type} {enc : α → Bytes} {dec : Bytes → Except String (α × Bytes)}
    (h : Reads N (fun _ => True) enc dec) (f : α → Value) (hshort : ∀ a, (f a).Short)
    (henc : ∀ a, encoding (f a) = enc a) :
    Reads N (fun v => (∃ a, f a = v) ∧ v.Short) encoding (wrap f dec) := by
  refine h.map f (fun v => ⟨?_, ?_⟩) (fun a _ => henc a)
  · rintro ⟨⟨a, rfl⟩, _⟩
    exact ⟨a, trivial, rfl⟩
  · rintro ⟨a, _, rfl⟩
    exact ⟨⟨a, rfl⟩, hshort a⟩

end Leaves

/-! ## The round trip -/

/-- A slice that is read element by element. -/
lemma reads_slice {elem : Ty} (h8 : elem.isUint8 = false)
    (h : Reads (2 ^ 32) (fun v => elem.Has v ∧ v.Short) encoding (decodeImpl elem)) :
    Reads (2 ^ 32) (fun v => (Ty.slice elem).Has v ∧ v.Short) encoding
      (decodeImpl (.slice elem)) := by
  intro b hb v rest
  have hhas : ∀ {vs : List Value}, (∀ x ∈ vs, elem.Has x ∧ x.Short) →
      encoding (.slice vs) = encodeUnsigned32 (UInt32.ofNat vs.length) ++ vs.flatMap encoding :=
    fun hvs => encoding_slice fun x hx => encode_of_has (hvs x hx).1
  simp only [decodeImpl, Ty.Has, h8, Bool.false_eq_true, if_false]
  rw [reads_decodeUnsigned32.bind_eq_ok hb]
  constructor
  · rintro ⟨length, rem, _, rfl, hout⟩
    rw [wrap, (h.readMany length.toNat).bind_eq_ok (length_rest_lt hb rfl)] at hout
    obtain ⟨vs, rest', ⟨hlen, hvs⟩, rfl, hout⟩ := hout
    obtain ⟨rfl, rfl⟩ := Prod.mk.inj (Except.ok.inj hout)
    refine ⟨⟨⟨vs, fun x hx => (hvs x hx).1, rfl⟩, ?_, ?_⟩, ?_⟩
    · rw [hlen]
      exact length.toNat_lt
    · exact allShort_iff.mpr fun x hx => (hvs x hx).2
    · rw [hhas hvs, hlen, UInt32.ofNat_toNat, List.append_assoc]
  · rintro ⟨⟨⟨vs, hvs, rfl⟩, hlen, hshort⟩, rfl⟩
    have hall : ∀ x ∈ vs, elem.Has x ∧ x.Short :=
      fun x hx => ⟨hvs x hx, allShort_iff.mp hshort x hx⟩
    rw [hhas hall, List.append_assoc] at hb ⊢
    refine ⟨UInt32.ofNat vs.length, vs.flatMap encoding ++ rest, trivial, rfl, ?_⟩
    rw [wrap, (h.readMany _).bind_eq_ok (length_rest_lt hb rfl)]
    exact ⟨vs, rest, ⟨(UInt32.toNat_ofNat_of_lt' hlen).symm, hall⟩, rfl, rfl⟩

mutual

/-- The decoder reads the values of a type, from exactly their encodings. -/
theorem reads_decodeImpl : ∀ t : Ty,
    Reads (2 ^ 32) (fun v => t.Has v ∧ v.Short) encoding (decodeImpl t)
  | .uint8 => reads_leaf reads_decodeUnsigned8 .uint8 (fun _ => trivial) (fun _ => rfl)
  | .uint16 => reads_leaf reads_decodeUnsigned16 .uint16 (fun _ => trivial) (fun _ => rfl)
  | .uint32 => reads_leaf reads_decodeUnsigned32 .uint32 (fun _ => trivial) (fun _ => rfl)
  | .uint64 => reads_leaf reads_decodeUnsigned64 .uint64 (fun _ => trivial) (fun _ => rfl)
  | .int8 => reads_leaf reads_decodeSigned8 .int8 (fun _ => trivial) (fun _ => rfl)
  | .int16 => reads_leaf reads_decodeSigned16 .int16 (fun _ => trivial) (fun _ => rfl)
  | .int32 => reads_leaf reads_decodeSigned32 .int32 (fun _ => trivial) (fun _ => rfl)
  | .int64 => reads_leaf reads_decodeSigned64 .int64 (fun _ => trivial) (fun _ => rfl)
  | .string => reads_leaf reads_decodeString .string (fun _ => trivial) (fun _ => rfl)
  | .slice elem => by
    rcases h8 : elem.isUint8 with _ | _
    · exact reads_slice h8 (reads_decodeImpl elem)
    · have hbytes := reads_leaf reads_decodeBytes .bytes (fun _ => trivial) (fun _ => rfl)
      simpa only [decodeImpl, Ty.Has, h8, if_true] using hbytes
  | .struct fields => by
    refine (reads_decodeFields fields).map Value.struct (fun v => ?_) (fun vs hvs => ?_)
    · rw [Ty.Has]
      constructor
      · rintro ⟨⟨vs, hvs, rfl⟩, hshort⟩
        exact ⟨vs, ⟨hvs, hshort⟩, rfl⟩
      · rintro ⟨vs, ⟨hvs, hshort⟩, rfl⟩
        exact ⟨⟨vs, hvs, rfl⟩, hshort⟩
    · exact encoding_struct (encode_of_hasFields hvs.1)
  | .unsupported kind => by
    intro b _ v rest
    simp [decodeImpl, Ty.Has]

theorem reads_decodeFields : ∀ ts : List Ty,
    Reads (2 ^ 32) (fun vs => HasFields ts vs ∧ AllShort vs) (·.flatMap encoding)
      (decodeFields ts)
  | [] => by
    intro b _ vs rest
    simp only [decodeFields, HasFields, Except.ok.injEq, Prod.mk.injEq]
    constructor
    · rintro ⟨rfl, rfl⟩
      exact ⟨⟨rfl, trivial⟩, rfl⟩
    · rintro ⟨⟨rfl, _⟩, rfl⟩
      exact ⟨rfl, rfl⟩
  | t :: ts => by
    intro b hb vs rest
    simp only [decodeFields, HasFields]
    rw [(reads_decodeImpl t).bind_eq_ok hb]
    constructor
    · rintro ⟨x, rem, ⟨hx, hxs⟩, rfl, hout⟩
      rw [(reads_decodeFields ts).bind_eq_ok (length_rest_lt hb rfl)] at hout
      obtain ⟨xs, rest', ⟨hts, hall⟩, rfl, hout⟩ := hout
      obtain ⟨rfl, rfl⟩ := Prod.mk.inj (Except.ok.inj hout)
      exact ⟨⟨⟨x, xs, hx, hts, rfl⟩, hxs, hall⟩, by simp⟩
    · rintro ⟨⟨⟨x, xs, hx, hts, rfl⟩, hxs, hall⟩, rfl⟩
      rw [List.flatMap_cons, List.append_assoc] at hb
      refine ⟨x, xs.flatMap encoding ++ rest, ⟨hx, hxs⟩, by simp, ?_⟩
      rw [(reads_decodeFields ts).bind_eq_ok (length_rest_lt hb rfl)]
      exact ⟨xs, rest, ⟨hts, hall⟩, rfl, rfl⟩

end

lemma decode_eq_ok {t : Ty} {data : Bytes} {v : Value} :
    decode t data = .ok v ↔ decodeImpl t data = .ok (v, []) := by
  rw [decode, except_bind_eq_ok]
  constructor
  · rintro ⟨⟨w, rem⟩, hdec, hout⟩
    cases rem with
    | nil =>
      obtain rfl := Except.ok.inj hout
      exact hdec
    | cons x rem => cases hout
  · intro h
    exact ⟨(v, []), h, rfl⟩

/-- **Round trip of the Go codec.**  Take any type, and strings shorter than `2 ^ 32`.  A value
`v` has an encoding, and from the encoding in front of any `rest` the decoder reads back exactly
`v` and leaves `rest` if and only if no slice in `v` has `2 ^ 32` or more elements.  Whatever
the decoder accepts is the encoding of the value it returns. -/
theorem decode_encode_iff (t : Ty) :
    (∀ v rest, t.Has v → ∃ data, encode v = .ok data ∧
      ((data ++ rest).length < 2 ^ 32 →
        ((decodeImpl t (data ++ rest) = .ok (v, rest) ∧ decode t data = .ok v) ↔ v.Short))) ∧
    ∀ data v, data.length < 2 ^ 32 → decode t data = .ok v → encode v = .ok data := by
  constructor
  · intro v rest hv
    refine ⟨encoding v, encode_of_has hv, fun hlen => ?_⟩
    have hlen' : (encoding v).length < 2 ^ 32 := by
      rw [List.length_append] at hlen
      omega
    rw [decode_eq_ok, reads_decodeImpl t _ hlen, reads_decodeImpl t _ hlen']
    constructor
    · rintro ⟨⟨⟨_, hshort⟩, _⟩, _⟩
      exact hshort
    · intro hshort
      exact ⟨⟨⟨hv, hshort⟩, rfl⟩, ⟨hv, hshort⟩, (List.append_nil _).symm⟩
  · intro data v hlen h
    rw [decode_eq_ok, reads_decodeImpl t _ hlen, List.append_nil] at h
    obtain ⟨⟨hv, _⟩, rfl⟩ := h
    exact encode_of_has hv

/-- A slice of `2 ^ 32` empty structs has the encoding of the empty slice, of four bytes: it is
not read back. -/
theorem not_decode_encode :
    ¬∀ (t : Ty) (v : Value) (rest : Bytes), t.Has v → ∃ data, encode v = .ok data ∧
      ((data ++ rest).length < 2 ^ 32 → decodeImpl t (data ++ rest) = .ok (v, rest)) := by
  intro h
  have hnil : (List.replicate (2 ^ 32) (Value.struct [])).flatMap encoding = [] := by
    rw [List.flatMap_eq_nil_iff]
    intro v hv
    rw [List.eq_of_mem_replicate hv]
    rfl
  have hencode : encode (.slice (List.replicate (2 ^ 32) (Value.struct []))) =
      .ok (encodeUnsigned32 (UInt32.ofNat (2 ^ 32))) := by
    rw [encode_slice, List.length_replicate, hnil, List.append_nil]
    intro v hv
    rw [List.eq_of_mem_replicate hv]
    rfl
  obtain ⟨data, hdata, hread⟩ := h (.slice (.struct []))
    (.slice (List.replicate (2 ^ 32) (Value.struct []))) [] ⟨_, fun x hx => by
      rw [List.eq_of_mem_replicate hx]
      exact ⟨[], rfl, rfl⟩, rfl⟩
  rw [hencode, Except.ok.injEq] at hdata
  subst hdata
  obtain ⟨⟨_, hshort, _⟩, _⟩ := (reads_decodeImpl _ _ (by decide) _ _).mp (hread (by decide))
  rw [List.length_replicate] at hshort
  exact absurd hshort (lt_irrefl _)

end Bandchain.Obi
