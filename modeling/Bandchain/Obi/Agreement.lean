import Bandchain.Obi.RoundTrip
import Bandchain.Obi.Rust

/-!
# Rust and Go agree on OBI

A type of Rust has a counterpart in Go, and its values are the values of the Go type whose
strings are valid UTF-8.  Both encoders write the same bytes for a value, and both decoders read
the same value from a slice; the shortcuts for byte vectors do what the loops do.
-/

namespace Bandchain.Obi

open Codec Exec

mutual

/-- Every string in the value is valid UTF-8. -/
def Value.ValidStrings : Value → Prop
  | .string v => Text.ValidUtf8 v
  | .slice vs => AllValidStrings vs
  | .struct vs => AllValidStrings vs
  | _ => True

def AllValidStrings : List Value → Prop
  | [] => True
  | v :: vs => v.ValidStrings ∧ AllValidStrings vs

end

lemma allValidStrings_iff {vs : List Value} :
    AllValidStrings vs ↔ ∀ v ∈ vs, v.ValidStrings := by
  induction vs with
  | nil => simp [AllValidStrings]
  | cons v vs ih => rw [AllValidStrings, ih, List.forall_mem_cons]

namespace Rust

/-! ## Counterparts -/

mutual

/-- The type in Go. -/
def Ty.toGo : Ty → Obi.Ty
  | .u8 => .uint8
  | .u16 => .uint16
  | .u32 => .uint32
  | .u64 => .uint64
  | .i8 => .int8
  | .i16 => .int16
  | .i32 => .int32
  | .i64 => .int64
  | .string => .string
  | .vec elem => .slice elem.toGo
  | .struct fields => .struct (allToGo fields)

def allToGo : List Ty → List Obi.Ty
  | [] => []
  | field :: fields => field.toGo :: allToGo fields

end

mutual

/-- The value in Go. -/
def Ty.goValue : (t : Ty) → t.Val → Value
  | .u8, v => .uint8 v
  | .u16, v => .uint16 v
  | .u32, v => .uint32 v
  | .u64, v => .uint64 v
  | .i8, v => .int8 v
  | .i16, v => .int16 v
  | .i32, v => .int32 v
  | .i64, v => .int64 v
  | .string, v => .string (asBytes v)
  | .vec elem, vs =>
      match elem.asU8 with
      | some view => .bytes (List.map view vs)
      | none => .slice (List.map elem.goValue vs)
  | .struct fields, vs => .struct (goValues fields vs)

def goValues : (fields : List Ty) → FieldsVal fields → List Value
  | [], _ => []
  | field :: fields, vs => field.goValue vs.1 :: goValues fields vs.2

end

lemma asU8_eq_none {t : Ty} (h : t ≠ .u8) : t.asU8 = none := by
  cases t <;> first | rfl | exact absurd rfl h

lemma isUint8_toGo {t : Ty} (h : t ≠ .u8) : t.toGo.isUint8 = false := by
  cases t <;> first | rfl | exact absurd rfl h

/-! ## Values -/

mutual

lemma goValue_inj : ∀ (t : Ty) {v w : t.Val}, t.goValue v = t.goValue w → v = w
  | .u8, _, _, h => Value.uint8.inj h
  | .u16, _, _, h => Value.uint16.inj h
  | .u32, _, _, h => Value.uint32.inj h
  | .u64, _, _, h => Value.uint64.inj h
  | .i8, _, _, h => Value.int8.inj h
  | .i16, _, _, h => Value.int16.inj h
  | .i32, _, _, h => Value.int32.inj h
  | .i64, _, _, h => Value.int64.inj h
  | .string, _, _, h => Text.utf8_inj (Value.string.inj h)
  | .vec elem, v, w, h => by
    rw [Ty.goValue, Ty.goValue] at h
    rcases hview : elem.asU8 with _ | view
    · rw [hview] at h
      exact List.map_injective_iff.mpr (fun _ _ => goValue_inj elem) (Value.slice.inj h)
    · rw [hview] at h
      exact List.map_injective_iff.mpr view.injective (Value.bytes.inj h)
  | .struct fields, _, _, h => goValues_inj fields (Value.struct.inj h)

lemma goValues_inj : ∀ (ts : List Ty) {vs ws : FieldsVal ts}, goValues ts vs = goValues ts ws →
    vs = ws
  | [], _, _, _ => rfl
  | t :: ts, _, _, h =>
    Prod.ext (goValue_inj t (List.cons.inj h).1) (goValues_inj ts (List.cons.inj h).2)

end

lemma exists_leaf_iff {α : Type} {f : α → Value} (hf : ∀ a, (f a).ValidStrings) {g : Value} :
    (∃ v, f v = g) ↔ (∃ v, f v = g) ∧ g.ValidStrings := by
  constructor
  · rintro ⟨v, rfl⟩
    exact ⟨⟨v, rfl⟩, hf v⟩
  · exact And.left

mutual

/-- The counterparts of the values of a type are the Go values with valid strings. -/
lemma exists_goValue_iff : ∀ (t : Ty) {g : Value},
    (∃ v, t.goValue v = g) ↔ t.toGo.Has g ∧ g.ValidStrings
  | .u8, _ => exists_leaf_iff (f := Value.uint8) fun _ => trivial
  | .u16, _ => exists_leaf_iff (f := Value.uint16) fun _ => trivial
  | .u32, _ => exists_leaf_iff (f := Value.uint32) fun _ => trivial
  | .u64, _ => exists_leaf_iff (f := Value.uint64) fun _ => trivial
  | .i8, _ => exists_leaf_iff (f := Value.int8) fun _ => trivial
  | .i16, _ => exists_leaf_iff (f := Value.int16) fun _ => trivial
  | .i32, _ => exists_leaf_iff (f := Value.int32) fun _ => trivial
  | .i64, _ => exists_leaf_iff (f := Value.int64) fun _ => trivial
  | .string, _ => by
    constructor
    · rintro ⟨v, rfl⟩
      exact ⟨⟨_, rfl⟩, Text.validUtf8_utf8 v⟩
    · rintro ⟨⟨b, rfl⟩, hb⟩
      obtain ⟨s, hs⟩ := Text.exists_utf8 hb
      exact ⟨s, congrArg Value.string hs⟩
  | .vec elem, g => by
    by_cases h8 : elem = .u8
    · subst h8
      constructor
      · rintro ⟨v, rfl⟩
        exact ⟨⟨_, rfl⟩, trivial⟩
      · rintro ⟨⟨b, rfl⟩, -⟩
        exact ⟨b, congrArg Value.bytes (List.map_id b)⟩
    · simp only [Ty.goValue, asU8_eq_none h8, Ty.toGo, Obi.Ty.Has, isUint8_toGo h8,
        Bool.false_eq_true, if_false]
      constructor
      · rintro ⟨v, rfl⟩
        refine ⟨⟨_, fun x hx => ?_, rfl⟩, allValidStrings_iff.mpr fun x hx => ?_⟩
        all_goals
          obtain ⟨y, -, rfl⟩ := List.mem_map.mp hx
          have hy := (exists_goValue_iff elem).mp ⟨y, rfl⟩
        · exact hy.1
        · exact hy.2
      · rintro ⟨⟨ws, hws, rfl⟩, hvalid⟩
        have hrange : ws ∈ Set.range (List.map elem.goValue) := by
          rw [Set.range_list_map]
          exact fun x hx => (exists_goValue_iff elem).mpr
            ⟨hws x hx, allValidStrings_iff.mp hvalid x hx⟩
        obtain ⟨vs, rfl⟩ := hrange
        exact ⟨vs, rfl⟩
  | .struct fields, g => by
    simp only [Ty.goValue, Ty.toGo, Obi.Ty.Has]
    constructor
    · rintro ⟨vs, rfl⟩
      have hvs := (exists_goValues_iff fields).mp ⟨vs, rfl⟩
      exact ⟨⟨_, hvs.1, rfl⟩, hvs.2⟩
    · rintro ⟨⟨ws, hws, rfl⟩, hvalid⟩
      obtain ⟨vs, rfl⟩ := (exists_goValues_iff fields).mpr ⟨hws, hvalid⟩
      exact ⟨vs, rfl⟩

lemma exists_goValues_iff : ∀ (ts : List Ty) {gs : List Value},
    (∃ vs, goValues ts vs = gs) ↔ HasFields (allToGo ts) gs ∧ AllValidStrings gs
  | [], gs => by
    simp only [goValues, allToGo, HasFields]
    constructor
    · rintro ⟨-, rfl⟩
      exact ⟨rfl, trivial⟩
    · rintro ⟨rfl, -⟩
      exact ⟨(), rfl⟩
  | t :: ts, gs => by
    simp only [goValues, allToGo, HasFields]
    constructor
    · rintro ⟨⟨v, vs⟩, rfl⟩
      have hv := (exists_goValue_iff t).mp ⟨v, rfl⟩
      have hvs := (exists_goValues_iff ts).mp ⟨vs, rfl⟩
      exact ⟨⟨_, _, hv.1, hvs.1, rfl⟩, hv.2, hvs.2⟩
    · rintro ⟨⟨x, xs, hx, hxs, rfl⟩, hvalid, hvalids⟩
      obtain ⟨v, rfl⟩ := (exists_goValue_iff t).mpr ⟨hx, hvalid⟩
      obtain ⟨vs, rfl⟩ := (exists_goValues_iff ts).mpr ⟨hxs, hvalids⟩
      exact ⟨(v, vs), rfl⟩

end

lemma has_goValue (t : Ty) (v : t.Val) : t.toGo.Has (t.goValue v) :=
  ((exists_goValue_iff t).mp ⟨v, rfl⟩).1

/-! ## Encoding -/

lemma encoding_vec {elem : Ty} (h : ∀ v : elem.Val, encoding (elem.goValue v) = encode elem v)
    (vs : List elem.Val) : encoding ((Ty.vec elem).goValue vs) = encode (.vec elem) vs := by
  rw [Ty.goValue, encode]
  rcases elem.asU8 with _ | view
  · have hall : ∀ x ∈ vs.map elem.goValue, Obi.encode x = .ok (encoding x) := by
      intro x hx
      obtain ⟨y, -, rfl⟩ := List.mem_map.mp hx
      exact encode_of_has (has_goValue elem y)
    simp only
    rw [encoding_slice hall, List.length_map, List.flatMap_map, List.flatMap_congr fun v _ => h v]
    rfl
  · show encodeUnsigned32 (UInt32.ofNat (vs.map view).length) ++ vs.map view = _
    rw [List.length_map]
    rfl

lemma encoding_struct_goValues {fields : List Ty} (vs : FieldsVal fields)
    (h : (goValues fields vs).flatMap encoding = encodeFields fields vs) :
    encoding ((Ty.struct fields).goValue vs) = encode (.struct fields) vs := by
  have hhas : HasFields (allToGo fields) (goValues fields vs) :=
    ((exists_goValues_iff fields).mp ⟨vs, rfl⟩).1
  rw [Ty.goValue, encoding_struct (encode_of_hasFields hhas), h, encode]

mutual

/-- Both encoders write the same bytes. -/
lemma encoding_goValue : ∀ (t : Ty) (v : t.Val), encoding (t.goValue v) = encode t v
  | .u8, v => congrArg (fun n => [n]) (UInt8.ofNat_toNat (x := v))
  | .u16, _ => rfl
  | .u32, _ => rfl
  | .u64, _ => rfl
  | .i8, _ => rfl
  | .i16, _ => rfl
  | .i32, _ => rfl
  | .i64, _ => rfl
  | .string, _ => rfl
  | .vec elem, vs => encoding_vec (encoding_goValue elem) vs
  | .struct fields, vs => encoding_struct_goValues vs (flatMap_goValues fields vs)

lemma flatMap_goValues : ∀ (ts : List Ty) (vs : FieldsVal ts),
    (goValues ts vs).flatMap encoding = encodeFields ts vs
  | [], _ => rfl
  | t :: ts, vs => by
    rw [goValues, List.flatMap_cons, encoding_goValue t, flatMap_goValues ts, encodeFields]

end

/-! ## The shortcuts of vectors -/

lemma ofState_takeBytes (len : ℕ) (b : Bytes) :
    ofState (takeBytes len) b =
      if b.length < len then .error (.invalidInput errorUnexpectedLengthOfInput)
      else .ok (b.take len, b.drop len) := by
  rw [ofState, takeBytes, run_get_bind]
  by_cases h : b.length < len
  · have hfail : (failIf (b.length < len) (IoError.invalidInput errorUnexpectedLengthOfInput) :
        Decoder Unit).run b = .error (.invalidInput errorUnexpectedLengthOfInput) b :=
      failIf_eq_error.mpr ⟨h, rfl, rfl⟩
    rw [bind_eq_error.mpr (.inl hfail), if_pos h]
  · rw [run_bind_of_ok (run_failIf_of_not h), if_neg h]
    rfl

lemma ofState_decodeU8 (b : Bytes) :
    ofState decodeU8 b =
      match b with
      | [] => .error (.invalidInput errorUnexpectedLengthOfInput)
      | x :: rest => .ok (x, rest) := by
  cases b <;> rfl

lemma ofState_decodeTimes {α : Type} (d : Decoder α) (n : ℕ) :
    ofState (decodeTimes d n) = readMany (ofState d) n := by
  induction n with
  | zero => rfl
  | succ n ih =>
    funext b
    rw [decodeTimes, ofState_bind, readMany]
    simp only [ofState_bind, ih]
    rfl

/-- Bytes that are taken at once are taken one by one. -/
lemma ofState_takeBytes_eq (n : ℕ) (b : Bytes) :
    ofState (takeBytes n) b = ofState (decodeTimes decodeU8 n) b := by
  induction n generalizing b with
  | zero => rfl
  | succ n ih =>
    rw [decodeTimes, ofState_bind, ofState_decodeU8]
    cases b with
    | nil => rfl
    | cons x rest =>
      show _ = ofState (decodeTimes decodeU8 n >>= fun vs => pure (x :: vs)) rest
      rw [ofState_bind, ← ih, ofState_takeBytes, ofState_takeBytes, List.length_cons]
      by_cases h : rest.length < n
      · rw [if_pos h, if_pos (by omega)]
        rfl
      · rw [if_neg h, if_neg (by omega)]
        rfl

/-- A value of size zero is read without looking at the slice, so all its copies are equal. -/
lemma decodeTimes_pure {α : Type} (v : α) (n : ℕ) :
    decodeTimes (pure v) n = pure (List.replicate n v) := by
  induction n with
  | zero => rfl
  | succ n ih => rw [decodeTimes, ih, List.replicate_succ, pure_bind, pure_bind]

mutual

lemma decode_of_isZeroSized : ∀ {t : Ty}, t.isZeroSized = true → ∃ v, decode t = pure v
  | .struct fields, h => decodeFields_of_areZeroSized (show areZeroSized fields = true from h)

lemma decodeFields_of_areZeroSized : ∀ {ts : List Ty}, areZeroSized ts = true →
    ∃ vs, decodeFields ts = pure vs
  | [], _ => ⟨(), rfl⟩
  | t :: ts, h => by
    rw [areZeroSized, Bool.and_eq_true] at h
    obtain ⟨v, hv⟩ := decode_of_isZeroSized h.1
    obtain ⟨vs, hvs⟩ := decodeFields_of_areZeroSized h.2
    exact ⟨(v, vs), by rw [decodeFields, hv, hvs, pure_bind, pure_bind]⟩

end

/-- **The shortcuts.**  The decoder of vectors gives what its loop over the elements gives. -/
lemma ofState_decodeVec (t : Ty) (b : Bytes) :
    ofState (decodeVec t.asU8 t.isZeroSized (decode t)) b =
      ofState (decodeVec none false (decode t)) b := by
  rw [decodeVec, decodeVec, ofState_bind, ofState_bind]
  congr 1
  funext ⟨len, rem⟩
  by_cases hlen : len = 0
  · rw [if_pos hlen, if_pos hlen]
  rw [if_neg hlen, if_neg hlen]
  by_cases h8 : t = .u8
  · subst h8
    show ofState (takeBytes len.toNat >>= fun result => pure (result.map id)) rem =
      ofState (decodeTimes decodeU8 len.toNat) rem
    simp only [List.map_id, bind_pure, ofState_takeBytes_eq]
  rw [asU8_eq_none h8]
  rcases hzero : t.isZeroSized with _ | _
  · rfl
  · obtain ⟨v, hv⟩ := decode_of_isZeroSized hzero
    simp only [hv, decodeTimes_pure, if_true, pure_bind, Bool.false_eq_true, if_false]

/-! ## Decoding -/

lemma ofState_decodeInteger {α : Type} (size : ℕ) (fromBe : ℕ → α) :
    ofState (decodeInteger size fromBe) =
      readFixed size (fun b => fromBe (Bytes.ofBe b))
        (.invalidInput errorUnexpectedLengthOfInput) := by
  funext b
  rw [decodeInteger, ofState_bind, ofState_takeBytes, readFixed]
  split_ifs <;> rfl

lemma reads_decodeInteger {α : Type} {N size : ℕ} {fromBe : ℕ → α} {toNat : α → ℕ}
    (hlt : ∀ a, toNat a < 256 ^ size) (hconv : ∀ a, fromBe (toNat a) = a)
    (hto : ∀ n, n < 256 ^ size → toNat (fromBe n) = n) :
    Reads N (fun _ => True) (fun a => Bytes.be size (toNat a))
      (ofState (decodeInteger size fromBe)) := by
  rw [ofState_decodeInteger]
  exact reads_unsigned _ hlt hconv hto

lemma reads_decodeU8 {N : ℕ} : Reads N (fun _ => True) (fun v => [v]) (ofState decodeU8) := by
  intro b _ v rest
  rw [ofState_decodeU8]
  cases b with
  | nil => simp
  | cons x b => simp

lemma reads_decodeU32 {N : ℕ} : Reads N (fun _ => True) (fun n => Bytes.be 4 (UInt32.toNat n))
    (ofState decodeU32) :=
  reads_decodeInteger UInt32.toNat_lt (fun _ => UInt32.ofNat_toNat)
    fun _ h => UInt32.toNat_ofNat_of_lt' h

/-- What a vector consists of: its length, and its elements. -/
lemma reads_decodeVec {α : Type} {P : α → Prop} {enc : α → Bytes} {dec : Decoder α}
    (h : Reads (2 ^ 32) P enc (ofState dec)) :
    Reads (2 ^ 32) (fun vs => vs.length < 2 ^ 32 ∧ ∀ v ∈ vs, P v)
      (fun vs => encodeLen vs.length ++ vs.flatMap enc) (ofState (decodeVec none false dec)) := by
  intro b hb vs rest
  have hloop : ∀ len : UInt32, (if len = 0 then pure [] else decodeTimes dec len.toNat) =
      decodeTimes dec len.toNat := by
    intro len
    split_ifs with hlen
    · rw [hlen]
      rfl
    · rfl
  have hvec : decodeVec none false dec = decodeU32 >>= fun len => decodeTimes dec len.toNat :=
    congrArg (decodeU32 >>= ·) (funext hloop)
  rw [hvec, ofState_bind, reads_decodeU32.bind_eq_ok hb]
  simp only [ofState_decodeTimes]
  constructor
  · rintro ⟨len, rem, -, rfl, hread⟩
    obtain ⟨⟨hlen, hall⟩, rfl⟩ := (h.readMany _ _ (length_rest_lt hb rfl) _ _).mp hread
    refine ⟨⟨by rw [hlen]; exact len.toNat_lt, hall⟩, ?_⟩
    rw [encodeLen, hlen, UInt32.ofNat_toNat, List.append_assoc]
  · rintro ⟨⟨hlen, hall⟩, rfl⟩
    rw [List.append_assoc] at hb
    refine ⟨UInt32.ofNat vs.length, vs.flatMap enc ++ rest, trivial, by
      rw [encodeLen, List.append_assoc], ?_⟩
    exact (h.readMany _ _ (length_rest_lt hb rfl) _ _).mpr
      ⟨⟨(UInt32.toNat_ofNat_of_lt' hlen).symm, hall⟩, rfl⟩

/-- A byte vector that is read fits into the slice, so its length fits its field. -/
lemma reads_decodeVecU8 : Reads (2 ^ 32) (fun _ => True)
    (fun b : Bytes => encodeLen b.length ++ b) (ofState decodeVecU8) := by
  intro b hb a rest
  have hbytes : (a.flatMap fun v => [v]) = a := List.flatMap_singleton' a
  have hvec : ofState decodeVecU8 b = ofState (decodeVec none false decodeU8) b :=
    ofState_decodeVec .u8 b
  rw [hvec, reads_decodeVec reads_decodeU8 b hb a rest]
  simp only [hbytes]
  constructor
  · rintro ⟨-, hsplit⟩
    exact ⟨trivial, hsplit⟩
  · rintro ⟨-, rfl⟩
    rw [List.length_append, List.length_append] at hb
    exact ⟨⟨by omega, fun _ _ => trivial⟩, rfl⟩

/-- A string is a byte vector that is valid UTF-8. -/
lemma reads_decodeString : Reads (2 ^ 32) (fun _ => True)
    (fun s => encodeLen (asBytes s).length ++ asBytes s) (ofState decodeString) := by
  intro b hb s rest
  rw [decodeString, ofState_bind, reads_decodeVecU8.bind_eq_ok hb]
  constructor
  · rintro ⟨bytes, rem, -, rfl, hread⟩
    rcases htext : Text.ofUtf8 bytes with _ | text
    · rw [htext] at hread
      cases hread
    · rw [htext] at hread
      obtain ⟨rfl, rfl⟩ := Prod.mk.inj (Except.ok.inj hread)
      rw [Text.ofUtf8_eq_some.mp htext]
      exact ⟨trivial, rfl⟩
  · rintro ⟨-, rfl⟩
    refine ⟨asBytes s, rest, trivial, rfl, ?_⟩
    rw [asBytes, Text.ofUtf8_utf8]
    rfl

lemma reads_vec {elem : Ty}
    (h : Reads (2 ^ 32) (fun v => (elem.goValue v).Short) (encode elem) (ofState (decode elem))) :
    Reads (2 ^ 32) (fun v => ((Ty.vec elem).goValue v).Short) (encode (.vec elem))
      (ofState (decode (.vec elem))) := by
  by_cases h8 : elem = .u8
  · subst h8
    intro b hb v rest
    have hmap : List.map (Equiv.refl UInt8) v = v := List.map_id v
    rw [encode]
    show ofState decodeVecU8 b = _ ↔ _ ∧ b = encodeLen (List.length v) ++
      List.map (Equiv.refl UInt8) v ++ rest
    rw [hmap, reads_decodeVecU8 b hb v rest]
    exact Iff.rfl
  intro b hb vs rest
  have hvec : ofState (decode (.vec elem)) b = ofState (decodeVec none false (decode elem)) b :=
    ofState_decodeVec elem b
  have hgo : (Ty.vec elem).goValue vs = .slice (List.map elem.goValue vs) := by
    simp only [Ty.goValue, asU8_eq_none h8]
  have henc : encode (.vec elem) vs =
      encodeLen (List.length vs) ++ List.flatMap (encode elem) vs := by
    simp only [encode, asU8_eq_none h8]
  rw [hvec, reads_decodeVec h b hb vs rest]
  simp only [hgo, henc, Value.Short, allShort_iff, List.forall_mem_map, List.length_map]

mutual

/-- The decoder reads the values of a type, from exactly their encodings. -/
lemma reads_decode : ∀ t : Ty,
    Reads (2 ^ 32) (fun v => (t.goValue v).Short) (encode t) (ofState (decode t))
  | .u8 => reads_decodeU8
  | .u16 => reads_decodeInteger UInt16.toNat_lt (fun _ => UInt16.ofNat_toNat)
      fun _ h => UInt16.toNat_ofNat_of_lt' h
  | .u32 => reads_decodeU32
  | .u64 => reads_decodeInteger UInt64.toNat_lt (fun _ => UInt64.ofNat_toNat)
      fun _ h => UInt64.toNat_ofNat_of_lt' h
  | .i8 => reads_decodeInteger (fun v => UInt8.toNat_lt v.toUInt8) (fun _ => by simp)
      fun _ h => by simpa using UInt8.toNat_ofNat_of_lt' h
  | .i16 => reads_decodeInteger (fun v => UInt16.toNat_lt v.toUInt16) (fun _ => by simp)
      fun _ h => by simpa using UInt16.toNat_ofNat_of_lt' h
  | .i32 => reads_decodeInteger (fun v => UInt32.toNat_lt v.toUInt32) (fun _ => by simp)
      fun _ h => by simpa using UInt32.toNat_ofNat_of_lt' h
  | .i64 => reads_decodeInteger (fun v => UInt64.toNat_lt v.toUInt64) (fun _ => by simp)
      fun _ h => by simpa using UInt64.toNat_ofNat_of_lt' h
  | .string => reads_decodeString
  | .vec elem => reads_vec (reads_decode elem)
  | .struct fields => reads_decodeFields fields

lemma reads_decodeFields : ∀ ts : List Ty,
    Reads (2 ^ 32) (fun vs => AllShort (goValues ts vs)) (encodeFields ts)
      (ofState (decodeFields ts))
  | [] => by
    intro b _ vs rest
    show Except.ok ((), b) = .ok (vs, rest) ↔ True ∧ b = [] ++ rest
    simp
  | t :: ts => by
    intro b hb vs rest
    rw [decodeFields, ofState_bind, (reads_decode t).bind_eq_ok hb]
    simp only [ofState_bind]
    constructor
    · rintro ⟨v, rem, hv, rfl, hread⟩
      rw [(reads_decodeFields ts).bind_eq_ok (length_rest_lt hb rfl)] at hread
      obtain ⟨ws, rem', hws, rfl, hout⟩ := hread
      obtain ⟨rfl, rfl⟩ := Prod.mk.inj (Except.ok.inj hout)
      exact ⟨⟨hv, hws⟩, by rw [encodeFields, List.append_assoc]⟩
    · rintro ⟨⟨hv, hvs⟩, rfl⟩
      rw [encodeFields, List.append_assoc] at hb
      refine ⟨vs.1, encodeFields ts vs.2 ++ rest, hv, by rw [encodeFields, List.append_assoc], ?_⟩
      rw [(reads_decodeFields ts).bind_eq_ok (length_rest_lt hb rfl)]
      exact ⟨vs.2, rest, hvs, rfl, rfl⟩

end

lemma tryFromSlice_eq_ok {t : Ty} {data : Bytes} {v : t.Val} :
    tryFromSlice t data = .ok v ↔ ofState (decode t) data = .ok (v, []) := by
  rw [tryFromSlice, ofState]
  rcases (decode t).run data with ⟨w, rest⟩ | ⟨e, rest⟩
  · cases rest with
    | nil => simp
    | cons x rest => simp
  · simp

/-- **Rust and Go agree.**  The values of a type of Rust are the Go values with valid strings.  Both
encoders write the same bytes for them.  On slices shorter than `2 ^ 32`, the decoder of Rust
returns a value exactly if that of Go does.  The shortcuts for byte vectors write what the loop
over the elements writes, and read the same value and leave the same rest, or fail with the same
error. -/
theorem rust_agrees_with_go (t : Ty) :
    (Function.Injective t.goValue ∧
      Set.range t.goValue = {g | t.toGo.Has g ∧ g.ValidStrings}) ∧
    (∀ v : t.Val, ∃ data, tryToVec t v = .ok data ∧ Obi.encode (t.goValue v) = .ok data) ∧
    (∀ data : Bytes, data.length < 2 ^ 32 → ∀ v : t.Val,
      tryFromSlice t data = .ok v ↔ Obi.decode t.toGo data = .ok (t.goValue v)) ∧
    (∀ vs : List UInt8, encode (.vec .u8) vs = encodeLen vs.length ++ vs.flatMap (encode .u8)) ∧
    ∀ buf : Bytes, ofState decodeVecU8 buf = ofState (decodeVec none false decodeU8) buf := by
  refine ⟨⟨fun v w => goValue_inj t, Set.ext fun g => exists_goValue_iff t⟩, fun v => ?_,
    fun data hlen v => ?_, fun vs => ?_, fun buf => ofState_decodeVec .u8 buf⟩
  · refine ⟨_, rfl, ?_⟩
    rw [encode_of_has (has_goValue t v), encoding_goValue]
  · rw [tryFromSlice_eq_ok, decode_eq_ok, reads_decode t _ hlen, reads_decodeImpl t.toGo _ hlen,
      encoding_goValue]
    exact and_congr_left fun _ => (and_iff_right (has_goValue t v)).symm
  · have hbytes : (vs.flatMap fun v => [v]) = vs := List.flatMap_singleton' vs
    have hmap : vs.map (Equiv.refl UInt8) = vs := List.map_id vs
    show encodeLen vs.length ++ vs.map (Equiv.refl UInt8) =
      encodeLen vs.length ++ vs.flatMap fun v => [v]
    rw [hbytes, hmap]

/-- After a failure the shortcut has read the length only, the loop has read all bytes. -/
theorem not_decodeVecU8_run_eq :
    ¬∀ buf : Bytes, decodeVecU8.run buf = (decodeVec none false decodeU8).run buf := by
  intro h
  have hrest : finalState (decodeVecU8.run [0, 0, 0, 2, 7]) =
      finalState ((decodeVec none false decodeU8).run [0, 0, 0, 2, 7]) := by
    rw [h]
  exact absurd hrest (by decide)

end Rust

end Bandchain.Obi
