import Bandchain.Obi.RoundTrip
import Bandchain.Obi.Spec

/-!
# The encoding of a value in range

The bytes that Go writes for the counterpart of a value, by recursion over the schema.
-/

namespace Bandchain.Obi

mutual

/-- The bytes of a value: integers in two's complement, and the lengths of texts in bytes. -/
def Spec.canonical : Spec → Data → Bytes
  | .integer _ size, .int n => Bytes.be size (n % 256 ^ size).toNat
  | .vector elem, .list vs => Bytes.be 4 vs.length ++ vs.flatMap elem.canonical
  | .struct kvs, .object get => canonicalFields kvs get
  | .string, .str s => Bytes.be 4 (Text.utf8 s).length ++ Text.utf8 s
  | .bytes, .bytes b => Bytes.be 4 b.length ++ b
  | _, _ => []

def canonicalFields : List (SchemaText × Spec) → (SchemaText → Option Data) → Bytes
  | [], _ => []
  | (k, spec) :: kvs, get => ((get k).map spec.canonical).getD [] ++ canonicalFields kvs get

end

/-! ## Leaves -/

lemma toNat_ofInt (size : ℕ) (n : ℤ) :
    (BitVec.ofInt (8 * size) n).toNat = (n % 256 ^ size).toNat := by
  rw [BitVec.toNat_ofInt, pow_mul]
  norm_num

lemma exists_int_of_inRange {isSigned : Bool} {size : ℕ} {v : Data}
    (h : (Spec.integer isSigned size).InRange v) : ∃ n, .int n = v := by
  cases isSigned
  · obtain ⟨n, hn, -⟩ := h
    exact ⟨n, hn⟩
  · obtain ⟨n, hn, -⟩ := h
    exact ⟨n, hn⟩

/-- An integer of Go is written in two's complement. -/
lemma encode_integerValue {isSigned : Bool} {size : ℕ} {t : Ty}
    (h : integerTy isSigned size = some t) (n : ℤ) :
    t.Has (integerValue isSigned size n) ∧ encode (integerValue isSigned size n) =
      .ok (Bytes.be size (n % 256 ^ size).toNat) := by
  rw [← toNat_ofInt size n]
  unfold integerTy at h
  split at h
  case h_9 => cases h
  all_goals
    obtain rfl := Option.some.inj h
    exact ⟨⟨_, rfl⟩, rfl⟩

/-- An integer with one byte and no sign is the only counterpart of a byte. -/
lemma isUint8_of_goTy {spec : Spec} {t : Ty} (h : spec.goTy = some t) :
    t.isUint8 = true ↔ spec = .integer false 1 := by
  constructor
  · intro ht
    cases t <;> cases ht
    cases spec with
    | integer isSigned size =>
      rw [Spec.goTy] at h
      unfold integerTy at h
      split at h <;> first | rfl | cases h
    | vector elem =>
      obtain ⟨_, _, ⟨⟩⟩ := Option.map_eq_some_iff.mp h
    | struct kvs =>
      obtain ⟨_, _, ⟨⟩⟩ := Option.map_eq_some_iff.mp h
    | string => cases h
    | bytes => cases h
  · rintro rfl
    obtain rfl := Option.some.inj h
    rfl

/-- A slice of anything but bytes. -/
lemma sliceValue_of_ne {elem : Spec} (h : elem ≠ .integer false 1) (vs : List Value) :
    sliceValue vs elem = .slice vs := by
  unfold sliceValue
  split
  · exact absurd rfl h
  · rfl

lemma encoding_eq {v : Value} {b : Bytes} (h : encode v = .ok b) : encoding v = b := by
  rw [encoding, h]
  rfl

/-- The byte string of Go for a list of bytes. -/
lemma map_integerValue {vs : List Data} (h : ∀ x ∈ vs, (Spec.integer false 1).InRange x) :
    (vs.map (Spec.integer false 1).goValue).map byteOf =
      vs.flatMap (Spec.integer false 1).canonical := by
  induction vs with
  | nil => rfl
  | cons v vs ih =>
    obtain ⟨⟨n, rfl, -, -⟩, hvs⟩ := List.forall_mem_cons.mp h
    have hbyte : Bytes.be 1 (n % 256 ^ 1).toNat = [UInt8.ofBitVec (.ofInt 8 n)] := by
      rw [← toNat_ofInt 1 n]
      exact congrArg (fun x => [x]) UInt8.ofNat_toNat
    rw [List.map_cons, List.map_cons, ih hvs, List.flatMap_cons, Spec.canonical, hbyte]
    rfl

lemma encode_bytesValue {vs : List Data} (hlen : vs.length < 2 ^ 32)
    (hvs : ∀ x ∈ vs, (Spec.integer false 1).InRange x) :
    encode ((Spec.vector (.integer false 1)).goValue (.list vs)) =
      .ok ((Spec.vector (.integer false 1)).canonical (.list vs)) := by
  rw [Spec.goValue, sliceValue, encode, encodeBytes, encodeUnsigned32, List.length_map,
    List.length_map, UInt32.toNat_ofNat_of_lt' hlen, Spec.canonical, map_integerValue hvs]

/-! ## Trees -/

mutual

/-- The counterpart of a value in range has the counterpart of the type, and Go writes the
canonical bytes for it. -/
lemma encode_goValue : ∀ {spec : Spec} {t : Ty} {v : Data}, spec.goTy = some t → spec.InRange v →
    t.Has (spec.goValue v) ∧ encode (spec.goValue v) = .ok (spec.canonical v)
  | .integer isSigned size, t, v, ht, hv => by
    obtain ⟨n, rfl⟩ := exists_int_of_inRange hv
    exact encode_integerValue ht n
  | .vector elem, t, v, ht, hv => by
    obtain ⟨vs, rfl, hlen, hvs⟩ := hv
    obtain ⟨u, hu, rfl⟩ := Option.map_eq_some_iff.mp ht
    rw [Ty.Has]
    by_cases h : elem = .integer false 1
    · subst h
      rw [if_pos ((isUint8_of_goTy hu).mpr rfl)]
      exact ⟨⟨_, rfl⟩, encode_bytesValue hlen hvs⟩
    · rw [if_neg (mt (isUint8_of_goTy hu).mp h), Spec.goValue, sliceValue_of_ne h]
      have hall : ∀ x ∈ vs.map elem.goValue, u.Has x ∧ encode x = .ok (encoding x) := by
        intro x hx
        obtain ⟨y, hy, rfl⟩ := List.mem_map.mp hx
        obtain ⟨hhas, henc⟩ := encode_goValue hu (hvs y hy)
        exact ⟨hhas, encode_of_has hhas⟩
      refine ⟨⟨_, fun x hx => (hall x hx).1, rfl⟩, ?_⟩
      rw [encode_slice fun x hx => (hall x hx).2, List.length_map, List.flatMap_map,
        encodeUnsigned32, UInt32.toNat_ofNat_of_lt' hlen, Spec.canonical]
      congr 2
      exact List.flatMap_congr fun x hx => encoding_eq (encode_goValue hu (hvs x hx)).2
  | .struct kvs, t, v, ht, hv => by
    obtain ⟨get, rfl, hget, -⟩ := hv
    obtain ⟨ts, hts, rfl⟩ := Option.map_eq_some_iff.mp ht
    obtain ⟨hhas, henc⟩ := encodeAll_goFields hts hget
    exact ⟨⟨_, hhas, rfl⟩, henc⟩
  | .string, t, v, ht, hv => by
    obtain ⟨s, rfl, hlen⟩ := hv
    obtain rfl := Option.some.inj ht
    refine ⟨⟨_, rfl⟩, ?_⟩
    rw [Spec.goValue, encode, encodeString, encodeUnsigned32, UInt32.toNat_ofNat_of_lt' hlen]
    rfl
  | .bytes, t, v, ht, hv => by
    obtain ⟨b, rfl, hlen⟩ := hv
    obtain rfl := Option.some.inj ht
    refine ⟨⟨_, rfl⟩, ?_⟩
    rw [Spec.goValue, encode, encodeBytes, encodeUnsigned32, UInt32.toNat_ofNat_of_lt' hlen]
    rfl

lemma encodeAll_goFields : ∀ {kvs : List (SchemaText × Spec)} {ts : List Ty}
    {get : SchemaText → Option Data}, goTys kvs = some ts → FieldsInRange kvs get →
    HasFields ts (goFields kvs get) ∧
      encodeAll (goFields kvs get) = .ok (canonicalFields kvs get)
  | [], ts, get, ht, _ => by
    obtain rfl := Option.some.inj ht
    exact ⟨rfl, rfl⟩
  | (k, spec) :: kvs, ts, get, ht, hv => by
    obtain ⟨⟨x, hx, hin⟩, hrest⟩ := hv
    obtain ⟨t, hspec, ht⟩ := Option.bind_eq_some_iff.mp ht
    obtain ⟨ts, hkvs, ht⟩ := Option.bind_eq_some_iff.mp ht
    obtain rfl := Option.some.inj ht
    obtain ⟨hhas, henc⟩ := encode_goValue hspec hin
    obtain ⟨hhas', henc'⟩ := encodeAll_goFields hkvs hrest
    rw [goFields, canonicalFields, hx]
    refine ⟨⟨_, _, hhas, hhas', rfl⟩, ?_⟩
    rw [Option.map_some, Option.getD_some, encodeAll, henc, henc']
    rfl

end

/-! ## The way back -/

lemma numberOf_integerValue_of_inRange {isSigned : Bool} {size : ℕ} {t : Ty}
    (h : integerTy isSigned size = some t) {n : ℤ}
    (hn : (Spec.integer isSigned size).InRange (.int n)) :
    numberOf (integerValue isSigned size n) = n := by
  have hunsigned : ∀ w, 0 ≤ n → n < 2 ^ w → ((BitVec.ofInt w n).toNat : ℤ) = n := by
    intro w hlow hhigh
    rw [BitVec.toNat_ofInt]
    push_cast
    rw [Int.emod_eq_of_lt hlow hhigh, Int.toNat_of_nonneg hlow]
  unfold integerTy at h
  split at h
  case h_9 => cases h
  all_goals
    obtain ⟨m, hm, hlow, hhigh⟩ := hn
    obtain rfl := Data.int.inj hm
  · exact hunsigned 8 hlow hhigh
  · exact hunsigned 16 hlow hhigh
  · exact hunsigned 32 hlow hhigh
  · exact hunsigned 64 hlow hhigh
  · exact BitVec.toInt_ofInt_eq_self (by decide) hlow hhigh
  · exact BitVec.toInt_ofInt_eq_self (by decide) hlow hhigh
  · exact BitVec.toInt_ofInt_eq_self (by decide) hlow hhigh
  · exact BitVec.toInt_ofInt_eq_self (by decide) hlow hhigh

mutual

/-- The counterpart of a value in range shows the value again. -/
lemma view_goValue : ∀ {spec : Spec} {t : Ty} {v : Data}, spec.goTy = some t → spec.InRange v →
    spec.view (spec.goValue v) = v
  | .integer isSigned size, t, v, ht, hv => by
    obtain ⟨n, rfl⟩ := exists_int_of_inRange hv
    rw [Spec.goValue, Spec.view, numberOf_integerValue_of_inRange ht hv]
  | .vector elem, t, v, ht, hv => by
    obtain ⟨vs, rfl, -, hvs⟩ := hv
    obtain ⟨u, hu, rfl⟩ := Option.map_eq_some_iff.mp ht
    by_cases h : elem = .integer false 1
    · subst h
      rw [Spec.goValue, sliceValue, Spec.view, List.map_map, List.map_map]
      have hback : ∀ x ∈ vs, Data.int (byteOf ((Spec.integer false 1).goValue x)).toNat = x := by
        intro x hx
        obtain ⟨n, rfl⟩ := exists_int_of_inRange (hvs x hx)
        exact congrArg Data.int (numberOf_integerValue_of_inRange hu (hvs _ hx))
      exact congrArg Data.list ((List.map_congr_left hback).trans (List.map_id vs))
    · rw [Spec.goValue, sliceValue_of_ne h, Spec.view, List.map_map]
      have hback : ∀ x ∈ vs, elem.view (elem.goValue x) = x :=
        fun x hx => view_goValue hu (hvs x hx)
      exact congrArg Data.list ((List.map_congr_left hback).trans (List.map_id vs))
  | .struct kvs, t, v, ht, hv => by
    obtain ⟨get, rfl, hget, hnone⟩ := hv
    obtain ⟨ts, hts, rfl⟩ := Option.map_eq_some_iff.mp ht
    rw [Spec.goValue, Spec.view]
    congr 1
    funext k
    rw [viewFields_goFields hts hget]
    split_ifs with hk
    · rfl
    · exact (hnone k hk).symm
  | .string, t, v, ht, hv => by
    obtain ⟨s, rfl, -⟩ := hv
    rw [Spec.goValue, Spec.view, Text.ofUtf8_utf8, Option.getD_some]
  | .bytes, t, v, ht, hv => by
    obtain ⟨b, rfl, -⟩ := hv
    rfl

lemma viewFields_goFields : ∀ {kvs : List (SchemaText × Spec)} {ts : List Ty}
    {get : SchemaText → Option Data}, goTys kvs = some ts → FieldsInRange kvs get →
    ∀ acc k, viewFields kvs (goFields kvs get) acc k = if k ∈ fieldNames kvs then get k else acc k
  | [], ts, get, _, _, acc, k => by simp [viewFields, fieldNames]
  | (k, spec) :: kvs, ts, get, ht, hv, acc, j => by
    obtain ⟨⟨x, hx, hin⟩, hrest⟩ := hv
    obtain ⟨t, hspec, ht⟩ := Option.bind_eq_some_iff.mp ht
    obtain ⟨ts, hkvs, ht⟩ := Option.bind_eq_some_iff.mp ht
    rw [goFields, hx, Option.map_some, Option.getD_some, viewFields, view_goValue hspec hin,
      viewFields_goFields hkvs hrest]
    by_cases hj : j = k
    · subst hj
      simp [hx]
    · simp [hj]

end

end Bandchain.Obi
