import Bandchain.Obi.Canonical
import Bandchain.Obi.JavaScript

/-!
# The JavaScript codec

When a value comes back from `obi.js`, and when `obi.js` writes the bytes of Go.
-/

namespace Bandchain.Obi.JavaScript

/-- No integer is negative, every text is ASCII, and no property is called `__proto__`. -/
inductive Plain : Data → Prop
  | int {n : ℤ} : 0 ≤ n → Plain (.int n)
  | str {s : String} : Text.IsAscii s → Plain (.str s)
  | bytes (b : Bytes) : Plain (.bytes b)
  | list {vs : List Data} : (∀ v ∈ vs, Plain v) → Plain (.list vs)
  | object {get : SchemaText → Option Data} : get "__proto__".toList = none →
      (∀ k v, get k = some v → Plain v) → Plain (.object get)

/-! ## Integers -/

@[simp] lemma length_encodeInteger (size : ℕ) (n : ℤ) : (encodeInteger size n).length = size := by
  rw [encodeInteger, List.length_reverse]
  induction size generalizing n with
  | zero => rfl
  | succ size ih => rw [digits, List.length_cons, ih]

/-- The loop writes a number that is not negative as Go does. -/
lemma encodeInteger_ofNat (size n : ℕ) : encodeInteger size n = Bytes.be size n := by
  rw [encodeInteger]
  induction size generalizing n with
  | zero => rfl
  | succ size ih =>
    have hbyte : UInt8.ofInt ((n : ℤ).tmod 256) = UInt8.ofNat n := by
      apply UInt8.toNat_inj.mp
      show (UInt8.ofNat (((n % 256 : ℕ) : ℤ) % 256).toNat).toNat = _
      rw [UInt8.toNat_ofNat', UInt8.toNat_ofNat']
      omega
    have hdiv : (n : ℤ).tdiv 256 = ((n / 256 : ℕ) : ℤ) := rfl
    rw [digits, List.reverse_cons, hbyte, hdiv, ih, Bytes.be]

/-- The state of the loop after reading the last `i` of `size` bytes. -/
lemma foldlM_addByte {size : ℕ} {b : Bytes} (hb : size ≤ b.length) {i : ℕ} (hi : i ≤ size) :
    (List.range i).foldlM (addByte size b) (0, 1) =
      .ok ((Bytes.ofBe ((b.take size).drop (size - i)) : ℤ), 256 ^ i) := by
  induction i with
  | zero =>
    rw [List.drop_eq_nil_of_le (by simp)]
    rfl
  | succ i ih =>
    have hlt : size - i - 1 < b.length := by omega
    have hdrop : (b.take size).drop (size - (i + 1)) =
        b[size - i - 1] :: (b.take size).drop (size - i) := by
      rw [List.drop_eq_getElem_cons (by simp; omega), List.getElem_take]
      congr 2
      omega
    have hlen : ((b.take size).drop (size - i)).length = i := by
      rw [List.length_drop, List.length_take]
      omega
    rw [List.range_succ, List.foldlM_append, ih (by omega), hdrop, Bytes.ofBe_cons, hlen]
    show (List.foldlM (addByte size b) _ [i]) = _
    rw [List.foldlM_cons, addByte, readUInt8, List.getElem?_eq_getElem hlt]
    show Except.ok _ = _
    push_cast
    congr 2
    ring

lemma decodeInteger_eq (size : ℕ) (b : Bytes) :
    decodeInteger size b = if b.length < size then .error "ERR_OUT_OF_RANGE"
      else .ok ((Bytes.ofBe (b.take size) : ℤ), b.drop size) := by
  split_ifs with h
  · obtain ⟨k, rfl⟩ := Nat.exists_eq_add_one.mpr (Nat.zero_lt_of_lt h)
    have hbyte : addByte (k + 1) b (0, 1) 0 = .error "ERR_OUT_OF_RANGE" := by
      rw [addByte, readUInt8, List.getElem?_eq_none (by omega)]
      rfl
    rw [decodeInteger, List.range_succ_eq_map, List.foldlM_cons, hbyte]
    rfl
  · rw [decodeInteger, foldlM_addByte (not_lt.mp h) le_rfl, Nat.sub_self]
    rfl

lemma decodeInteger_append {size : ℕ} {a : Bytes} (h : a.length = size) (rest : Bytes) :
    decodeInteger size (a ++ rest) = .ok ((Bytes.ofBe a : ℤ), rest) := by
  rw [decodeInteger_eq, if_neg (by rw [List.length_append]; omega), ← h, List.take_left,
    List.drop_left]

/-- The length of a text or a list comes back. -/
lemma decodeInteger_length {n : ℕ} (h : n < 2 ^ 32) (rest : Bytes) :
    decodeInteger 4 (encodeInteger 4 n ++ rest) = .ok ((n : ℤ), rest) := by
  rw [decodeInteger_append (length_encodeInteger 4 n), encodeInteger_ofNat, Bytes.ofBe_be h]

/-- A number that fits and is not negative. -/
lemma exists_nat_of_inRange {isSigned : Bool} {size : ℕ} {v : Data}
    (h : (Spec.integer isSigned size).InRange v) (hv : Plain v) :
    ∃ m : ℕ, .int m = v ∧ m < 256 ^ size := by
  have hsize : (2 : ℤ) ^ (8 * size - 1) ≤ 256 ^ size := by
    rw [show (256 : ℤ) = 2 ^ 8 by norm_num, ← pow_mul]
    exact pow_le_pow_right₀ (by norm_num) (by omega)
  cases isSigned
  all_goals
    obtain ⟨n, rfl, hlow, hhigh⟩ := h
    cases hv with
    | int hn =>
      obtain ⟨m, rfl⟩ := Int.eq_ofNat_of_zero_le hn
      refine ⟨m, rfl, ?_⟩
      zify
      omega

/-! ## Plain values come back -/

section Sufficient

variable (node : Node)

lemma decode_list {elem : Spec} {vs : List Data}
    (h : ∀ x ∈ vs, ∀ rest, decode node elem (elem.canonical x ++ rest) = .ok (x, rest))
    (rest : Bytes) :
    Codec.readMany (decode node elem) vs.length (vs.flatMap elem.canonical ++ rest) =
      .ok (vs, rest) := by
  induction vs with
  | nil => rfl
  | cons v vs ih =>
    obtain ⟨hv, hvs⟩ := List.forall_mem_cons.mp h
    rw [List.flatMap_cons, List.append_assoc, List.length_cons, Codec.readMany, hv]
    show (Codec.readMany (decode node elem) vs.length _).bind _ = _
    rw [ih hvs]
    rfl

lemma encode_list {elem : Spec} {vs : List Data}
    (h : ∀ x ∈ vs, encode elem x = .ok (elem.canonical x)) :
    vs.mapM (encode elem) = .ok (vs.map elem.canonical) := by
  induction vs with
  | nil => rfl
  | cons v vs ih =>
    obtain ⟨hv, hvs⟩ := List.forall_mem_cons.mp h
    rw [List.mapM_cons, hv, ih hvs]
    rfl

mutual

/-- A plain value in range has the canonical bytes, and comes back from them. -/
lemma decode_canonical : ∀ {spec : Spec} {v : Data}, spec.InRange v → Plain v →
    encode spec v = .ok (spec.canonical v) ∧
      ∀ rest, decode node spec (spec.canonical v ++ rest) = .ok (v, rest)
  | .integer isSigned size, v, hv, hplain => by
    obtain ⟨m, rfl, hm⟩ := exists_nat_of_inRange hv hplain
    have hcan : (Spec.integer isSigned size).canonical (.int m) = Bytes.be size m := by
      rw [Spec.canonical]
      exact Bytes.be_mod size m
    rw [hcan]
    refine ⟨congrArg Except.ok (encodeInteger_ofNat size m), fun rest => ?_⟩
    rw [decode, decodeInteger_append (Bytes.length_be size m), Bytes.ofBe_be hm]
    rfl
  | .vector elem, v, hv, hplain => by
    obtain ⟨vs, rfl, hlen, hvs⟩ := hv
    cases hplain with
    | list hplain =>
      have hall := fun x hx => decode_canonical (hvs x hx) (hplain x hx)
      rw [encode, encode_list fun x hx => (hall x hx).1, Spec.canonical]
      refine ⟨?_, fun rest => ?_⟩
      · rw [List.flatMap_def, ← encodeInteger_ofNat]
        rfl
      · rw [decode, List.append_assoc, ← encodeInteger_ofNat, decodeInteger_length hlen]
        show (Codec.readMany (decode node elem) vs.length _).bind _ = _
        rw [decode_list node fun x hx => (hall x hx).2]
        rfl
  | .struct kvs, v, hv, hplain => by
    obtain ⟨get, rfl, hget, hnone⟩ := hv
    cases hplain with
    | object hproto hplain =>
      obtain ⟨henc, hdec⟩ := decodeFields_canonical hget hproto hplain
      refine ⟨henc, fun rest => ?_⟩
      rw [decode, Spec.canonical, hdec]
      have hget : (fun k => if k ∈ fieldNames kvs then get k else none) = get := by
        funext k
        split_ifs with hk
        · rfl
        · exact (hnone k hk).symm
      show Except.ok (Data.object _, rest) = _
      rw [hget]
  | .string, v, hv, hplain => by
    obtain ⟨s, rfl, hlen⟩ := hv
    cases hplain with
    | str hascii =>
      have hutf16 := (Text.utf16Length_eq_iff s).2.mpr hascii
      rw [encode, hutf16, encodeInteger_ofNat]
      refine ⟨rfl, fun rest => ?_⟩
      rw [decode, Spec.canonical, List.append_assoc, ← encodeInteger_ofNat,
        decodeInteger_length hlen]
      show Except.ok (Data.str (node.toString (List.take (Text.utf8 s).length _)),
        List.drop (Text.utf8 s).length _) = _
      rw [List.take_left, List.drop_left, node.toString_utf8]
  | .bytes, v, hv, _ => by
    obtain ⟨b, rfl, hlen⟩ := hv
    rw [encode, encodeInteger_ofNat]
    refine ⟨rfl, fun rest => ?_⟩
    rw [decode, Spec.canonical, List.append_assoc, ← encodeInteger_ofNat, decodeInteger_length hlen]
    show Except.ok (Data.bytes (List.take b.length _), List.drop b.length _) = _
    rw [List.take_left, List.drop_left]

lemma decodeFields_canonical : ∀ {kvs : List (SchemaText × Spec)} {get : SchemaText → Option Data},
    FieldsInRange kvs get → get "__proto__".toList = none →
    (∀ k v, get k = some v → Plain v) →
    encodeFields kvs get = .ok (canonicalFields kvs get) ∧
      ∀ acc rest, decodeFields node kvs acc (canonicalFields kvs get ++ rest) =
        .ok (fun k => if k ∈ fieldNames kvs then get k else acc k, rest)
  | [], get, _, _, _ => ⟨rfl, fun acc rest => rfl⟩
  | (k, spec) :: kvs, get, hget, hproto, hplain => by
    obtain ⟨⟨x, hx, hin⟩, hget⟩ := hget
    obtain ⟨henc, hdec⟩ := decode_canonical hin (hplain k x hx)
    obtain ⟨hencs, hdecs⟩ := decodeFields_canonical hget hproto hplain
    have hk : k ≠ "__proto__".toList := by
      rintro rfl
      rw [hproto] at hx
      cases hx
    refine ⟨?_, fun acc rest => ?_⟩
    · rw [encodeFields, hx, canonicalFields, hx]
      show (encode spec x).bind _ = _
      rw [henc, hencs]
      rfl
    · rw [canonicalFields, hx, Option.map_some, Option.getD_some, List.append_assoc, decodeFields,
        hdec]
      show decodeFields node kvs _ _ = _
      rw [hdecs, assign, if_neg hk]
      congr 2
      funext j
      by_cases hj : j = k
      · subst hj
        simp [hx]
      · simp [hj]

end

end Sufficient

/-! ## Nothing else comes back -/

section Necessary

variable (node : Node)

lemma decodeInteger_eq_ok {size : ℕ} {b rem : Bytes} {n : ℤ}
    (h : decodeInteger size b = .ok (n, rem)) :
    size ≤ b.length ∧ n = Bytes.ofBe (b.take size) ∧ rem = b.drop size := by
  rw [decodeInteger_eq] at h
  split_ifs at h with hlen
  obtain ⟨rfl, rfl⟩ := Prod.mk.inj (Except.ok.inj h)
  exact ⟨not_lt.mp hlen, rfl, rfl⟩

lemma assign_proto (value : SchemaText → Option Data) (k : SchemaText) (x : Data) :
    assign value k x "__proto__".toList = value "__proto__".toList := by
  rw [assign]
  split_ifs with hk
  · rfl
  · exact Function.update_of_ne (Ne.symm hk) _ _

/-- The loop over the fields keeps the properties with other names. -/
lemma decodeFields_of_notMem : ∀ {kvs : List (SchemaText × Spec)}
    {acc get : SchemaText → Option Data} {b rem : Bytes} {k : SchemaText},
    decodeFields node kvs acc b = .ok (get, rem) → k ∉ fieldNames kvs → get k = acc k
  | [], acc, get, b, rem, k, h, _ => by
    obtain ⟨rfl, rfl⟩ := Prod.mk.inj (Except.ok.inj h)
    rfl
  | (j, spec) :: kvs, acc, get, b, rem, k, h, hk => by
    rw [mem_fieldNames_cons, not_or] at hk
    rw [decodeFields] at h
    obtain ⟨⟨x, mid⟩, hx, h⟩ := Exec.except_bind_eq_ok.mp h
    rw [decodeFields_of_notMem h hk.2, assign]
    split_ifs
    · rfl
    · exact Function.update_of_ne hk.1 _ _

/-- The loop over the fields never makes a property `__proto__`. -/
lemma decodeFields_proto : ∀ {kvs : List (SchemaText × Spec)}
    {acc get : SchemaText → Option Data} {b rem : Bytes},
    decodeFields node kvs acc b = .ok (get, rem) →
    get "__proto__".toList = acc "__proto__".toList
  | [], acc, get, b, rem, h => by
    obtain ⟨rfl, rfl⟩ := Prod.mk.inj (Except.ok.inj h)
    rfl
  | (j, spec) :: kvs, acc, get, b, rem, h => by
    rw [decodeFields] at h
    obtain ⟨⟨x, mid⟩, hx, h⟩ := Exec.except_bind_eq_ok.mp h
    rw [decodeFields_proto h, assign_proto]

/-- A field that is read is the last with its name, and the property has the value. -/
lemma get_of_decodeFields {k : SchemaText} {kvs : List (SchemaText × Spec)}
    {acc get : SchemaText → Option Data} {b rem : Bytes} {x y : Data}
    (hk : k ∉ fieldNames kvs) (hacc : acc "__proto__".toList = none) (hy : get k = some y)
    (h : decodeFields node kvs (assign acc k x) b = .ok (get, rem)) : x = y := by
  rw [decodeFields_of_notMem node h hk, assign] at hy
  split_ifs at hy with hproto
  · rw [hproto, hacc] at hy
    cases hy
  · rw [Function.update_self] at hy
    exact Option.some.inj hy

mutual

/-- What is read for a value in range is not longer than its canonical bytes. -/
lemma length_le_of_decode : ∀ {spec : Spec} {v : Data} {b rem : Bytes}, spec.NamesDistinct →
    spec.InRange v → decode node spec b = .ok (v, rem) →
    b.length ≤ rem.length + (spec.canonical v).length
  | .integer isSigned size, v, b, rem, _, hv, h => by
    rw [decode] at h
    obtain ⟨⟨n, rem'⟩, hn, h⟩ := Exec.except_bind_eq_ok.mp h
    obtain ⟨rfl, rfl⟩ := Prod.mk.inj (Except.ok.inj h)
    obtain ⟨hlen, -, rfl⟩ := decodeInteger_eq_ok hn
    rw [Spec.canonical, Bytes.length_be, List.length_drop]
    omega
  | .vector elem, v, b, rem, hnames, hv, h => by
    obtain ⟨vs, rfl, -, hvs⟩ := hv
    have helem : elem.NamesDistinct := hnames
    rw [decode] at h
    obtain ⟨⟨n, mid⟩, hn, h⟩ := Exec.except_bind_eq_ok.mp h
    obtain ⟨⟨vs', rem'⟩, hmany, h⟩ := Exec.except_bind_eq_ok.mp h
    obtain ⟨hlist, rfl⟩ := Prod.mk.inj (Except.ok.inj h)
    obtain rfl := Data.list.inj hlist
    obtain ⟨hlen, -, rfl⟩ := decodeInteger_eq_ok hn
    have hle := Codec.length_le_of_readMany elem.canonical
      (fun hx hread => length_le_of_decode helem hx hread) hvs hmany
    rw [Spec.canonical, List.length_append, Bytes.length_be]
    rw [List.length_drop] at hle
    omega
  | .struct kvs, v, b, rem, hnames, hv, h => by
    obtain ⟨get, rfl, hget, -⟩ := hv
    rw [decode] at h
    obtain ⟨⟨get', rem'⟩, hfields, h⟩ := Exec.except_bind_eq_ok.mp h
    obtain ⟨hobject, rfl⟩ := Prod.mk.inj (Except.ok.inj h)
    obtain rfl := Data.object.inj hobject
    exact length_le_of_decodeFields hnames.1 hnames.2 hget rfl hfields
  | .string, v, b, rem, _, hv, h => by
    obtain ⟨s, rfl, -⟩ := hv
    rw [decode] at h
    obtain ⟨⟨n, mid⟩, hn, h⟩ := Exec.except_bind_eq_ok.mp h
    obtain ⟨htext, rfl⟩ := Prod.mk.inj (Except.ok.inj h)
    obtain rfl := Data.str.inj htext
    obtain ⟨hlen, -, rfl⟩ := decodeInteger_eq_ok hn
    have hle := node.length_le ((b.drop 4).take n.toNat)
    rw [List.length_take, List.length_drop] at hle
    rw [Spec.canonical, List.length_append, Bytes.length_be, List.length_drop, List.length_drop]
    omega
  | .bytes, v, b, rem, _, hv, h => by
    obtain ⟨c, rfl, -⟩ := hv
    rw [decode] at h
    obtain ⟨⟨n, mid⟩, hn, h⟩ := Exec.except_bind_eq_ok.mp h
    obtain ⟨hbytes, rfl⟩ := Prod.mk.inj (Except.ok.inj h)
    obtain rfl := Data.bytes.inj hbytes
    obtain ⟨hlen, -, rfl⟩ := decodeInteger_eq_ok hn
    rw [Spec.canonical, List.length_append, Bytes.length_be, List.length_take, List.length_drop,
      List.length_drop]
    omega

lemma length_le_of_decodeFields : ∀ {kvs : List (SchemaText × Spec)}
    {acc get : SchemaText → Option Data} {b rem : Bytes}, (fieldNames kvs).Nodup →
    FieldsNamesDistinct kvs → FieldsInRange kvs get → acc "__proto__".toList = none →
    decodeFields node kvs acc b = .ok (get, rem) →
    b.length ≤ rem.length + (canonicalFields kvs get).length
  | [], acc, get, b, rem, _, _, _, _, h => by
    obtain ⟨rfl, rfl⟩ := Prod.mk.inj (Except.ok.inj h)
    exact Nat.le_add_right _ _
  | (k, spec) :: kvs, acc, get, b, rem, hnodup, hnames, hget, hacc, h => by
    obtain ⟨hk, hnodup⟩ := List.nodup_cons.mp hnodup
    obtain ⟨⟨y, hy, hin⟩, hget⟩ := hget
    rw [decodeFields] at h
    obtain ⟨⟨x, mid⟩, hx, h⟩ := Exec.except_bind_eq_ok.mp h
    obtain rfl := get_of_decodeFields node hk hacc hy h
    have hacc' := (assign_proto acc k x).trans hacc
    have hhead := length_le_of_decode hnames.1 hin hx
    have htail := length_le_of_decodeFields hnodup hnames.2 hget hacc' h
    rw [canonicalFields, hy, Option.map_some, Option.getD_some, List.length_append]
    omega

end

lemma exists_encode_list {elem : Spec} {vs : List Data}
    (h : ∀ x ∈ vs, ∃ enc, encode elem x = .ok enc ∧ enc.length = (elem.canonical x).length) :
    ∃ items, vs.mapM (encode elem) = .ok items ∧
      items.flatten.length = (vs.flatMap elem.canonical).length := by
  induction vs with
  | nil => exact ⟨[], rfl, rfl⟩
  | cons v vs ih =>
    obtain ⟨⟨enc, henc, hlen⟩, hvs⟩ := List.forall_mem_cons.mp h
    obtain ⟨items, hitems, hlens⟩ := ih hvs
    refine ⟨enc :: items, ?_, ?_⟩
    · rw [List.mapM_cons, henc, hitems]
      rfl
    · rw [List.flatten_cons, List.flatMap_cons, List.length_append, List.length_append, hlen, hlens]

mutual

/-- A value in range has an encoding, as long as the canonical one. -/
lemma exists_encode : ∀ {spec : Spec} {v : Data}, spec.InRange v →
    ∃ enc, encode spec v = .ok enc ∧ enc.length = (spec.canonical v).length
  | .integer isSigned size, v, hv => by
    obtain ⟨n, rfl⟩ := exists_int_of_inRange hv
    exact ⟨_, rfl, by rw [length_encodeInteger, Spec.canonical, Bytes.length_be]⟩
  | .vector elem, v, hv => by
    obtain ⟨vs, rfl, -, hvs⟩ := hv
    obtain ⟨items, hitems, hlen⟩ := exists_encode_list fun x hx => exists_encode (hvs x hx)
    refine ⟨encodeInteger 4 vs.length ++ items.flatten, ?_, ?_⟩
    · rw [encode, hitems]
      rfl
    · rw [Spec.canonical, List.length_append, List.length_append, hlen, length_encodeInteger,
        Bytes.length_be]
  | .struct kvs, v, hv => by
    obtain ⟨get, rfl, hget, -⟩ := hv
    exact exists_encodeFields hget
  | .string, v, hv => by
    obtain ⟨s, rfl, -⟩ := hv
    refine ⟨_, rfl, ?_⟩
    rw [Spec.canonical, List.length_append, List.length_append, length_encodeInteger,
      Bytes.length_be]
  | .bytes, v, hv => by
    obtain ⟨b, rfl, -⟩ := hv
    refine ⟨_, rfl, ?_⟩
    rw [Spec.canonical, List.length_append, List.length_append, length_encodeInteger,
      Bytes.length_be]

lemma exists_encodeFields : ∀ {kvs : List (SchemaText × Spec)} {get : SchemaText → Option Data},
    FieldsInRange kvs get →
    ∃ enc, encodeFields kvs get = .ok enc ∧ enc.length = (canonicalFields kvs get).length
  | [], get, _ => ⟨[], rfl, rfl⟩
  | (k, spec) :: kvs, get, hget => by
    obtain ⟨⟨x, hx, hin⟩, hget⟩ := hget
    obtain ⟨enc, henc, hlen⟩ := exists_encode hin
    obtain ⟨encs, hencs, hlens⟩ := exists_encodeFields hget
    refine ⟨enc ++ encs, ?_, ?_⟩
    · rw [encodeFields, hx]
      show (encode spec x).bind _ = _
      rw [henc, hencs]
      rfl
    · rw [canonicalFields, hx, Option.map_some, Option.getD_some, List.length_append,
        List.length_append, hlen, hlens]

end

/-- A list comes back only if its elements do; a shorter read leaves bytes over. -/
lemma list_of_decode {elem : Spec} (helem : elem.NamesDistinct) {vs : List Data}
    (hvs : ∀ x ∈ vs, elem.InRange x)
    (hdec : ∀ x ∈ vs, ∀ {enc rest rem}, encode elem x = .ok enc →
      decode node elem (enc ++ rest) = .ok (x, rem) →
      Plain x ∧ rem = rest ∨ rest.length < rem.length)
    {items : List Bytes} {rest rem : Bytes} (henc : vs.mapM (encode elem) = .ok items)
    (h : Codec.readMany (decode node elem) vs.length (items.flatten ++ rest) = .ok (vs, rem)) :
    (∀ x ∈ vs, Plain x) ∧ rem = rest ∨ rest.length < rem.length := by
  induction vs generalizing items with
  | nil =>
    obtain rfl := Except.ok.inj henc
    obtain ⟨-, rfl⟩ := Prod.mk.inj (Except.ok.inj h)
    exact .inl ⟨by simp, rfl⟩
  | cons v vs ih =>
    obtain ⟨hv, htail⟩ := List.forall_mem_cons.mp hvs
    obtain ⟨hdecv, hdecvs⟩ := List.forall_mem_cons.mp hdec
    rw [List.mapM_cons] at henc
    obtain ⟨enc, hencv, henc⟩ := Exec.except_bind_eq_ok.mp henc
    obtain ⟨items', hitems, henc⟩ := Exec.except_bind_eq_ok.mp henc
    obtain rfl := Except.ok.inj henc
    obtain ⟨v', mid, vs', hread, hmany, hcons⟩ := Codec.readMany_succ_eq_ok.mp h
    obtain ⟨rfl, rfl⟩ := List.cons.inj hcons
    rw [List.flatten_cons, List.append_assoc] at hread
    rcases hdecv hencv hread with ⟨hplain, rfl⟩ | hlt
    · rcases ih htail hdecvs hitems hmany with ⟨hall, rfl⟩ | hlt
      · exact .inl ⟨List.forall_mem_cons.mpr ⟨hplain, hall⟩, rfl⟩
      · exact .inr hlt
    · -- too many bytes are left for the other elements to take
      obtain ⟨items'', hitems'', hlen⟩ := exists_encode_list fun x hx => exists_encode (htail x hx)
      obtain rfl := Except.ok.inj (hitems.symm.trans hitems'')
      have hle := Codec.length_le_of_readMany elem.canonical
        (fun hx hread => length_le_of_decode node helem hx hread) htail hmany
      rw [List.length_append, hlen] at hlt
      exact .inr (by omega)

mutual

/-- A value comes back only if it is plain; a shorter read leaves bytes over. -/
lemma plain_of_decode : ∀ {spec : Spec} {v : Data}, spec.NamesDistinct → spec.InRange v →
    ∀ {enc rest rem : Bytes}, encode spec v = .ok enc →
    decode node spec (enc ++ rest) = .ok (v, rem) → Plain v ∧ rem = rest ∨ rest.length < rem.length
  | .integer isSigned size, v, _, hv, enc, rest, rem, henc, h => by
    rw [decode] at h
    obtain ⟨⟨n, rem'⟩, hn, h⟩ := Exec.except_bind_eq_ok.mp h
    obtain ⟨rfl, rfl⟩ := Prod.mk.inj (Except.ok.inj h)
    obtain rfl := Except.ok.inj henc
    rw [decodeInteger_append (length_encodeInteger size n)] at hn
    obtain ⟨hvalue, rfl⟩ := Prod.mk.inj (Except.ok.inj hn)
    refine .inl ⟨.int ?_, rfl⟩
    rw [← hvalue]
    exact Int.natCast_nonneg _
  | .vector elem, v, hnames, hv, enc, rest, rem, henc, h => by
    obtain ⟨vs, rfl, hlen, hvs⟩ := hv
    have helem : elem.NamesDistinct := hnames
    obtain ⟨items, hitems, -⟩ := exists_encode_list fun x hx => exists_encode (hvs x hx)
    rw [encode, hitems] at henc
    obtain rfl := Except.ok.inj henc
    rw [decode, List.append_assoc, decodeInteger_length hlen] at h
    change (Codec.readMany (decode node elem) vs.length (items.flatten ++ rest) >>= _) = _ at h
    obtain ⟨⟨vs', rem'⟩, hmany, h⟩ := Exec.except_bind_eq_ok.mp h
    obtain ⟨hlist, rfl⟩ := Prod.mk.inj (Except.ok.inj h)
    obtain rfl := Data.list.inj hlist
    rcases list_of_decode node helem hvs (fun x hx => plain_of_decode helem (hvs x hx)) hitems
      hmany with ⟨hall, rfl⟩ | hlt
    · exact .inl ⟨.list hall, rfl⟩
    · exact .inr hlt
  | .struct kvs, v, hnames, hv, enc, rest, rem, henc, h => by
    obtain ⟨get, rfl, hget, hnone⟩ := hv
    rw [decode] at h
    obtain ⟨⟨get', rem'⟩, hfields, h⟩ := Exec.except_bind_eq_ok.mp h
    obtain ⟨hobject, rfl⟩ := Prod.mk.inj (Except.ok.inj h)
    obtain rfl := Data.object.inj hobject
    rcases plain_of_decodeFields hnames.1 hnames.2 hget rfl henc hfields with ⟨hall, rfl⟩ | hlt
    · refine .inl ⟨.object (decodeFields_proto node hfields) fun k x hx => hall k ?_ x hx, rfl⟩
      by_contra hk
      rw [hnone k hk] at hx
      cases hx
    · exact .inr hlt
  | .string, v, _, hv, enc, rest, rem, henc, h => by
    obtain ⟨s, rfl, hlen⟩ := hv
    obtain ⟨hle, hiff⟩ := Text.utf16Length_eq_iff s
    obtain rfl := Except.ok.inj henc
    rw [decode, List.append_assoc, decodeInteger_length (hle.trans_lt hlen)] at h
    obtain ⟨-, rfl⟩ := Prod.mk.inj (Except.ok.inj h)
    by_cases hascii : Text.IsAscii s
    · refine .inl ⟨.str hascii, ?_⟩
      rw [Int.toNat_natCast, hiff.mpr hascii, List.drop_left]
    · have hlt := lt_of_le_of_ne hle (mt hiff.mp hascii)
      rw [Int.toNat_natCast, List.length_drop, List.length_append]
      exact .inr (by omega)
  | .bytes, v, _, hv, enc, rest, rem, henc, h => by
    obtain ⟨b, rfl, hlen⟩ := hv
    obtain rfl := Except.ok.inj henc
    rw [decode, List.append_assoc, decodeInteger_length hlen] at h
    obtain ⟨-, rfl⟩ := Prod.mk.inj (Except.ok.inj h)
    exact .inl ⟨.bytes b, by rw [Int.toNat_natCast, List.drop_left]⟩

lemma plain_of_decodeFields : ∀ {kvs : List (SchemaText × Spec)}
    {acc get : SchemaText → Option Data}, (fieldNames kvs).Nodup → FieldsNamesDistinct kvs →
    FieldsInRange kvs get → acc "__proto__".toList = none →
    ∀ {enc rest rem : Bytes}, encodeFields kvs get = .ok enc →
    decodeFields node kvs acc (enc ++ rest) = .ok (get, rem) →
    (∀ k ∈ fieldNames kvs, ∀ x, get k = some x → Plain x) ∧ rem = rest ∨
      rest.length < rem.length
  | [], acc, get, _, _, _, _, enc, rest, rem, henc, h => by
    obtain rfl := Except.ok.inj henc
    obtain ⟨-, rfl⟩ := Prod.mk.inj (Except.ok.inj h)
    exact .inl ⟨by simp [fieldNames], rfl⟩
  | (k, spec) :: kvs, acc, get, hnodup, hnames, hget, hacc, enc, rest, rem, henc, h => by
    obtain ⟨hk, hnodup⟩ := List.nodup_cons.mp hnodup
    obtain ⟨⟨y, hy, hin⟩, hget⟩ := hget
    obtain ⟨enc₁, henc₁, -⟩ := exists_encode hin
    obtain ⟨enc₂, henc₂, hlen⟩ := exists_encodeFields hget
    rw [encodeFields, hy] at henc
    obtain ⟨enc₁', henc₁', henc⟩ := Exec.except_bind_eq_ok.mp henc
    obtain ⟨enc₂', henc₂', henc⟩ := Exec.except_bind_eq_ok.mp henc
    obtain rfl := Except.ok.inj henc
    obtain rfl := Except.ok.inj (henc₁.symm.trans henc₁')
    obtain rfl := Except.ok.inj (henc₂.symm.trans henc₂')
    rw [decodeFields, List.append_assoc] at h
    obtain ⟨⟨x, mid⟩, hx, h⟩ := Exec.except_bind_eq_ok.mp h
    obtain rfl := get_of_decodeFields node hk hacc hy h
    have hacc' := (assign_proto acc k x).trans hacc
    rcases plain_of_decode hnames.1 hin henc₁ hx with ⟨hplain, rfl⟩ | hlt
    · rcases plain_of_decodeFields hnodup hnames.2 hget hacc' henc₂ h with ⟨hall, rfl⟩ | hlt
      · refine .inl ⟨fun j hj z hz => ?_, rfl⟩
        rcases mem_fieldNames_cons.mp hj with rfl | hj
        · obtain rfl := Option.some.inj (hy.symm.trans hz)
          exact hplain
        · exact hall j hj z hz
      · exact .inr hlt
    · have hle := length_le_of_decodeFields node hnodup hnames.2 hget hacc' h
      rw [List.length_append] at hlt
      exact .inr (by omega)

end

end Necessary

/-! ## The codec -/

/-- The value has an encoding that is read back, whatever follows it, and that is the encoding of
Go if there is one. -/
def Faithful (node : Node) (spec : Spec) (v : Data) : Prop :=
  (∃ enc, encode spec v = .ok enc ∧ ∀ rest, decode node spec (enc ++ rest) = .ok (v, rest)) ∧
    ∀ t, spec.goTy = some t → encode spec v = Obi.encode (spec.goValue v)

/-- **Plain values, and no others, survive `obi.js`.**  For a schema that is accepted and a value in
range, a plain value is encoded as Go does and read back.  Every other value is not; this half
leaves out the schemas with a struct that names two fields alike, for which an object has one value
only. -/
theorem faithful_iff (node : Node) {schema : SchemaText} {spec : Spec} {v : Data}
    (_ : fromSpec schema = .ok spec) (hv : spec.InRange v) :
    (Plain v → Faithful node spec v) ∧
      (spec.NamesDistinct → Faithful node spec v → Plain v) := by
  constructor
  · intro hplain
    obtain ⟨henc, hdec⟩ := decode_canonical node hv hplain
    exact ⟨⟨_, henc, hdec⟩, fun t ht => henc.trans (encode_goValue ht hv).2.symm⟩
  · rintro hnames ⟨⟨enc, henc, hdec⟩, -⟩
    rcases plain_of_decode node hnames hv henc (hdec []) with ⟨hplain, -⟩ | hlt
    · exact hplain
    · exact absurd hlt (lt_irrefl _)

namespace Sample

/-- Every byte of a `Buffer` that is not valid is replaced. -/
def toString (b : Bytes) : String :=
  (Text.ofUtf8 b).getD (String.ofList (List.replicate b.length '\uFFFD'))

lemma length_replacement (n : ℕ) :
    (Text.utf8 (String.ofList (List.replicate n '\uFFFD'))).length = 3 * n := by
  rw [Text.length_utf8, String.toList_ofList, List.map_replicate, List.sum_replicate, smul_eq_mul,
    mul_comm]
  rfl

def node : Node where
  toString := toString
  toString_utf8 s := by rw [toString, Text.ofUtf8_utf8, Option.getD_some]
  length_le b := by
    rw [toString]
    cases h : Text.ofUtf8 b with
    | some s => rw [Text.ofUtf8_eq_some.mp h, Option.getD_some]
    | none =>
      rw [Option.getD_none, length_replacement]
      omega

/-- `{a:u8,b:string}` -/
def spec : Spec := .struct [(['a'], .integer false 1), (['b'], .string)]

def value : Data :=
  .object fun k => if k = ['a'] then some (.int 200) else if k = ['b'] then some (.str "hi")
    else none

lemma inRange_value : spec.InRange value := by
  refine ⟨_, rfl, ⟨⟨_, rfl, _, rfl, by norm_num, by norm_num⟩, ⟨_, rfl, _, rfl, by decide +kernel⟩,
    trivial⟩, fun k hk => ?_⟩
  rw [mem_fieldNames_cons, mem_fieldNames_cons, not_or, not_or] at hk
  rw [if_neg hk.1, if_neg hk.2.1]

lemma plain_value : Plain value := by
  refine .object (by decide) fun k v hv => ?_
  split_ifs at hv
  · obtain rfl := Option.some.inj hv
    exact .int (by decide)
  · obtain rfl := Option.some.inj hv
    exact .str (by simp [Text.IsAscii])

end Sample

theorem faithful_iff_sample :
    Faithful Sample.node Sample.spec Sample.value ∧
      (Sample.spec.NamesDistinct → Faithful Sample.node Sample.spec Sample.value →
        Plain Sample.value) := by
  have hschema : fromSpec ("{a:u8,b:string}".toList) = .ok Sample.spec := rfl
  have h := faithful_iff Sample.node hschema Sample.inRange_value
  exact ⟨h.1 Sample.plain_value, h.2⟩

/-- The schema `i8` and the value -1: the byte is that of Go, and 255 is read back. -/
theorem not_faithful_negative :
    ¬∀ (node : Node) (schema : SchemaText) (spec : Spec) (v : Data),
      fromSpec schema = .ok spec → spec.InRange v → Faithful node spec v := by
  intro h
  obtain ⟨⟨enc, henc, hdec⟩, -⟩ := h Sample.node ['i', '8'] (.integer true 1) (.int (-1)) rfl
    ⟨-1, rfl, by decide, by decide⟩
  obtain rfl := Except.ok.inj henc
  have hread : decode Sample.node (.integer true 1) (encodeInteger 1 (-1) ++ []) =
      .ok (.int 255, []) := rfl
  have heq := (hdec []).symm.trans hread
  have hint := (Prod.mk.inj (Except.ok.inj heq)).1
  exact absurd (Data.int.inj hint) (by decide)

end Bandchain.Obi.JavaScript
