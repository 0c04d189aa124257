import Bandchain.Obi.Agreement
import Bandchain.Obi.Canonical
import Bandchain.Obi.Python

/-!
# The Python codec

When `pyobi` writes the bytes of Go, and when both read the same value.  The decoder of Python has
no range check, so a walk over the bytes keeps what Go would have checked.
-/

namespace Bandchain.Obi.Python

/-! ## Encoding -/

/-- Every text in the value is ASCII. -/
inductive AsciiTexts : Data → Prop
  | int (n : ℤ) : AsciiTexts (.int n)
  | str {s : String} : Text.IsAscii s → AsciiTexts (.str s)
  | bytes (b : Bytes) : AsciiTexts (.bytes b)
  | list {vs : List Data} : (∀ v ∈ vs, AsciiTexts v) → AsciiTexts (.list vs)
  | object {get : SchemaText → Option Data} :
      (∀ k v, get k = some v → AsciiTexts v) → AsciiTexts (.object get)

lemma encodeLength_eq {n : ℕ} (h : n < 2 ^ 32) : encodeLength n = .ok (Bytes.be 4 n) := by
  rw [encodeLength, toBytes, if_pos (by norm_num; omega)]
  exact congrArg Except.ok (Bytes.be_mod 4 n)

lemma encode_list {elem : Spec} {vs : List Data}
    (h : ∀ x ∈ vs, ∃ enc, encode elem x = .ok enc ∧ enc.length = (elem.canonical x).length ∧
      (enc = elem.canonical x ↔ AsciiTexts x)) :
    ∃ items, vs.mapM (encode elem) = .ok items ∧
      items.flatten.length = (vs.flatMap elem.canonical).length ∧
      (items.flatten = vs.flatMap elem.canonical ↔ ∀ x ∈ vs, AsciiTexts x) := by
  induction vs with
  | nil => exact ⟨[], rfl, rfl, by simp⟩
  | cons v vs ih =>
    obtain ⟨⟨enc, henc, hlen, hiff⟩, hvs⟩ := List.forall_mem_cons.mp h
    obtain ⟨items, hitems, hlens, hiffs⟩ := ih hvs
    refine ⟨enc :: items, ?_, ?_, ?_⟩
    · rw [List.mapM_cons, henc, hitems]
      rfl
    · rw [List.flatten_cons, List.flatMap_cons, List.length_append, List.length_append, hlen, hlens]
    · rw [List.flatten_cons, List.flatMap_cons, List.append_eq_append_iff_of_size_eq_left hlen,
        List.forall_mem_cons, hiff, hiffs]

lemma toBytes_of_inRange {isSigned : Bool} {size : ℕ} {n : ℤ}
    (h : (Spec.integer isSigned size).InRange (.int n)) :
    toBytes size isSigned n = .ok (Bytes.be size (n % 256 ^ size).toNat) := by
  cases isSigned
  · obtain ⟨m, hm, hrange⟩ := h
    obtain rfl := Data.int.inj hm
    exact if_pos hrange
  · obtain ⟨m, hm, hrange⟩ := h
    obtain rfl := Data.int.inj hm
    exact if_pos hrange

mutual

/-- A value in range has an encoding, which is as long as the canonical one, and is the canonical
one for ASCII texts only. -/
lemma encode_eq_canonical_iff : ∀ {spec : Spec} {v : Data}, spec.InRange v →
    ∃ enc, encode spec v = .ok enc ∧ enc.length = (spec.canonical v).length ∧
      (enc = spec.canonical v ↔ AsciiTexts v)
  | .integer isSigned size, v, hv => by
    obtain ⟨n, rfl⟩ := exists_int_of_inRange hv
    exact ⟨_, toBytes_of_inRange hv, rfl, iff_of_true rfl (.int n)⟩
  | .vector elem, v, hv => by
    obtain ⟨vs, rfl, hlen, hvs⟩ := hv
    obtain ⟨items, hitems, hlens, hiff⟩ :=
      encode_list fun x hx => encode_eq_canonical_iff (hvs x hx)
    refine ⟨Bytes.be 4 vs.length ++ items.flatten, ?_, ?_, ?_⟩
    · rw [encode, encodeLength_eq hlen, hitems]
      rfl
    · rw [Spec.canonical, List.length_append, List.length_append, hlens]
    · rw [Spec.canonical, List.append_cancel_left_eq, hiff]
      constructor
      · exact .list
      · rintro ⟨⟩
        assumption
  | .struct kvs, v, hv => by
    obtain ⟨get, rfl, hget, hnone⟩ := hv
    obtain ⟨enc, henc, hlen, hiff⟩ := encodeFields_eq_canonical_iff hget
    refine ⟨enc, henc, hlen, hiff.trans ⟨fun h => .object fun k x hx => h k ?_ x hx, ?_⟩⟩
    · by_contra hk
      rw [hnone k hk] at hx
      cases hx
    · rintro (_ | _ | _ | _ | h) k - x hx
      exact h k x hx
  | .string, v, hv => by
    obtain ⟨s, rfl, hlen⟩ := hv
    obtain ⟨hle, hiff⟩ := Text.length_eq_iff s
    refine ⟨Bytes.be 4 s.length ++ Text.utf8 s, ?_, ?_, ?_⟩
    · rw [encode, encodeLength_eq (hle.trans_lt hlen)]
      rfl
    · rw [Spec.canonical, List.length_append, List.length_append, Bytes.length_be, Bytes.length_be]
    · rw [Spec.canonical, List.append_cancel_right_eq]
      constructor
      · exact fun h => .str (hiff.mp (Bytes.be_inj (hle.trans_lt hlen) hlen h))
      · rintro (_ | h)
        rw [hiff.mpr h]
  | .bytes, v, hv => by
    obtain ⟨b, rfl, hlen⟩ := hv
    refine ⟨Bytes.be 4 b.length ++ b, ?_, rfl, iff_of_true rfl (.bytes b)⟩
    rw [encode, encodeLength_eq hlen]
    rfl

lemma encodeFields_eq_canonical_iff : ∀ {kvs : List (SchemaText × Spec)}
    {get : SchemaText → Option Data}, FieldsInRange kvs get →
    ∃ enc, encodeFields kvs get = .ok enc ∧ enc.length = (canonicalFields kvs get).length ∧
      (enc = canonicalFields kvs get ↔
        ∀ k ∈ fieldNames kvs, ∀ x, get k = some x → AsciiTexts x)
  | [], get, _ => ⟨[], rfl, rfl, by simp [canonicalFields, fieldNames]⟩
  | (k, spec) :: kvs, get, hget => by
    obtain ⟨⟨x, hx, hin⟩, hget⟩ := hget
    obtain ⟨enc, henc, hlen, hiff⟩ := encode_eq_canonical_iff hin
    obtain ⟨encs, hencs, hlens, hiffs⟩ := encodeFields_eq_canonical_iff hget
    rw [canonicalFields, hx, Option.map_some, Option.getD_some]
    refine ⟨enc ++ encs, ?_, ?_, ?_⟩
    · rw [encodeFields, hx]
      show (encode spec x).bind _ = _
      rw [henc, hencs]
      rfl
    · rw [List.length_append, List.length_append, hlen, hlens]
    · rw [List.append_eq_append_iff_of_size_eq_left hlen, hiff, hiffs]
      simp only [mem_fieldNames_cons, forall_eq_or_imp, hx, Option.some.injEq, forall_eq']

end

/-- `pyobi` writes the bytes of Go for ASCII texts only. -/
lemma encode_eq_go_iff {spec : Spec} {t : Ty} (ht : spec.goTy = some t) {v : Data}
    (hv : spec.InRange v) : encode spec v = Obi.encode (spec.goValue v) ↔ AsciiTexts v := by
  obtain ⟨enc, henc, -, hiff⟩ := encode_eq_canonical_iff hv
  rw [henc, (encode_goValue ht hv).2, Except.ok.injEq, hiff]

/-! ## Walking over the bytes -/

/-- What a walk has met: whether Go would have found every read in range, the texts, and what is
left. -/
structure Walk where
  complete : Bool
  texts : List Bytes
  rest : Bytes

/-- Every text is UTF-8. -/
def Walk.Readable (w : Walk) : Prop := ∀ b ∈ w.texts, Text.ValidUtf8 b

/-- Go on with what is left. -/
def Walk.andThen (w : Walk) (f : Bytes → Walk) : Walk :=
  ⟨w.complete && (f w.rest).complete, w.texts ++ (f w.rest).texts, (f w.rest).rest⟩

/-- A text or a byte string; Go compares the number of bytes that are left as a 32-bit number. -/
def walkSlice (isText : Bool) (data : Bytes) : Walk :=
  let (length, remaining) := decodeLength data
  ⟨4 ≤ data.length && length ≤ remaining.length % 2 ^ 32,
    if isText then [remaining.take length] else [], remaining.drop length⟩

def walkMany (f : Bytes → Walk) : ℕ → Bytes → Walk
  | 0, data => ⟨true, [], data⟩
  | n + 1, data => (f data).andThen (walkMany f n)

mutual

/-- The walk of a schema; a slice ends where the bytes end. -/
def walk : Spec → Bytes → Walk
  | .integer _ size, data => ⟨size ≤ data.length, [], data.drop size⟩
  | .vector (.integer false 1), data => walkSlice false data
  | .vector elem, data =>
    let (length, remaining) := decodeLength data
    (Walk.mk (4 ≤ data.length) [] remaining).andThen (walkMany (walk elem) length)
  | .struct kvs, data => walkFields kvs data
  | .string, data => walkSlice true data
  | .bytes, data => walkSlice false data

def walkFields : List (SchemaText × Spec) → Bytes → Walk
  | [], data => ⟨true, [], data⟩
  | (_, spec) :: kvs, data => (walk spec data).andThen (walkFields kvs)

end

lemma Walk.readable_andThen {w : Walk} {f : Bytes → Walk} :
    (w.andThen f).Readable ↔ w.Readable ∧ (f w.rest).Readable := by
  rw [Readable, andThen, List.forall_mem_append]
  rfl

/-- Two decoders follow a walk: Python fails only on texts, and Go only on ranges; both leave the
same bytes, and Python has the view of the value of Go. -/
structure Follows {α β : Type} (w : Walk) (valid : β → Prop) (view : β → α)
    (py : Except String (α × Bytes)) (go : Except String (β × Bytes)) : Prop where
  reads : (∃ a, py = .ok (a, w.rest)) ∧ w.Readable ∨ (∃ e, py = .error e) ∧ ¬w.Readable
  ranges : (∃ b, go = .ok (b, w.rest) ∧ (valid b ↔ w.Readable)) ∧ w.complete = true ∨
    (∃ e, go = .error e) ∧ w.complete = false
  sameValue : ∀ {a b r r'}, py = .ok (a, r) → go = .ok (b, r') → view b = a

namespace Follows

variable {α α' β β' γ : Type} {w : Walk} {valid : β → Prop} {view : β → α}
  {py : Except String (α × Bytes)} {go : Except String (β × Bytes)}

lemma rest_of_reads (h : Follows w valid view py go) {a : α} {r : Bytes} (ha : py = .ok (a, r)) :
    r = w.rest := by
  rcases h.reads with ⟨⟨a', ha'⟩, -⟩ | ⟨⟨e, he⟩, -⟩
  · exact (Prod.mk.inj (Except.ok.inj (ha.symm.trans ha'))).2
  · rw [he] at ha
    cases ha

lemma rest_of_ranges (h : Follows w valid view py go) {b : β} {r : Bytes}
    (hb : go = .ok (b, r)) : r = w.rest := by
  rcases h.ranges with ⟨⟨b', hb', -⟩, -⟩ | ⟨⟨e, he⟩, -⟩
  · exact (Prod.mk.inj (Except.ok.inj (hb.symm.trans hb'))).2
  · rw [he] at hb
    cases hb

/-- Nothing is read. -/
lemma done {a : α} {b : β} {data : Bytes} (hvalid : valid b) (hview : view b = a) :
    Follows ⟨true, [], data⟩ valid view (.ok (a, data)) (.ok (b, data)) where
  reads := .inl ⟨⟨a, rfl⟩, by simp [Walk.Readable]⟩
  ranges := .inl ⟨⟨b, rfl, iff_of_true hvalid (by simp [Walk.Readable])⟩, rfl⟩
  sameValue := by
    intro a' b' r r' ha hb
    obtain ⟨rfl, -⟩ := Prod.mk.inj (Except.ok.inj ha)
    obtain ⟨rfl, -⟩ := Prod.mk.inj (Except.ok.inj hb)
    exact hview

/-- Go fails before it reads what Python reads. -/
lemma incomplete (h : Follows w valid view py go) (e : String) :
    Follows { w with complete := false } valid view py (.error e) where
  reads := h.reads
  ranges := .inr ⟨⟨e, rfl⟩, rfl⟩
  sameValue := fun _ hb => by cases hb

/-- Wrapping the values. -/
lemma map (h : Follows w valid view py go) {valid' : γ → Prop} (view' : γ → α') (p : α → α')
    (g : β → γ) (hvalid : ∀ b, valid' (g b) ↔ valid b) (hview : ∀ b, view' (g b) = p (view b)) :
    Follows w valid' view' (py >>= fun x => pure (p x.1, x.2)) (go >>= fun x => pure (g x.1, x.2))
    where
  reads := by
    rcases h.reads with ⟨⟨a, rfl⟩, hread⟩ | ⟨⟨e, rfl⟩, hread⟩
    · exact .inl ⟨⟨p a, rfl⟩, hread⟩
    · exact .inr ⟨⟨e, rfl⟩, hread⟩
  ranges := by
    rcases h.ranges with ⟨⟨b, rfl, hiff⟩, hcomplete⟩ | ⟨⟨e, rfl⟩, hcomplete⟩
    · exact .inl ⟨⟨g b, rfl, (hvalid b).trans hiff⟩, hcomplete⟩
    · exact .inr ⟨⟨e, rfl⟩, hcomplete⟩
  sameValue := by
    intro a' c r r' ha hc
    obtain ⟨⟨a, s⟩, ha₁, ha⟩ := Exec.except_bind_eq_ok.mp ha
    obtain ⟨⟨b, s'⟩, hb₁, hc⟩ := Exec.except_bind_eq_ok.mp hc
    obtain ⟨rfl, rfl⟩ := Prod.mk.inj (Except.ok.inj ha)
    obtain ⟨rfl, rfl⟩ := Prod.mk.inj (Except.ok.inj hc)
    rw [hview, h.sameValue ha₁ hb₁]

lemma mapPython (h : Follows w valid view py go) (p : α → α') :
    Follows w valid (fun b => p (view b)) (py >>= fun x => pure (p x.1, x.2)) go := by
  have hmap := h.map (fun b => p (view b)) p id (fun _ => Iff.rfl) (fun _ => rfl)
  rwa [show (go >>= fun x => pure (id x.1, x.2)) = go from bind_pure go] at hmap

/-- Reading on. -/
lemma bind (view' : α → β' → α') (py' : α → Bytes → Except String (α' × Bytes))
    (h : Follows w valid view py go) {f : Bytes → Walk} {valid' : β' → Prop}
    {go' : Bytes → Except String (β' × Bytes)}
    (h' : ∀ a, Follows (f w.rest) valid' (view' a) (py' a w.rest) (go' w.rest))
    {valid'' : γ → Prop} {view'' : γ → α'} (g : β → β' → γ)
    (hvalid : ∀ b b', valid'' (g b b') ↔ valid b ∧ valid' b')
    (hview : ∀ b b', view'' (g b b') = view' (view b) b') :
    Follows (w.andThen f) valid'' view'' (py >>= fun x => py' x.1 x.2)
      (go >>= fun x => go' x.2 >>= fun y => pure (g x.1 y.1, y.2)) where
  reads := by
    rw [Walk.readable_andThen]
    rcases h.reads with ⟨⟨a, rfl⟩, hread⟩ | ⟨⟨e, rfl⟩, hread⟩
    · rcases (h' a).reads with ⟨⟨a', ha'⟩, hread'⟩ | ⟨⟨e, he⟩, hread'⟩
      · exact .inl ⟨⟨a', ha'⟩, hread, hread'⟩
      · exact .inr ⟨⟨e, he⟩, fun hall => hread' hall.2⟩
    · exact .inr ⟨⟨e, rfl⟩, fun hall => hread hall.1⟩
  ranges := by
    rw [Walk.readable_andThen, Walk.andThen]
    rcases h.ranges with ⟨⟨b, rfl, hiff⟩, hcomplete⟩ | ⟨⟨e, rfl⟩, hcomplete⟩
    · rcases (h' (view b)).ranges with ⟨⟨b', hb', hiff'⟩, hcomplete'⟩ | ⟨⟨e, he⟩, hcomplete'⟩
      · refine .inl ⟨⟨g b b', ?_, (hvalid b b').trans (and_congr hiff hiff')⟩, ?_⟩
        · show (go' w.rest >>= _) = _
          rw [hb']
          rfl
        · rw [hcomplete, hcomplete']
          rfl
      · refine .inr ⟨⟨e, ?_⟩, by rw [hcomplete', Bool.and_false]⟩
        show (go' w.rest >>= _) = _
        rw [he]
        rfl
    · exact .inr ⟨⟨e, rfl⟩, by rw [hcomplete, Bool.false_and]⟩
  sameValue := by
    intro a' c r r' ha hc
    obtain ⟨⟨a, s⟩, ha₁, ha⟩ := Exec.except_bind_eq_ok.mp ha
    obtain ⟨⟨b, s'⟩, hb₁, hc⟩ := Exec.except_bind_eq_ok.mp hc
    obtain ⟨⟨b', s''⟩, hb₂, hc⟩ := Exec.except_bind_eq_ok.mp hc
    obtain ⟨rfl, rfl⟩ := Prod.mk.inj (Except.ok.inj hc)
    obtain rfl := h.rest_of_reads ha₁
    obtain rfl := h.rest_of_ranges hb₁
    rw [hview, h.sameValue ha₁ hb₁, (h' a).sameValue ha hb₂]

end Follows

/-! ## Leaves -/

lemma decodeImpl_integer {isSigned : Bool} {size : ℕ} {t : Ty}
    (h : integerTy isSigned size = some t) (data : Bytes) :
    decodeImpl t data = if data.length < size then .error "obi: out of range"
      else .ok (integerValue isSigned size (Bytes.ofBe (data.take size)), data.drop size) := by
  unfold integerTy at h
  split at h
  case h_9 => cases h
  all_goals
    obtain rfl := Option.some.inj h
    split_ifs with hlen
    · simp only [decodeImpl, wrap, decodeSigned8, decodeSigned16, decodeSigned32, decodeSigned64,
        decodeUnsigned8, decodeUnsigned16, decodeUnsigned32, decodeUnsigned64, decodeUnsigned,
        Codec.readFixed, if_pos hlen]
      rfl
    · simp only [decodeImpl, wrap, decodeSigned8, decodeSigned16, decodeSigned32, decodeSigned64,
        decodeUnsigned8, decodeUnsigned16, decodeUnsigned32, decodeUnsigned64, decodeUnsigned,
        Codec.readFixed, if_neg hlen, integerValue, Int8.ofInt, Int16.ofInt, Int32.ofInt,
        Int64.ofInt, BitVec.ofInt_natCast]
      rfl

lemma toInt_ofInt_natCast {n m : ℕ} (h : m < 2 ^ (n + 1)) :
    (BitVec.ofInt (n + 1) m).toInt = if 2 ^ (n + 1) ≤ 2 * m then (m : ℤ) - 2 ^ (n + 1) else m := by
  rw [BitVec.ofInt_natCast, BitVec.toInt_eq_toNat_cond, BitVec.toNat_ofNat, Nat.mod_eq_of_lt h]
  push_cast
  split_ifs <;> omega

lemma toNat_ofInt_natCast {n m : ℕ} (h : m < 2 ^ n) : ((BitVec.ofInt n m).toNat : ℤ) = m := by
  rw [BitVec.ofInt_natCast, BitVec.toNat_ofNat, Nat.mod_eq_of_lt h]

lemma numberOf_integerValue {isSigned : Bool} {size : ℕ} {t : Ty}
    (h : integerTy isSigned size = some t) {b : Bytes} (hb : b.length = size) :
    numberOf (integerValue isSigned size (Bytes.ofBe b)) = fromBytes isSigned b := by
  have hlt := Bytes.ofBe_lt b
  rw [fromBytes, hb]
  rw [hb] at hlt
  unfold integerTy at h
  split at h
  · exact toNat_ofInt_natCast hlt
  · exact toNat_ofInt_natCast hlt
  · exact toNat_ofInt_natCast hlt
  · exact toNat_ofInt_natCast hlt
  · exact (toInt_ofInt_natCast (n := 7) hlt).trans (by norm_num)
  · exact (toInt_ofInt_natCast (n := 15) hlt).trans (by norm_num)
  · exact (toInt_ofInt_natCast (n := 31) hlt).trans (by norm_num)
  · exact (toInt_ofInt_natCast (n := 63) hlt).trans (by norm_num)
  · cases h

lemma validStrings_integerValue {isSigned : Bool} {size : ℕ} {t : Ty}
    (h : integerTy isSigned size = some t) (n : ℤ) :
    (integerValue isSigned size n).ValidStrings := by
  unfold integerTy at h
  split at h
  case h_9 => cases h
  all_goals trivial

lemma follows_integer {isSigned : Bool} {size : ℕ} {t : Ty}
    (h : integerTy isSigned size = some t) (data : Bytes) :
    Follows (walk (.integer isSigned size) data) Value.ValidStrings
      (Spec.integer isSigned size).view (decode (.integer isSigned size) data)
      (decodeImpl t data) where
  reads := .inl ⟨⟨_, rfl⟩, by simp [walk, Walk.Readable]⟩
  ranges := by
    rw [decodeImpl_integer h, walk]
    split_ifs with hlen
    · exact .inr ⟨⟨_, rfl⟩, decide_eq_false (not_le.mpr hlen)⟩
    · refine .inl ⟨⟨_, rfl, iff_of_true (validStrings_integerValue h _) ?_⟩,
        decide_eq_true (not_lt.mp hlen)⟩
      simp [Walk.Readable]
  sameValue := by
    intro a b r r' ha hb
    rw [decodeImpl_integer h] at hb
    split_ifs at hb with hlen
    obtain ⟨rfl, -⟩ := Prod.mk.inj (Except.ok.inj ha)
    obtain ⟨rfl, -⟩ := Prod.mk.inj (Except.ok.inj hb)
    rw [Spec.view, numberOf_integerValue h (by rw [List.length_take]; omega)]

/-- The walk over a slice has met a text or nothing. -/
lemma readable_walkSlice {isText : Bool} {data : Bytes} :
    (walkSlice isText data).Readable ↔ (isText = true →
      Text.ValidUtf8 ((decodeLength data).2.take (decodeLength data).1)) := by
  cases isText <;> simp [walkSlice, Walk.Readable]

lemma complete_walkSlice {isText : Bool} {data : Bytes} :
    (walkSlice isText data).complete = true ↔
      4 ≤ data.length ∧ (decodeLength data).1 ≤ (decodeLength data).2.length % 2 ^ 32 := by
  rw [walkSlice, Bool.and_eq_true, decide_eq_true_eq, decide_eq_true_eq]

/-- Go reads a slice in one piece, whatever it is for. -/
lemma follows_slice (isText : Bool) {data : Bytes} {view : Value → Data}
    {py : Except String (Data × Bytes)} (g : Bytes → Value)
    (hvalid : ∀ b, (g b).ValidStrings ↔ (isText = true → Text.ValidUtf8 b))
    (hreads : (∃ a, py = .ok (a, (walkSlice isText data).rest)) ∧
        (walkSlice isText data).Readable ∨
      (∃ e, py = .error e) ∧ ¬(walkSlice isText data).Readable)
    (hview : (walkSlice isText data).complete = true → ∀ {a r}, py = .ok (a, r) →
      view (g ((decodeLength data).2.take (decodeLength data).1)) = a) :
    Follows (walkSlice isText data) Value.ValidStrings view py (wrap g decodeBytes data) where
  reads := hreads
  ranges := by
    rw [wrap, decodeBytes_eq]
    split_ifs with h
    · refine .inl ⟨⟨_, rfl, ?_⟩, complete_walkSlice.mpr h⟩
      rw [hvalid, readable_walkSlice]
      rfl
    · refine .inr ⟨⟨_, rfl⟩, ?_⟩
      rw [← Bool.not_eq_true, complete_walkSlice]
      exact h
  sameValue := by
    intro a b r r' ha hb
    rw [wrap, decodeBytes_eq] at hb
    split_ifs at hb with h
    · obtain ⟨rfl, -⟩ := Prod.mk.inj (Except.ok.inj hb)
      exact hview (complete_walkSlice.mpr h) ha
    · cases hb

lemma follows_bytes (data : Bytes) :
    Follows (walk .bytes data) Value.ValidStrings Spec.bytes.view (decode .bytes data)
      (decodeImpl (.slice .uint8) data) := by
  refine follows_slice false .bytes (fun b => by simp [Value.ValidStrings]) (.inl ⟨⟨_, rfl⟩, ?_⟩) ?_
  · rw [readable_walkSlice]
    simp
  · intro _ a r ha
    obtain ⟨rfl, -⟩ := Prod.mk.inj (Except.ok.inj ha)
    rfl

lemma follows_string (data : Bytes) :
    Follows (walk .string data) Value.ValidStrings Spec.string.view (decode .string data)
      (decodeImpl .string data) := by
  have hdecode : decodeImpl .string data = wrap .string decodeBytes data := rfl
  rw [hdecode]
  refine follows_slice true .string (fun b => by simp [Value.ValidStrings]) ?_ ?_
  · rw [readable_walkSlice, decode]
    cases h : Text.ofUtf8 ((decodeLength data).2.take (decodeLength data).1) with
    | some s =>
      simp only [h]
      refine .inl ⟨⟨_, rfl⟩, fun _ => ?_⟩
      rw [Text.ofUtf8_eq_some.mp h]
      exact Text.validUtf8_utf8 s
    | none =>
      simp only [h]
      exact .inr ⟨⟨_, rfl⟩, fun hvalid => Text.ofUtf8_eq_none.mp h (hvalid trivial)⟩
  · intro _ a r ha
    rw [decode] at ha
    cases h : Text.ofUtf8 ((decodeLength data).2.take (decodeLength data).1) with
    | some s =>
      simp only [h] at ha
      obtain ⟨rfl, -⟩ := Prod.mk.inj (Except.ok.inj ha)
      rw [Spec.view, h, Option.getD_some]
    | none =>
      simp only [h] at ha
      cases ha

/-! ## Trees -/

/-- Reading bytes one by one. -/
lemma readMany_byte (n : ℕ) (b : Bytes) :
    ∃ vs, Codec.readMany (decode (.integer false 1)) n b = .ok (vs, b.drop n) ∧
      (n ≤ b.length → vs = (b.take n).map fun x => .int x.toNat) := by
  induction n generalizing b with
  | zero => exact ⟨[], rfl, fun _ => rfl⟩
  | succ n ih =>
    obtain ⟨vs, hvs, heq⟩ := ih (b.drop 1)
    refine ⟨.int (fromBytes false (b.take 1)) :: vs, ?_, fun hlen => ?_⟩
    · rw [Codec.readMany]
      show (Codec.readMany (decode (.integer false 1)) n (b.drop 1)).bind _ = _
      rw [hvs, List.drop_drop, Nat.add_comm]
      rfl
    · cases b with
      | nil => simp at hlen
      | cons x b =>
        rw [List.length_cons] at hlen
        rw [heq (by simpa using hlen)]
        simp [fromBytes, Bytes.ofBe]

lemma follows_byteVector (data : Bytes) :
    Follows (walk (.vector (.integer false 1)) data) Value.ValidStrings
      (Spec.vector (.integer false 1)).view (decode (.vector (.integer false 1)) data)
      (decodeImpl (.slice .uint8) data) := by
  obtain ⟨vs, hvs, heq⟩ := readMany_byte (decodeLength data).1 (decodeLength data).2
  have hdecode : decode (.vector (.integer false 1)) data =
      .ok (.list vs, (decodeLength data).2.drop (decodeLength data).1) := by
    rw [decode]
    show (Codec.readMany (decode (.integer false 1)) (decodeLength data).1
      (decodeLength data).2).bind _ = _
    rw [hvs]
    rfl
  refine follows_slice false .bytes (fun b => by simp [Value.ValidStrings])
    (.inl ⟨⟨_, hdecode⟩, ?_⟩) ?_
  · rw [readable_walkSlice]
    simp
  · intro hcomplete a r ha
    rw [hdecode] at ha
    obtain ⟨rfl, -⟩ := Prod.mk.inj (Except.ok.inj ha)
    rw [heq ((complete_walkSlice.mp hcomplete).2.trans (Nat.mod_le _ _))]
    rfl

/-- Elements that follow a walk follow it one after the other. -/
lemma follows_many {α β : Type} {w : Bytes → Walk} {valid : β → Prop} {view : β → α}
    {py : Bytes → Except String (α × Bytes)} {go : Bytes → Except String (β × Bytes)}
    (h : ∀ data, Follows (w data) valid view (py data) (go data)) (n : ℕ) (data : Bytes) :
    Follows (walkMany w n data) (fun bs => ∀ b ∈ bs, valid b) (List.map view)
      (Codec.readMany py n data) (Codec.readMany go n data) := by
  induction n generalizing data with
  | zero => exact .done (by simp) rfl
  | succ n ih =>
    show Follows ((w data).andThen (walkMany w n)) _ _
      (py data >>= fun x => Codec.readMany py n x.2 >>= fun y => pure (x.1 :: y.1, y.2))
      (go data >>= fun x => Codec.readMany go n x.2 >>= fun y => pure (x.1 :: y.1, y.2))
    refine Follows.bind (fun a bs => a :: bs.map view)
      (fun a r => Codec.readMany py n r >>= fun y => pure (a :: y.1, y.2)) (h data)
      (fun a => ?_) List.cons (fun b bs => List.forall_mem_cons) (fun b bs => rfl)
    exact (ih (w data).rest).mapPython (a :: ·)

lemma follows_vector {elem : Spec} {u : Ty} (hu : elem.goTy = some u)
    (helem : elem ≠ .integer false 1)
    (h : ∀ data, Follows (walk elem data) Value.ValidStrings elem.view (decode elem data)
      (decodeImpl u data)) (data : Bytes) :
    Follows (walk (.vector elem) data) Value.ValidStrings (Spec.vector elem).view
      (decode (.vector elem) data) (decodeImpl (.slice u) data) := by
  have hwalk : walk (.vector elem) data = (Walk.mk (4 ≤ data.length) [] (data.drop 4)).andThen
      (walkMany (walk elem) (decodeLength data).1) := by
    rw [walk]
    · rfl
    · exact helem
  have hgo : decodeImpl (.slice u) data = decodeUnsigned32 data >>= fun x =>
      wrap .slice (Codec.readMany (decodeImpl u) x.1.toNat) x.2 := by
    rw [decodeImpl]
    exact if_neg (mt (isUint8_of_goTy hu).mp helem)
  have hmany : Follows (walkMany (walk elem) (decodeLength data).1 (data.drop 4))
      Value.ValidStrings (Spec.vector elem).view (decode (.vector elem) data)
      (wrap .slice (Codec.readMany (decodeImpl u) (decodeLength data).1) (data.drop 4)) :=
    (follows_many h _ _).map _ Data.list Value.slice (fun _ => allValidStrings_iff) (fun _ => rfl)
  rw [hwalk, hgo, decodeUnsigned32, decodeUnsigned, Codec.readFixed]
  by_cases hlen : data.length < 4
  · rw [if_pos hlen, decide_eq_false (not_le.mpr hlen)]
    exact hmany.incomplete _
  · have hlength : (UInt32.ofNat (Bytes.ofBe (data.take 4))).toNat = (decodeLength data).1 :=
      toNat_length (not_lt.mp hlen)
    rw [if_neg hlen, decide_eq_true (not_lt.mp hlen)]
    rw [← hlength] at hmany ⊢
    exact hmany

mutual

/-- The decoders of Python and of Go follow the walk of a schema. -/
lemma follows_decode : ∀ {spec : Spec} {t : Ty}, spec.goTy = some t → ∀ data,
    Follows (walk spec data) Value.ValidStrings spec.view (decode spec data) (decodeImpl t data)
  | .integer isSigned size, t, ht, data => follows_integer ht data
  | .vector elem, t, ht, data => by
    obtain ⟨u, hu, rfl⟩ := Option.map_eq_some_iff.mp ht
    by_cases helem : elem = .integer false 1
    · subst helem
      obtain rfl := Option.some.inj hu
      exact follows_byteVector data
    · exact follows_vector hu helem (fun data => follows_decode hu data) data
  | .struct kvs, t, ht, data => by
    obtain ⟨ts, hts, rfl⟩ := Option.map_eq_some_iff.mp ht
    exact (follows_decodeFields hts (fun _ => none) data).map _ Data.object Value.struct
      (fun _ => Iff.rfl) (fun _ => rfl)
  | .string, t, ht, data => by
    obtain rfl := Option.some.inj ht
    exact follows_string data
  | .bytes, t, ht, data => by
    obtain rfl := Option.some.inj ht
    exact follows_bytes data

lemma follows_decodeFields : ∀ {kvs : List (SchemaText × Spec)} {ts : List Ty},
    goTys kvs = some ts → ∀ acc data,
    Follows (walkFields kvs data) AllValidStrings (fun gs => viewFields kvs gs acc)
      (decodeFields kvs acc data) (Obi.decodeFields ts data)
  | [], ts, ht, acc, data => by
    obtain rfl := Option.some.inj ht
    exact .done trivial rfl
  | (k, spec) :: kvs, ts, ht, acc, data => by
    obtain ⟨t, hspec, ht⟩ := Option.bind_eq_some_iff.mp ht
    obtain ⟨ts', hkvs, ht⟩ := Option.bind_eq_some_iff.mp ht
    obtain rfl := Option.some.inj ht
    exact Follows.bind (fun x gs => viewFields kvs gs (Function.update acc k (some x)))
      (fun x r => decodeFields kvs (Function.update acc k (some x)) r)
      (follows_decode hspec data) (fun x => follows_decodeFields hkvs _ _) List.cons
      (fun g gs => Iff.rfl) (fun g gs => rfl)

end

/-! ## Scripts -/

/-- Where the decoders cannot differ: Go finds every read in range, or Python meets a text that is
not UTF-8, or bytes are left over. -/
def Walk.Decisive (w : Walk) : Prop := w.complete = true ∨ ¬w.Readable ∨ w.rest ≠ []

instance (w : Walk) : Decidable w.Decisive :=
  inferInstanceAs (Decidable (_ ∨ ¬(∀ b ∈ w.texts, Text.ValidUtf8 b) ∨ _))

/-- Python and Go accept the same value, if its texts are UTF-8. -/
def DecodesAsGo (spec : Spec) (t : Ty) (data : Bytes) (py : Except String Data) : Prop :=
  ∀ v, py = .ok v ↔ ∃ g, Obi.decode t data = .ok g ∧ g.ValidStrings ∧ spec.view g = v

lemma decodeAll_eq_ok {what : String} {spec : Spec} {data : Bytes} {v : Data} :
    decodeAll what spec data = .ok v ↔ decode spec data = .ok (v, []) := by
  rw [decodeAll, Exec.except_bind_eq_ok]
  constructor
  · rintro ⟨⟨a, r⟩, ha, h⟩
    cases r with
    | nil =>
      obtain rfl := Except.ok.inj h
      exact ha
    | cons x r => cases h
  · intro h
    exact ⟨_, h, rfl⟩

lemma decodesAsGo_iff {spec : Spec} {t : Ty} (ht : spec.goTy = some t) (what : String)
    (data : Bytes) :
    DecodesAsGo spec t data (decodeAll what spec data) ↔ (walk spec data).Decisive := by
  have hfollows := follows_decode ht data
  simp only [DecodesAsGo, decodeAll_eq_ok, Obi.decode_eq_ok]
  constructor
  · intro h
    by_contra hdecisive
    rw [Walk.Decisive, not_or, not_or, not_not, not_not] at hdecisive
    obtain ⟨hcomplete, hread, hrest⟩ := hdecisive
    rcases hfollows.reads with ⟨⟨v, hv⟩, -⟩ | ⟨-, hread'⟩
    · rw [hrest] at hv
      obtain ⟨g, hg, -⟩ := (h v).mp hv
      rcases hfollows.ranges with ⟨-, hcomplete'⟩ | ⟨⟨e, he⟩, -⟩
      · exact hcomplete hcomplete'
      · rw [he] at hg
        cases hg
    · exact hread' hread
  · intro hdecisive v
    constructor
    · intro hv
      have hrest := hfollows.rest_of_reads hv
      rcases hfollows.reads with ⟨-, hread⟩ | ⟨⟨e, he⟩, -⟩
      · rcases hfollows.ranges with ⟨⟨g, hg, hvalid⟩, -⟩ | ⟨-, hcomplete⟩
        · rw [← hrest] at hg
          exact ⟨g, hg, hvalid.mpr hread, hfollows.sameValue hv hg⟩
        · rcases hdecisive with h | h | h
          · rw [hcomplete] at h
            cases h
          · exact absurd hread h
          · exact absurd hrest.symm h
      · rw [he] at hv
        cases hv
    · rintro ⟨g, hg, hvalid, rfl⟩
      have hrest := hfollows.rest_of_ranges hg
      rcases hfollows.ranges with ⟨⟨g', hg', hiff⟩, -⟩ | ⟨⟨e, he⟩, -⟩
      · obtain ⟨rfl, -⟩ := Prod.mk.inj (Except.ok.inj (hg.symm.trans hg'))
        rcases hfollows.reads with ⟨⟨v, hv⟩, -⟩ | ⟨-, hread⟩
        · rw [← hrest] at hv
          rw [hfollows.sameValue hv hg]
          exact hv
        · exact absurd (hiff.mp hvalid) hread
      · rw [he] at hg
        cases hg

/-- When a codec of Python agrees with Go: on the encodings of values in range, and on the byte
strings that are decoded. -/
def AgreesExactly (spec : Spec) (t : Ty) (enc : Data → Except String Bytes)
    (dec : Bytes → Except String Data) : Prop :=
  (∀ v, spec.InRange v → (enc v = Obi.encode (spec.goValue v) ↔ AsciiTexts v)) ∧
    ∀ data, DecodesAsGo spec t data (dec data) ↔ (walk spec data).Decisive

/-- **When Python agrees with Go.**  For a script whose schema Go supports, `pyobi` writes the
bytes of Go for the values whose texts are all ASCII, and no others; and it reads what Go reads
from the byte strings that are decisive, and no others. -/
theorem pyobi_agrees_iff {schema : SchemaText} {obi : PyObi} (_ : PyObi.init schema = .ok obi) :
    (∀ t, obi.inputSchema.goTy = some t →
      AgreesExactly obi.inputSchema t obi.encodeInput obi.decodeInput) ∧
    (∀ t, obi.outputSchema.goTy = some t →
      AgreesExactly obi.outputSchema t obi.encodeOutput obi.decodeOutput) :=
  ⟨fun _ ht => ⟨fun _ hv => encode_eq_go_iff ht hv, fun data => decodesAsGo_iff ht "input" data⟩,
    fun _ ht => ⟨fun _ hv => encode_eq_go_iff ht hv, fun data => decodesAsGo_iff ht "output" data⟩⟩

theorem pyobi_agrees_iff_sample :
    AgreesExactly (.struct [(['a'], .integer true 2)]) (.struct [.int16])
        (encode (.struct [(['a'], .integer true 2)]))
        (decodeAll "input" (.struct [(['a'], .integer true 2)])) ∧
      AgreesExactly (.vector .string) (.slice .string) (encode (.vector .string))
        (decodeAll "output" (.vector .string)) := by
  have hschema : PyObi.init "{a:i16}/[string]".toList =
      .ok ⟨.struct [(['a'], .integer true 2)], .vector .string⟩ := rfl
  exact ⟨(pyobi_agrees_iff hschema).1 _ rfl, (pyobi_agrees_iff hschema).2 _ rfl⟩

/-- The empty byte string: Python reads the number zero, and Go is out of range.  The text `é`:
Python writes the length one, and Go the length two. -/
theorem not_decodesAsGo_nil :
    (¬∀ (schema : SchemaText) (obi : PyObi) (t : Ty) (data : Bytes),
        PyObi.init schema = .ok obi → obi.inputSchema.goTy = some t →
        DecodesAsGo obi.inputSchema t data (obi.decodeInput data)) ∧
      encode .string (.str "é") ≠ Obi.encode (Spec.string.goValue (.str "é")) := by
  constructor
  · intro h
    have hschema : PyObi.init "u8/u8".toList = .ok ⟨.integer false 1, .integer false 1⟩ := rfl
    obtain ⟨g, hg, -⟩ := (h _ _ .uint8 [] hschema rfl (.int 0)).mp rfl
    cases hg
  · have hrange : Spec.string.InRange (.str "é") := by
      refine ⟨"é", rfl, ?_⟩
      rw [Text.length_utf8]
      decide
    intro h
    have hascii := (encode_eq_go_iff rfl hrange).mp h
    cases hascii with
    | str hascii => exact absurd (hascii 'é' (by simp)) (by decide)

end Bandchain.Obi.Python
