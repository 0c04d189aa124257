import Bandchain.Lib.Braces
import Bandchain.Lib.Exec
import Bandchain.Obi.JavaScript
import Bandchain.Obi.Python
import Bandchain.Obi.Schema

/-!
# Parsing the schema of a Go type

Both parsers read the schema that Go prints for a type as the tree of the type.  They find the
fields of a struct by counting braces; this works since the commas and colons of a printed schema
are all inside of braces.
-/

namespace Bandchain.Obi

open Braces
open JavaScript (isLineTerminator)

/-- The tag has no character of the schema language, and no end of a line. -/
def IsClean (name : SchemaText) : Prop :=
  ∀ c ∈ name, c ∉ [':', ',', '{', '}', '[', ']'] ∧ isLineTerminator c = false

/-- A comma or a colon. -/
def IsSeparator (c : Char) : Prop := c = ':' ∨ c = ','

/-- Commas and colons are inside of braces, and there is one line. -/
def IsPiece (s : SchemaText) : Prop :=
  Shut '{' '}' IsSeparator s ∧ ∀ c ∈ s, isLineTerminator c = false

/-- A piece without a colon can be the name of a field. -/
def IsName (name : SchemaText) : Prop := IsPiece name ∧ ':' ∉ name

/-! ## Printed fields -/

/-- The fields of a struct, with a comma before all but the first. -/
def joinFields : Bool → List (SchemaText × SchemaText) → SchemaText
  | _, [] => []
  | isFirst, (name, s) :: kvs =>
      (if isFirst then [] else [',']) ++ name ++ ':' :: (s ++ joinFields false kvs)

lemma IsClean.forall_ne {name : SchemaText} (h : IsClean name) :
    ∀ c ∈ name, c ≠ '{' ∧ c ≠ '}' ∧ ¬IsSeparator c := by
  intro c hc
  have := (h c hc).1
  simp only [List.mem_cons, List.not_mem_nil, or_false, not_or] at this
  rw [IsSeparator]
  tauto

lemma IsClean.isName {name : SchemaText} (h : IsClean name) : IsName name :=
  ⟨⟨.of_forall h.forall_ne, fun c hc => (h c hc).2⟩,
    fun hc => (h.forall_ne _ hc).2.2 (.inl rfl)⟩

lemma balanced_joinFields {isFirst : Bool} {kvs : List (SchemaText × SchemaText)}
    (h : ∀ kv ∈ kvs, IsName kv.1 ∧ IsPiece kv.2) :
    Balanced '{' '}' (joinFields isFirst kvs) := by
  induction kvs generalizing isFirst with
  | nil => exact .nil
  | cons kv kvs ih =>
    obtain ⟨⟨hname, hpiece⟩, hkvs⟩ := List.forall_mem_cons.mp h
    have hcomma : Balanced '{' '}' (if isFirst then [] else [',']) := by
      cases isFirst
      · exact .cons (by decide) (by decide) .nil
      · exact .nil
    rw [joinFields]
    exact (hcomma.append hname.1.1.balanced).append
      (.cons (by decide) (by decide) (hpiece.1.balanced.append (ih hkvs)))

lemma forall_joinFields {isFirst : Bool} {kvs : List (SchemaText × SchemaText)}
    (h : ∀ kv ∈ kvs, IsName kv.1 ∧ IsPiece kv.2) :
    ∀ c ∈ joinFields isFirst kvs, isLineTerminator c = false := by
  induction kvs generalizing isFirst with
  | nil => simp [joinFields]
  | cons kv kvs ih =>
    obtain ⟨⟨hname, hpiece⟩, hkvs⟩ := List.forall_mem_cons.mp h
    intro c hc
    rw [joinFields, List.mem_append, List.mem_append, List.mem_cons, List.mem_append] at hc
    rcases hc with (hc | hc) | rfl | hc | hc
    · cases isFirst
      · obtain rfl := List.mem_singleton.mp hc
        decide
      · simp at hc
    · exact hname.1.2 c hc
    · decide
    · exact hpiece.2 c hc
    · exact ih hkvs c hc

lemma length_lt_joinFields (isFirst : Bool) {kvs : List (SchemaText × SchemaText)}
    {kv : SchemaText × SchemaText} (h : kv ∈ kvs) :
    kv.2.length < (joinFields isFirst kvs).length := by
  induction kvs generalizing isFirst with
  | nil => simp at h
  | cons kv' kvs ih =>
    rw [joinFields, List.length_append, List.length_cons, List.length_append, List.length_append]
    rcases List.mem_cons.mp h with rfl | h
    · omega
    · have := ih false h
      omega

/-! ## Schemas -/

/-- The schemas without parts, and their trees. -/
def leaves : List (SchemaText × Spec) :=
  [("u8".toList, .integer false 1), ("u16".toList, .integer false 2),
    ("u32".toList, .integer false 4), ("u64".toList, .integer false 8),
    ("u128".toList, .integer false 16), ("u256".toList, .integer false 32),
    ("i8".toList, .integer true 1), ("i16".toList, .integer true 2),
    ("i32".toList, .integer true 4), ("i64".toList, .integer true 8),
    ("i128".toList, .integer true 16), ("i256".toList, .integer true 32),
    ("string".toList, .string), ("bytes".toList, .bytes)]

mutual

/-- The text is the schema of the tree. -/
inductive Writes : SchemaText → Spec → Prop
  | leaf {s : SchemaText} {spec : Spec} : (s, spec) ∈ leaves → Writes s spec
  | vector {s : SchemaText} {spec : Spec} :
      Writes s spec → Writes ('[' :: (s ++ [']'])) (.vector spec)
  | struct {kvs : List (SchemaText × SchemaText)} {specs : List (SchemaText × Spec)} :
      kvs ≠ [] → WritesFields kvs specs →
      Writes ('{' :: (joinFields true kvs ++ ['}'])) (.struct specs)

/-- The texts of fields are schemas. -/
inductive WritesFields : List (SchemaText × SchemaText) → List (SchemaText × Spec) → Prop
  | nil : WritesFields [] []
  | cons {name s : SchemaText} {spec : Spec} {kvs : List (SchemaText × SchemaText)}
      {specs : List (SchemaText × Spec)} : IsName name → Writes s spec →
      WritesFields kvs specs → WritesFields ((name, s) :: kvs) ((name, spec) :: specs)

end

lemma isPiece_of_mem_leaves {s : SchemaText} {spec : Spec} (h : (s, spec) ∈ leaves) :
    IsPiece s := by
  have hclean : ∀ x ∈ leaves, ∀ c ∈ x.1, c ≠ '{' ∧ c ≠ '}' ∧ c ≠ ':' ∧ c ≠ ',' ∧
      isLineTerminator c = false := by
    simp [leaves, isLineTerminator]
  refine ⟨.of_forall fun c hc => ?_, fun c hc => (hclean _ h c hc).2.2.2.2⟩
  obtain ⟨hl, hr, hcolon, hcomma, -⟩ := hclean _ h c hc
  exact ⟨hl, hr, by simp [IsSeparator, hcolon, hcomma]⟩

mutual

lemma Writes.isPiece : ∀ {s : SchemaText} {spec : Spec}, Writes s spec → IsPiece s
  | _, _, .leaf h => isPiece_of_mem_leaves h
  | _, _, .vector h => by
    obtain ⟨hshut, hline⟩ := h.isPiece
    have hright : Shut '{' '}' IsSeparator [']'] := .of_forall (by simp [IsSeparator])
    refine ⟨.cons (by decide) (by decide) (by simp [IsSeparator]) (hshut.append hright), ?_⟩
    simp only [List.mem_cons, List.mem_append, List.not_mem_nil, or_false]
    rintro c (rfl | hc | rfl)
    · decide
    · exact hline c hc
    · decide
  | _, _, .struct _ h => by
    refine ⟨.braces (balanced_joinFields h.isPiece) .nil, ?_⟩
    simp only [List.mem_cons, List.mem_append, List.not_mem_nil, or_false]
    rintro c (rfl | hc | rfl)
    · decide
    · exact forall_joinFields h.isPiece c hc
    · decide

lemma WritesFields.isPiece : ∀ {kvs : List (SchemaText × SchemaText)}
    {specs : List (SchemaText × Spec)}, WritesFields kvs specs →
    ∀ kv ∈ kvs, IsName kv.1 ∧ IsPiece kv.2
  | _, _, .nil => by simp
  | _, _, .cons hname hs hkvs => List.forall_mem_cons.mpr ⟨⟨hname, hs.isPiece⟩, hkvs.isPiece⟩

end

/-! ## Parsers -/

/-- A parser with a bound on the depth that takes schemas apart as they were put together. -/
structure Parses (parse : ℕ → SchemaText → Except String Spec) : Prop where
  leaf : ∀ depth {s spec}, (s, spec) ∈ leaves → parse (depth + 1) s = .ok spec
  vector : ∀ depth {s}, IsPiece s →
    parse (depth + 1) ('[' :: (s ++ [']'])) = (parse depth s).map .vector
  struct : ∀ depth {kvs}, kvs ≠ [] → (∀ kv ∈ kvs, IsName kv.1 ∧ IsPiece kv.2) →
    parse (depth + 1) ('{' :: (joinFields true kvs ++ ['}'])) =
      (kvs.mapM fun kv => (parse depth kv.2).map fun spec => (kv.1, spec)).map .struct

section Parser

variable {parse : ℕ → SchemaText → Except String Spec}

mutual

/-- The parser reads a schema as its tree. -/
lemma Writes.parse (hparse : Parses parse) : ∀ {s : SchemaText} {spec : Spec}, Writes s spec →
    ∀ {depth}, s.length < depth → parse depth s = .ok spec
  | _, _, _, 0, hdepth => absurd hdepth (Nat.not_lt_zero _)
  | _, _, .leaf h, depth + 1, _ => hparse.leaf depth h
  | _, _, .vector (s := s) h, depth + 1, hdepth => by
    have hlen : s.length < depth := by simp at hdepth; omega
    rw [hparse.vector depth h.isPiece, h.parse hparse hlen]
    rfl
  | _, _, @Writes.struct kvs _ hne h, depth + 1, hdepth => by
    have hlen : ∀ kv ∈ kvs, kv.2.length < depth := by
      intro kv hkv
      have := length_lt_joinFields true hkv
      simp at hdepth
      omega
    rw [hparse.struct depth hne h.isPiece, h.parse hparse hlen]
    rfl

lemma WritesFields.parse (hparse : Parses parse) : ∀ {kvs : List (SchemaText × SchemaText)}
    {specs : List (SchemaText × Spec)}, WritesFields kvs specs →
    ∀ {depth}, (∀ kv ∈ kvs, kv.2.length < depth) →
    (kvs.mapM fun kv => (parse depth kv.2).map fun spec => (kv.1, spec)) = .ok specs
  | _, _, .nil, _, _ => rfl
  | _, _, .cons hname hs hkvs, depth, hlen => by
    obtain ⟨hhead, htail⟩ := List.forall_mem_cons.mp hlen
    rw [List.mapM_cons, hs.parse hparse hhead, hkvs.parse hparse htail]
    rfl

end

end Parser

/-! ## Printed types -/

mutual

/-- What Go prints for a type is the schema of its tree. -/
lemma writes_of_getSchemaImpl : ∀ {t : TaggedTy} {s : SchemaText}, getSchemaImpl t = .ok s →
    t.TagsAll IsClean → Writes s t.toSpec
  | .uint8, _, h, _ | .uint16, _, h, _ | .uint32, _, h, _ | .uint64, _, h, _ | .int8, _, h, _
  | .int16, _, h, _ | .int32, _, h, _ | .int64, _, h, _ | .string, _, h, _ => by
    obtain rfl := Except.ok.inj h
    exact .leaf (by simp [leaves, TaggedTy.toSpec])
  | .slice elem, s, h, ht => by
    rw [getSchemaImpl] at h
    rw [TaggedTy.toSpec]
    split_ifs at h ⊢ with h8
    · obtain rfl := Except.ok.inj h
      exact .leaf (by simp [leaves])
    · obtain ⟨s', hs', h⟩ := Exec.except_bind_eq_ok.mp h
      obtain rfl := Except.ok.inj h
      exact .vector (writes_of_getSchemaImpl hs' ht)
  | .struct name fields, s, h, ht => by
    rw [getSchemaImpl] at h
    split_ifs at h with hempty
    obtain ⟨s', hs', h⟩ := Exec.except_bind_eq_ok.mp h
    obtain rfl := Except.ok.inj h
    obtain ⟨kvs, rfl, hkvs⟩ := writes_of_getFieldSchemas hs' ht
    refine .struct ?_ hkvs
    rintro rfl
    cases fields with
    | nil => exact hempty rfl
    | cons field fields => cases hkvs
  | .unsupported kind, s, h, _ => by cases h

lemma writes_of_getFieldSchemas : ∀ {structName : String} {isFirst : Bool}
    {fields : List (String × Option SchemaText × TaggedTy)} {s : SchemaText},
    getFieldSchemas structName isFirst fields = .ok s → FieldTagsAll IsClean fields →
    ∃ kvs, s = joinFields isFirst kvs ∧ WritesFields kvs (toSpecs fields)
  | _, _, [], _, h, _ => by
    obtain rfl := Except.ok.inj h
    exact ⟨[], rfl, .nil⟩
  | _, _, (fieldName, none, t) :: fields, _, h, _ => by cases h
  | _, _, (fieldName, some name, t) :: fields, _, h, htags => by
    obtain ⟨hname, ht, hfields⟩ := htags
    obtain ⟨text, htext, h⟩ := Exec.except_bind_eq_ok.mp h
    obtain ⟨rest, hrest, h⟩ := Exec.except_bind_eq_ok.mp h
    obtain rfl := Except.ok.inj h
    obtain ⟨kvs, rfl, hkvs⟩ := writes_of_getFieldSchemas hrest hfields
    exact ⟨(name, text) :: kvs, rfl,
      .cons (hname name rfl).isName (writes_of_getSchemaImpl htext ht) hkvs⟩

end

/-! ## JavaScript -/

namespace JavaScript

lemma isBracketed_append {left right : Char} {s : SchemaText}
    (h : ∀ c ∈ s, isLineTerminator c = false) :
    isBracketed left right (left :: (s ++ [right])) = true := by
  simp only [isBracketed, beq_self_eq_true, List.getLast?_append, List.getLast?_singleton,
    List.dropLast_concat]
  simpa using h

/-- The loop in a state in which `push` fills one of the two texts. -/
lemma collects_of_push {kvs : List (SchemaText × SchemaText)} {fill : Bool}
    {kv : SchemaText → SchemaText × SchemaText}
    (hpush : ∀ n w c, Scan.push ⟨kvs, kv w, fill, n⟩ c = ⟨kvs, kv (w ++ [c]), fill, n⟩) :
    Collects '{' '}' IsSeparator Scan.next fun n w => ⟨kvs, kv w, fill, n⟩ where
  inner := by
    intro n w c hl hr
    simp [Scan.next, hpush, hl, hr]
  outer := by
    intro w c hl hr hsep
    rw [IsSeparator, not_or] at hsep
    simp [Scan.next, hpush, hl, hr, hsep.1, hsep.2]
  opens := by
    intro n w
    simp [Scan.next, hpush]
  closes := by
    intro n w
    simp [Scan.next, hpush]

/-- The loop in the state in which the text of a value is filled. -/
lemma collects_value (kvs : List (SchemaText × SchemaText)) (k : SchemaText) :
    Collects '{' '}' IsSeparator Scan.next fun n w => ⟨kvs, (k, w), true, n⟩ :=
  collects_of_push fun _ _ _ => rfl

/-- The loop in the state in which the name of a field is filled. -/
lemma collects_name (kvs : List (SchemaText × SchemaText)) :
    Collects '{' '}' IsSeparator Scan.next fun n w => ⟨kvs, (w, []), false, n⟩ :=
  collects_of_push fun _ _ _ => rfl

/-- One field, up to the comma or the brace after it. -/
lemma foldl_field {kvs : List (SchemaText × SchemaText)} {name s : SchemaText}
    (hname : IsName name) (hs : IsPiece s) (rest : SchemaText) :
    (name ++ ':' :: (s ++ rest)).foldl Scan.next ⟨kvs, ([], []), false, 0⟩ =
      rest.foldl Scan.next ⟨kvs, (name, s), true, 0⟩ := by
  have hcolon : Scan.next ⟨kvs, (name, []), false, 0⟩ ':' = ⟨kvs, (name, []), true, 0⟩ := by
    simp [Scan.next]
  have hfold := (collects_name kvs).foldl_shut hname.1.1 []
  rw [List.nil_append] at hfold
  rw [List.foldl_append, hfold, List.foldl_cons, hcolon, List.foldl_append]
  exact congrArg (List.foldl Scan.next · rest) ((collects_value kvs name).foldl_shut hs.1 [])

lemma foldl_joinFields {kvs : List (SchemaText × SchemaText)}
    (h : ∀ kv ∈ kvs, IsName kv.1 ∧ IsPiece kv.2) (done : List (SchemaText × SchemaText))
    (kv : SchemaText × SchemaText) :
    (joinFields false kvs ++ ['}']).foldl Scan.next ⟨done, kv, true, 0⟩ =
      ⟨done ++ kv :: kvs, ([], []), false, 0⟩ := by
  induction kvs generalizing done kv with
  | nil => simp [joinFields, Scan.next]
  | cons kv' kvs ih =>
    obtain ⟨⟨hname, hs⟩, hkvs⟩ := List.forall_mem_cons.mp h
    have hcomma : Scan.next ⟨done, kv, true, 0⟩ ',' = ⟨done ++ [kv], ([], []), false, 0⟩ := by
      simp [Scan.next]
    rw [joinFields]
    simp only [Bool.false_eq_true, if_false, List.cons_append, List.nil_append, List.append_assoc,
      List.foldl_cons, hcomma]
    rw [foldl_field hname hs, ih hkvs, List.append_assoc]
    rfl

/-- The loop finds the fields that were printed. -/
lemma scanFields_joinFields {kvs : List (SchemaText × SchemaText)} (hne : kvs ≠ [])
    (h : ∀ kv ∈ kvs, IsName kv.1 ∧ IsPiece kv.2) :
    scanFields ('{' :: (joinFields true kvs ++ ['}'])) = kvs := by
  cases kvs with
  | nil => exact absurd rfl hne
  | cons kv kvs =>
    obtain ⟨⟨hname, hs⟩, hkvs⟩ := List.forall_mem_cons.mp h
    rw [scanFields, List.tail_cons, joinFields]
    simp only [if_true, List.nil_append, List.cons_append, List.append_assoc]
    rw [foldl_field hname hs, foldl_joinFields hkvs]
    rfl

lemma parses_fromSpecAux : Parses fromSpecAux where
  leaf := by
    intro depth s spec h
    simp only [leaves, List.mem_cons, Prod.mk.injEq, List.not_mem_nil, or_false] at h
    rcases h with ⟨rfl, rfl⟩ | ⟨rfl, rfl⟩ | ⟨rfl, rfl⟩ | ⟨rfl, rfl⟩ | ⟨rfl, rfl⟩ | ⟨rfl, rfl⟩ |
      ⟨rfl, rfl⟩ | ⟨rfl, rfl⟩ | ⟨rfl, rfl⟩ | ⟨rfl, rfl⟩ | ⟨rfl, rfl⟩ | ⟨rfl, rfl⟩ | ⟨rfl, rfl⟩ |
      ⟨rfl, rfl⟩ <;> rfl
  vector := by
    intro depth s hs
    have hinteger : integerSpec ('[' :: (s ++ [']'])) = none := rfl
    rw [fromSpecAux, hinteger]
    simp only [isBracketed_append hs.2, if_true, List.tail_cons, List.dropLast_concat]
  struct := by
    intro depth kvs hne h
    have hinteger : integerSpec ('{' :: (joinFields true kvs ++ ['}'])) = none := rfl
    have hvector : isBracketed '[' ']' ('{' :: (joinFields true kvs ++ ['}'])) = false := rfl
    rw [fromSpecAux, hinteger]
    simp only [hvector, Bool.false_eq_true, if_false, isBracketed_append (forall_joinFields h),
      if_true, scanFields_joinFields hne h]

end JavaScript

/-! ## Python -/

namespace Python

lemma chomp_append {left right : Char} (hright : right ≠ '\n') (s : SchemaText) :
    chomp (left :: (s ++ [right])) = left :: (s ++ [right]) := by
  rw [chomp, ← List.cons_append, List.getLast?_concat]
  exact if_neg fun h => hright (Option.some.inj h)

lemma isBracketed_append (left : Char) {right : Char} (hright : right ≠ '\n') {s : SchemaText}
    (h : ∀ c ∈ s, isLineTerminator c = false) :
    isBracketed left right (left :: (s ++ [right])) = true := by
  simp only [isBracketed, chomp_append hright, beq_self_eq_true, List.getLast?_append,
    List.getLast?_singleton, List.dropLast_concat]
  have hline : ∀ c ∈ s, c ≠ '\n' := by
    rintro c hc rfl
    exact absurd (h _ hc) (by decide)
  simpa using hline

lemma collects_field (fields : List SchemaText) :
    Collects '{' '}' IsSeparator Scan.next fun n w => ⟨fields, w, (n : ℤ)⟩ where
  inner := by
    intro n w c hl hr
    have hn : (n : ℤ) + 1 ≠ 0 := by omega
    simp [Scan.next, hl, hr, hn]
  outer := by
    intro w c hl hr hsep
    rw [IsSeparator, not_or] at hsep
    simp [Scan.next, hl, hr, hsep.2]
  opens := by
    intro n w
    simp [Scan.next]
  closes := by
    intro n w
    simp [Scan.next]

/-- One field, up to the comma or the brace after it. -/
lemma foldl_field {fields : List SchemaText} {name s : SchemaText} (hname : IsName name)
    (hs : IsPiece s) (rest : SchemaText) :
    (name ++ ':' :: (s ++ rest)).foldl Scan.next ⟨fields, [], 0⟩ =
      rest.foldl Scan.next ⟨fields, name ++ ':' :: s, 0⟩ := by
  have hcolon : Scan.next ⟨fields, name, 0⟩ ':' = ⟨fields, name ++ [':'], 0⟩ := by
    simp [Scan.next]
  have hfold := (collects_field fields).foldl_shut hname.1.1 []
  have hvalue := (collects_field fields).foldl_shut hs.1 (name ++ [':'])
  rw [List.nil_append] at hfold
  rw [List.append_assoc] at hvalue
  rw [List.foldl_append]
  show List.foldl Scan.next (name.foldl Scan.next ⟨fields, [], ((0 : ℕ) : ℤ)⟩) _ = _
  rw [hfold, List.foldl_cons]
  show List.foldl Scan.next (Scan.next ⟨fields, name, 0⟩ ':') _ = _
  rw [hcolon, List.foldl_append]
  exact congrArg (List.foldl Scan.next · rest) hvalue

/-- The text of a field. -/
def fieldText (kv : SchemaText × SchemaText) : SchemaText := kv.1 ++ ':' :: kv.2

lemma foldl_joinFields {kvs : List (SchemaText × SchemaText)}
    (h : ∀ kv ∈ kvs, IsName kv.1 ∧ IsPiece kv.2) (done : List SchemaText) (last : SchemaText) :
    let s := (joinFields false kvs).foldl Scan.next ⟨done, last, 0⟩
    s.fields ++ [s.last] = done ++ last :: kvs.map fieldText := by
  induction kvs generalizing done last with
  | nil => rfl
  | cons kv kvs ih =>
    obtain ⟨⟨hname, hs⟩, hkvs⟩ := List.forall_mem_cons.mp h
    have hcomma : Scan.next ⟨done, last, 0⟩ ',' = ⟨done ++ [last], [], 0⟩ := by
      simp [Scan.next]
    rw [joinFields]
    simp only [Bool.false_eq_true, if_false, List.cons_append, List.nil_append, List.foldl_cons,
      hcomma]
    rw [foldl_field hname hs, ih hkvs, List.append_assoc]
    rfl

lemma scanFields_joinFields {kvs : List (SchemaText × SchemaText)} (hne : kvs ≠ [])
    (h : ∀ kv ∈ kvs, IsName kv.1 ∧ IsPiece kv.2) :
    scanFields ('{' :: (joinFields true kvs ++ ['}'])) = kvs.map fieldText := by
  cases kvs with
  | nil => exact absurd rfl hne
  | cons kv kvs =>
    obtain ⟨⟨hname, hs⟩, hkvs⟩ := List.forall_mem_cons.mp h
    rw [scanFields, List.tail_cons, List.dropLast_concat, joinFields]
    simp only [if_true, List.nil_append]
    rw [foldl_field hname hs]
    exact foldl_joinFields hkvs [] _

/-- A name has no colon, so the first colon of a field ends the name. -/
lemma splitField_fieldText {kv : SchemaText × SchemaText} (h : IsName kv.1) :
    splitField (fieldText kv) = .ok kv := by
  have hne : ∀ c ∈ kv.1, decide (c ≠ ':') = true :=
    fun c hc => decide_eq_true fun heq => h.2 (heq ▸ hc)
  rw [splitField, fieldText, if_pos (by simp), List.takeWhile_append_of_pos hne,
    List.dropWhile_append_of_pos hne]
  simp

lemma mapM_fieldText (depth : ℕ) {kvs : List (SchemaText × SchemaText)}
    (h : ∀ kv ∈ kvs, IsName kv.1 ∧ IsPiece kv.2) :
    ((kvs.map fieldText).mapM fun each => do
      let tokens ← splitField each
      let obi ← fromSpecAux depth tokens.2
      return (tokens.1, obi)) =
    kvs.mapM fun kv => (fromSpecAux depth kv.2).map fun spec => (kv.1, spec) := by
  induction kvs with
  | nil => rfl
  | cons kv kvs ih =>
    obtain ⟨⟨hname, -⟩, hkvs⟩ := List.forall_mem_cons.mp h
    rw [List.map_cons, List.mapM_cons, List.mapM_cons, ih hkvs, splitField_fieldText hname]
    cases hspec : fromSpecAux depth kv.2 <;> simp only [bind, Except.bind, hspec] <;> rfl

lemma parses_fromSpecAux : Parses fromSpecAux where
  leaf := by
    intro depth s spec h
    simp only [leaves, List.mem_cons, Prod.mk.injEq, List.not_mem_nil, or_false] at h
    rcases h with ⟨rfl, rfl⟩ | ⟨rfl, rfl⟩ | ⟨rfl, rfl⟩ | ⟨rfl, rfl⟩ | ⟨rfl, rfl⟩ | ⟨rfl, rfl⟩ |
      ⟨rfl, rfl⟩ | ⟨rfl, rfl⟩ | ⟨rfl, rfl⟩ | ⟨rfl, rfl⟩ | ⟨rfl, rfl⟩ | ⟨rfl, rfl⟩ | ⟨rfl, rfl⟩ |
      ⟨rfl, rfl⟩ <;> rfl
  vector := by
    intro depth s hs
    have hinteger : integerSpec (chomp ('[' :: (s ++ [']']))) = none := by
      rw [chomp_append (by decide)]
      rfl
    rw [fromSpecAux, hinteger]
    simp only [isBracketed_append '[' (show ']' ≠ '\n' by decide) hs.2, if_true,
      List.tail_cons, List.dropLast_concat]
  struct := by
    intro depth kvs hne h
    have hinteger : integerSpec (chomp ('{' :: (joinFields true kvs ++ ['}']))) = none := by
      rw [chomp_append (by decide)]
      rfl
    have hvector : isBracketed '[' ']' ('{' :: (joinFields true kvs ++ ['}'])) = false := by
      rw [isBracketed, chomp_append (by decide)]
      rfl
    have hstruct : isBracketed '{' '}' ('{' :: (joinFields true kvs ++ ['}'])) = true :=
      isBracketed_append _ (by decide) (forall_joinFields h)
    rw [fromSpecAux, hinteger]
    simp only [hvector, Bool.false_eq_true, if_false, hstruct, if_true,
      scanFields_joinFields hne h]
    rw [mapM_fieldText depth h]

end Python

/-! ## Both parsers -/

mutual

/-- The tree has the type that was printed as its counterpart. -/
lemma goTy_toSpec : ∀ {t : TaggedTy} {s : SchemaText}, getSchemaImpl t = .ok s →
    t.toSpec.goTy = some t.toTy
  | .uint8, _, _ | .uint16, _, _ | .uint32, _, _ | .uint64, _, _ | .int8, _, _ | .int16, _, _
  | .int32, _, _ | .int64, _, _ | .string, _, _ => rfl
  | .slice elem, s, h => by
    rw [getSchemaImpl] at h
    rw [TaggedTy.toSpec, TaggedTy.toTy]
    split_ifs at h ⊢ with h8
    · cases elem <;> cases h8
      rfl
    · obtain ⟨s', hs', h⟩ := Exec.except_bind_eq_ok.mp h
      rw [Spec.goTy, goTy_toSpec hs']
      rfl
  | .struct name fields, s, h => by
    rw [getSchemaImpl] at h
    split_ifs at h with hempty
    obtain ⟨s', hs', h⟩ := Exec.except_bind_eq_ok.mp h
    rw [TaggedTy.toSpec, TaggedTy.toTy, Spec.goTy, goTys_toSpecs hs']
    rfl
  | .unsupported kind, s, h => by cases h

lemma goTys_toSpecs : ∀ {structName : String} {isFirst : Bool}
    {fields : List (String × Option SchemaText × TaggedTy)} {s : SchemaText},
    getFieldSchemas structName isFirst fields = .ok s →
    goTys (toSpecs fields) = some (toTys fields)
  | _, _, [], _, _ => rfl
  | _, _, (fieldName, none, t) :: fields, _, h => by cases h
  | _, _, (fieldName, some name, t) :: fields, _, h => by
    obtain ⟨text, htext, h⟩ := Exec.except_bind_eq_ok.mp h
    obtain ⟨rest, hrest, h⟩ := Exec.except_bind_eq_ok.mp h
    rw [toSpecs, goTys, goTy_toSpec htext, goTys_toSpecs hrest]
    rfl

end

/-- **The parsers invert the printer.**  If Go prints a schema for a type, and no tag has a
character of the schema language or an end of a line, then both packages read the schema as the
tree of the type, whose counterpart in Go is the type. -/
theorem fromSpec_getSchema {t : TaggedTy} {s : SchemaText} (h : getSchema t = .ok s)
    (htags : t.TagsAll IsClean) :
    Python.fromSpec s = .ok t.toSpec ∧ JavaScript.fromSpec s = .ok t.toSpec ∧
      t.toSpec.goTy = some t.toTy :=
  have hwrites := writes_of_getSchemaImpl h htags
  ⟨hwrites.parse Python.parses_fromSpecAux (Nat.lt_succ_self _),
    hwrites.parse JavaScript.parses_fromSpecAux (Nat.lt_succ_self _), goTy_toSpec h⟩

/-- A struct with a slice of structs and a byte slice. -/
theorem fromSpec_getSchema_sample :
    Python.fromSpec "{a:[{b c:i8}],d:bytes}".toList =
        .ok (.struct [(['a'], .vector (.struct [("b c".toList, .integer true 1)])),
          (['d'], .bytes)]) ∧
      JavaScript.fromSpec "{a:[{b c:i8}],d:bytes}".toList =
        .ok (.struct [(['a'], .vector (.struct [("b c".toList, .integer true 1)])),
          (['d'], .bytes)]) := by
  have hschema : getSchema (.struct "T" [("A", some ['a'], .slice (.struct "U"
      [("B", some "b c".toList, .int8)])), ("D", some ['d'], .slice .uint8)]) =
      .ok "{a:[{b c:i8}],d:bytes}".toList := rfl
  have hclean : ∀ name ∈ [['a'], "b c".toList, ['d']], IsClean name := by
    simp [IsClean, isLineTerminator]
  have htags : TaggedTy.TagsAll IsClean (.struct "T" [("A", some ['a'], .slice (.struct "U"
      [("B", some "b c".toList, .int8)])), ("D", some ['d'], .slice .uint8)]) := by
    simp only [List.forall_mem_cons] at hclean
    refine ⟨?_, ⟨?_, trivial, trivial⟩, ?_, trivial, trivial⟩
    · rintro _ ⟨⟩
      exact hclean.1
    · rintro _ ⟨⟩
      exact hclean.2.1
    · rintro _ ⟨⟩
      exact hclean.2.2.1
  have h := fromSpec_getSchema hschema htags
  exact ⟨h.1, h.2.1⟩

end Bandchain.Obi
