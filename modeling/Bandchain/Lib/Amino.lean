import Bandchain.Lib.Leb128

/-!
# Fields of binary messages

The fields of which amino messages consist: a tag and a value.  A field with the zero value is left
out, so whether it is there shows only by the tag at its place.  A field is taken from the front
of a message, as the zero value if another tag stands there.
-/

namespace Bandchain
namespace Amino

/-! ## Writing -/

/-- A string behind its length. -/
def lengthPrefixed (b : Bytes) : Bytes := Leb128.encode b.length ++ b

/-- A field of variable width. -/
def varintField (tag : UInt8) (n : ℕ) : Bytes := if n = 0 then [] else tag :: Leb128.encode n

/-- A field of eight bytes, the low ones first. -/
def fixed64Field (tag : UInt8) (n : ℕ) : Bytes :=
  if n = 0 then [] else tag :: (Bytes.be 8 n).reverse

/-- A field that holds a string or a message. -/
def bytesField (tag : UInt8) (b : Bytes) : Bytes :=
  if b = [] then [] else tag :: lengthPrefixed b

/-! ## Reading -/

/-- Read a field with the given tag, or leave the message as it is. -/
def takeField {α : Type} (tag : UInt8) (zero : α) (read : Bytes → α × Bytes) (b : Bytes) :
    α × Bytes :=
  match b with
  | [] => (zero, [])
  | t :: rest => if t = tag then read rest else (zero, b)

def takeVarint (tag : UInt8) : Bytes → ℕ × Bytes := takeField tag 0 Leb128.decode

def takeFixed64 (tag : UInt8) : Bytes → ℕ × Bytes :=
  takeField tag 0 fun b => (Bytes.ofBe (b.take 8).reverse, b.drop 8)

def takeBytes (tag : UInt8) : Bytes → Bytes × Bytes :=
  takeField tag [] fun b =>
    let (n, b) := Leb128.decode b
    (b.take n, b.drop n)

section Laws

variable {tag : UInt8} {x y : Bytes}

lemma takeField_of_head_ne {α : Type} {zero : α} {read : Bytes → α × Bytes}
    (h : x.head? ≠ some tag) : takeField tag zero read x = (zero, x) := by
  cases x with
  | nil => rfl
  | cons t rest =>
    rw [takeField, if_neg fun ht => h (by rw [ht]; rfl)]

lemma takeField_cons {α : Type} {zero : α} {read : Bytes → α × Bytes} :
    takeField tag zero read (tag :: x) = read x := by
  rw [takeField, if_pos rfl]

/-- A field that was written is taken, if the next field has another tag. -/
lemma takeVarint_append {n : ℕ} (h : x.head? ≠ some tag) :
    takeVarint tag (varintField tag n ++ x) = (n, x) := by
  rw [varintField]
  split_ifs with hn
  · rw [hn, List.nil_append, takeVarint, takeField_of_head_ne h]
  · rw [List.cons_append, takeVarint, takeField_cons, Leb128.decode_encode_append]

lemma takeFixed64_append {n : ℕ} (hn : n < 2 ^ 64) (h : x.head? ≠ some tag) :
    takeFixed64 tag (fixed64Field tag n ++ x) = (n, x) := by
  rw [fixed64Field]
  split_ifs with hzero
  · rw [hzero, List.nil_append, takeFixed64, takeField_of_head_ne h]
  · have hlen : (Bytes.be 8 n).reverse.length = 8 := by
      rw [List.length_reverse, Bytes.length_be]
    rw [List.cons_append, takeFixed64, takeField_cons, List.take_left' hlen, List.drop_left' hlen,
      List.reverse_reverse, Bytes.ofBe_be (by omega)]

lemma takeBytes_append {b : Bytes} (h : x.head? ≠ some tag) :
    takeBytes tag (bytesField tag b ++ x) = (b, x) := by
  rw [bytesField]
  split_ifs with hb
  · rw [hb, List.nil_append, takeBytes, takeField_of_head_ne h]
  · rw [List.cons_append, takeBytes, takeField_cons, lengthPrefixed, List.append_assoc,
      Leb128.decode_encode_append]
    exact Prod.ext (List.take_left' rfl) (List.drop_left' rfl)

/-- A field with another tag in front of a message that does not start with the tag. -/
lemma head_varintField_ne {t : UInt8} {n : ℕ} (ht : t ≠ tag) (h : x.head? ≠ some tag) :
    (varintField t n ++ x).head? ≠ some tag := by
  rw [varintField]
  split_ifs
  · exact h
  · simpa using ht

lemma head_fixed64Field_ne {t : UInt8} {n : ℕ} (ht : t ≠ tag) (h : x.head? ≠ some tag) :
    (fixed64Field t n ++ x).head? ≠ some tag := by
  rw [fixed64Field]
  split_ifs
  · exact h
  · simpa using ht

lemma head_bytesField_ne {t : UInt8} {b : Bytes} (ht : t ≠ tag) (h : x.head? ≠ some tag) :
    (bytesField t b ++ x).head? ≠ some tag := by
  rw [bytesField]
  split_ifs
  · exact h
  · simpa using ht

/-! ## Fields in order -/

/-- The message is empty or starts with a higher tag. -/
def After (tag : UInt8) (x : Bytes) : Prop := ∀ t ∈ x.head?, tag < t

lemma After.nil (tag : UInt8) : After tag [] := fun _ h => nomatch h

lemma After.cons {t : UInt8} (ht : tag < t) (x : Bytes) : After tag (t :: x) := by
  rintro _ h
  rwa [← Option.some.inj h]

lemma After.head_ne (h : After tag x) : x.head? ≠ some tag :=
  fun ht => UInt8.lt_irrefl _ (h tag ht)

lemma After.imp {t : UInt8} (ht : tag < t) (h : After t x) : After tag x :=
  fun t' ht' => UInt8.lt_trans ht (h t' ht')

lemma After.varintField {t : UInt8} {n : ℕ} (ht : tag < t) (h : After t x) :
    After tag (varintField t n ++ x) := by
  rw [Amino.varintField]
  split_ifs
  · exact h.imp ht
  · exact .cons ht _

lemma After.fixed64Field {t : UInt8} {n : ℕ} (ht : tag < t) (h : After t x) :
    After tag (fixed64Field t n ++ x) := by
  rw [Amino.fixed64Field]
  split_ifs
  · exact h.imp ht
  · exact .cons ht _

lemma After.bytesField {t : UInt8} {b : Bytes} (ht : tag < t) (h : After t x) :
    After tag (bytesField t b ++ x) := by
  rw [Amino.bytesField]
  split_ifs
  · exact h.imp ht
  · exact .cons ht _

/-- A field in front of later fields is determined, and so are those. -/
lemma varintField_inj {m n : ℕ} (hx : After tag x) (hy : After tag y)
    (h : varintField tag m ++ x = varintField tag n ++ y) : m = n ∧ x = y := by
  have htake := congrArg (takeVarint tag) h
  rwa [takeVarint_append hx.head_ne, takeVarint_append hy.head_ne, Prod.mk.injEq] at htake

lemma fixed64Field_inj {m n : ℕ} (hm : m < 2 ^ 64) (hn : n < 2 ^ 64) (hx : After tag x)
    (hy : After tag y) (h : fixed64Field tag m ++ x = fixed64Field tag n ++ y) :
    m = n ∧ x = y := by
  have htake := congrArg (takeFixed64 tag) h
  rwa [takeFixed64_append hm hx.head_ne, takeFixed64_append hn hy.head_ne,
    Prod.mk.injEq] at htake

lemma bytesField_inj {b c : Bytes} (hx : After tag x) (hy : After tag y)
    (h : bytesField tag b ++ x = bytesField tag c ++ y) : b = c ∧ x = y := by
  have htake := congrArg (takeBytes tag) h
  rwa [takeBytes_append hx.head_ne, takeBytes_append hy.head_ne, Prod.mk.injEq] at htake

lemma lengthPrefixed_inj {b c : Bytes} (h : lengthPrefixed b = lengthPrefixed c) : b = c :=
  (Leb128.encode_append_inj h).2

end Laws

end Amino
end Bandchain
