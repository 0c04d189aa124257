import Bandchain.Lib.Text
import Bandchain.Obi.Decode

/-!
# Schemas

The trees that the Python and the JavaScript package make of a schema, the values that both
encode by such a tree, and the counterparts of both in Go.
-/

namespace Bandchain.Obi

/-- A text of a schema; the name of a field is one, too. -/
abbrev SchemaText : Type := List Char

/-- The tree of a schema. -/
inductive Spec
  | integer (isSigned : Bool) (sizeInBytes : ℕ)
  | vector (internalObi : Spec)
  | struct (internalObiKvs : List (SchemaText × Spec))
  | string
  | bytes

/-- The text `(u|i)(8|16|32|64|128|256)`, with what the constructor for an integer reads from it. -/
def integerSpec (schema : SchemaText) : Option Spec :=
  match schema with
  | 'u' :: size => (sizeInBytes size).map (.integer false)
  | 'i' :: size => (sizeInBytes size).map (.integer true)
  | _ => none
where
  sizeInBytes (size : SchemaText) : Option ℕ :=
    if size = ['8'] then some 1
    else if size = ['1', '6'] then some 2
    else if size = ['3', '2'] then some 4
    else if size = ['6', '4'] then some 8
    else if size = ['1', '2', '8'] then some 16
    else if size = ['2', '5', '6'] then some 32
    else none

/-- A value of a dynamic language; an object or a dictionary gives a value for some names. -/
inductive Data
  | int (n : ℤ)
  | str (s : String)
  | bytes (b : Bytes)
  | list (vs : List Data)
  | object (get : SchemaText → Option Data)

/-- The names of the fields of a struct. -/
def fieldNames (kvs : List (SchemaText × Spec)) : List SchemaText := kvs.map Prod.fst

@[simp] lemma mem_fieldNames_cons {j k : SchemaText} {spec : Spec}
    {kvs : List (SchemaText × Spec)} :
    j ∈ fieldNames ((k, spec) :: kvs) ↔ j = k ∨ j ∈ fieldNames kvs := by
  rw [fieldNames, List.map_cons, List.mem_cons]
  rfl

mutual

/-- No struct of the schema has two fields of one name. -/
def Spec.NamesDistinct : Spec → Prop
  | .vector elem => elem.NamesDistinct
  | .struct kvs => (fieldNames kvs).Nodup ∧ FieldsNamesDistinct kvs
  | _ => True

def FieldsNamesDistinct : List (SchemaText × Spec) → Prop
  | [] => True
  | (_, spec) :: kvs => spec.NamesDistinct ∧ FieldsNamesDistinct kvs

end

mutual

/-- The values in range for a schema: the integers that fit, texts and lists whose lengths fit, and
objects with exactly the fields of the struct. -/
def Spec.InRange : Spec → Data → Prop
  | .integer true size, v => ∃ n, .int n = v ∧ -2 ^ (8 * size - 1) ≤ n ∧ n < 2 ^ (8 * size - 1)
  | .integer false size, v => ∃ n, .int n = v ∧ 0 ≤ n ∧ n < 256 ^ size
  | .vector elem, v => ∃ vs, .list vs = v ∧ vs.length < 2 ^ 32 ∧ ∀ x ∈ vs, elem.InRange x
  | .struct kvs, v => ∃ get, .object get = v ∧ FieldsInRange kvs get ∧
      ∀ k, k ∉ fieldNames kvs → get k = none
  | .string, v => ∃ s, .str s = v ∧ (Text.utf8 s).length < 2 ^ 32
  | .bytes, v => ∃ b, .bytes b = v ∧ b.length < 2 ^ 32

def FieldsInRange : List (SchemaText × Spec) → (SchemaText → Option Data) → Prop
  | [], _ => True
  | (k, spec) :: kvs, get => (∃ x, get k = some x ∧ spec.InRange x) ∧ FieldsInRange kvs get

end

/-! ## Counterparts in Go -/

/-- The integer type of Go with the given size. -/
def integerTy : Bool → ℕ → Option Ty
  | false, 1 => some .uint8
  | false, 2 => some .uint16
  | false, 4 => some .uint32
  | false, 8 => some .uint64
  | true, 1 => some .int8
  | true, 2 => some .int16
  | true, 4 => some .int32
  | true, 8 => some .int64
  | _, _ => none

mutual

/-- The type in Go, if the Go package supports it. -/
def Spec.goTy : Spec → Option Ty
  | .integer isSigned size => integerTy isSigned size
  | .vector elem => elem.goTy.map Ty.slice
  | .struct kvs => (goTys kvs).map Ty.struct
  | .string => some .string
  | .bytes => some (.slice .uint8)

def goTys : List (SchemaText × Spec) → Option (List Ty)
  | [] => some []
  | (_, spec) :: kvs => do
    let t ← spec.goTy
    let ts ← goTys kvs
    return t :: ts

end

/-- The integer of Go with the given size. -/
def integerValue : Bool → ℕ → ℤ → Value
  | false, 1, n => .uint8 (.ofBitVec (.ofInt 8 n))
  | false, 2, n => .uint16 (.ofBitVec (.ofInt 16 n))
  | false, 4, n => .uint32 (.ofBitVec (.ofInt 32 n))
  | false, 8, n => .uint64 (.ofBitVec (.ofInt 64 n))
  | true, 1, n => .int8 (Int8.ofInt n)
  | true, 2, n => .int16 (Int16.ofInt n)
  | true, 4, n => .int32 (Int32.ofInt n)
  | true, 8, n => .int64 (Int64.ofInt n)
  | _, _, _ => .unsupported "integer"

/-- The byte of an element of a slice of bytes. -/
def byteOf : Value → UInt8
  | .uint8 x => x
  | _ => 0

/-- A slice of Go, which is a byte string if its elements are bytes. -/
def sliceValue (vs : List Value) : Spec → Value
  | .integer false 1 => .bytes (vs.map byteOf)
  | _ => .slice vs

mutual

/-- The same value in Go. -/
def Spec.goValue : Spec → Data → Value
  | .integer isSigned size, .int n => integerValue isSigned size n
  | .vector elem, .list vs => sliceValue (vs.map elem.goValue) elem
  | .struct kvs, .object get => .struct (goFields kvs get)
  | .string, .str s => .string (Text.utf8 s)
  | .bytes, .bytes b => .bytes b
  | _, _ => .unsupported "other"

def goFields : List (SchemaText × Spec) → (SchemaText → Option Data) → List Value
  | [], _ => []
  | (k, spec) :: kvs, get =>
      ((get k).map spec.goValue).getD (.unsupported "missing") :: goFields kvs get

end

/-! ## Values of Go in a dynamic language -/

/-- The number of a machine integer. -/
def numberOf : Value → ℤ
  | .uint8 x => x.toNat
  | .uint16 x => x.toNat
  | .uint32 x => x.toNat
  | .uint64 x => x.toNat
  | .int8 x => x.toInt
  | .int16 x => x.toInt
  | .int32 x => x.toInt
  | .int64 x => x.toInt
  | _ => 0

mutual

/-- A value of Go as a value of a dynamic language: a struct is a dictionary, filled field by
field. -/
def Spec.view : Spec → Value → Data
  | .integer _ _, g => .int (numberOf g)
  | .vector _, .bytes b => .list (b.map fun x => .int x.toNat)
  | .vector elem, .slice gs => .list (gs.map elem.view)
  | .struct kvs, .struct gs => .object (viewFields kvs gs fun _ => none)
  | .string, .string b => .str ((Text.ofUtf8 b).getD "")
  | .bytes, .bytes b => .bytes b
  | _, _ => .bytes []

def viewFields : List (SchemaText × Spec) → List Value → (SchemaText → Option Data) →
    SchemaText → Option Data
  | (k, spec) :: kvs, g :: gs, acc => viewFields kvs gs (Function.update acc k (some (spec.view g)))
  | _, _, acc => acc

end

end Bandchain.Obi
