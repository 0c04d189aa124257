import Bandchain.Obi.Spec

/-!
# The schema of a Go type

The printer of `pkg/obi/schema.go`, which sees a type through reflection, with the names of its
structs and fields and the `obi` tags of the fields.
-/

namespace Bandchain.Obi

/-- A Go type as reflection presents it to the printer; a field has a name and may have a tag. -/
inductive TaggedTy
  | uint8
  | uint16
  | uint32
  | uint64
  | int8
  | int16
  | int32
  | int64
  | string
  | slice (elem : TaggedTy)
  | struct (name : String) (fields : List (String × Option SchemaText × TaggedTy))
  | unsupported (kind : String)

/-- The kind of a type is `reflect.Uint8`. -/
def TaggedTy.isUint8 : TaggedTy → Bool
  | uint8 => true
  | _ => false

mutual

/-- What is written for a type. -/
def getSchemaImpl : TaggedTy → Except String SchemaText
  | .uint8 => .ok "u8".toList
  | .uint16 => .ok "u16".toList
  | .uint32 => .ok "u32".toList
  | .uint64 => .ok "u64".toList
  | .int8 => .ok "i8".toList
  | .int16 => .ok "i16".toList
  | .int32 => .ok "i32".toList
  | .int64 => .ok "i64".toList
  | .string => .ok "string".toList
  | .slice elem =>
      if elem.isUint8 then .ok "bytes".toList
      else do
        let s ← getSchemaImpl elem
        return '[' :: (s ++ [']'])
  | .struct name fields =>
      if fields = [] then .error "obi: empty struct is not supported"
      else do
        let s ← getFieldSchemas name true fields
        return '{' :: (s ++ ['}'])
  | .unsupported kind => .error ("obi: unsupported value type: " ++ kind)

/-- What is written for the fields of a struct; there is a comma before all but the first. -/
def getFieldSchemas (structName : String) :
    Bool → List (String × Option SchemaText × TaggedTy) → Except String SchemaText
  | _, [] => .ok []
  | _, (fieldName, none, _) :: _ =>
      .error ("obi: no obi tag found for field " ++ fieldName ++ " of " ++ structName)
  | isFirst, (_, some name, t) :: fields => do
      let s ← getSchemaImpl t
      let rest ← getFieldSchemas structName false fields
      return (if isFirst then [] else [',']) ++ name ++ ':' :: (s ++ rest)

end

/-- `GetSchema` of a value of the type. -/
def getSchema (t : TaggedTy) : Except String SchemaText := getSchemaImpl t

mutual

/-- The tree of a type. -/
def TaggedTy.toSpec : TaggedTy → Spec
  | .uint8 => .integer false 1
  | .uint16 => .integer false 2
  | .uint32 => .integer false 4
  | .uint64 => .integer false 8
  | .int8 => .integer true 1
  | .int16 => .integer true 2
  | .int32 => .integer true 4
  | .int64 => .integer true 8
  | .string => .string
  | .slice elem => if elem.isUint8 then .bytes else .vector elem.toSpec
  | .struct _ fields => .struct (toSpecs fields)
  | .unsupported _ => .bytes

def toSpecs : List (String × Option SchemaText × TaggedTy) → List (SchemaText × Spec)
  | [] => []
  | (_, tag, t) :: fields => (tag.getD [], t.toSpec) :: toSpecs fields

end

mutual

/-- The type without names and tags. -/
def TaggedTy.toTy : TaggedTy → Ty
  | .uint8 => .uint8
  | .uint16 => .uint16
  | .uint32 => .uint32
  | .uint64 => .uint64
  | .int8 => .int8
  | .int16 => .int16
  | .int32 => .int32
  | .int64 => .int64
  | .string => .string
  | .slice elem => .slice elem.toTy
  | .struct _ fields => .struct (toTys fields)
  | .unsupported kind => .unsupported kind

def toTys : List (String × Option SchemaText × TaggedTy) → List Ty
  | [] => []
  | (_, _, t) :: fields => t.toTy :: toTys fields

end

mutual

/-- Every tag in the type has the property. -/
def TaggedTy.TagsAll (p : SchemaText → Prop) : TaggedTy → Prop
  | .slice elem => elem.TagsAll p
  | .struct _ fields => FieldTagsAll p fields
  | _ => True

def FieldTagsAll (p : SchemaText → Prop) :
    List (String × Option SchemaText × TaggedTy) → Prop
  | [] => True
  | (_, tag, t) :: fields =>
    (∀ name, tag = some name → p name) ∧ t.TagsAll p ∧ FieldTagsAll p fields

end

end Bandchain.Obi
