import Bandchain.Obi.Spec

/-!
# OBI in JavaScript

The package `obi.js`: the parser of schemas, and the encoder and the decoder of each kind of
schema.  An integer is a `BigInt`, and bytes are a `Buffer` of Node.
-/

namespace Bandchain.Obi.JavaScript

/-! ## Parsing -/

/-- The characters that a dot of a regular expression does not match. -/
def isLineTerminator (c : Char) : Bool :=
  c == '\n' || c == '\r' || c == '\u2028' || c == '\u2029'

/-- `/^\[.*\]$/` and `/^{.*}$/`: the text starts and ends with the two brackets, and a dot matches
every character between them. -/
def isBracketed (left right : Char) (schema : SchemaText) : Bool :=
  match schema with
  | c :: rest =>
      c == left && rest.getLast? == some right && !(rest.dropLast.any isLineTerminator)
  | [] => false

/-- The state of the loop in the constructor of `ObiStruct`: the fields that are complete, the two
texts of the next one, which of them is being filled, and the number of open braces. -/
structure Scan where
  kvs : List (SchemaText × SchemaText)
  kv : SchemaText × SchemaText
  fill : Bool
  curlyCount : ℕ

/-- Append a character to the text that is being filled. -/
def Scan.push (s : Scan) (c : Char) : Scan :=
  if s.fill then { s with kv := (s.kv.1, s.kv.2 ++ [c]) }
  else { s with kv := (s.kv.1 ++ [c], s.kv.2) }

/-- The body of the loop. -/
def Scan.next (s : Scan) (c : Char) : Scan :=
  if c = '{' then { s with curlyCount := s.curlyCount + 1 }.push c
  else if s.curlyCount ≠ 0 ∧ c = '}' then { s with curlyCount := s.curlyCount - 1 }.push c
  else if s.curlyCount = 0 ∧ c = ':' then { s with fill := true }
  else if s.curlyCount = 0 ∧ (c = ',' ∨ c = '}') then
    { s with kvs := s.kvs ++ [s.kv], kv := ([], []), fill := false }
  else s.push c

/-- The names of the fields of a struct, and the schemas of their values. -/
def scanFields (schema : SchemaText) : List (SchemaText × SchemaText) :=
  (schema.tail.foldl Scan.next ⟨[], ([], []), false, 0⟩).kvs

/-- `ObiSpec.fromSpec`, with a bound on the depth of the schema. -/
def fromSpecAux : ℕ → SchemaText → Except String Spec
  | 0, _ => .error "No schema matched"
  | depth + 1, schema =>
    match integerSpec schema with
    | some spec => .ok spec
    | none =>
      if isBracketed '[' ']' schema then (fromSpecAux depth schema.tail.dropLast).map .vector
      else if isBracketed '{' '}' schema then
        ((scanFields schema).mapM fun kv =>
          (fromSpecAux depth kv.2).map fun spec => (kv.1, spec)).map .struct
      else if schema = "string".toList then .ok .string
      else if schema = "bytes".toList then .ok .bytes
      else .error "No schema matched"

/-- Every schema in a schema is shorter. -/
def fromSpec (schema : SchemaText) : Except String Spec := fromSpecAux (schema.length + 1) schema

/-! ## Encoding -/

/-- The bytes of a `BigInt` from the lowest one, by division that rounds towards zero; a `Buffer`
keeps the low eight bits of each. -/
def digits : ℕ → ℤ → Bytes
  | 0, _ => []
  | size + 1, value => UInt8.ofInt (value.tmod 256) :: digits size (value.tdiv 256)

def encodeInteger (sizeInBytes : ℕ) (value : ℤ) : Bytes := (digits sizeInBytes value).reverse

mutual

/-- `encode`; a value of another kind is not a `BigInt`, or lacks a method that is called. -/
def encode : Spec → Data → Except String Bytes
  | .integer _ sizeInBytes, .int value => .ok (encodeInteger sizeInBytes value)
  | .vector internalObi, .list value =>
      (value.mapM (encode internalObi)).map fun items =>
        encodeInteger 4 value.length ++ items.flatten
  | .struct internalObiKvs, .object value => encodeFields internalObiKvs value
  | .string, .str value => .ok (encodeInteger 4 (Text.utf16Length value) ++ Text.utf8 value)
  | .bytes, .bytes value => .ok (encodeInteger 4 value.length ++ value)
  | _, _ => .error "TypeError"

def encodeFields : List (SchemaText × Spec) → (SchemaText → Option Data) → Except String Bytes
  | [], _ => .ok []
  | (k, obi) :: kvs, value => do
    let item ← match value k with
      | some x => encode obi x
      | none => .error "TypeError"
    let items ← encodeFields kvs value
    return item ++ items

end

/-! ## Decoding -/

/-- The text of a `Buffer` in Node: valid UTF-8 is read, and what is not valid is replaced by the
character `U+FFFD`, which has three bytes and stands for at most three. -/
structure Node where
  toString : Bytes → String
  toString_utf8 : ∀ s, toString (Text.utf8 s) = s
  length_le : ∀ b, b.length ≤ (Text.utf8 (toString b)).length

def readUInt8 (buff : Bytes) (offset : ℕ) : Except String UInt8 :=
  match buff[offset]? with
  | some byte => .ok byte
  | none => .error "ERR_OUT_OF_RANGE"

/-- The body of the loop of `ObiInteger.decode`, with the value and the multiplier. -/
def addByte (sizeInBytes : ℕ) (buff : Bytes) (acc : ℤ × ℤ) (i : ℕ) : Except String (ℤ × ℤ) := do
  let byte ← readUInt8 buff (sizeInBytes - i - 1)
  return (acc.1 + byte.toNat * acc.2, acc.2 * 256)

def decodeInteger (sizeInBytes : ℕ) (buff : Bytes) : Except String (ℤ × Bytes) := do
  let acc ← (List.range sizeInBytes).foldlM (addByte sizeInBytes buff) (0, 1)
  return (acc.1, buff.drop sizeInBytes)

/-- `value[k] = x` for an object; a name with a setter gives no property. -/
def assign (value : SchemaText → Option Data) (k : SchemaText) (x : Data) :
    SchemaText → Option Data :=
  if k = "__proto__".toList then value else Function.update value k (some x)

mutual

def decode (node : Node) : Spec → Bytes → Except String (Data × Bytes)
  | .integer _ sizeInBytes, buff => do
    let (value, remaining) ← decodeInteger sizeInBytes buff
    return (.int value, remaining)
  | .vector internalObi, buff => do
    let (length, remaining) ← decodeInteger 4 buff
    let (value, remaining) ← Codec.readMany (decode node internalObi) length.toNat remaining
    return (.list value, remaining)
  | .struct internalObiKvs, buff => do
    let (value, remaining) ← decodeFields node internalObiKvs (fun _ => none) buff
    return (.object value, remaining)
  | .string, buff => do
    let (length, remaining) ← decodeInteger 4 buff
    return (.str (node.toString (remaining.take length.toNat)), remaining.drop length.toNat)
  | .bytes, buff => do
    let (length, remaining) ← decodeInteger 4 buff
    return (.bytes (remaining.take length.toNat), remaining.drop length.toNat)

/-- The loop over the fields, with the object that is filled. -/
def decodeFields (node : Node) : List (SchemaText × Spec) → (SchemaText → Option Data) → Bytes →
    Except String ((SchemaText → Option Data) × Bytes)
  | [], value, remaining => .ok (value, remaining)
  | (k, obi) :: kvs, value, remaining => do
    let (x, remaining) ← decode node obi remaining
    decodeFields node kvs (assign value k x) remaining

end

end Bandchain.Obi.JavaScript
