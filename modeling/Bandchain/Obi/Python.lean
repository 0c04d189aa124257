import Bandchain.Lib.Exec
import Bandchain.Obi.Spec

/-!
# OBI in Python

The package `pyobi`: the parser of schemas, the encoder and the decoder of each kind of schema, and
the two schemas of a script.  A value that does not have the kind of its schema is an error here.
-/

namespace Bandchain.Obi.Python

/-! ## Parsing -/

/-- The text without a line feed at its end, before which `$` matches, too. -/
def chomp (spec : SchemaText) : SchemaText :=
  if spec.getLast? = some '\n' then spec.dropLast else spec

/-- `^\[.*\]$` and `^{.*}$`; a dot matches everything but a line feed. -/
def isBracketed (left right : Char) (spec : SchemaText) : Bool :=
  match chomp spec with
  | c :: rest => c == left && rest.getLast? == some right && !(rest.dropLast.any (· == '\n'))
  | [] => false

/-- The state of the first loop in the constructor of `PyObiStruct`: the texts of the fields that
are complete, the text of the last one, and the difference of braces. -/
structure Scan where
  fields : List SchemaText
  last : SchemaText
  curlyCount : ℤ

/-- The body of the loop. -/
def Scan.next (s : Scan) (c : Char) : Scan :=
  if c = ',' ∧ s.curlyCount = 0 then { s with fields := s.fields ++ [s.last], last := [] }
  else
    { s with
      last := s.last ++ [c]
      curlyCount := s.curlyCount + (if c = '{' then 1 else 0) - (if c = '}' then 1 else 0) }

/-- The texts of the fields of a struct. -/
def scanFields (spec : SchemaText) : List SchemaText :=
  let s := spec.tail.dropLast.foldl Scan.next ⟨[], [], 0⟩
  s.fields ++ [s.last]

/-- `each.split(":", 1)`, which has to have two parts. -/
def splitField (each : SchemaText) : Except String (SchemaText × SchemaText) :=
  if ':' ∈ each then .ok (each.takeWhile (· ≠ ':'), (each.dropWhile (· ≠ ':')).tail)
  else .error "Expect at least one colon for each struct field"

/-- `PyObiSpec.from_spec`, with a bound on the depth of the schema. -/
def fromSpecAux : ℕ → SchemaText → Except String Spec
  | 0, _ => .error "Cannot parse spec"
  | depth + 1, spec =>
    match integerSpec (chomp spec) with
    | some obi => .ok obi
    | none =>
      if isBracketed '[' ']' spec then (fromSpecAux depth spec.tail.dropLast).map .vector
      else if isBracketed '{' '}' spec then
        ((scanFields spec).mapM fun each => do
          let tokens ← splitField each
          let obi ← fromSpecAux depth tokens.2
          return (tokens.1, obi)).map .struct
      else if chomp spec = "string".toList then .ok .string
      else if chomp spec = "bytes".toList then .ok .bytes
      else .error "Cannot parse spec"

/-- Every schema in a schema is shorter. -/
def fromSpec (spec : SchemaText) : Except String Spec := fromSpecAux (spec.length + 1) spec

/-! ## Encoding -/

/-- `value.to_bytes(size, byteorder="big", signed=signed)` -/
def toBytes (size : ℕ) : Bool → ℤ → Except String Bytes
  | true, value =>
      if -2 ^ (8 * size - 1) ≤ value ∧ value < 2 ^ (8 * size - 1) then
        .ok (Bytes.be size (value % 256 ^ size).toNat)
      else .error "OverflowError"
  | false, value =>
      if 0 ≤ value ∧ value < 256 ^ size then .ok (Bytes.be size (value % 256 ^ size).toNat)
      else .error "OverflowError"

/-- `PyObiInteger("u32").encode(len(value))` -/
def encodeLength (length : ℕ) : Except String Bytes := toBytes 4 false length

mutual

/-- `encode` -/
def encode : Spec → Data → Except String Bytes
  | .integer isSigned size, .int value => toBytes size isSigned value
  | .vector intlObi, .list value => do
    let result ← encodeLength value.length
    let items ← value.mapM (encode intlObi)
    return result ++ items.flatten
  | .struct intlObiKvs, .object value => encodeFields intlObiKvs value
  | .string, .str value => do
    let result ← encodeLength value.length
    return result ++ Text.utf8 value
  | .bytes, .bytes value => do
    let result ← encodeLength value.length
    return result ++ value
  | _, _ => .error "TypeError"

def encodeFields : List (SchemaText × Spec) → (SchemaText → Option Data) → Except String Bytes
  | [], _ => .ok []
  | (key, spec) :: kvs, value => do
    let item ← match value key with
      | some x => encode spec x
      | none => .error "KeyError"
    let items ← encodeFields kvs value
    return item ++ items

end

/-! ## Decoding -/

/-- `int.from_bytes(data, byteorder="big", signed=signed)` -/
def fromBytes (isSigned : Bool) (data : Bytes) : ℤ :=
  if isSigned ∧ 256 ^ data.length ≤ 2 * Bytes.ofBe data then Bytes.ofBe data - 256 ^ data.length
  else Bytes.ofBe data

/-- `PyObiInteger("u32").decode(data)`; a slice of a short text is the whole text. -/
def decodeLength (data : Bytes) : ℕ × Bytes := (Bytes.ofBe (data.take 4), data.drop 4)

mutual

def decode : Spec → Bytes → Except String (Data × Bytes)
  | .integer isSigned size, data =>
      .ok (.int (fromBytes isSigned (data.take size)), data.drop size)
  | .vector intlObi, data => do
    let (length, remaining) := decodeLength data
    let (result, remaining) ← Codec.readMany (decode intlObi) length remaining
    return (.list result, remaining)
  | .struct intlObiKvs, data => do
    let (result, data) ← decodeFields intlObiKvs (fun _ => none) data
    return (.object result, data)
  | .string, data =>
    let (length, remaining) := decodeLength data
    match Text.ofUtf8 (remaining.take length) with
    | some s => .ok (.str s, remaining.drop length)
    | none => .error "UnicodeDecodeError"
  | .bytes, data =>
    let (length, remaining) := decodeLength data
    .ok (.bytes (remaining.take length), remaining.drop length)

/-- The loop over the fields, with the dictionary that is filled. -/
def decodeFields : List (SchemaText × Spec) → (SchemaText → Option Data) → Bytes →
    Except String ((SchemaText → Option Data) × Bytes)
  | [], result, data => .ok (result, data)
  | (key, spec) :: kvs, result, data => do
    let (x, data) ← decode spec data
    decodeFields kvs (Function.update result key (some x)) data

end

/-! ## Scripts -/

/-- The input and the output schema of a script. -/
structure PyObi where
  inputSchema : Spec
  outputSchema : Spec

/-- The characters that `\s` matches. -/
def isSpace (c : Char) : Bool :=
  c.toNat ∈ [9, 10, 11, 12, 13, 28, 29, 30, 31, 32, 0x85, 0xa0, 0x1680, 0x2028, 0x2029, 0x202f,
    0x205f, 0x3000] || (0x2000 ≤ c.toNat && c.toNat ≤ 0x200a)

/-- `PyObi.__init__` -/
def PyObi.init (schema : SchemaText) : Except String PyObi :=
  match (schema.filter (!isSpace ·)).splitOn '/' with
  | [input, output] => do
    let inputSchema ← fromSpec input
    let outputSchema ← fromSpec output
    return ⟨inputSchema, outputSchema⟩
  | _ => .error "Expect one forward slash in OBI schema"

/-- Decode, and check that nothing is left. -/
def decodeAll (what : String) (spec : Spec) (data : Bytes) : Except String Data := do
  let (result, remaining) ← decode spec data
  if remaining ≠ [] then throw ("Not all data is consumed after decoding " ++ what)
  return result

def PyObi.encodeInput (obi : PyObi) (value : Data) : Except String Bytes :=
  encode obi.inputSchema value

def PyObi.decodeInput (obi : PyObi) (data : Bytes) : Except String Data :=
  decodeAll "input" obi.inputSchema data

def PyObi.encodeOutput (obi : PyObi) (value : Data) : Except String Bytes :=
  encode obi.outputSchema value

def PyObi.decodeOutput (obi : PyObi) (data : Bytes) : Except String Data :=
  decodeAll "output" obi.outputSchema data

end Bandchain.Obi.Python
