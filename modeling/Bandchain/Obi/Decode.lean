import Bandchain.Lib.Codec
import Bandchain.Obi.Encode

/-!
# OBI decoding

The decoder of `pkg/obi/decode.go`.  It is driven by the type of the variable that is filled; a
slice of bytes is read in one piece, every other slice element by element.
-/

namespace Bandchain.Obi

/-- A Go type as reflection presents it to the decoder. -/
inductive Ty
  | uint8
  | uint16
  | uint32
  | uint64
  | int8
  | int16
  | int32
  | int64
  | string
  | slice (elem : Ty)
  | struct (fields : List Ty)
  | unsupported (kind : String)

/-- The kind of a type is `reflect.Uint8`. -/
def Ty.isUint8 : Ty → Bool
  | uint8 => true
  | _ => false

/-- Read a number of `size` bytes; `conv` turns it into a machine integer. -/
def decodeUnsigned {α : Type} (size : ℕ) (conv : ℕ → α) (data : Bytes) :
    Except String (α × Bytes) :=
  Codec.readFixed size (fun b => conv (Bytes.ofBe b)) "obi: out of range" data

def decodeUnsigned8 : Bytes → Except String (UInt8 × Bytes) := decodeUnsigned 1 UInt8.ofNat
def decodeUnsigned16 : Bytes → Except String (UInt16 × Bytes) := decodeUnsigned 2 UInt16.ofNat
def decodeUnsigned32 : Bytes → Except String (UInt32 × Bytes) := decodeUnsigned 4 UInt32.ofNat
def decodeUnsigned64 : Bytes → Except String (UInt64 × Bytes) := decodeUnsigned 8 UInt64.ofNat

def decodeSigned8 (data : Bytes) : Except String (Int8 × Bytes) := do
  let (unsigned, rem) ← decodeUnsigned8 data
  return (unsigned.toInt8, rem)

def decodeSigned16 (data : Bytes) : Except String (Int16 × Bytes) := do
  let (unsigned, rem) ← decodeUnsigned16 data
  return (unsigned.toInt16, rem)

def decodeSigned32 (data : Bytes) : Except String (Int32 × Bytes) := do
  let (unsigned, rem) ← decodeUnsigned32 data
  return (unsigned.toInt32, rem)

def decodeSigned64 (data : Bytes) : Except String (Int64 × Bytes) := do
  let (unsigned, rem) ← decodeUnsigned64 data
  return (unsigned.toInt64, rem)

/-- The number of bytes that are left is compared as a 32-bit number. -/
def decodeBytes (data : Bytes) : Except String (Bytes × Bytes) := do
  let (length, rem) ← decodeUnsigned32 data
  if UInt32.ofNat rem.length < length then throw "obi: out of range"
  return (rem.take length.toNat, rem.drop length.toNat)

/-- A string is a byte string. -/
def decodeString (data : Bytes) : Except String (Bytes × Bytes) := do
  let (length, rem) ← decodeUnsigned32 data
  if UInt32.ofNat rem.length < length then throw "obi: out of range"
  return (rem.take length.toNat, rem.drop length.toNat)

/-- The value that a decoder has read. -/
def wrap {α : Type} (f : α → Value) (dec : Bytes → Except String (α × Bytes)) (data : Bytes) :
    Except String (Value × Bytes) := do
  let (val, rem) ← dec data
  return (f val, rem)

mutual

def decodeImpl : Ty → Bytes → Except String (Value × Bytes)
  | .uint8 => wrap .uint8 decodeUnsigned8
  | .uint16 => wrap .uint16 decodeUnsigned16
  | .uint32 => wrap .uint32 decodeUnsigned32
  | .uint64 => wrap .uint64 decodeUnsigned64
  | .int8 => wrap .int8 decodeSigned8
  | .int16 => wrap .int16 decodeSigned16
  | .int32 => wrap .int32 decodeSigned32
  | .int64 => wrap .int64 decodeSigned64
  | .string => wrap .string decodeString
  | .slice elem => fun data =>
      if elem.isUint8 then wrap .bytes decodeBytes data
      else do
        let (length, rem) ← decodeUnsigned32 data
        wrap .slice (Codec.readMany (decodeImpl elem) length.toNat) rem
  | .struct fields => wrap .struct (decodeFields fields)
  | .unsupported kind => fun _ => throw ("obi: unsupported value type: " ++ kind)

/-- The fields of a struct, in order. -/
def decodeFields : List Ty → Bytes → Except String (List Value × Bytes)
  | [], data => .ok ([], data)
  | field :: fields, data => do
    let (v, rem) ← decodeImpl field data
    let (vs, rem) ← decodeFields fields rem
    return (v :: vs, rem)

end

def decode (t : Ty) (data : Bytes) : Except String Value := do
  let (v, rem) ← decodeImpl t data
  if rem.length ≠ 0 then throw "obi: not all data was consumed while decoding"
  return v

end Bandchain.Obi
