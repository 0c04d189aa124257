import Bandchain.Lib.Bytes

/-!
# OBI encoding

The encoder of `pkg/obi/encode.go`.  A Go value is seen through reflection as a tree whose
leaves are machine integers, strings and byte slices; the encoder fails on every other kind.
-/

namespace Bandchain.Obi

/-- A Go value as reflection presents it to the encoder. -/
inductive Value
  | uint8 (v : UInt8)
  | uint16 (v : UInt16)
  | uint32 (v : UInt32)
  | uint64 (v : UInt64)
  | int8 (v : Int8)
  | int16 (v : Int16)
  | int32 (v : Int32)
  | int64 (v : Int64)
  | string (v : Bytes)
  | bytes (v : Bytes)
  | slice (vs : List Value)
  | struct (fields : List Value)
  | unsupported (kind : String)

def encodeUnsigned8 (v : UInt8) : Bytes := Bytes.be 1 v.toNat
def encodeUnsigned16 (v : UInt16) : Bytes := Bytes.be 2 v.toNat
def encodeUnsigned32 (v : UInt32) : Bytes := Bytes.be 4 v.toNat
def encodeUnsigned64 (v : UInt64) : Bytes := Bytes.be 8 v.toNat
def encodeSigned8 (v : Int8) : Bytes := encodeUnsigned8 v.toUInt8
def encodeSigned16 (v : Int16) : Bytes := encodeUnsigned16 v.toUInt16
def encodeSigned32 (v : Int32) : Bytes := encodeUnsigned32 v.toUInt32
def encodeSigned64 (v : Int64) : Bytes := encodeUnsigned64 v.toUInt64
def encodeBytes (v : Bytes) : Bytes := encodeUnsigned32 (UInt32.ofNat v.length) ++ v
def encodeString (v : Bytes) : Bytes := encodeUnsigned32 (UInt32.ofNat v.length) ++ v

mutual

/-- The encoding of a value, or the kind that is not supported. -/
def encode : Value → Except String Bytes
  | .uint8 v => .ok (encodeUnsigned8 v)
  | .uint16 v => .ok (encodeUnsigned16 v)
  | .uint32 v => .ok (encodeUnsigned32 v)
  | .uint64 v => .ok (encodeUnsigned64 v)
  | .int8 v => .ok (encodeSigned8 v)
  | .int16 v => .ok (encodeSigned16 v)
  | .int32 v => .ok (encodeSigned32 v)
  | .int64 v => .ok (encodeSigned64 v)
  | .string v => .ok (encodeString v)
  | .bytes v => .ok (encodeBytes v)
  | .slice vs => (encodeAll vs).map fun b => encodeUnsigned32 (UInt32.ofNat vs.length) ++ b
  | .struct fields => encodeAll fields
  | .unsupported kind => .error kind

/-- The concatenation of the encodings of the elements of a slice or a struct. -/
def encodeAll : List Value → Except String Bytes
  | [] => .ok []
  | v :: vs => (encode v).bind fun b => (encodeAll vs).map fun bs => b ++ bs

end

end Bandchain.Obi
