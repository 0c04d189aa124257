import Bandchain.Lib.Exec
import Bandchain.Lib.Text

/-!
# OBI in Rust

The traits of the crate `obi-rs`: their implementations for integers, strings and vectors, and
what the derive macros generate for structs.  A decoder moves a slice of bytes forward while it
reads, also when it fails later.
-/

namespace Bandchain.Obi.Rust

open Exec

/-! ## Types and values -/

/-- A type that implements the traits and has a counterpart in Go. -/
inductive Ty
  | u8
  | u16
  | u32
  | u64
  | i8
  | i16
  | i32
  | i64
  | string
  | vec (elem : Ty)
  | struct (fields : List Ty)

mutual

/-- The values of a type; a string is valid UTF-8. -/
@[reducible] def Ty.Val : Ty → Type
  | .u8 => UInt8
  | .u16 => UInt16
  | .u32 => UInt32
  | .u64 => UInt64
  | .i8 => Int8
  | .i16 => Int16
  | .i32 => Int32
  | .i64 => Int64
  | .string => String
  | .vec elem => List elem.Val
  | .struct fields => FieldsVal fields

/-- The values of the fields of a struct. -/
@[reducible] def FieldsVal : List Ty → Type
  | [] => Unit
  | field :: fields => field.Val × FieldsVal fields

end

/-- `T::is_u8()` together with `size_of::<T>() == size_of::<u8>()`, and the view of a `u8` as a
value of the type that they allow. -/
def Ty.asU8 : (t : Ty) → Option (t.Val ≃ UInt8)
  | .u8 => some (Equiv.refl UInt8)
  | _ => none

mutual

/-- `size_of::<T>() == 0`. -/
def Ty.isZeroSized : Ty → Bool
  | .struct fields => areZeroSized fields
  | _ => false

def areZeroSized : List Ty → Bool
  | [] => true
  | field :: fields => field.isZeroSized && areZeroSized fields

end

/-! ## Encoding -/

/-- The bytes of a string. -/
def asBytes (s : String) : Bytes := Text.utf8 s

/-- `self.len() as u32`, in big-endian bytes. -/
def encodeLen (len : ℕ) : Bytes := Bytes.be 4 (UInt32.ofNat len).toNat

mutual

/-- What `encode` writes. -/
def encode : (t : Ty) → t.Val → Bytes
  | .u8, v => [v]
  | .u16, v => Bytes.be 2 (UInt16.toNat v)
  | .u32, v => Bytes.be 4 (UInt32.toNat v)
  | .u64, v => Bytes.be 8 (UInt64.toNat v)
  | .i8, v => Bytes.be 1 (Int8.toUInt8 v).toNat
  | .i16, v => Bytes.be 2 (Int16.toUInt16 v).toNat
  | .i32, v => Bytes.be 4 (Int32.toUInt32 v).toNat
  | .i64, v => Bytes.be 8 (Int64.toUInt64 v).toNat
  | .string, v => encodeLen (asBytes v).length ++ asBytes v
  | .vec elem, vs =>
      encodeLen (List.length vs) ++
        match elem.asU8 with
        | some view => List.map view vs
        | none => List.flatMap (encode elem) vs
  | .struct fields, vs => encodeFields fields vs

def encodeFields : (fields : List Ty) → FieldsVal fields → Bytes
  | [], _ => []
  | field :: fields, vs => encode field vs.1 ++ encodeFields fields vs.2

end

/-! ## Decoding -/

/-- An error of the decoders; `invalidUtf8` has the bytes that are not a string. -/
inductive IoError
  | invalidInput (message : String)
  | invalidData (message : String)
  | invalidUtf8 (bytes : Bytes)
deriving DecidableEq

def errorNotAllBytesRead : String := "Not all bytes read"
def errorUnexpectedLengthOfInput : String := "Unexpected length of input"

/-- A decoder, with the slice of the bytes that are left. -/
abbrev Decoder := EStateM IoError Bytes

/-- The first `len` bytes, if there are as many. -/
def takeBytes (len : ℕ) : Decoder Bytes := do
  let buf ← get
  failIf (buf.length < len) (.invalidInput errorUnexpectedLengthOfInput)
  set (buf.drop len)
  return buf.take len

def decodeU8 : Decoder UInt8 := do
  match ← get with
  | [] => throw (.invalidInput errorUnexpectedLengthOfInput)
  | res :: buf =>
    set buf
    return res

/-- The decoder of an integer type with `size` bytes. -/
def decodeInteger {α : Type} (size : ℕ) (fromBe : ℕ → α) : Decoder α := do
  let bytes ← takeBytes size
  return fromBe (Bytes.ofBe bytes)

def decodeU32 : Decoder UInt32 := decodeInteger 4 UInt32.ofNat

/-- `len` rounds of a loop that pushes what it decodes. -/
def decodeTimes {α : Type} (decode : Decoder α) : ℕ → Decoder (List α)
  | 0 => return []
  | len + 1 => do
    let v ← decode
    let vs ← decodeTimes decode len
    return v :: vs

/-- The decoder of vectors, from that of the elements. -/
def decodeVec {α : Type} (asU8 : Option (α ≃ UInt8)) (isZeroSized : Bool) (decode : Decoder α) :
    Decoder (List α) := do
  let len ← decodeU32
  if len = 0 then return []
  else match asU8 with
    | some view => do
      let result ← takeBytes len.toNat
      return result.map view.symm
    | none =>
      if isZeroSized then do
        let v ← decode
        return List.replicate len.toNat v
      else decodeTimes decode len.toNat

/-- `Vec::<u8>::decode`. -/
def decodeVecU8 : Decoder Bytes := decodeVec (some (Equiv.refl UInt8)) false decodeU8

def decodeString : Decoder String := do
  let bytes ← decodeVecU8
  match Text.ofUtf8 bytes with
  | some s => return s
  | none => throw (.invalidUtf8 bytes)

mutual

def decode : (t : Ty) → Decoder t.Val
  | .u8 => decodeU8
  | .u16 => decodeInteger 2 UInt16.ofNat
  | .u32 => decodeU32
  | .u64 => decodeInteger 8 UInt64.ofNat
  | .i8 => decodeInteger 1 fun n => (UInt8.ofNat n).toInt8
  | .i16 => decodeInteger 2 fun n => (UInt16.ofNat n).toInt16
  | .i32 => decodeInteger 4 fun n => (UInt32.ofNat n).toInt32
  | .i64 => decodeInteger 8 fun n => (UInt64.ofNat n).toInt64
  | .string => decodeString
  | .vec elem => decodeVec elem.asU8 elem.isZeroSized (decode elem)
  | .struct fields => decodeFields fields

def decodeFields : (fields : List Ty) → Decoder (FieldsVal fields)
  | [] => pure ()
  | field :: fields => do
    let v ← decode field
    let vs ← decodeFields fields
    return (v, vs)

end

/-! ## Whole slices -/

def tryToVec (t : Ty) (v : t.Val) : Except IoError Bytes := .ok (encode t v)

def tryFromSlice (t : Ty) (v : Bytes) : Except IoError t.Val :=
  match (decode t).run v with
  | .ok result rest =>
      if rest.isEmpty then .ok result else .error (.invalidData errorNotAllBytesRead)
  | .error e _ => .error e

end Bandchain.Obi.Rust
