import Bandchain.Lib.Bytes

/-!
# SHA-256

The hash function of FIPS 180-4 on byte strings, as the standard libraries of the chain
and of the contract platform provide it.  Nothing is proved about its strength: results
that need collision freedom state it for the finitely many strings they hash.
-/

namespace Bandchain
namespace Sha256

/-- The round constants. -/
def roundConstants : List UInt32 :=
  [0x428a2f98, 0x71374491, 0xb5c0fbcf, 0xe9b5dba5, 0x3956c25b, 0x59f111f1, 0x923f82a4, 0xab1c5ed5,
   0xd807aa98, 0x12835b01, 0x243185be, 0x550c7dc3, 0x72be5d74, 0x80deb1fe, 0x9bdc06a7, 0xc19bf174,
   0xe49b69c1, 0xefbe4786, 0x0fc19dc6, 0x240ca1cc, 0x2de92c6f, 0x4a7484aa, 0x5cb0a9dc, 0x76f988da,
   0x983e5152, 0xa831c66d, 0xb00327c8, 0xbf597fc7, 0xc6e00bf3, 0xd5a79147, 0x06ca6351, 0x14292967,
   0x27b70a85, 0x2e1b2138, 0x4d2c6dfc, 0x53380d13, 0x650a7354, 0x766a0abb, 0x81c2c92e, 0x92722c85,
   0xa2bfe8a1, 0xa81a664b, 0xc24b8b70, 0xc76c51a3, 0xd192e819, 0xd6990624, 0xf40e3585, 0x106aa070,
   0x19a4c116, 0x1e376c08, 0x2748774c, 0x34b0bcb5, 0x391c0cb3, 0x4ed8aa4a, 0x5b9cca4f, 0x682e6ff3,
   0x748f82ee, 0x78a5636f, 0x84c87814, 0x8cc70208, 0x90befffa, 0xa4506ceb, 0xbef9a3f7, 0xc67178f2]

/-- The eight chaining words. -/
structure State where
  a : UInt32
  b : UInt32
  c : UInt32
  d : UInt32
  e : UInt32
  f : UInt32
  g : UInt32
  h : UInt32

/-- The initial chaining words. -/
def initial : State :=
  ⟨0x6a09e667, 0xbb67ae85, 0x3c6ef372, 0xa54ff53a, 0x510e527f, 0x9b05688c, 0x1f83d9ab, 0x5be0cd19⟩

/-- Rotation to the right. -/
def rotr (x n : UInt32) : UInt32 := (x >>> n) ||| (x <<< (32 - n))

/-- A big-endian word of four bytes. -/
def wordOf : Bytes → UInt32
  | [a, b, c, d] => UInt32.ofNat (((a.toNat * 256 + b.toNat) * 256 + c.toNat) * 256 + d.toNat)
  | _ => 0

/-- The first `m` pieces of `n` bytes of a string. -/
def chunks (n : ℕ) : ℕ → Bytes → List Bytes
  | 0, _ => []
  | m + 1, b => b.take n :: chunks n m (b.drop n)

/-- `n` further words of the message schedule; the list holds the newest word first. -/
def extend : ℕ → List UInt32 → List UInt32
  | 0, ws => ws
  | n + 1, ws =>
    let x := ws.getD 14 0
    let y := ws.getD 1 0
    let s0 := rotr x 7 ^^^ rotr x 18 ^^^ (x >>> 3)
    let s1 := rotr y 17 ^^^ rotr y 19 ^^^ (y >>> 10)
    extend n ((ws.getD 15 0 + s0 + ws.getD 6 0 + s1) :: ws)

/-- One round, with its constant and its schedule word. -/
def round (s : State) (kw : UInt32 × UInt32) : State :=
  let s1 := rotr s.e 6 ^^^ rotr s.e 11 ^^^ rotr s.e 25
  let ch := (s.e &&& s.f) ^^^ (~~~s.e &&& s.g)
  let t1 := s.h + s1 + ch + kw.1 + kw.2
  let s0 := rotr s.a 2 ^^^ rotr s.a 13 ^^^ rotr s.a 22
  let maj := (s.a &&& s.b) ^^^ (s.a &&& s.c) ^^^ (s.b &&& s.c)
  ⟨t1 + (s0 + maj), s.a, s.b, s.c, s.d + t1, s.e, s.f, s.g⟩

/-- The compression of one block of 64 bytes into the chaining words. -/
def compress (s : State) (block : Bytes) : State :=
  let ws := (extend 48 ((chunks 4 16 block).map wordOf).reverse).reverse
  let t := (roundConstants.zip ws).foldl round s
  ⟨s.a + t.a, s.b + t.b, s.c + t.c, s.d + t.d, s.e + t.e, s.f + t.f, s.g + t.g, s.h + t.h⟩

/-- The padded message: a one bit, zeros, and the length in bits. -/
def pad (m : Bytes) : Bytes :=
  m ++ 0x80 :: (List.replicate ((119 - m.length % 64) % 64) 0 ++ Bytes.be 8 (8 * m.length))

/-- The digest of a chaining state. -/
def digest (s : State) : Bytes :=
  Bytes.be 4 s.a.toNat ++ Bytes.be 4 s.b.toNat ++ Bytes.be 4 s.c.toNat ++ Bytes.be 4 s.d.toNat ++
    Bytes.be 4 s.e.toNat ++ Bytes.be 4 s.f.toNat ++ Bytes.be 4 s.g.toNat ++ Bytes.be 4 s.h.toNat

end Sha256

/-- The SHA-256 digest of a byte string. -/
@[irreducible] def sha256 (m : Bytes) : Bytes :=
  let p := Sha256.pad m
  Sha256.digest ((Sha256.chunks 64 (p.length / 64) p).foldl Sha256.compress Sha256.initial)

@[simp] lemma length_sha256 (m : Bytes) : (sha256 m).length = 32 := by
  rw [sha256]
  simp [Sha256.digest]

/-- The digest as a 32-byte value. -/
def sha256Digest (m : Bytes) : Bytes32 := ⟨sha256 m, length_sha256 m⟩

example : Bytes.hex (sha256 (Bytes.ascii "abc")) =
    Bytes.ascii "ba7816bf8f01cfea414140de5dae2223b00361a396177a9cb410ff61f20015ad" := by
  decide +kernel

end Bandchain
