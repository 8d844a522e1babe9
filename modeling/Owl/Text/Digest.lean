/-
Digests of byte strings by SHA-256.

The message is padded to whole blocks of 64 bytes, and each block is mixed into
eight words of 32 bits; arithmetic on words wraps.
-/
import Owl.Text.Quoted

namespace Owl.Text

namespace Digest

/-! ### Constants -/

def start : Array UInt32 :=
  #[0x6a09e667, 0xbb67ae85, 0x3c6ef372, 0xa54ff53a, 0x510e527f, 0x9b05688c, 0x1f83d9ab, 0x5be0cd19]

def roundWords : List UInt32 :=
  [0x428a2f98, 0x71374491, 0xb5c0fbcf, 0xe9b5dba5, 0x3956c25b, 0x59f111f1, 0x923f82a4, 0xab1c5ed5,
    0xd807aa98, 0x12835b01, 0x243185be, 0x550c7dc3, 0x72be5d74, 0x80deb1fe, 0x9bdc06a7, 0xc19bf174,
    0xe49b69c1, 0xefbe4786, 0x0fc19dc6, 0x240ca1cc, 0x2de92c6f, 0x4a7484aa, 0x5cb0a9dc, 0x76f988da,
    0x983e5152, 0xa831c66d, 0xb00327c8, 0xbf597fc7, 0xc6e00bf3, 0xd5a79147, 0x06ca6351, 0x14292967,
    0x27b70a85, 0x2e1b2138, 0x4d2c6dfc, 0x53380d13, 0x650a7354, 0x766a0abb, 0x81c2c92e, 0x92722c85,
    0xa2bfe8a1, 0xa81a664b, 0xc24b8b70, 0xc76c51a3, 0xd192e819, 0xd6990624, 0xf40e3585, 0x106aa070,
    0x19a4c116, 0x1e376c08, 0x2748774c, 0x34b0bcb5, 0x391c0cb3, 0x4ed8aa4a, 0x5b9cca4f, 0x682e6ff3,
    0x748f82ee, 0x78a5636f, 0x84c87814, 0x8cc70208, 0x90befffa, 0xa4506ceb, 0xbef9a3f7, 0xc67178f2]

/-! ### Padding -/

/-- A number in a given count of bytes, the highest first. -/
def bigEndian (count n : Nat) : List UInt8 :=
  (List.range count).map fun i => UInt8.ofNat (n / Nat.pow 256 (count - 1 - i))

/-- What follows a message of a given length: a bit, zeros up to a whole block, and the length. -/
def padding (length : Nat) : List UInt8 :=
  0x80 :: List.replicate ((119 - length % 64) % 64) 0 ++ bigEndian 8 (8 * length)

/-! ### Blocks -/

def rotate (w : UInt32) (n : UInt32) : UInt32 := (w >>> n) ||| (w <<< (32 - n))

def words : List UInt8 → List UInt32
  | a :: b :: c :: d :: rest =>
    (a.toUInt32 <<< 24 ||| b.toUInt32 <<< 16 ||| c.toUInt32 <<< 8 ||| d.toUInt32) :: words rest
  | _ => []

def nextWord (w : Array UInt32) : UInt32 :=
  let i := w.size
  let a := w.getD (i - 15) 0
  let b := w.getD (i - 2) 0
  let s0 := rotate a 7 ^^^ rotate a 18 ^^^ (a >>> 3)
  let s1 := rotate b 17 ^^^ rotate b 19 ^^^ (b >>> 10)
  w.getD (i - 16) 0 + s0 + w.getD (i - 7) 0 + s1

/-- Extends a schedule by `n` words. -/
def extend : Nat → Array UInt32 → Array UInt32
  | 0, w => w
  | n + 1, w => extend n (w.push (nextWord w))

/-- The eight words in a round. -/
structure Mix where
  a : UInt32
  b : UInt32
  c : UInt32
  d : UInt32
  e : UInt32
  f : UInt32
  g : UInt32
  h : UInt32
deriving DecidableEq, Repr

namespace Mix

def ofArray (s : Array UInt32) : Mix :=
  ⟨s.getD 0 0, s.getD 1 0, s.getD 2 0, s.getD 3 0, s.getD 4 0, s.getD 5 0, s.getD 6 0, s.getD 7 0⟩

def toArray (m : Mix) : Array UInt32 := #[m.a, m.b, m.c, m.d, m.e, m.f, m.g, m.h]

def round (m : Mix) (word : UInt32) : Mix :=
  let s1 := rotate m.e 6 ^^^ rotate m.e 11 ^^^ rotate m.e 25
  let choice := (m.e &&& m.f) ^^^ (~~~m.e &&& m.g)
  let t := m.h + s1 + choice + word
  let s0 := rotate m.a 2 ^^^ rotate m.a 13 ^^^ rotate m.a 22
  let majority := (m.a &&& m.b) ^^^ (m.a &&& m.c) ^^^ (m.b &&& m.c)
  ⟨t + s0 + majority, m.a, m.b, m.c, m.d + t, m.e, m.f, m.g⟩

end Mix

def mixBlock (state : Array UInt32) (block : List UInt8) : Array UInt32 :=
  let schedule := (extend 48 (words block).toArray).toList
  let mixed := (schedule.zipWith (· + ·) roundWords).foldl Mix.round (Mix.ofArray state)
  state.zipWith (· + ·) mixed.toArray

/-- Mixes `n` blocks. -/
def mixBlocks : Nat → Array UInt32 → List UInt8 → Array UInt32
  | 0, state, _ => state
  | n + 1, state, bytes => mixBlocks n (mixBlock state (bytes.take 64)) (bytes.drop 64)

end Digest

/-- The digest of some bytes, in hexadecimal digits. -/
def digest (bytes : List UInt8) : String :=
  let padded := bytes ++ Digest.padding bytes.length
  let state := Digest.mixBlocks (padded.length / 64) Digest.start padded
  String.ofList (state.toList.flatMap fun w => hex 8 w.toNat)

end Owl.Text
