import ZeroOS.Lib.Wire

/-!
# SHA-256

The hash as `zfs-core` computes it: the whole blocks of the input, then one or two blocks with the rest
of it, a bit that marks its end, and its length in bits. Nothing is proved about its strength. Where a
result needs that two inputs do not collide, it says so for these inputs.
-/

namespace ZeroOS.Crypto

open Wire

/-- `K`. -/
def roundConstants : List UInt32 := [0x428a2f98, 0x71374491, 0xb5c0fbcf, 0xe9b5dba5, 0x3956c25b, 0x59f111f1, 0x923f82a4,
    0xab1c5ed5, 0xd807aa98, 0x12835b01, 0x243185be, 0x550c7dc3, 0x72be5d74, 0x80deb1fe,
    0x9bdc06a7, 0xc19bf174, 0xe49b69c1, 0xefbe4786, 0x0fc19dc6, 0x240ca1cc, 0x2de92c6f,
    0x4a7484aa, 0x5cb0a9dc, 0x76f988da, 0x983e5152, 0xa831c66d, 0xb00327c8, 0xbf597fc7,
    0xc6e00bf3, 0xd5a79147, 0x06ca6351, 0x14292967, 0x27b70a85, 0x2e1b2138, 0x4d2c6dfc,
    0x53380d13, 0x650a7354, 0x766a0abb, 0x81c2c92e, 0x92722c85, 0xa2bfe8a1, 0xa81a664b,
    0xc24b8b70, 0xc76c51a3, 0xd192e819, 0xd6990624, 0xf40e3585, 0x106aa070, 0x19a4c116,
    0x1e376c08, 0x2748774c, 0x34b0bcb5, 0x391c0cb3, 0x4ed8aa4a, 0x5b9cca4f, 0x682e6ff3,
    0x748f82ee, 0x78a5636f, 0x84c87814, 0x8cc70208, 0x90befffa, 0xa4506ceb, 0xbef9a3f7,
    0xc67178f2]

def rotr (x n : UInt32) : UInt32 := (x >>> n) ||| (x <<< (32 - n))

def ch (x y z : UInt32) : UInt32 := (x &&& y) ^^^ (~~~x &&& z)

def maj (x y z : UInt32) : UInt32 := (x &&& y) ^^^ (x &&& z) ^^^ (y &&& z)

def bsig0 (x : UInt32) : UInt32 := rotr x 2 ^^^ rotr x 13 ^^^ rotr x 22

def bsig1 (x : UInt32) : UInt32 := rotr x 6 ^^^ rotr x 11 ^^^ rotr x 25

def ssig0 (x : UInt32) : UInt32 := rotr x 7 ^^^ rotr x 18 ^^^ (x >>> 3)

def ssig1 (x : UInt32) : UInt32 := rotr x 17 ^^^ rotr x 19 ^^^ (x >>> 10)

/-- The words of a block, each four bytes with the highest first. -/
def words : Bytes → List UInt32
  | a :: b :: c :: d :: rest =>
    ((a.toUInt32 <<< 24) ||| (b.toUInt32 <<< 16) ||| (c.toUInt32 <<< 8) ||| d.toUInt32) :: words rest
  | _ => []

/-- One more word of the schedule, which has the latest word first. -/
def extend (w : List UInt32) : List UInt32 := (ssig1 (w.getD 1 0) + w.getD 6 0 + ssig0 (w.getD 14 0) + w.getD 15 0) :: w

def schedule (chunk : Bytes) : List UInt32 := (extend^[48] (words chunk).reverse).reverse

/-- The registers `a` to `h` of a round. -/
structure Registers where
  a : UInt32
  b : UInt32
  c : UInt32
  d : UInt32
  e : UInt32
  f : UInt32
  g : UInt32
  h : UInt32
  deriving DecidableEq, Repr

/-- `H0`. -/
def initial : Registers := ⟨0x6a09e667, 0xbb67ae85, 0x3c6ef372, 0xa54ff53a, 0x510e527f, 0x9b05688c, 0x1f83d9ab, 0x5be0cd19⟩

def Registers.round (r : Registers) (k w : UInt32) : Registers :=
  let t1 := r.h + bsig1 r.e + ch r.e r.f r.g + k + w
  let t2 := bsig0 r.a + maj r.a r.b r.c
  ⟨t1 + t2, r.a, r.b, r.c, r.d + t1, r.e, r.f, r.g⟩

def compress (r : Registers) (chunk : Bytes) : Registers :=
  let s := (roundConstants.zip (schedule chunk)).foldl (fun r kw => r.round kw.1 kw.2) r
  ⟨r.a + s.a, r.b + s.b, r.c + s.c, r.d + s.d, r.e + s.e, r.f + s.f, r.g + s.g, r.h + s.h⟩

def be (width n : Nat) : Bytes := (le width n).reverse

/-- The blocks behind the whole blocks: the rest, a mark, and the length in bits. -/
def tail (rem : Bytes) (len : Nat) : Bytes :=
  let used := if rem.length ≤ 55 then 64 else 128
  rem ++ 0x80 :: List.replicate (used - rem.length - 9) 0 ++ be 8 (len * 8 % 2 ^ 64)

def padded (input : Bytes) : Bytes :=
  let whole := input.length / 64 * 64
  input.take whole ++ tail (input.drop whole) input.length

def blocks : Nat → Bytes → List Bytes
  | 0, _ => []
  | n + 1, bytes => bytes.take 64 :: blocks n (bytes.drop 64)

def sha256 (input : Bytes) : Bytes :=
  let all := padded input
  let r := (blocks (all.length / 64) all).foldl compress initial
  [r.a, r.b, r.c, r.d, r.e, r.f, r.g, r.h].flatMap fun w => be 4 w.toNat

@[simp] lemma length_sha256 (input : Bytes) : (sha256 input).length = 32 := by
  simp [sha256, be]

example : sha256 [0x61, 0x62, 0x63] =
    [0xba, 0x78, 0x16, 0xbf, 0x8f, 0x01, 0xcf, 0xea, 0x41, 0x41, 0x40, 0xde, 0x5d, 0xae, 0x22, 0x23,
      0xb0, 0x03, 0x61, 0xa3, 0x96, 0x17, 0x7a, 0x9c, 0xb4, 0x10, 0xff, 0x61, 0xf2, 0x00, 0x15, 0xad] := by
  decide +kernel

end ZeroOS.Crypto
