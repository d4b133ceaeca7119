import SqlCode.Number.Word

/-!
# Digests

The message digests MD5 and SHA-1. Both append a one bit, zeros and the length of the message in
bits up to whole blocks of 64 bytes, and fold the blocks into a few words of state.
-/

namespace SqlCode

namespace Digest

/-- The message with its padding; `length` writes the bit length in eight bytes. -/
def padded (message : List UInt8) (length : Nat → List UInt8) : List UInt8 :=
  let zeros := (119 - message.length % 64) % 64
  message ++ 0x80 :: List.replicate zeros 0 ++ length (8 * message.length)

/-- The `count` low bytes of a number, least significant first. -/
def bytesUp (count n : Nat) : List UInt8 :=
  (List.range count).map fun i => UInt8.ofNat (n / pow2 (8 * i))

/-- The `count` low bytes of a number, most significant first. -/
def bytesDown (count n : Nat) : List UInt8 := (bytesUp count n).reverse

/-- The number of bytes given least significant first. -/
def numberUp (bs : List UInt8) : Nat := bs.foldr (fun b n => b.toNat + 256 * n) 0

/-- The parts of length `size` of a list, at most `count` of them. -/
def parts {α : Type} (size : Nat) (xs : List α) : Nat → List (List α)
  | 0 => []
  | count + 1 => if xs.isEmpty then [] else xs.take size :: parts size (xs.drop size) count

def blocks (bs : List UInt8) : List (List UInt8) := parts 64 bs (bs.length / 64)

def rotate (x : UInt32) (n : UInt32) : UInt32 := (x <<< n) ||| (x >>> (32 - n))

namespace Md5

/-- How far each step rotates. -/
def shifts : Array UInt32 :=
  #[7, 12, 17, 22, 5, 9, 14, 20, 4, 11, 16, 23, 6, 10, 15, 21]

/-- The additive constants: the fractions of sines in 32 bits. -/
def constants : Array UInt32 :=
  #[0xd76aa478, 0xe8c7b756, 0x242070db, 0xc1bdceee, 0xf57c0faf, 0x4787c62a, 0xa8304613, 0xfd469501,
    0x698098d8, 0x8b44f7af, 0xffff5bb1, 0x895cd7be, 0x6b901122, 0xfd987193, 0xa679438e, 0x49b40821,
    0xf61e2562, 0xc040b340, 0x265e5a51, 0xe9b6c7aa, 0xd62f105d, 0x02441453, 0xd8a1e681, 0xe7d3fbc8,
    0x21e1cde6, 0xc33707d6, 0xf4d50d87, 0x455a14ed, 0xa9e3e905, 0xfcefa3f8, 0x676f02d9, 0x8d2a4c8a,
    0xfffa3942, 0x8771f681, 0x6d9d6122, 0xfde5380c, 0xa4beea44, 0x4bdecfa9, 0xf6bb4b60, 0xbebfbc70,
    0x289b7ec6, 0xeaa127fa, 0xd4ef3085, 0x04881d05, 0xd9d4d039, 0xe6db99e5, 0x1fa27cf8, 0xc4ac5665,
    0xf4292244, 0x432aff97, 0xab9423a7, 0xfc93a039, 0x655b59c3, 0x8f0ccc92, 0xffeff47d, 0x85845dd1,
    0x6fa87e4f, 0xfe2ce6e0, 0xa3014314, 0x4e0811a1, 0xf7537e82, 0xbd3af235, 0x2ad7d2bb, 0xeb86d391]

structure State where
  a : UInt32
  b : UInt32
  c : UInt32
  d : UInt32

def initial : State := ⟨0x67452301, 0xefcdab89, 0x98badcfe, 0x10325476⟩

/-- Step `i` on the words of a block. -/
def step (words : Array UInt32) (s : State) (i : Nat) : State :=
  let (mix, k) : UInt32 × Nat :=
    if i < 16 then ((s.b &&& s.c) ||| (~~~s.b &&& s.d), i)
    else if i < 32 then ((s.d &&& s.b) ||| (~~~s.d &&& s.c), (5 * i + 1) % 16)
    else if i < 48 then (s.b ^^^ s.c ^^^ s.d, (3 * i + 5) % 16)
    else (s.c ^^^ (s.b ||| ~~~s.d), 7 * i % 16)
  let sum := s.a + mix + constants.getD i 0 + words.getD k 0
  let shift := shifts.getD (4 * (i / 16) + i % 4) 0
  ⟨s.d, s.b + rotate sum shift, s.b, s.c⟩

def absorb (s : State) (block : List UInt8) : State :=
  let words := ((parts 4 block 16).map fun w => UInt32.ofNat (numberUp w)).toArray
  let t := (List.range 64).foldl (step words) s
  ⟨s.a + t.a, s.b + t.b, s.c + t.c, s.d + t.d⟩

end Md5

def md5 (message : List UInt8) : List UInt8 :=
  let s := (blocks (padded message (bytesUp 8))).foldl Md5.absorb Md5.initial
  [s.a, s.b, s.c, s.d].flatMap fun w => bytesUp 4 w.toNat

namespace Sha1

structure State where
  a : UInt32
  b : UInt32
  c : UInt32
  d : UInt32
  e : UInt32

def initial : State := ⟨0x67452301, 0xefcdab89, 0x98badcfe, 0x10325476, 0xc3d2e1f0⟩

/-- The eighty words scheduled from the sixteen words of a block. -/
def schedule (words : Array UInt32) : Array UInt32 :=
  (List.range 64).foldl
    (fun w i =>
      w.push (rotate (w.getD (i + 13) 0 ^^^ w.getD (i + 8) 0 ^^^ w.getD (i + 2) 0 ^^^ w.getD i 0) 1))
    words

/-- Step `i` on the scheduled words. -/
def step (words : Array UInt32) (s : State) (i : Nat) : State :=
  let (mix, k) : UInt32 × UInt32 :=
    if i < 20 then ((s.b &&& s.c) ||| (~~~s.b &&& s.d), 0x5a827999)
    else if i < 40 then (s.b ^^^ s.c ^^^ s.d, 0x6ed9eba1)
    else if i < 60 then ((s.b &&& s.c) ||| (s.b &&& s.d) ||| (s.c &&& s.d), 0x8f1bbcdc)
    else (s.b ^^^ s.c ^^^ s.d, 0xca62c1d6)
  ⟨rotate s.a 5 + mix + s.e + k + words.getD i 0, s.a, rotate s.b 30, s.c, s.d⟩

def absorb (s : State) (block : List UInt8) : State :=
  let words := ((parts 4 block 16).map fun w => UInt32.ofNat (numberUp w.reverse)).toArray
  let t := (List.range 80).foldl (step (schedule words)) s
  ⟨s.a + t.a, s.b + t.b, s.c + t.c, s.d + t.d, s.e + t.e⟩

end Sha1

def sha1 (message : List UInt8) : List UInt8 :=
  let s := (blocks (padded message (bytesDown 8))).foldl Sha1.absorb Sha1.initial
  [s.a, s.b, s.c, s.d, s.e].flatMap fun w => bytesDown 4 w.toNat

end Digest

end SqlCode
