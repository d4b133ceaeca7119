import SqlCode.Regex.CharSet

/-!
# Encodings of character ranges

A range of characters is encoded as sequences of byte ranges. The sequences of a range are in
ascending order, and a text is encoded by one of them exactly if it is a character of the range.
-/

namespace SqlCode

namespace Regex

namespace Encoding

abbrev ByteRange := Nat × Nat

def bytes (n : Nat) : List Nat :=
  if n < 0x80 then [n]
  else if n < 0x800 then [0xc0 + n / 64, 0x80 + n % 64]
  else if n < 0x10000 then [0xe0 + n / 4096, 0x80 + n / 64 % 64, 0x80 + n % 64]
  else [0xf0 + n / 262144, 0x80 + n / 4096 % 64, 0x80 + n / 64 % 64, 0x80 + n % 64]

def textBytes (cs : List Char) : List Nat := cs.flatMap fun c => bytes c.toNat

/-- Where a range has to be divided so that its parts are blocks of a size, or lie in one block: the
end of the lower part. -/
def blockEnd? (size lo hi : Nat) : Option Nat :=
  if lo / size = hi / size then none
  else if lo % size ≠ 0 then some (lo - lo % size + (size - 1))
  else if hi % size ≠ size - 1 then some (hi - hi % size - 1)
  else none

/-- Where a range has to be divided so that its parts are encoded by one sequence each: the end of
the lower part and the start of the upper part. -/
def divide? (lo hi : Nat) : Option (Nat × Nat) :=
  if lo < 0xe000 ∧ 0xd7ff < hi then some (0xd7ff, 0xe000)
  else
    match [0x7f, 0x7ff, 0xffff].find? fun m => lo ≤ m ∧ m < hi with
    | some m => some (m, m + 1)
    | none =>
      if hi ≤ 0x7f then none
      else ([64, 4096, 262144].findSome? fun size => blockEnd? size lo hi).map fun m => (m, m + 1)

/-- The sequences of some ranges. The number bounds the ranges that arise. -/
def sequencesFrom : Nat → List (Nat × Nat) → List (List ByteRange)
  | 0, _ | _, [] => []
  | fuel + 1, (lo, hi) :: rest =>
    match divide? lo hi with
    | some (a, b) => sequencesFrom fuel ((lo, a) :: (b, hi) :: rest)
    | none =>
      if lo ≤ hi then (bytes lo).zip (bytes hi) :: sequencesFrom fuel rest
      else sequencesFrom fuel rest

/-- The sequences of a range. There are four lengths and seven sequences of a length at most. -/
def sequences (r : Nat × Nat) : List (List ByteRange) := sequencesFrom 100 [r]

def setSequences (s : CharSet) : List (List ByteRange) := s.ranges.flatMap sequences

end Encoding

end Regex

end SqlCode
