import SqlCode.Number.Numeral

/-!
# Hexadecimal text

Two lower case digits for each byte.
-/

namespace SqlCode

namespace Hex

def encode (bs : List UInt8) : String :=
  bs.foldl (fun s b => s ++ Numeral.hex 2 b.toNat) ""

/-- The bytes of pairs of hexadecimal digits. -/
def decodeChars? : List Char → Option (List UInt8)
  | [] => some []
  | [_] => none
  | a :: b :: cs => do
    let hi ← Numeral.hexDigit? a
    let lo ← Numeral.hexDigit? b
    let rest ← decodeChars? cs
    some (UInt8.ofNat (16 * hi + lo) :: rest)

def decode? (s : String) : Option (List UInt8) := decodeChars? s.toList

end Hex

end SqlCode
