import SqlCode.Number.Decimal

/-!
# Texts of decimals

`Decimal.text` writes a decimal with its scale; `Decimal.parse?` reads numerals with an optional
sign, point, exponent and digit separators.
-/

namespace SqlCode

namespace Decimal

/-- A fraction with more than this many zeros before its first digit is written with an
exponent. -/
def leadingZeroLimit : Int := 5

/-- A whole number with more than this many zeros appended is written with an exponent. -/
def trailingZeroLimit : Nat := 15

/-- The text of a positive decimal from its digits. -/
def textOfDigits (cs : List Char) (scale : Int) : String :=
  if scale ≤ 0 then
    let zeros := (-scale).toNat
    if trailingZeroLimit < zeros then String.ofList cs ++ "e+" ++ zeros.repr
    else String.ofList (cs ++ List.replicate zeros '0')
  else
    let places := scale.toNat
    if leadingZeroLimit < scale - cs.length then
      let exponent : Int := (cs.length : Int) - 1 - scale
      match cs with
      | c :: d :: ds => String.ofList (c :: '.' :: d :: ds) ++ "E" ++ exponent.repr
      | cs => String.ofList cs ++ "E" ++ exponent.repr
    else if places < cs.length then
      String.ofList (cs.take (cs.length - places) ++ '.' :: cs.drop (cs.length - places))
    else "0." ++ String.ofList (List.replicate (places - cs.length) '0' ++ cs)

def text (d : Decimal) : String :=
  if d.unscaled = 0 then "0"
  else (if d.unscaled < 0 then "-" else "") ++ textOfDigits (Nat.toDigits 10 d.unscaled.natAbs) d.scale

/-- The integer of a digit string that may hold underscores after its first digit. -/
def separatedNat? (cs : List Char) : Option Nat :=
  match cs with
  | '_' :: _ => none
  | cs => Numeral.nat? (cs.filter (· ≠ '_'))

/-- A digit string with an optional sign. -/
def separatedInt? : List Char → Option Int
  | '-' :: cs => (separatedNat? cs).map fun n => -(n : Int)
  | '+' :: cs => (separatedNat? cs).map Int.ofNat
  | cs => (separatedNat? cs).map Int.ofNat

/-- The digits of a numeral without its point, and the number of places after the point. -/
def dropPoint (cs : List Char) : List Char × Nat :=
  match cs.span (· ≠ '.') with
  | (whole, []) => (whole, 0)
  | (whole, _ :: fraction) => (whole ++ fraction, (fraction.filter (· ≠ '_')).length)

/-- Reads a decimal numeral such as `12.50`, `-1e5`, `.5`, `5.` or `1_000`. -/
def parse? (s : String) : Option Decimal := do
  let (base, rest) := s.toList.span fun c => c ≠ 'e' ∧ c ≠ 'E'
  let exponent ← match rest with
    | [] => some 0
    | _ :: cs => Numeral.int? cs
  let (digits, places) := dropPoint base
  let n ← separatedInt? digits
  let scale ← Word.ofInt? (places - exponent)
  some ⟨n, scale.toInt⟩

end Decimal

end SqlCode
