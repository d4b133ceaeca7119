import SqlCode.Json.Basic

/-!
# Numbers in JSON text

A number without fraction and exponent that fits in 64 bits, signed or unsigned, is an integer;
`-0` is not. Every other number is read into an integer significand of at most 64 bits and a
power of ten, and the double is the significand multiplied or divided once by that power. Digits
that no longer fit the significand only count for the exponent before the point and not at all
after it. A number beyond the range of doubles is not accepted.
-/

namespace SqlCode

namespace Json

def significandLimit : Nat := pow2 64 - 1

/-- The greatest exponent that is read as such. -/
def exponentLimit : Nat := pow2 31 - 1

/-- The powers of ten that are finite doubles. -/
def powersOfTen : Array Float :=
  ((List.range 309).map fun n => Double.nearest false (pow10 n) 1).toArray

/-- The double `x · 10 ^ exponent`; exponents below the table are reached in steps, at most
`fuel` of them, after which nothing is left of a significand of 64 bits. -/
def scaleDown (fuel : Nat) (x : Float) (exponent : Int) : Float :=
  match fuel with
  | 0 => x
  | fuel + 1 =>
    if h : exponent.natAbs < powersOfTen.size then x / powersOfTen[exponent.natAbs]
    else if x == Double.zero then x
    else scaleDown fuel (x / Double.nearest false (pow10 308) 1) (exponent + 308)

/-- The double of a significand and a power of ten, unless it is too large. -/
def floatOfParts? (negative : Bool) (significand : Nat) (exponent : Int) : Option Float :=
  let x := Double.nearest false significand 1
  let magnitude? : Option Float :=
    if 0 ≤ exponent then
      if h : exponent.toNat < powersOfTen.size then
        let y := x * powersOfTen[exponent.toNat]
        if Double.isFinite y then some y else none
      else if significand = 0 then some x else none
    else some (scaleDown 8 x exponent)
  magnitude?.map fun y => if negative then -y else y

def digitValue (c : Char) : Nat := c.toNat - 48

/-- Reads digits into a significand while it fits; returns it with the digits left over. -/
def gather (significand : Nat) : List Char → Nat × List Char
  | [] => (significand, [])
  | c :: cs =>
    let next := significand * 10 + digitValue c
    if significandLimit < next then (significand, c :: cs) else gather next cs

/-- The exponent mark and its number, if the text has one. -/
def splitExponent? : List Char → Option (Option (Bool × List Char) × List Char)
  | c :: cs =>
    if c = 'e' ∨ c = 'E' then
      let (minus, cs) := match cs with
        | '+' :: cs => (false, cs)
        | '-' :: cs => (true, cs)
        | cs => (false, cs)
      match cs.span Char.isDigit with
      | ([], _) => none
      | (digits, rest) => some (some (minus, digits), rest)
    else some (none, c :: cs)
  | [] => some (none, [])

/-- The double with the given significand and exponent, shifted by a written exponent. -/
def withExponent? (negative : Bool) (significand : Nat) (exponent : Int) :
    Option (Bool × List Char) → Option Json
  | none => (floatOfParts? negative significand exponent).map .float
  | some (minus, digits) =>
    let n := Nat.ofDigitChars 10 digits 0
    if exponentLimit < n then
      if significand ≠ 0 ∧ !minus then none
      else some (.float (if negative then -Double.zero else Double.zero))
    else
      let e : Int := if minus then exponent - n else exponent + n
      (floatOfParts? negative significand e).map .float

def unsigned? (negative : Bool) (cs : List Char) : Option (Json × List Char) := do
  let (whole, rest) := cs.span Char.isDigit
  let leadingZero := whole.head? = some '0' && whole.length ≠ 1
  if whole = [] ∨ leadingZero then none
  let (significand, extra) := gather 0 whole
  match rest with
  | '.' :: rest =>
    let (fraction, rest) := rest.span Char.isDigit
    if fraction = [] then none
    let (significand, dropped) := gather significand fraction
    let exponent : Int := (extra.length : Int) - (fraction.length - dropped.length : Nat)
    let (mark, rest) ← splitExponent? rest
    let j ← withExponent? negative significand exponent mark
    some (j, rest)
  | rest =>
    let (mark, rest) ← splitExponent? rest
    if mark.isNone ∧ extra = [] then
      if negative then
        if significand = 0 ∨ pow2 63 < significand then
          some (.float (-(Double.nearest false significand 1)), rest)
        else some (.int (-(significand : Int)), rest)
      else some (.int significand, rest)
    else
      let j ← withExponent? negative significand extra.length mark
      some (j, rest)

def number? : List Char → Option (Json × List Char)
  | '-' :: cs => unsigned? true cs
  | cs => unsigned? false cs

end Json

end SqlCode
