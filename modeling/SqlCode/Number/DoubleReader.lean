import SqlCode.Number.Double
import SqlCode.Number.Numeral

/-!
# Reading doubles

`Double.parse?` reads a decimal numeral as the nearest double, and the names of the infinities and
of NaN in any case.
-/

namespace SqlCode

namespace Double

/-- Decimal exponents beyond which a numeral is infinite or zero. -/
def exponentBound : Int := 400

/-- The double nearest to `n * 10 ^ e`. -/
def ofScaled (negative : Bool) (n : Nat) (e : Int) : Float :=
  let size := e + Numeral.digitCount n
  if n = 0 ∨ size < -exponentBound then withSign negative 0
  else if size > exponentBound then if negative then -infinity else infinity
  else nearest negative (n * pow10 e.toNat) (pow10 (-e).toNat)

/-- A numeral without sign: digits with at most one point, and an exponent. -/
def unsigned? (negative : Bool) (cs : List Char) : Option Float := do
  let (base, rest) := cs.span fun c => c ≠ 'e' ∧ c ≠ 'E'
  let exponent ← match rest with
    | [] => some 0
    | _ :: cs => Numeral.int? cs
  let (whole, fraction) :=
    match base.span (· ≠ '.') with
    | (whole, _ :: fraction) => (whole, fraction)
    | (whole, []) => (whole, [])
  let n ← Numeral.nat? (whole ++ fraction)
  some (ofScaled negative n (exponent - fraction.length))

/-- The numbers that have a name. -/
def named? (negative : Bool) (cs : List Char) : Option Float :=
  match String.ofList (cs.map Char.toLower) with
  | "inf" | "infinity" => some (if negative then -infinity else infinity)
  | "nan" => some nan
  | _ => none

def parse? (cs : List Char) : Option Float :=
  match cs with
  | '-' :: cs => named? true cs <|> unsigned? true cs
  | '+' :: cs => named? false cs <|> unsigned? false cs
  | cs => named? false cs <|> unsigned? false cs

end Double

end SqlCode
