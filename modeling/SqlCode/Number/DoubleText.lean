import SqlCode.Number.Numeral
import SqlCode.Number.Shortest

/-!
# Texts of doubles

Two ways to write a double, both from its shortest digits:

* `Double.text`, the SQL text: positional at every size, whole numbers without a point;
* `Double.jsonText`, the JSON text: whole numbers end in `.0`, and very large and very small
  numbers have an exponent.
-/

namespace SqlCode

namespace Double

/-- Positional notation of a positive decimal; `whole` follows a number without a fraction. -/
def Digits.positional (d : Digits) (whole : String) : String :=
  let cs := d.chars
  if 0 ≤ d.exponent then
    String.ofList (cs ++ List.replicate d.exponent.toNat '0') ++ whole
  else
    let places := (-d.exponent).toNat
    if places < cs.length then
      String.ofList (cs.take (cs.length - places) ++ '.' :: cs.drop (cs.length - places))
    else
      "0." ++ String.ofList (List.replicate (places - cs.length) '0' ++ cs)

/-- Scientific notation of a positive decimal: one digit before the point, and a signed
exponent. -/
def Digits.scientific (d : Digits) : String :=
  let e := d.lead
  let exponent := (if 0 ≤ e then "+" else "-") ++ e.natAbs.repr
  match d.chars with
  | [] => "0"
  | [c] => String.ofList [c] ++ "e" ++ exponent
  | c :: cs => String.ofList (c :: '.' :: cs) ++ "e" ++ exponent

def text (x : Float) : String :=
  match Binary.ofFloat? x with
  | none => if x.isNaN then "NaN" else if isNegative x then "-inf" else "inf"
  | some b =>
    let sign := if b.negative then "-" else ""
    if b.significand = 0 then sign ++ "0" else sign ++ (b.shortest .up).positional ""

/-- The JSON text of a finite double. The decimal exponents from -5 to 15 are written
positionally. -/
def jsonText (x : Float) : String :=
  match Binary.ofFloat? x with
  | none => "null"
  | some b =>
    let sign := if b.negative then "-" else ""
    if b.significand = 0 then sign ++ "0.0"
    else
      let d := b.shortest .even
      if -5 ≤ d.lead ∧ d.lead < 16 then sign ++ d.positional ".0" else sign ++ d.scientific

end Double

end SqlCode
