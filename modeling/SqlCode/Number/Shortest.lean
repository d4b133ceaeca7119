import SqlCode.Number.Double

/-!
# Shortest decimal digits

The decimal numeral with the fewest digits that reads back as a given double, and among those
the nearest to it. Every positive double is the nearest double to all reals in an interval
around it; on the grid of decimals with `n` digits only the two neighbours of the double can be
the nearest grid point in that interval, so the search tries one digit, two digits, and so on.
Seventeen digits always suffice.
-/

namespace SqlCode

namespace Double

/-- Which neighbour is taken when a double is exactly half way between two numerals. -/
inductive Tie
  | up
  | even
deriving DecidableEq, Repr

/-- The positive decimal `digits · 10 ^ exponent`. -/
structure Digits where
  digits : Nat
  exponent : Int
deriving DecidableEq, Repr

namespace Digits

/-- Drops the trailing zeros of the digits, at most `fuel` of them. -/
def trim (fuel : Nat) (d : Digits) : Digits :=
  match fuel with
  | 0 => d
  | fuel + 1 => if d.digits % 10 = 0 then trim fuel ⟨d.digits / 10, d.exponent + 1⟩ else d

def chars (d : Digits) : List Char := Nat.toDigits 10 d.digits

/-- The power of ten of the first digit. -/
def lead (d : Digits) : Int := d.exponent + d.chars.length - 1

end Digits

/-- The reals that round to a positive double, in units of `num / den`: the double is
`4 · significand` units, and its neighbours' midpoints are `low` and `high`. The midpoints
belong to it when its significand is even. -/
structure Interval where
  value : Nat
  low : Nat
  high : Nat
  closed : Bool
  num : Nat
  den : Nat

/-- The interval of a positive double. Below a power of two the neighbours are twice as close. -/
def Binary.interval (b : Binary) : Interval :=
  let e := b.exponent - 2
  { value := 4 * b.significand
    low := 4 * b.significand - (if b.significand = pow2 52 ∧ -1074 < b.exponent then 1 else 2)
    high := 4 * b.significand + 2
    closed := b.significand % 2 = 0
    num := if 0 ≤ e then pow2 e.toNat else 1
    den := if 0 ≤ e then 1 else pow2 (-e).toNat }

/-- The decimal `c · 10 ^ j` lies in the interval. -/
def Interval.contains (i : Interval) (c : Nat) (j : Int) : Bool :=
  let p := c * i.den * (if 0 ≤ j then pow10 j.toNat else 1)
  let t := i.num * (if 0 ≤ j then 1 else pow10 (-j).toNat)
  if i.closed then i.low * t ≤ p ∧ p ≤ i.high * t else i.low * t < p ∧ p < i.high * t

/-- The nearest numeral in the interval among the multiples of `10 ^ j`, if one lies in it. -/
def Interval.onGrid (tie : Tie) (i : Interval) (j : Int) : Option Digits :=
  let num := i.value * i.num * (if 0 ≤ j then 1 else pow10 (-j).toNat)
  let den := i.den * (if 0 ≤ j then pow10 j.toNat else 1)
  let c := num / den
  let r := num % den
  let below := i.contains c j && c ≠ 0
  let above := i.contains (c + 1) j
  let upper : Bool :=
    if 2 * r = den then tie = .up || c % 2 = 1 else den < 2 * r
  match below, above with
  | true, true => some ⟨if upper then c + 1 else c, j⟩
  | true, false => some ⟨c, j⟩
  | false, true => some ⟨c + 1, j⟩
  | false, false => none

/-- Raises a lower bound `k` of the decimal exponent of `num / den`, at most `fuel` times. -/
def raiseExponent (num den : Nat) (fuel : Nat) (k : Int) : Int :=
  match fuel with
  | 0 => k
  | fuel + 1 =>
    let next := k + 1
    let reached : Bool :=
      if 0 ≤ next then den * pow10 next.toNat ≤ num else den ≤ num * pow10 (-next).toNat
    if reached then raiseExponent num den fuel next else k

/-- The greatest `k` with `10 ^ k ≤ num / den`, for a positive fraction. -/
def decimalExponent (num den : Nat) : Int :=
  raiseExponent num den 4 ((leadExponent num den) * 30103 / 100000 - 1)

def Binary.shortest (tie : Tie) (b : Binary) : Digits :=
  let i := b.interval
  let k := decimalExponent (i.value * i.num) i.den
  match (List.range 17).findSome? fun (n : Nat) => i.onGrid tie (k - n) with
  | some d => d.trim 17
  | none => ⟨i.value, 0⟩

end Double

end SqlCode
