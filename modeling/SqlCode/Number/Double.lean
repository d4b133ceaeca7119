import SqlCode.Number.Word

/-!
# Doubles

Exact views of double precision numbers and the operations on them that the arithmetic of the
library needs beyond the primitive ones:

* `Double.Binary`: a finite double as `± significand · 2 ^ exponent`;
* `Double.nearest`: the double nearest to a fraction, ties to the even significand;
* `Double.rem`: the remainder of a truncated division, which is exact;
* `Double.toSingle`: rounding to single precision;
* `Double.powInt`: powers with an integer exponent by repeated squaring.
-/

namespace SqlCode

namespace Double

/-- A finite double: `± significand · 2 ^ exponent`. -/
structure Binary where
  negative : Bool
  significand : Nat
  exponent : Int
deriving Repr, DecidableEq

/-- The sign bit of a double. -/
def isNegative (x : Float) : Bool := x.toBits >>> 63 == 1

/-- The binary form of a double; infinities and NaN have none. -/
def Binary.ofFloat? (x : Float) : Option Binary :=
  let bits := x.toBits.toNat
  let field : Nat := bits / pow2 52 % pow2 11
  let fraction := bits % pow2 52
  if field = 2047 then none
  else if field = 0 then some ⟨isNegative x, fraction, -1074⟩
  else some ⟨isNegative x, pow2 52 + fraction, (field : Int) - 1075⟩

def isFinite (x : Float) : Bool := (Binary.ofFloat? x).isSome

def infinity : Float := Float.ofBits 0x7ff0000000000000

def nan : Float := Float.ofBits 0x7ff8000000000000

/-- Positive zero, one and the ends of the finite range. -/
def zero : Float := Float.ofBits 0

@[inherit_doc zero]
def one : Float := Float.ofBits 0x3ff0000000000000

def greatest : Float := Float.ofBits 0x7fefffffffffffff

def greatestSingle : Float := Float.ofBits 0x47efffffe0000000

def pi : Float := Float.ofBits 0x400921fb54442d18

/-- Attaches a sign to the bits of a non-negative double. -/
def withSign (negative : Bool) (bits : Nat) : Float :=
  Float.ofBits (UInt64.ofNat (if negative then pow2 63 + bits else bits))

/-- `num / den` rounded to an integer, ties to even. -/
def divideToEven (num den : Nat) : Nat :=
  let q := num / den
  let r := num % den
  if 2 * r < den then q
  else if den < 2 * r then q + 1
  else if q % 2 = 0 then q else q + 1

/-- The quotient `num / (den · 2 ^ e)` rounded to an integer, ties to even. -/
def scaledQuotient (num den : Nat) (e : Int) : Nat :=
  if 0 ≤ e then divideToEven num (den * pow2 e.toNat)
  else divideToEven (num * pow2 (-e).toNat) den

/-- The exponent of the last significand bit of a number in `[2 ^ lead, 2 ^ (lead + 1))`. -/
def unitExponent (lead : Int) : Int := max (-1074) (lead - 52)

/-- The greatest `k` with `2 ^ k ≤ num / den`, for a positive fraction. -/
def leadExponent (num den : Nat) : Int :=
  let guess : Int := (num.log2 : Int) - den.log2
  let atLeast : Bool :=
    if 0 ≤ guess then den * pow2 guess.toNat ≤ num else den ≤ num * pow2 (-guess).toNat
  if atLeast then guess else guess - 1

/-- The double nearest to `± num / den`. What lies beyond the finite range is infinite. -/
def nearest (negative : Bool) (num den : Nat) : Float :=
  if num = 0 then withSign negative 0
  else
    let e := unitExponent (leadExponent num den)
    let m := scaledQuotient num den e
    -- the significand with its hidden bit removed, below the exponent field; a carry out of
    -- the significand moves into that field
    let bits := (e + 1074).toNat * pow2 52 + m
    withSign negative (min bits 0x7ff0000000000000)

def ofInt (n : Int) : Float := nearest (n < 0) n.natAbs 1

/-- The magnitude of a binary form in units of `2 ^ e`, for `e` at most its exponent. -/
def Binary.unitsOf (b : Binary) (e : Int) : Nat := b.significand * pow2 (b.exponent - e).toNat

/-- The remainder of the division of `x` by `y` with the quotient truncated toward zero. It has
the sign of `x`. -/
def rem (x y : Float) : Float :=
  match Binary.ofFloat? x, Binary.ofFloat? y with
  | some a, some b =>
    if b.significand = 0 then nan
    else
      let e := min a.exponent b.exponent
      let r := a.unitsOf e % b.unitsOf e
      if 0 ≤ e then nearest a.negative (r * pow2 e.toNat) 1
      else nearest a.negative r (pow2 (-e).toNat)
  | some _, none => if y.isNaN then nan else x
  | none, _ => nan

/-- The integer part, toward zero. -/
def truncate (x : Float) : Float := if x < zero then x.ceil else x.floor

/-- The integer part of a finite double, toward zero. -/
def Binary.toInt (b : Binary) : Int :=
  let magnitude :=
    if 0 ≤ b.exponent then b.significand * pow2 b.exponent.toNat
    else b.significand / pow2 (-b.exponent).toNat
  if b.negative then -(magnitude : Int) else magnitude

/-- The integer part as a word, stopped at the ends of the range; NaN gives zero. -/
def toWord (x : Float) : Int64 :=
  match Binary.ofFloat? x with
  | some b => Word.clamp b.toInt
  | none =>
    if x.isNaN then 0 else Word.clamp (if isNegative x then Word.least else Word.greatest)

/-- The product of `result` and `base ^ n`, by repeated squaring over at most `bits` bits. -/
def powLoop (bits : Nat) (base result : Float) (n : Nat) : Float :=
  match bits with
  | 0 => result
  | bits + 1 =>
    let result := if n % 2 = 1 then result * base else result
    if n / 2 = 0 then result else powLoop bits (base * base) result (n / 2)

/-- `base ^ n` for an exponent of at most 32 bits; a negative exponent takes the reciprocal. -/
def powInt (base : Float) (n : Int) : Float :=
  let r := powLoop 33 base one n.natAbs
  if n < 0 then one / r else r

/-- The nearest number with the precision of single precision numbers, ties to the even significand;
there is no bound on its size. -/
def Binary.toSinglePrecision (b : Binary) : Float :=
  let unit : Int := max (-149) ((b.significand.log2 : Int) + b.exponent - 23)
  let m :=
    if unit ≤ b.exponent then b.significand * pow2 (b.exponent - unit).toNat
    else divideToEven b.significand (pow2 (unit - b.exponent).toNat)
  if 0 ≤ unit then nearest b.negative (m * pow2 unit.toNat) 1
  else nearest b.negative m (pow2 (-unit).toNat)

/-- Single precision rounding. What lies beyond the finite range is infinite. -/
def toSingle (x : Float) : Float :=
  match Binary.ofFloat? x with
  | none => x
  | some b =>
    let y := b.toSinglePrecision
    if greatestSingle < y then infinity
    else if y < -greatestSingle then -infinity
    else y

/-- The order of doubles; NaN is not comparable. -/
def compare? (x y : Float) : Option Ordering :=
  if x < y then some .lt
  else if y < x then some .gt
  else if x == y then some .eq
  else none

/-- Sameness of doubles: equal numbers, or both NaN. -/
def same (x y : Float) : Bool := x == y || (x.isNaN && y.isNaN)

end Double

end SqlCode
