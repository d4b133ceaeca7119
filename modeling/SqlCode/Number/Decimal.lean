import SqlCode.Number.DoubleReader

/-!
# Decimals

A decimal is an unscaled integer and a scale: `unscaled · 10 ^ -scale`. Decimals of different
scale can denote the same number, and every operation fixes the scale of its result:

* sums and differences have the larger scale, except that a zero operand may drop out;
* products add the scales, except that a factor one drops out;
* quotients are computed to at most a hundred significant digits;
* remainders have the larger scale.

`Decimal.compare` and `Decimal.same` look at the number only. Scales may lie far apart, so no operation
computes a power of ten with more places than the digits of its operands or of its result call for.
-/

namespace SqlCode

/-- The number `unscaled · 10 ^ -scale`. -/
structure Decimal where
  unscaled : Int
  scale : Int
deriving DecidableEq, Repr

namespace Decimal

def ofInt (n : Int) : Decimal := ⟨n, 0⟩

def isZero (d : Decimal) : Bool := d.unscaled = 0

def digitCount (d : Decimal) : Nat := Numeral.digitCount d.unscaled.natAbs

/-- The unscaled integer of `d` at a scale that is not smaller than its own. -/
def unscaledAt (d : Decimal) (scale : Int) : Int :=
  if d.isZero then 0 else d.unscaled * pow10 (scale - d.scale).toNat

/-- The unscaled integer of `a` at the scale of `b`, if that is larger. More places than `b` has
digits do not change the order of the two, so they are not appended. -/
def unscaledBeside (a b : Decimal) : Int :=
  a.unscaled * pow10 (min (b.scale - a.scale).toNat b.digitCount)

def compare (a b : Decimal) : Ordering := Ord.compare (a.unscaledBeside b) (b.unscaledBeside a)

theorem unscaledAt_eq (d : Decimal) (scale : Int) :
    d.unscaledAt scale = d.unscaled * pow10 (scale - d.scale).toNat := by
  by_cases h : d.unscaled = 0 <;> simp [unscaledAt, isZero, h]

/-- A product with a power of ten above an integer is ordered beside it by its sign, so a greater
power gives the same order. -/
theorem compare_mul_pow10_min (x y : Int) (g k : Nat) (h : y.natAbs < pow10 k) :
    Ord.compare (x * pow10 (min g k)) y = Ord.compare (x * pow10 g) y := by
  rcases Nat.le_total g k with hg | hg
  · rw [Nat.min_eq_left hg]
  · rw [Nat.min_eq_right hg]
    have hle : pow10 k ≤ pow10 g := Nat.pow_le_pow_right (by decide) hg
    rcases Int.lt_trichotomy x 0 with hx | hx | hx
    · have h1 : x * pow10 k ≤ -1 * (pow10 k : Int) :=
        Int.mul_le_mul_of_nonneg_right (by omega) (by omega)
      have h2 : x * pow10 g ≤ -1 * (pow10 g : Int) :=
        Int.mul_le_mul_of_nonneg_right (by omega) (by omega)
      rw [Int.compare_eq_lt.mpr (by omega), Int.compare_eq_lt.mpr (by omega)]
    · simp [hx]
    · have h1 : 1 * (pow10 k : Int) ≤ x * pow10 k :=
        Int.mul_le_mul_of_nonneg_right (by omega) (by omega)
      have h2 : 1 * (pow10 g : Int) ≤ x * pow10 g :=
        Int.mul_le_mul_of_nonneg_right (by omega) (by omega)
      rw [Int.compare_eq_gt.mpr (by omega), Int.compare_eq_gt.mpr (by omega)]

/-- Decimals are ordered as their unscaled integers at the larger scale. -/
theorem compare_eq_compare_unscaledAt (a b : Decimal) :
    compare a b =
      Ord.compare (a.unscaledAt (max a.scale b.scale)) (b.unscaledAt (max a.scale b.scale)) := by
  have key (x y : Decimal) (h : x.scale ≤ y.scale) :
      Ord.compare (x.unscaledBeside y) (y.unscaledBeside x) =
        Ord.compare (x.unscaledAt y.scale) (y.unscaledAt y.scale) := by
    have hy : y.unscaledBeside x = y.unscaled := by
      simp [unscaledBeside, show (x.scale - y.scale).toNat = 0 by omega]
    have hy' : y.unscaledAt y.scale = y.unscaled := by
      simp [unscaledAt_eq]
    rw [hy, hy', unscaledAt_eq]
    exact compare_mul_pow10_min _ _ _ _ (Numeral.lt_pow10_digitCount _)
  rcases Int.le_total a.scale b.scale with h | h
  · rw [Int.max_eq_right h]
    exact key a b h
  · rw [Int.max_eq_left h, compare, ← Int.compare_swap, key b a h, Int.compare_swap]

def same (a b : Decimal) : Bool := compare a b == .eq

def isOne (d : Decimal) : Bool := d.same ⟨1, 0⟩

def neg (d : Decimal) : Decimal := ⟨-d.unscaled, d.scale⟩

/-- The sum, at the larger scale. -/
def add (a b : Decimal) : Decimal :=
  let s := max a.scale b.scale
  ⟨a.unscaledAt s + b.unscaledAt s, s⟩

/-- The difference, at the larger scale; a zero operand leaves the other one's scale alone. -/
def sub (a b : Decimal) : Decimal :=
  if b.isZero then a
  else if a.isZero then b.neg
  else
    let s := max a.scale b.scale
    ⟨a.unscaledAt s - b.unscaledAt s, s⟩

/-- The product, with the scales added; a factor one leaves the other factor alone. -/
def mul (a b : Decimal) : Decimal :=
  if a.isOne then b
  else if b.isOne then a
  else ⟨a.unscaled * b.unscaled, a.scale + b.scale⟩

/-- The remainder of the truncated division, at the larger scale. -/
def rem (a b : Decimal) : Decimal :=
  let s := max a.scale b.scale
  ⟨Int.tmod (a.unscaledAt s) (b.unscaledAt s), s⟩

/-- The number of significant digits a quotient is computed to. -/
def quotientDigits : Nat := 100

/-- Long division under way: a quotient, what is left of the numerator, and the scale. -/
structure Division where
  quotient : Nat
  remainder : Nat
  scale : Int

/-- Brings down digits while a remainder is left, at most `fuel` of them. -/
def Division.extend (den : Nat) (fuel : Nat) (d : Division) : Division :=
  match fuel with
  | 0 => d
  | fuel + 1 =>
    if d.remainder = 0 then d
    else
      Division.extend den fuel
        ⟨d.quotient * 10 + 10 * d.remainder / den, 10 * d.remainder % den, d.scale + 1⟩

/-- The number of decimal places by which `num` must grow to reach `den`. -/
def growth (num den : Nat) : Nat :=
  let places := Numeral.digitCount den - Numeral.digitCount num
  if num * pow10 places < den then places + 1 else places

/-- The quotient of two positive integers, rounded half up after `quotientDigits` digits. -/
def divNat (num den : Nat) (scale : Int) : Decimal :=
  let places := growth num den
  let num := num * pow10 places
  let first : Division := ⟨num / den, num % den, scale + places⟩
  let last := first.extend den (quotientDigits - Numeral.digitCount first.quotient)
  let carry := if 5 ≤ 10 * last.remainder / den then 1 else 0
  ⟨(last.quotient + carry : Nat), last.scale⟩

/-- The quotient by a divisor other than zero. -/
def div (a b : Decimal) : Decimal :=
  if a.isZero || b.isOne then a
  else
    let scale := a.scale - b.scale
    if a.unscaled = b.unscaled then ⟨1, scale⟩
    else
      let q := divNat a.unscaled.natAbs b.unscaled.natAbs scale
      if a.unscaled < 0 ↔ b.unscaled < 0 then q else q.neg

/-- Ways to drop decimal places. -/
inductive Rounding
  | halfUp
  | down
  | floor
  | ceiling
deriving DecidableEq, Repr

/-- `n / 10 ^ places` as an integer; a half goes away from zero under `halfUp`. One place more than
`n` has digits leaves less than a tenth, and further places leave the result as it is. -/
def Rounding.shift (mode : Rounding) (n : Int) (places : Nat) : Int :=
  let unit : Int := pow10 (min places (Numeral.digitCount n.natAbs + 1))
  match mode with
  | .halfUp => n.sign * ((2 * n.natAbs + unit) / (2 * unit))
  | .down => Int.tdiv n unit
  | .floor => n / unit
  | .ceiling => -(-n / unit)

/-- The decimal with the given scale: zeros are appended, or places are dropped by `mode`. -/
def rescale (mode : Rounding) (d : Decimal) (scale : Int) : Decimal :=
  if d.unscaled = 0 then ⟨0, scale⟩
  else if d.scale ≤ scale then ⟨d.unscaledAt scale, scale⟩
  else ⟨mode.shift d.unscaled (d.scale - scale).toNat, scale⟩

/-- The integer part, toward zero. -/
def truncate (d : Decimal) : Int := (d.rescale .down 0).unscaled

def toWord? (d : Decimal) : Option Int64 := Word.ofInt? d.truncate

/-- The number is an integer. Only zero is a multiple of a power of ten with as many places as it has
digits, or more. -/
def isInteger (d : Decimal) : Bool :=
  d.scale ≤ 0 ∨ d.unscaled % pow10 (min d.scale.toNat d.digitCount) = 0

/-- The nearest double of a decimal with decimal places. Without places the unscaled integer is
rounded first and then multiplied by the power of ten. -/
def toFloat (d : Decimal) : Float :=
  if d.unscaled = 0 then Double.zero
  else if 0 ≤ d.scale then
    Double.ofScaled (d.unscaled < 0) d.unscaled.natAbs (-d.scale)
  else Double.ofInt d.unscaled * Double.powInt 10.0 (-d.scale)

/-- The exact number of a finite double, with as many places as it has fraction bits. -/
def ofFloat? (x : Float) : Option Decimal :=
  (Double.Binary.ofFloat? x).map fun b =>
    let sign : Int := if b.negative then -1 else 1
    if b.significand = 0 then ⟨0, 0⟩
    else if 0 ≤ b.exponent then ⟨sign * (b.significand * pow2 b.exponent.toNat : Nat), 0⟩
    else
      -- common factors of two cancel, and each fraction bit left is one decimal place
      let places := (-b.exponent).toNat
      let shared := Nat.gcd b.significand (pow2 places)
      let bits := places - shared.log2
      ⟨sign * (b.significand / shared * Nat.pow 5 bits : Nat), bits⟩

end Decimal

end SqlCode
