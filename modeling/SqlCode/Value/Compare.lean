import SqlCode.Value.Basic

/-!
# The order of values

`Value.compare?` orders numbers across their kinds, booleans, texts, binaries and lists; all
other pairs are not comparable. `Value.equals` is SQL equality, in which numbers of different
kinds can be equal.
-/

namespace SqlCode

namespace Value

/-- The order of two numbers: as decimals if one of them is a decimal, else as doubles. -/
def compareNumbers? (a b : Value) : Option Ordering :=
  match a, b with
  | .int x, .int y => some (Ord.compare x.toInt y.toInt)
  | .decimal _, _ | _, .decimal _ => do
    let x ← a.toDecimal?
    let y ← b.toDecimal?
    some (Decimal.compare x y)
  | _, _ => do
    let x ← a.toFloat?
    let y ← b.toFloat?
    Double.compare? x y

mutual

/-- The order of two values, if they are comparable. -/
def compare? : Value → Value → Option Ordering
  | .int a, b => if b.isNumeric then compareNumbers? (.int a) b else none
  | .float a, b => if b.isNumeric then compareNumbers? (.float a) b else none
  | .decimal a, b => if b.isNumeric then compareNumbers? (.decimal a) b else none
  | .bool a, .bool b => some (Ord.compare a b)
  | .str a, .str b => some (Ord.compare a b)
  | .bytes a, .bytes b => some (Ord.compare (a.map UInt8.toNat) (b.map UInt8.toNat))
  | .list as, .list bs => compareItems? as bs
  | _, _ => none
termination_by structural v => v

/-- The order of lists: the first difference decides, then the length. -/
def compareItems? : List Value → List Value → Option Ordering
  | a :: as, b :: bs =>
    match compare? a b with
    | some .eq => compareItems? as bs
    | o => o
  | [], [] => some .eq
  | [], _ :: _ => some .lt
  | _ :: _, [] => some .gt
termination_by structural vs => vs

end

/-- SQL equality of non-null values. -/
def equals (a b : Value) : Bool :=
  if a.isNumeric && b.isNumeric then compare? a b == some .eq else same a b

end Value

end SqlCode
