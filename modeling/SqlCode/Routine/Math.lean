import SqlCode.Routine.Basic
import SqlCode.Value.Operate

/-!
# Mathematical routines

Elementary functions on doubles, and rounding of integers, doubles and decimals.
-/

namespace SqlCode

namespace Routine

def ofFloat (routine : String) (f : Float → Float) : Routine := fun args => do
  let x ← Args.float routine args 0
  return .float (f x)

/-- A logarithm, which refuses zero and negative numbers. -/
def logarithm (routine : String) (f : Float → Float) : Routine := fun args => do
  let x ← Args.float routine args 0
  if x ≤ Double.zero then
    .error (.invalidArgument routine ("cannot take the logarithm of " ++ Double.text x))
  else .ok (.float (f x))

def ofFloats (routine : String) (f : Float → Float → Float) : Routine := fun args => do
  let x ← Args.float routine args 0
  let y ← Args.float routine args 1
  return .float (f x y)

/-- The double nearest to 180. -/
def halfTurn : Float := Double.ofInt 180

/-- The remainder, with the sign of the dividend. -/
def modulo : Routine := fun args => do
  let a ← Args.value "mod" args 0
  let b ← Args.value "mod" args 1
  Value.arithmetic .modulo a b

def abs : Routine := fun args => do
  match ← Args.value "abs" args 0 with
  | .int n => (checked "abs" n.toInt.natAbs).map .int
  | .float x => .ok (.float x.abs)
  | .decimal d => .ok (.decimal ⟨d.unscaled.natAbs, d.scale⟩)
  | v => .error (.expected "abs" "a number" v)

/-- The sign as minus one, zero or one of the kind of the argument. -/
def sign : Routine := fun args => do
  match ← Args.value "sign" args 0 with
  | .int n => .ok (.int (Word.signum n))
  | .float x =>
    .ok (.float (
      if x == Double.zero then Double.zero
      else if x.isNaN then x
      else if x < Double.zero then -Double.one else Double.one))
  | .decimal d => .ok (.decimal (.ofInt d.unscaled.sign))
  | v => .error (.expected "sign" "a number" v)

namespace Tens

/-- The power of ten for a negative number of digits. -/
def factor? (digits : Int64) : Option Int64 :=
  let places := (-digits).toInt
  if 0 ≤ places ∧ places < pow2 32 then Word.checkedPow 10 places.toNat else none

/-- The number cut toward zero. -/
def down (n factor : Int64) : Int64 := n / factor * factor

/-- What is cut off. -/
def rest (n factor : Int64) : Int64 := n - down n factor

/-- Twice the magnitude of what is cut off. -/
def doubled (n factor : Int64) : Int64 := (rest n factor).abs * 2

/-- The way from the cut number to the next multiple. -/
def step (n factor : Int64) : Int64 := Word.signum (rest n factor) * factor

/-- An integer rounded to a multiple: cut toward zero, or to the nearest with ties away from
zero. -/
def round (nearest : Bool) (n factor : Int64) : Int64 :=
  if nearest ∧ factor ≤ doubled n factor then down n factor + step n factor else down n factor

end Tens

/-- Rounds to a number of digits after the point, or before it if the number is negative. -/
def roundTo (routine : String) (nearest : Bool) : Routine := fun args => do
  let digits ← Args.wordOr routine args 1 0
  match ← Args.value routine args 0 with
  | .decimal d =>
    .ok (.decimal (d.rescale (if nearest then .halfUp else .down) digits.toInt))
  | .int n =>
    if 0 ≤ digits.toInt then .ok (.int n)
    else
      match Tens.factor? digits with
      | some factor => .ok (.int (Tens.round nearest n factor))
      | none => .error (.overflow routine)
  | .float x =>
    let unit := Double.powInt (Double.ofInt 10) (Word.wrapTo 32 digits).toInt
    let scaled := x * unit
    .ok (.float ((if nearest then scaled.round else Double.truncate scaled) / unit))
  | v => .error (.expected routine "a number" v)

def wholeDecimal (down : Bool) (d : Decimal) : Decimal :=
  d.rescale (if down then .floor else .ceiling) 0

def wholeFloat (down : Bool) (x : Float) : Float := if down then x.floor else x.ceil

/-- Rounds down or up to a whole number. -/
def toWhole (down : Bool) : Value → Value
  | .float x => .float (wholeFloat down x)
  | .decimal d => .decimal (wholeDecimal down d)
  | v => v

/-- Rounds down or up to a multiple of a unit. -/
def toMultiple (routine : String) (down : Bool) (v unit : Value) : Except Fault Value :=
  match v, unit with
  | .int n, .int u => do
    let rest ← floorMod n u
    let below := n.toInt - rest.toInt
    .ok (.int (Word.wrap (if down ∨ rest = 0 then below else below + u.toInt)))
  | .decimal _, _ | _, .decimal _ =>
    match v.toDecimal?, unit.toDecimal? with
    | some d, some u =>
      if u.isZero then .error .divisionByZero
      else .ok (.decimal ((wholeDecimal down (d.div u)).mul u))
    | _, _ => .error (.typeMismatch "non-finite value")
  | _, _ => do
    let x ← Args.float routine [v, unit] 0
    let u ← Args.float routine [v, unit] 1
    .ok (.float (wholeFloat down (x / u) * u))

/-- FLOOR and CEIL: of one argument to a whole number, of two to a multiple of the second. -/
def roundToward (routine : String) (down : Bool) : Routine := fun args => do
  let v ← Args.value routine args 0
  match args[1]? with
  | none => .ok (toWhole down v)
  | some unit => toMultiple routine down v unit

def ofWords (routine : String) (f : Int64 → Int64 → Except Fault Int64) : Routine := fun args => do
  let a ← Args.word routine args 0
  let b ← Args.word routine args 1
  (f a b).map .int

def mathematics : List (String × Routine) :=
  [("exp", ofFloat "exp" Float.exp), ("ln", logarithm "ln" Float.log),
   ("log10", logarithm "log10" Float.log10), ("acos", ofFloat "acos" Float.acos),
   ("asin", ofFloat "asin" Float.asin), ("atan", ofFloat "atan" Float.atan),
   ("cbrt", ofFloat "cbrt" Float.cbrt), ("cos", ofFloat "cos" Float.cos),
   ("cosh", ofFloat "cosh" Float.cosh),
   ("cot", ofFloat "cot" fun x => Double.one / x.tan),
   ("degrees", ofFloat "degrees" fun x => x * (halfTurn / Double.pi)),
   ("radians", ofFloat "radians" fun x => x * (Double.pi / halfTurn)),
   ("sin", ofFloat "sin" Float.sin), ("sinh", ofFloat "sinh" Float.sinh),
   ("tan", ofFloat "tan" Float.tan), ("tanh", ofFloat "tanh" Float.tanh),
   ("atan2", ofFloats "atan2" Float.atan2), ("power", ofFloats "power" Float.pow),
   ("mod", modulo), ("abs", abs), ("sign", sign), ("round", roundTo "round" true),
   ("truncate", roundTo "truncate" false), ("floor", roundToward "floor" true),
   ("ceil", roundToward "ceil" false), ("floorDiv", ofWords "floorDiv" floorDiv),
   ("floorMod", ofWords "floorMod" floorMod)]

end Routine

end SqlCode
