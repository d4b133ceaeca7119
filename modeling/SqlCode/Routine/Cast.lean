import SqlCode.Calendar.Reader
import SqlCode.Routine.Temporal

/-!
# Casts between types

A cast changes the form of a value where the forms of two types differ: numbers and texts, texts
and dates, timestamps and their parts. Texts are read without the blanks around them.
-/

namespace SqlCode

namespace Cast

/-- The fault of a value that the target type cannot hold. -/
def invalid (v : Value) (target : TypeName) : Fault :=
  .invalidArgument "cast" ("cannot cast '" ++ v.text ++ "' to " ++ target.label)

/-- The value, or the fault that there is none. -/
def orInvalid (v : Value) (target : TypeName) : Option Value → Except Fault Value
  | some w => .ok w
  | none => .error (invalid v target)

def trimmed (s : String) : List Char := Blank.trim s.toList

/-- Types whose values are milliseconds from 1970-01-01. -/
def isTimestamp (t : TypeName) : Bool := t == .timestamp || t == .timestampWithLocalTimeZone

def timeText? (millis : Int) : Option String :=
  if 0 ≤ millis ∧ millis < millisPerDay then some (Calendar.timeText millis) else none

def toText (v : Value) (source : TypeName) : Except Fault Value :=
  match v with
  | .int n =>
    if source = .date then do
      let d ← Temporal.dateOf n.toInt
      .ok (.str d.text)
    else if source = .time then orInvalid v .varchar ((timeText? n.toInt).map Value.str)
    else if isTimestamp source then do
      let d ← Temporal.dateOf (n.toInt / millisPerDay)
      .ok (.str (d.text ++ " " ++ Calendar.timeText (n.toInt % millisPerDay)))
    else .ok (.str v.text)
  | .bytes bs => .ok (.str (Utf8.decode bs))
  | v => .ok (.str v.text)

def toInteger? : Value → Option Value
  | .str s => ((Numeral.int? (trimmed s)).bind Word.ofInt?).map .int
  | .bool _ => none
  | v => v.toWord?.map .int

def toDecimal? : Value → Option Value
  | .str s => (Decimal.parse? (String.ofList (trimmed s))).map .decimal
  | v => v.toDecimal?.map .decimal

def toFloat? : Value → Option Value
  | .str s => (Double.parse? (trimmed s)).map .float
  | v => v.toFloat?.map .float

/-- The value as a truth value: numbers are true unless they are zero. -/
def toBoolean? : Value → Option Value
  | .bool b => some (.bool b)
  | .str s =>
    match String.ofList ((trimmed s).map Char.toUpper) with
    | "TRUE" => some (.bool true)
    | "FALSE" => some (.bool false)
    | _ => none
  | v => v.toFloat?.map fun x => .bool (x != Double.zero)

/-- A time computed from the milliseconds of a timestamp, or read from a text; all else stays. -/
def toPart (v : Value) (source target : TypeName) (ofMillis : Int → Int)
    (parse? : List Char → Option Int) : Except Fault Value :=
  match v with
  | .str s => orInvalid v target ((parse? (trimmed s)).map Routine.wordResult)
  | .int n => .ok (if isTimestamp source then Routine.wordResult (ofMillis n.toInt) else v)
  | v => .ok v

def toTimestamp (v : Value) (source target : TypeName) : Except Fault Value :=
  match v with
  | .str s => orInvalid v target ((Calendar.parseTimestamp? (trimmed s)).map Routine.wordResult)
  | .int n =>
    if source = .date then (checked "cast" (n.toInt * millisPerDay)).map .int else .ok v
  | v => .ok v

/-- The value of type `source` as a value of type `target`. -/
def cast (v : Value) (source target : TypeName) : Except Fault Value :=
  if target.isCharacter then toText v source
  else if target.isExactInteger then orInvalid v target (toInteger? v)
  else if target = .decimal then orInvalid v target (toDecimal? v)
  else if target.isApproximate then orInvalid v target (toFloat? v)
  else if target = .boolean then orInvalid v target (toBoolean? v)
  else if target = .date then toPart v source target (· / millisPerDay) Calendar.parseDate?
  else if target = .time then toPart v source target (· % millisPerDay) Calendar.parseTime?
  else if isTimestamp target then toTimestamp v source target
  else if target.isBinary then
    match v with
    | .str s => .ok (.bytes (Utf8.encode s))
    | v => .ok v
  else .ok v

end Cast

namespace Routine

def typeArg (args : List Value) (i : Nat) : Except Fault TypeName := do
  match ← Args.value "cast" args i with
  | .symbol (.typeName t) => .ok t
  | v => .error (.expected "cast" "a type name" v)

/-- CAST of a value from one type to another; null stays null. -/
def cast : Routine := fun args => do
  let v ← Args.value "cast" args 0
  if v.isNull then .ok .null
  else do
    let source ← typeArg args 1
    let target ← typeArg args 2
    Cast.cast v source target

def casts : List (String × Routine) := [("cast", cast)]

end Routine

end SqlCode
