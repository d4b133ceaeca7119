import SqlCode.TimeUnit

/-!
# Type names

The names of the SQL types and the families they form. Dates are day numbers, times and
timestamps count milliseconds, year-month intervals count months, and day-time intervals count
milliseconds.
-/

namespace SqlCode

inductive TypeName
  | boolean | tinyInt | smallInt | integer | bigInt | decimal | real | float | double | char
  | varchar | binary | varBinary | date | time | timestamp | timestampWithLocalTimeZone
  | intervalYear | intervalYearMonth | intervalMonth | intervalDay | intervalDayHour
  | intervalDayMinute | intervalDaySecond | intervalHour | intervalHourMinute | intervalHourSecond
  | intervalMinute | intervalMinuteSecond | intervalSecond | array | map | multiset | row | any
  | null | symbol
deriving DecidableEq, Repr

def TypeName.all : List TypeName := (List.range (symbol.ctorIdx + 1)).map ofNat

def TypeName.label (t : TypeName) : String := constructorLabel t

instance : Labeled TypeName := ⟨TypeName.all, TypeName.label⟩

namespace TypeName

def isExactInteger : TypeName → Bool
  | .tinyInt | .smallInt | .integer | .bigInt => true
  | _ => false

/-- Floating point numbers. -/
def isApproximate : TypeName → Bool
  | .real | .float | .double => true
  | _ => false

def isNumeric (t : TypeName) : Bool := t.isExactInteger || t.isApproximate || t == .decimal

def isCharacter : TypeName → Bool
  | .char | .varchar => true
  | _ => false

def isBinary : TypeName → Bool
  | .binary | .varBinary => true
  | _ => false

/-- Intervals that count months. -/
def isYearMonthInterval : TypeName → Bool
  | .intervalYear | .intervalYearMonth | .intervalMonth => true
  | _ => false

/-- Intervals that count milliseconds. -/
def isDayTimeInterval : TypeName → Bool
  | .intervalDay | .intervalDayHour | .intervalDayMinute | .intervalDaySecond | .intervalHour
  | .intervalHourMinute | .intervalHourSecond | .intervalMinute | .intervalMinuteSecond
  | .intervalSecond => true
  | _ => false

def isInterval (t : TypeName) : Bool := t.isYearMonthInterval || t.isDayTimeInterval

def isDatetime : TypeName → Bool
  | .date | .time | .timestamp | .timestampWithLocalTimeZone => true
  | _ => false

def isCollection : TypeName → Bool
  | .array | .multiset | .map => true
  | _ => false

/-- The place of a numeric type in the order of widening; the higher absorbs the lower. -/
def numericRank : TypeName → Nat
  | .smallInt => 1
  | .integer => 2
  | .bigInt => 3
  | .decimal => 4
  | .real => 5
  | .float => 6
  | .double => 7
  | _ => 0

end TypeName

end SqlCode
