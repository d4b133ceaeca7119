import SqlCode.Number.Double

/-!
# Labels and time units

Enumerations whose constructors show in texts by their names. Among them are the units of calendar
and clock that EXTRACT, FLOOR and CEIL know, and the spans of units that qualify intervals.
-/

namespace SqlCode

/-- The name of a constructor, without the name of its type. -/
def constructorName {α : Type} [Repr α] (a : α) : String :=
  String.ofList ((reprStr a).toList.reverse.takeWhile (· ≠ '.')).reverse

/-- The name of a constructor, with a capital at its start. -/
def constructorLabel {α : Type} [Repr α] (a : α) : String := (constructorName a).capitalize

/-- An enumeration with a label for each of its constructors. -/
class Labeled (α : Type) where
  all : List α
  label : α → String

/-- The constructor with a label. -/
def Labeled.ofLabel? {α : Type} [Labeled α] (s : String) : Option α :=
  (Labeled.all : List α).find? fun a => Labeled.label a == s

/-- Milliseconds in the clock units. -/
def millisPerSecond : Int := 1000

@[inherit_doc millisPerSecond]
def millisPerMinute : Int := 60000

@[inherit_doc millisPerSecond]
def millisPerHour : Int := 3600000

@[inherit_doc millisPerSecond]
def millisPerDay : Int := 86400000

def monthsPerYear : Int := 12

/-- Units of calendar and clock. -/
inductive TimeUnit
  | year | month | day | hour | minute | second | quarter | isoYear | week | millennium | century
  | decade | dow | isoDow | doy | epoch | millisecond | microsecond | nanosecond
deriving DecidableEq, Repr

def TimeUnit.all : List TimeUnit := (List.range (nanosecond.ctorIdx + 1)).map ofNat

def TimeUnit.label (u : TimeUnit) : String := constructorLabel u

instance : Labeled TimeUnit := ⟨TimeUnit.all, TimeUnit.label⟩

namespace TimeUnit

/-- The size of one unit as a fraction, in the base of its family: months for the units of a year and
larger, milliseconds for weeks and smaller, one for ordinals. -/
def ratio : TimeUnit → Nat × Nat
  | .year | .isoYear => (12, 1)
  | .month => (1, 1)
  | .quarter => (3, 1)
  | .decade => (120, 1)
  | .century => (1200, 1)
  | .millennium => (12000, 1)
  | .week => (604800000, 1)
  | .day => (86400000, 1)
  | .hour => (3600000, 1)
  | .minute => (60000, 1)
  | .second => (1000, 1)
  | .millisecond | .dow | .isoDow | .doy | .epoch => (1, 1)
  | .microsecond => (1, 1000)
  | .nanosecond => (1, 1000000)

/-- The size of one unit as a double. -/
def size (u : TimeUnit) : Float := Double.nearest false u.ratio.1 u.ratio.2

/-- The size of one unit cut to a whole number; units below a millisecond have size zero. -/
def wholeSize (u : TimeUnit) : Int := u.ratio.1 / u.ratio.2

/-- How many units make a millisecond; one for every coarser unit. -/
def perMillisecond (u : TimeUnit) : Int :=
  if u.ratio.2 ≤ u.ratio.1 then 1 else u.ratio.2 / u.ratio.1

/-- The unit is a number of months. -/
def isYearMonth : TimeUnit → Bool
  | .year | .month | .quarter | .isoYear | .decade | .century | .millennium => true
  | _ => false

end TimeUnit

/-- A unit, or a span from a leading to a trailing unit. -/
inductive TimeSpan
  | year | yearToMonth | quarter | month | week | day | dayToHour | dayToMinute | dayToSecond | hour
  | hourToMinute | hourToSecond | minute | minuteToSecond | second | millisecond | microsecond
  | nanosecond | isoYear | millennium | century | decade | dow | isoDow | doy | epoch
deriving DecidableEq, Repr

def TimeSpan.all : List TimeSpan := (List.range (epoch.ctorIdx + 1)).map ofNat

def TimeSpan.label (s : TimeSpan) : String := constructorLabel s

instance : Labeled TimeSpan := ⟨TimeSpan.all, TimeSpan.label⟩

def TimeSpan.start : TimeSpan → TimeUnit
  | .year | .yearToMonth => .year
  | .quarter => .quarter
  | .month => .month
  | .week => .week
  | .day | .dayToHour | .dayToMinute | .dayToSecond => .day
  | .hour | .hourToMinute | .hourToSecond => .hour
  | .minute | .minuteToSecond => .minute
  | .second => .second
  | .millisecond => .millisecond
  | .microsecond => .microsecond
  | .nanosecond => .nanosecond
  | .isoYear => .isoYear
  | .millennium => .millennium
  | .century => .century
  | .decade => .decade
  | .dow => .dow
  | .isoDow => .isoDow
  | .doy => .doy
  | .epoch => .epoch

def TimeSpan.stop? : TimeSpan → Option TimeUnit
  | .yearToMonth => some .month
  | .dayToHour => some .hour
  | .dayToMinute | .hourToMinute => some .minute
  | .dayToSecond | .hourToSecond | .minuteToSecond => some .second
  | _ => none

end SqlCode
