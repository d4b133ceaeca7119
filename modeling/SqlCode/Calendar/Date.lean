import SqlCode.Number.Numeral

/-!
# Dates

The proleptic Gregorian calendar. A date is counted in days from 1970-01-01; `Date.ofDays` and
`Date.toDays` convert between the count and year, month and day.
-/

namespace SqlCode

/-- A day of the calendar. -/
structure Date where
  year : Int
  month : Int
  day : Int
deriving DecidableEq, Repr

namespace Date

def isLeap (year : Int) : Bool := year % 4 = 0 ∧ (year % 100 ≠ 0 ∨ year % 400 = 0)

def monthLength (year month : Int) : Int :=
  if month = 2 then if isLeap year then 29 else 28
  else if month = 4 ∨ month = 6 ∨ month = 9 ∨ month = 11 then 30
  else 31

/-- The days of the year before the first of a month. -/
def daysBeforeMonth (year month : Int) : Int :=
  let shift := if isLeap year then 1 else 0
  if month ≤ 1 then 0
  else if month = 2 then 31
  else if month = 3 then 59 + shift
  else if month = 4 then 90 + shift
  else if month = 5 then 120 + shift
  else if month = 6 then 151 + shift
  else if month = 7 then 181 + shift
  else if month = 8 then 212 + shift
  else if month = 9 then 243 + shift
  else if month = 10 then 273 + shift
  else if month = 11 then 304 + shift
  else 334 + shift

/-- The days from 0001-01-01 to the first day of a year. -/
def daysBeforeYear (year : Int) : Int :=
  let y := year - 1
  365 * y + y / 4 - y / 100 + y / 400

/-- The days from 0001-01-01 to 1970-01-01. -/
def epoch : Int := 719162

/-- The days from 1970-01-01. -/
def toDays (d : Date) : Int :=
  daysBeforeYear d.year + daysBeforeMonth d.year d.month + (d.day - 1) - epoch

/-- The year of a day counted from 0001-01-01: whole cycles of 400, 100, 4 and 1 years are taken
off in turn, where the last day of a cycle still belongs to it. -/
def yearOf (n : Int) : Int :=
  let q400 := n / 146097
  let r400 := n % 146097
  let q100 := min (r400 / 36524) 3
  let r100 := r400 - 36524 * q100
  let q4 := r100 / 1461
  let r4 := r100 % 1461
  let q1 := min (r4 / 365) 3
  400 * q400 + 100 * q100 + 4 * q4 + q1 + 1

/-- The month of a day of the year, counted from zero. -/
def monthOf (year ordinal : Int) : Int :=
  (([12, 11, 10, 9, 8, 7, 6, 5, 4, 3, 2] : List Int).find? fun m =>
    daysBeforeMonth year m ≤ ordinal).getD 1

/-- The date of a number of days from 1970-01-01. -/
def ofDays (days : Int) : Date :=
  let n := days + epoch
  let year := yearOf n
  let ordinal := n - daysBeforeYear year
  let month := monthOf year ordinal
  ⟨year, month, ordinal - daysBeforeMonth year month + 1⟩

/-- The years that dates range over. -/
def leastYear : Int := -262143

@[inherit_doc leastYear]
def greatestYear : Int := 262142

def inRange (d : Date) : Bool := leastYear ≤ d.year ∧ d.year ≤ greatestYear

def ofDays? (days : Int) : Option Date :=
  let d := ofDays days
  if d.inRange then some d else none

/-- The date is one of the calendar and in range. -/
def isValid (d : Date) : Bool :=
  d.inRange ∧ 1 ≤ d.month ∧ d.month ≤ 12 ∧ 1 ≤ d.day ∧ d.day ≤ monthLength d.year d.month

/-- The date some months later; a day past the end of the month becomes its last day. -/
def addMonths (d : Date) (months : Int) : Date :=
  let total := 12 * d.year + (d.month - 1) + months
  let year := total / 12
  let month := total % 12 + 1
  ⟨year, month, min d.day (monthLength year month)⟩

/-- The day of the year, counted from one. -/
def ordinal (d : Date) : Int := daysBeforeMonth d.year d.month + d.day

def daysFromSunday (days : Int) : Int := (days + 4) % 7

/-- The number of ISO weeks of a year: 53 if the year starts on a Thursday, or is a leap year that
starts on a Wednesday. -/
def isoWeeks (year : Int) : Int :=
  let start := daysFromSunday (daysBeforeYear year - epoch)
  if start = 4 ∨ (start = 3 ∧ isLeap year) then 53 else 52

/-- The ISO year and week of a date. Weeks start on Monday, and the first week of a year is the one
with its first Thursday. -/
def isoWeek (d : Date) : Int × Int :=
  let weekday := (daysFromSunday d.toDays + 6) % 7 + 1
  let week := (d.ordinal - weekday + 10) / 7
  if week < 1 then (d.year - 1, isoWeeks (d.year - 1))
  else if week > isoWeeks d.year then (d.year + 1, 1)
  else (d.year, week)

def dayNames : List String :=
  ["Sunday", "Monday", "Tuesday", "Wednesday", "Thursday", "Friday", "Saturday"]

def monthNames : List String :=
  ["January", "February", "March", "April", "May", "June", "July", "August", "September",
   "October", "November", "December"]

def dayName (d : Date) : String := dayNames.getD (daysFromSunday d.toDays).toNat ""

def monthName (d : Date) : String := monthNames.getD (d.month - 1).toNat ""

/-- The numeral of a year: four digits, with a sign outside the years 0 to 9999. -/
def yearText (year : Int) : String :=
  if year < 0 then "-" ++ Numeral.padded 4 year.natAbs
  else if year > 9999 then "+" ++ Numeral.padded 4 year.natAbs
  else Numeral.padded 4 year.natAbs

def text (d : Date) : String :=
  yearText d.year ++ "-" ++ Numeral.padded 2 d.month.toNat ++ "-" ++ Numeral.padded 2 d.day.toNat

end Date

end SqlCode
