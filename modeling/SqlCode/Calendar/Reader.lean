import SqlCode.Calendar.Date
import SqlCode.Text.CharClass
import SqlCode.TimeUnit

/-!
# Reading dates and times

Numbers may have fewer digits than their width and blanks before them, a year may have a sign and
then any number of digits, and seconds may have a fraction. A second 60 is a leap second: it counts as
second 59 and one more second.
-/

namespace SqlCode

namespace Calendar

/-- Up to `width` digits after blanks. -/
def number? (width : Nat) (cs : List Char) : Option (Nat × List Char) :=
  let cs := Blank.trimLeft cs
  let digits := (cs.take width).takeWhile Char.isDigit
  (Numeral.nat? digits).map fun n => (n, cs.drop digits.length)

/-- The greatest absolute value of a signed year. -/
def yearLimit : Nat := 2147483647

/-- A year: up to four digits, or a sign and any number of digits. -/
def year? (cs : List Char) : Option (Int × List Char) :=
  let signed (sign : Int) (cs : List Char) : Option (Int × List Char) := do
    let digits := cs.takeWhile Char.isDigit
    let n ← Numeral.nat? digits
    if n ≤ yearLimit then some (sign * n, cs.drop digits.length) else none
  match Blank.trimLeft cs with
  | '-' :: cs => signed (-1) cs
  | '+' :: cs => signed 1 cs
  | cs => (number? 4 cs).map fun r => ((r.1 : Int), r.2)

def mark? (c : Char) : List Char → Option (List Char)
  | d :: cs => if c = d then some cs else none
  | [] => none

/-- A date, year first. -/
def date? (cs : List Char) : Option (Date × List Char) := do
  let (year, cs) ← year? cs
  let (month, cs) ← number? 2 (← mark? '-' cs)
  let (day, cs) ← number? 2 (← mark? '-' cs)
  let d : Date := ⟨year, month, day⟩
  if d.isValid then some (d, cs) else none

/-- A fraction of a second in milliseconds, cut off; at least one digit follows the point. -/
def fraction? : List Char → Option (Nat × List Char)
  | '.' :: cs =>
    let digits := cs.takeWhile Char.isDigit
    match digits with
    | [] => none
    | _ =>
      (Numeral.nat? ((digits ++ ['0', '0']).take 3)).map fun n => (n, cs.drop digits.length)
  | cs => some (0, cs)

/-- Hours and minutes, in milliseconds. -/
def hourMinute? (cs : List Char) : Option (Int × List Char) := do
  let (hour, cs) ← number? 2 cs
  let (minute, cs) ← number? 2 (← mark? ':' cs)
  if hour < 24 ∧ minute < 60 then
    some (hour * millisPerHour + minute * millisPerMinute, cs)
  else none

/-- A time of day with seconds, in milliseconds. -/
def time? (cs : List Char) : Option (Int × List Char) := do
  let (minutes, cs) ← hourMinute? cs
  let (second, cs) ← number? 2 (← mark? ':' cs)
  let (fraction, cs) ← fraction? cs
  if second ≤ 60 then some (minutes + second * millisPerSecond + fraction, cs) else none

/-- The result of reading, if all of the text was read. -/
def complete? {α : Type} (r : Option (α × List Char)) : Option α :=
  match r with
  | some (a, []) => some a
  | _ => none

def parseDate? (cs : List Char) : Option Int := (complete? (date? cs)).map Date.toDays

/-- The milliseconds of a time of day, with or without seconds. -/
def parseTime? (cs : List Char) : Option Int := complete? (time? cs) <|> complete? (hourMinute? cs)

/-- A date and a time of day, in milliseconds from 1970-01-01. -/
def dateTime? (separator : List Char → Option (List Char)) (cs : List Char) : Option Int := do
  let (date, cs) ← date? cs
  let time ← complete? (time? (← separator cs))
  some (date.toDays * millisPerDay + time)

/-- The milliseconds of a timestamp: a date and a time divided by blanks or by `T`, or a date
alone. -/
def parseTimestamp? (cs : List Char) : Option Int :=
  dateTime? (fun cs => some (Blank.trimLeft cs)) cs <|> dateTime? (mark? 'T') cs <|>
    (parseDate? cs).map (· * millisPerDay)

/-- The text of a time of day, to the second. -/
def timeText (millis : Int) : String :=
  let two (n : Int) : String := Numeral.padded 2 n.toNat
  two (millis / millisPerHour) ++ ":" ++ two (millis / millisPerMinute % 60) ++ ":" ++
    two (millis / millisPerSecond % 60)

end Calendar

end SqlCode
