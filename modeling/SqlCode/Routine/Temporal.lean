import SqlCode.Calendar.Date
import SqlCode.Routine.Basic

/-!
# Date and time routines

Dates are day numbers from 1970-01-01, times of day and timestamps are milliseconds. Calendar units
are read off the date, and everything below a day is arithmetic on milliseconds.
-/

namespace SqlCode

namespace Temporal

def dateOf (days : Int) : Except Fault Date :=
  match Date.ofDays? days with
  | some d => .ok d
  | none => .error (.overflow ("date " ++ days.repr))

/-- A field of a date. Dow counts from Sunday, and centuries and millennia count from one in both
directions. -/
def extract? (unit : TimeUnit) (d : Date) : Option Int :=
  let sunday := Date.daysFromSunday d.toDays
  let counted (size : Int) : Int :=
    if 0 < d.year then (d.year + (size - 1)).tdiv size else (d.year - (size - 1)).tdiv size
  match unit with
  | .year => some d.year
  | .month => some d.month
  | .day => some d.day
  | .quarter => some ((d.month - 1) / 3 + 1)
  | .dow => some (sunday + 1)
  | .isoDow => some ((sunday + 6) % 7 + 1)
  | .doy => some d.ordinal
  | .week => some d.isoWeek.2
  | .isoYear => some d.isoWeek.1
  | .decade => some (d.year / 10)
  | .century => some (counted 100)
  | .millennium => some (counted 1000)
  | _ => none

def shiftMonths (d : Date) (months : Int) : Except Fault Date :=
  let shifted := d.addMonths months
  if shifted.inRange then .ok shifted
  else .error (.overflow (d.text ++ " plus " ++ months.repr ++ " months"))

/-- The first day of the period that starts with a month and has the given number of months, and
the first day of the period after it. -/
def monthPeriod (year month months : Int) : Except Fault (Int × Int) := do
  let start : Date := ⟨year, month, 1⟩
  let next ← shiftMonths start months
  .ok (start.toDays, next.toDays)

/-- The period of a unit around a day: its first day and that of the next period. -/
def period (unit : TimeUnit) (days : Int) : Except Fault (Int × Int) := do
  let d ← dateOf days
  match unit with
  | .day => .ok (days, days + 1)
  | .week =>
    let start := days - Date.daysFromSunday days
    .ok (start, start + 7)
  | .month => monthPeriod d.year d.month 1
  | .quarter => monthPeriod d.year ((d.month - 1) / 3 * 3 + 1) 3
  | .year => monthPeriod d.year 1 12
  | unit =>
    .error (.invalidArgument "unixDateFloor" ("cannot round a date to " ++ unit.label))

/-- A day rounded down or up to the start of a period. -/
def roundDate (unit : TimeUnit) (days : Int) (down : Bool) : Except Fault Int := do
  let (start, next) ← period unit days
  .ok (if down || start == days then start else next)

/-- A timestamp rounded down or up to the start of a period: a part of a day rounds up past its own
midnight. -/
def roundTimestamp (unit : TimeUnit) (millis : Int) (down : Bool) : Except Fault Int := do
  let days := millis / millisPerDay
  let rounded ← roundDate unit days down
  let inside := millis % millisPerDay ≠ 0
  .ok ((if !down && inside && rounded == days then days + 1 else rounded) * millisPerDay)

def addMonths (days months : Int) : Except Fault Int := do
  let d ← dateOf days
  let shifted ← shiftMonths d months
  .ok shifted.toDays

/-- The greatest number of months, at most `months`, after which a date is not past a time. -/
def settleMonths (d : Date) (time limit : Int) : Nat → Except Fault Nat
  | 0 => .ok 0
  | months + 1 => do
    let shifted ← shiftMonths d (months + 1)
    if shifted.toDays * millisPerDay + time > limit then settleMonths d time limit months
    else .ok (months + 1)

/-- The whole months from `earlier` to `later`, in milliseconds, where `later` is not before
`earlier`. -/
def monthsBetween (later earlier : Int) : Except Fault Int := do
  let d0 ← dateOf (later / millisPerDay)
  let d1 ← dateOf (earlier / millisPerDay)
  let months := (d0.year - d1.year) * 12 + d0.month - d1.month
  (settleMonths d1 (earlier % millisPerDay) later months.toNat).map Int.ofNat

/-- The whole months from the second time to the first. -/
def subtractMonths (t0 t1 : Int) : Except Fault Int :=
  if t0 < t1 then (monthsBetween t1 t0).map (-·) else monthsBetween t0 t1

def lastDay (days : Int) : Except Fault Int := do
  let d ← dateOf days
  let next ← shiftMonths ⟨d.year, d.month, 1⟩ 1
  .ok (next.toDays - 1)

end Temporal

namespace Routine

def unitArg (routine : String) (args : List Value) : Except Fault TimeUnit := do
  match ← Args.value routine args 0 with
  | .symbol (.timeUnit span) => .ok span.start
  | v => .error (.expected routine "a time unit" v)

def wordResult (n : Int) : Value := .int (Word.wrap n)

def dateExtract : Routine := fun args => do
  let unit ← unitArg "unixDateExtract" args
  let days ← Args.word "unixDateExtract" args 1
  let d ← Temporal.dateOf days.toInt
  match Temporal.extract? unit d with
  | some n => .ok (wordResult n)
  | none =>
    .error (.invalidArgument "unixDateExtract" (unit.label ++ " is not a date field"))

def roundUnit (routine : String) (round : TimeUnit → Int → Except Fault Int) : Routine :=
  fun args => do
    let unit ← unitArg routine args
    let n ← Args.word routine args 1
    (round unit n.toInt).map wordResult

def ofWord (routine : String) (f : Int → Except Fault Int) : Routine := fun args => do
  let n ← Args.word routine args 0
  (f n.toInt).map wordResult

def ofTwoWords (routine : String) (f : Int → Int → Except Fault Int) : Routine := fun args => do
  let a ← Args.word routine args 0
  let b ← Args.word routine args 1
  (f a.toInt b.toInt).map wordResult

/-- Months added to a timestamp; the time of day stays. -/
def addMonthsToTimestamp (millis months : Int) : Except Fault Int := do
  let days ← Temporal.addMonths (millis / millisPerDay) months
  .ok (days * millisPerDay + millis % millisPerDay)

def dateName (routine : String) (toDays : Int → Int) (name : Date → String) : Routine :=
  fun args => do
    let n ← Args.word routine args 0
    let d ← Temporal.dateOf (toDays n.toInt)
    .ok (.str (name d))

/-- The product with a scale, which must fit a word. -/
def scaleUp (routine : String) (scale n : Int) : Except Fault Int :=
  (checked routine (n * scale)).map Int64.toInt

/-- A local time: the time with the zone's offset added. -/
def localTime : Routine := fun args => do
  let routine := "timestampWithLocalTimeZoneToTimestamp"
  let t ← Args.word routine args 0
  let offset ← Args.word routine args 1
  (checked routine (t.toInt + offset.toInt)).map .int

def temporals : List (String × Routine) :=
  [("unixDateExtract", dateExtract),
   ("unixDateFloor", roundUnit "unixDateFloor" fun u n => Temporal.roundDate u n true),
   ("unixDateCeil", roundUnit "unixDateCeil" fun u n => Temporal.roundDate u n false),
   ("unixTimestampFloor",
    roundUnit "unixTimestampFloor" fun u n => Temporal.roundTimestamp u n true),
   ("unixTimestampCeil",
    roundUnit "unixTimestampCeil" fun u n => Temporal.roundTimestamp u n false),
   ("addMonths", ofTwoWords "addMonths" addMonthsToTimestamp),
   ("addMonthsInt", ofTwoWords "addMonthsInt" Temporal.addMonths),
   ("subtractMonths", ofTwoWords "subtractMonths" fun d0 d1 =>
     Temporal.subtractMonths (Word.wrap (d0 * millisPerDay)).toInt (Word.wrap (d1 * millisPerDay)).toInt),
   ("subtractMonthsTimestamp", ofTwoWords "subtractMonthsTimestamp" Temporal.subtractMonths),
   ("lastDay", ofWord "lastDay" Temporal.lastDay),
   ("lastDayTimestamp",
    ofWord "lastDayTimestamp" fun n => Temporal.lastDay (n / millisPerDay)),
   ("dayNameWithDate", dateName "dayNameWithDate" id Date.dayName),
   ("dayNameWithTimestamp", dateName "dayNameWithTimestamp" (· / millisPerDay) Date.dayName),
   ("monthNameWithDate", dateName "monthNameWithDate" id Date.monthName),
   ("monthNameWithTimestamp", dateName "monthNameWithTimestamp" (· / millisPerDay) Date.monthName),
   ("timestampSeconds", ofWord "timestampSeconds" (scaleUp "timestampSeconds" millisPerSecond)),
   ("timestampMillis", ofWord "timestampMillis" .ok),
   ("timestampMicros", ofWord "timestampMicros" fun n => .ok (n / 1000)),
   ("unixSeconds", ofWord "unixSeconds" fun n => .ok (n / millisPerSecond)),
   ("unixMillis", ofWord "unixMillis" .ok),
   ("unixMicros", ofWord "unixMicros" (scaleUp "unixMicros" 1000)),
   ("dateFromUnixDate", ofWord "dateFromUnixDate" .ok),
   ("unixDate", ofWord "unixDate" .ok),
   ("timestampWithLocalTimeZoneToTimestamp", localTime)]

end Routine

end SqlCode
