import SqlCode.Compile.Emit

/-!
# Dates, times, timestamps and intervals

Dates are day numbers, times are milliseconds of the day, timestamps are milliseconds since the epoch;
year-month intervals are months and day-time intervals are milliseconds.
-/

namespace SqlCode

namespace Expr

/-- A 64-bit constant. -/
def whole (n : Int) : Expr := .long (Word.wrap n)

def toLong (e : Expr) : Expr := e.mkConvert (.prim .i64)

def toInt (e : Expr) : Expr := e.mkConvert (.prim .i32)

def floorDiv (e : Expr) (divisor : Int) : Expr :=
  .call "floorDiv" [e.toLong, .whole divisor] (.prim .i64)

/-- The remainder that is never negative; by one, the value itself. -/
def floorMod (e : Expr) (factor : Int) : Expr :=
  if factor = 1 then e else .call "floorMod" [e.toLong, .whole factor] (.prim .i64)

/-- A timestamp with local time zone as the timestamp that its clock shows. -/
def toLocalTimestamp (e : Expr) : Expr :=
  .call "timestampWithLocalTimeZoneToTimestamp" [e, .call "timeZone" [.root] .object] (.prim .i64)

/-- The span of units that a constant names. -/
def timeSpan (e : Expr) (operator : String) : Except CompileError TimeSpan :=
  match e.symbol? with
  | some (.timeUnit s) => .ok s
  | _ => .error (.invalidCall operator "expected a time unit literal")

end Expr

/-- The unit is taken from the day number, not from the clock. -/
def TimeUnit.isCalendar : TimeUnit → Bool
  | .millennium | .century | .year | .quarter | .month | .day | .dow | .decade | .doy | .isoDow
  | .isoYear | .week => true
  | _ => false

/-- The size of the next larger unit, which the value is first reduced by; one for units that have none. -/
def TimeUnit.factor (u : TimeUnit) : Except CompileError Int :=
  match u with
  | .day => .ok 1
  | .hour => .ok millisPerDay
  | .minute => .ok millisPerHour
  | .second => .ok millisPerMinute
  | .millisecond => .ok millisPerSecond
  | .month | .quarter => .ok monthsPerYear
  | .year | .decade | .century | .millennium => .ok 1
  | u => .error (.unsupported ("no factor for " ++ u.label))

namespace CallSite

def pair (site : CallSite) (args : List Expr) : Except CompileError (Expr × Expr) :=
  match args with
  | [a, b] => .ok (a, b)
  | args => site.invalid ("expected 2 operands, got " ++ toString args.length)

/-! ### Parts -/

/-- The part of a clock value or an interval: reduced by the next larger unit, then counted in the unit.
Quarters count from one. -/
def isolate (u : TimeUnit) (e : Expr) : Except CompileError Expr := do
  let e := e.floorMod (← u.factor)
  if u = .quarter then
    let e := Expr.mkBinary .subtract e (.long 1)
    let e := Expr.mkBinary .divide e (.whole u.wholeSize)
    return .mkBinary .add e (.long 1)
  else return .mkBinary .divide e (.whole u.wholeSize)

/-- The part of a date or timestamp that its day number determines. -/
def calendarPart (u : TimeUnit) (type : TypeName) (unit e : Expr) : Except CompileError Expr :=
  let ofDays (days : Expr) : Expr := .call "unixDateExtract" [unit, days] (.prim .i64)
  if type.isInterval then isolate u e
  else
    match type with
    | .timestampWithLocalTimeZone => .ok (ofDays (e.toLocalTimestamp.floorDiv millisPerDay))
    | .timestamp => .ok (ofDays (e.floorDiv millisPerDay))
    | .date => .ok (ofDays e)
    | type => unsupported ("EXTRACT " ++ u.label ++ " from " ++ type.label)

/-- The seconds since the epoch. -/
def epochPart (type : TypeName) (e : Expr) : Except CompileError Expr :=
  let seconds (millis : Expr) : Expr := .mkBinary .divide millis (.whole millisPerSecond)
  match type with
  | .date => .ok (seconds (.mkBinary .multiply e.toLong (.whole millisPerDay)))
  | .timestamp => .ok (seconds e.toLong)
  | .timestampWithLocalTimeZone => .ok (seconds e.toLocalTimestamp)
  | type => unsupported ("EXTRACT EPOCH from " ++ type.label)

/-- EXTRACT: a part of a date, time, timestamp or interval. -/
def extract (site : CallSite) (args : List Expr) : Except CompileError Expr := do
  let (unit, e) ← site.pair args
  let u := (← unit.timeSpan "EXTRACT").start
  match site.operands[1]? with
  | none => .error (.invalidCall "EXTRACT" "missing operand")
  | some operand =>
    let type := operand.type.name
    if u.isCalendar then calendarPart u type unit e
    else
      match u with
      | .millisecond | .microsecond | .nanosecond =>
        if type = .date then return .long 0
        else return .mkBinary .multiply (e.floorMod millisPerMinute) (.whole u.perMillisecond)
      | .epoch => epochPart type e
      | u => if type = .date then return .long 0 else isolate u e

/-! ### Boundaries -/

/-- FLOOR or CEIL to a multiple of a unit. -/
def toUnit (routine : String) (e : Expr) (r : Rep) (u : TimeUnit) : Expr :=
  .call routine [e.mkConvert r, (Expr.whole u.wholeSize).mkConvert r] r

/-- FLOOR or CEIL: of a number, or of a date, time or timestamp to a unit. -/
def boundary (site : CallSite) (isFloor : Bool) (args : List Expr) : Except CompileError Expr :=
  let routine := if isFloor then "floor" else "ceil"
  match args with
  | [e] => if site.type.name.isExactInteger then .ok e else .ok (.call routine args site.rep)
  | [e, unit] => do
    let isTimestamp := site.type.name == .timestamp || site.type.name == .timestampWithLocalTimeZone
    let e := if site.type.name = .timestampWithLocalTimeZone then e.toLocalTimestamp else e
    let span ← unit.timeSpan routine
    let r : Rep := if isTimestamp then .prim .i64 else .prim .i32
    match span with
    | .year | .quarter | .month | .week | .day =>
      if isTimestamp then
        let name := if isFloor then "unixTimestampFloor" else "unixTimestampCeil"
        return .call name [unit, toUnit routine e r .day] r
      else
        let name := if isFloor then "unixDateFloor" else "unixDateCeil"
        return .call name [unit, e] r
    | span => return toUnit routine e r span.start
  | args => site.invalid ("expected 1 or 2 operands, got " ++ toString args.length)

/-! ### Addition and subtraction -/

/-- Adds or subtracts months. Months do not move a time of day. -/
def addMonths (site : CallSite) (minus : Bool) (type : TypeName) (a b : Expr) : Expr :=
  let b := if minus then Expr.mkUnary .negate b else b
  if site.type.name = .time then a
  else
    match type with
    | .timestamp | .timestampWithLocalTimeZone => .call "addMonths" [a, b] (.prim .i64)
    | _ => .call "addMonthsInt" [a, b] (.prim .i32)

/-- An expression divided by a whole number. -/
def divided (e : Expr) (divider : Int) : Expr :=
  if divider = 1 then e else .mkBinary .divide e (.whole divider)

/-- An expression times a whole number and divided by another, by one operation or none. -/
def multiplyDivide (e : Expr) (multiplier divider : Int) : Expr :=
  if multiplier = 1 then divided e divider
  else if multiplier = divider then e
  else if divider < multiplier then .mkBinary .multiply e (.whole (multiplier.tdiv divider))
  else divided e (divider.tdiv multiplier)

/-- The difference of two points in time, in months or in milliseconds. -/
def difference (site : CallSite) (typeA typeB : TypeName) (a b : Expr) : Expr :=
  if site.type.name.isYearMonthInterval then
    let name := if typeA = .date then "subtractMonths" else "subtractMonthsTimestamp"
    .call name [a, b] (.prim .i32)
  else
    let unit : TimeUnit := if typeB = .date then .day else .millisecond
    multiplyDivide (Expr.mkBinary .subtract a b).toLong unit.wholeSize TimeUnit.millisecond.wholeSize

/-- The operands in a common unit: dates count days, unless the result is a timestamp, and times are
32-bit. -/
def align (site : CallSite) (typeA typeB : TypeName) (a b : Expr) : Expr × Expr :=
  match typeA with
  | .date =>
    if site.type.name = .timestamp then (.mkBinary .multiply a.toLong (.whole millisPerDay), b)
    else if typeB.isDayTimeInterval then
      (a, (Expr.mkBinary .divide b (.whole millisPerDay)).toInt)
    else (a, b)
  | .time => (a, b.toInt)
  | _ => (a, b)

/-- Adds or subtracts a day-time interval; a time of day wraps around. -/
def addInterval (site : CallSite) (minus : Bool) (a b : Expr) : Expr :=
  let sum := Expr.mkBinary (if minus then .subtract else .add) a b
  if site.type.name = .time then (sum.floorMod millisPerDay).toInt else sum

/-- The sum or difference of a point in time and an interval, or the difference of two points. -/
def datetime (site : CallSite) (args : List Expr) : Except CompileError Expr := do
  let (a, b) ← site.pair args
  match site.operands.map (·.type.name) with
  | [typeA, typeB] =>
    let minus := site.op.builtin? == some .minusDate
    let (a, b) := site.align typeA typeB a b
    if typeB.isYearMonthInterval then return site.addMonths minus typeA a b
    else if typeB.isDayTimeInterval then return site.addInterval minus a b
    else if minus then return site.difference typeA typeB a b
    else
      unsupported (site.op.name ++ " of " ++ typeA.label ++ " and " ++ typeB.label)
  | _ => site.invalid "expected 2 operands"

/-! ### Routines on dates and timestamps -/

/-- A call of the routine for the type of the first operand. -/
def temporal (site : CallSite) (dateRoutine timestampRoutine : String) (withLocale : Bool)
    (args : List Expr) : Except CompileError Expr :=
  let args := if withLocale then args ++ [.call "locale" [.root] .string] else args
  match site.operands with
  | [] => site.invalid "expected 1 operand"
  | operand :: _ =>
    match operand.type.name with
    | .timestamp | .timestampWithLocalTimeZone => .ok (.call timestampRoutine args site.rep)
    | .date => .ok (.call dateRoutine args site.rep)
    | type => unsupported (site.op.name ++ " of " ++ type.label)

end CallSite

end SqlCode
