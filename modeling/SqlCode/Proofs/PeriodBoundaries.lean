import SqlCode.Proofs.NumberCalls
import SqlCode.Proofs.Periods

/-!
# Period boundaries

FLOOR and CEIL round dates, times and timestamps to the start of a period. Parts of a day are rounded to a multiple
of their milliseconds. For calendar units, timestamps are first rounded to a midnight in that way, and then a routine
rounds the day.
-/

namespace SqlCode

/-! ### Multiples -/

theorem Routine.toMultiple_int (routine : String) (down : Bool) (x : Int64) {size : Int64} (h : 0 < size.toInt) :
    toMultiple routine down (.int x) (.int size) =
      .ok (.int (Int64.ofInt (size.toInt * Periods.quotient down x.toInt size.toInt))) := by
  have hrest : (Int64.ofInt (x.toInt % size.toInt)).toInt = x.toInt % size.toInt := by
    have := Int.emod_lt_of_pos x.toInt h
    have := Int.emod_nonneg x.toInt h.ne'
    have := Int64.toInt_lt size
    exact Word.toInt_ofInt (by rw [Word.fits_iff]; omega)
  have hzero : Int64.ofInt (x.toInt % size.toInt) = 0 ↔ x.toInt % size.toInt = 0 := by
    rw [← Int64.toInt_inj, hrest]
    rfl
  show (floorMod x size >>= fun rest => Except.ok (Value.int (Word.wrap
    (if down ∨ rest = 0 then x.toInt - rest.toInt else x.toInt - rest.toInt + size.toInt)))) = _
  rw [floorMod_of_pos x h, Periods.mul_quotient down x.toInt h]
  show Except.ok (Value.int (Word.wrap _)) = _
  simp only [hrest, hzero, Word.wrap]

/-! ### What is rounded -/

/-- Dates and timestamps are rounded to calendar units, timestamps and times of day to clock units. -/
inductive Rounding
  | date (u : CalendarUnit)
  | timestamp (u : CalendarUnit)
  | clock (u : ClockUnit)
  | time (u : ClockUnit)
deriving DecidableEq, Repr

namespace Rounding

open Temporal SqlCode.Expr Run

/-- The type of what is rounded. -/
def type (r : Rounding) (nullable : Bool) : SqlType :=
  match r with
  | .date _ => .plain .date nullable
  | .timestamp _ | .clock _ => .plain .timestamp nullable
  | .time _ => .plain .time nullable

/-- The integers that represent the values of the type. -/
def word : Rounding → IntegerType
  | .date _ | .time _ => .regular
  | .timestamp _ | .clock _ => .big

theorem rep_type (r : Rounding) (nullable : Bool) : (r.type nullable).rep = (r.word.type nullable).rep := by
  cases r <;> rfl

theorem nullable_type (r : Rounding) (nullable : Bool) : (r.type nullable).nullable = nullable := by
  cases r <;> rfl

/-- The unit as a span. -/
def span : Rounding → TimeSpan
  | .date u | .timestamp u => u.span
  | .clock u | .time u => u.span

/-- The points that values are rounded to: first days of periods, midnights of such days, or multiples of the unit. -/
def Boundary (r : Rounding) (x : ℤ) : Prop :=
  match r with
  | .date u => u.Starts x
  | .timestamp u => millisPerDay ∣ x ∧ u.Starts (x / millisPerDay)
  | .clock u | .time u => u.millis ∣ x

/-- The periods between the boundaries. -/
def periods : Rounding → Periods
  | .date u => u.periods
  | .timestamp u => u.periods.scaled millisPerDay (by decide)
  | .clock u | .time u => u.periods

theorem round_timestamp (u : CalendarUnit) (down : Bool) (x : ℤ) : (timestamp u).periods.round down x =
    millisPerDay * u.periods.round down (Periods.quotient down x millisPerDay) :=
  u.periods.round_scaled down (by decide) x

theorem isStart_periods (r : Rounding) {x : ℤ} : r.periods.IsStart x ↔ r.Boundary x := by
  cases r with
  | date u => exact u.isStart_periods
  | timestamp u => exact (u.periods.isStart_scaled (by decide)).trans (and_congr_right fun _ => u.isStart_periods)
  | clock u | time u => exact u.isStart_periods

/-- Rounding succeeds. To a calendar unit, the day has to be covered, which for a timestamp is the day of the midnight
that it is rounded to first. To a clock unit, the result has to be of the type. -/
def Reaches (r : Rounding) (down : Bool) (x : ℤ) : Prop :=
  match r with
  | .date u => u.Covers x
  | .timestamp u => u.Covers (Periods.quotient down x millisPerDay)
  | .clock u => IntegerType.big.Holds (u.periods.round down x)
  | .time u => IntegerType.regular.Holds (u.periods.round down x)

instance (r : Rounding) (down : Bool) (x : ℤ) : Decidable (r.Reaches down x) :=
  match r with
  | .date u | .timestamp u => inferInstanceAs (Decidable (u.Covers _))
  | .clock _ | .time _ => inferInstanceAs (Decidable (IntegerType.Holds _ _))

/-- What rounding a value yields. -/
def outcome (r : Rounding) (down : Bool) (x : Int64) : Except Fault Value :=
  match r with
  | .date u => (roundDate u.span.start x.toInt down).map Routine.wordResult
  | .timestamp u =>
    let midnight := Int64.ofInt (millisPerDay * Periods.quotient down x.toInt millisPerDay)
    (roundTimestamp u.span.start midnight.toInt down).map Routine.wordResult
  | .clock u | .time u => .ok (.int (Int64.ofInt (u.periods.round down x.toInt)))

variable {r : Rounding} {down : Bool} {x : Int64}

theorem holds_of_reaches (h : r.Reaches down x.toInt) : r.word.Holds (r.periods.round down x.toInt) := by
  cases r with
  | date u =>
    have hbounds := u.round_bounds down h.1
    show -2 ^ 31 ≤ u.periods.round down x.toInt ∧ u.periods.round down x.toInt < 2 ^ 31
    omega
  | timestamp u =>
    have hbounds := u.round_bounds down h.1
    rw [round_timestamp]
    show -2 ^ 63 ≤ millisPerDay * _ ∧ millisPerDay * _ < 2 ^ 63
    unfold millisPerDay at *
    omega
  | clock | time => exact h

theorem outcome_of_reaches (h : r.Reaches down x.toInt) :
    r.outcome down x = .ok (.int (Int64.ofInt (r.periods.round down x.toInt))) := by
  cases r with
  | date u =>
    show (roundDate _ _ _).map _ = _
    rw [roundDate_of_covers down h]
    rfl
  | timestamp u =>
    have hfits : Word.Fits (millisPerDay * Periods.quotient down x.toInt millisPerDay) := by
      have hday := Date.inCalendar_ofDays_iff.1 h.1
      simp only [Word.fits_iff, millisPerDay] at *
      omega
    show (roundTimestamp _ (Int64.ofInt _).toInt _).map _ = _
    rw [Word.toInt_ofInt hfits, roundTimestamp_midnight, roundDate_of_covers down h, round_timestamp]
    rfl
  | clock | time => rfl

theorem exists_outcome_overflow {u : CalendarUnit} (hr : r = .date u ∨ r = .timestamp u)
    (h : ¬r.Reaches down x.toInt) : ∃ reason, r.outcome down x = .error (.overflow reason) := by
  rcases hr with rfl | rfl
  · obtain ⟨reason, hfault⟩ := exists_roundDate_overflow down h
    exact ⟨reason, congrArg (Except.map _) hfault⟩
  · obtain ⟨reason, hfault⟩ := exists_roundTimestamp_overflow down (mt (covers_midnight_iff rfl).1 h)
    exact ⟨reason, congrArg (Except.map _) hfault⟩

theorem outcome_ne_unbound (r : Rounding) (down : Bool) (x : Int64) (y : String) :
    r.outcome down x ≠ .error (.unboundVariable y) := by
  have hcalendar : ∀ u : CalendarUnit, r = .date u ∨ r = .timestamp u →
      r.outcome down x ≠ .error (.unboundVariable y) := by
    intro u hr
    by_cases h : r.Reaches down x.toInt
    · rw [outcome_of_reaches h]
      simp
    · obtain ⟨reason, hfault⟩ := exists_outcome_overflow hr h
      rw [hfault]
      simp
  cases r with
  | date u => exact hcalendar u (.inl rfl)
  | timestamp u => exact hcalendar u (.inr rfl)
  | clock | time => simp [outcome]

/-! ### Compiled code -/

/-- The operator that rounds down or up. -/
def operator (down : Bool) : Builtin := if down then .floor else .ceil

/-- The routines that the code calls. -/
def routines : List String :=
  ["floor", "ceil", "unixDateFloor", "unixDateCeil", "unixTimestampFloor", "unixTimestampCeil"]

/-- The code that rounds an expression to a multiple of a unit. -/
def multiple (down : Bool) (w : IntegerType) (u : TimeUnit) (e : Expr) : Expr :=
  CallSite.toUnit (if down then "floor" else "ceil") e (.prim w.prim) u

/-- The code that rounds an expression. -/
def code (r : Rounding) (down : Bool) (e unit : Expr) : Expr :=
  match r with
  | .date _ => .call (if down then "unixDateFloor" else "unixDateCeil") [unit, e] (.prim .i32)
  | .timestamp _ =>
    .call (if down then "unixTimestampFloor" else "unixTimestampCeil") [unit, multiple down .big .day e] (.prim .i64)
  | .clock u => multiple down .big u.span.start e
  | .time u => multiple down .regular u.span.start e

theorem boundary_eq (down : Bool) {site : CallSite} {b : Bool} (hsite : site.type = r.type b) (e : Expr) (rep : Rep) :
    site.boundary down [e, .const (.symbol (.timeUnit r.span)) rep] =
      .ok (r.code down e (.const (.symbol (.timeUnit r.span)) rep)) := by
  unfold CallSite.boundary
  rw [hsite]
  rcases r with u | u | u | u <;> cases u <;> rfl

variable {m : Machine} {e : Expr}

theorem evalsTo_multiple (down : Bool) {w : IntegerType} {u : TimeUnit} (hu : w.Holds u.wholeSize)
    (hpos : 0 < u.wholeSize) (hm : m.Unregistered routines) (he : e.Carries m (.int x)) (hx : w.Holds x.toInt) :
    (multiple down w u e).EvalsTo m
      (.int (Int64.ofInt (u.wholeSize * Periods.quotient down x.toInt u.wholeSize))) := by
  have hsize : (Int64.ofInt u.wholeSize).toInt = u.wholeSize := Word.toInt_ofInt hu.fits
  have hx' : (e.mkConvert (.prim w.prim)).EvalsTo m (.int x) :=
    (he.mkConvert (IntegerType.fits_prim_iff.2 ⟨x, rfl, hx⟩)).evalsTo
  have hunit : (Value.int (Int64.ofInt u.wholeSize)).Fits (.prim w.prim) :=
    IntegerType.fits_prim_iff.2 ⟨_, rfl, by rwa [hsize]⟩
  have hu' : ((Expr.whole u.wholeSize).mkConvert (.prim w.prim)).EvalsTo m (.int (Int64.ofInt u.wholeSize)) :=
    ((carries_const (IntegerType.fits_big _)).mkConvert hunit).evalsTo
  have hroutine := fun routine => Routine.toMultiple_int routine down x (hsize.symm ▸ hpos)
  simp only [hsize] at hroutine
  refine evalsTo_call _ (.cons hx' (.cons hu' .nil)) ?_
  cases down with
  | true =>
    exact (Run.result_call_library (hm "floor" (by decide)) rfl rfl).trans (congrArg (·, m) (hroutine "floor"))
  | false =>
    exact (Run.result_call_library (hm "ceil" (by decide)) rfl rfl).trans (congrArg (·, m) (hroutine "ceil"))

theorem evalsTo_multiple_clock (down : Bool) {w : IntegerType} {u : ClockUnit} (hw : w = .regular ∨ w = .big)
    (hm : m.Unregistered routines) (he : e.Carries m (.int x)) (hx : w.Holds x.toInt) :
    (multiple down w u.span.start e).EvalsTo m (.int (Int64.ofInt (u.periods.round down x.toInt))) := by
  have hmillis : u.span.start.wholeSize = u.millis := by cases u <;> rfl
  have hholds : w.Holds u.span.start.wholeSize := by
    rcases hw with rfl | rfl <;> cases u <;> decide
  rw [ClockUnit.periods, Periods.round_scaled, Periods.round_points, ← hmillis]
  exact evalsTo_multiple down hholds (by rw [hmillis]; exact u.millis_pos) hm he hx

theorem result_code (down : Bool) (hm : m.Unregistered routines) (he : e.Carries m (.int x))
    (hx : r.word.Holds x.toInt) {unit : Expr} (hunit : unit.EvalsTo m (.symbol (.timeUnit r.span))) :
    (r.code down e unit).eval.result m = (r.outcome down x, m) := by
  cases r with
  | date u =>
    show (Expr.call _ _ _).eval.result m = _
    rw [result_call, result_evalAll (.cons hunit (.cons he.evalsTo .nil)), andThen_ok]
    cases down with
    | true => exact Run.result_call_library (hm "unixDateFloor" (by decide)) rfl rfl
    | false => exact Run.result_call_library (hm "unixDateCeil" (by decide)) rfl rfl
  | timestamp u =>
    have hday := evalsTo_multiple down (w := .big) (u := .day) (by decide) (by decide) hm he hx
    show (Expr.call _ [unit, multiple down .big .day e] _).eval.result m = _
    rw [result_call, result_evalAll (.cons hunit (.cons hday .nil)), andThen_ok]
    cases down with
    | true => exact Run.result_call_library (hm "unixTimestampFloor" (by decide)) rfl rfl
    | false => exact Run.result_call_library (hm "unixTimestampCeil" (by decide)) rfl rfl
  | clock u => exact evalsTo_multiple_clock down (.inr rfl) hm he hx
  | time u => exact evalsTo_multiple_clock down (.inl rfl) hm he hx

theorem isStrict_operator (down : Bool) : (operator down).IsStrict := by
  cases down <;> exact ⟨⟨rfl, rfl, by decide⟩, fun _ _ => rfl, rfl⟩

theorem codes (r : Rounding) (down b : Bool) :
    (operator down).Codes (.after r.span) (r.type b).name r.word (r.type b) (·.Unregistered routines)
      (fun _ k => ∀ v, r.outcome down (Int64.ofInt k) = .ok v → v.Fits (r.type b).rep)
      fun _ k => r.outcome down (Int64.ofInt k) := by
  intro site e n _ hsite _ _
  refine ⟨r.code down e (.const (.symbol (.timeUnit r.span)) .symbol), ?_,
    fun a q => by cases r <;> simp [code, multiple, CallSite.toUnit], fun {m k} hm _ he => ?_⟩
  · have hboundary := boundary_eq down hsite e .symbol
    cases down with
    | true | false => exact congrArg Emit.lift hboundary
  · exact result_code down hm he.carries (by rw [he.toInt]; exact he.holds) rfl

end Rounding

namespace Term

open Rounding SqlCode.Expr

/-- FLOOR and CEIL of dates, timestamps and times compile. A value is rounded to the greatest boundary that is not
above it or to the least one that is not below it, so that rounding is idempotent and monotone and leaves just the
boundaries as they are. Null stays null. Rounding to a calendar unit overflows if the day is no date, or if the next
year, quarter or month starts after the last date. -/
theorem program_run_boundary (settings : Settings) (defs : List Term) {fields : List (String × SqlType)}
    (r : Rounding) {n b : Bool} {i : Nat} {name : String} (hi : fields[i]? = some (name, r.type n))
    (hb : n = true → b = true) :
    (∀ x, IsGreatest {y | r.Boundary y ∧ y ≤ x} (r.periods.floor x) ∧
      IsLeast {y | r.Boundary y ∧ x ≤ y} (r.periods.ceil x) ∧
      r.periods.floor (r.periods.floor x) = r.periods.floor x ∧
      r.periods.ceil (r.periods.ceil x) = r.periods.ceil x ∧ r.periods.floor x ≤ x ∧ x ≤ r.periods.ceil x ∧
      (r.periods.floor x = x ↔ r.Boundary x) ∧ (r.periods.ceil x = x ↔ r.Boundary x)) ∧
    Monotone r.periods.floor ∧ Monotone r.periods.ceil ∧
    ∀ down : Bool, ∃ p, (Term.call (.builtin (if down then .floor else .ceil)) (r.type b)
        [.input i (r.type n), .symbol (.timeUnit r.span)]).program settings defs fields = .ok p ∧
      ∀ (row : List Value) (m : Machine), IsRow fields row → m.Unregistered routines →
        (row[i]? = some .null → ((p.run row).result m).1 = .ok .null) ∧
        ∀ x : Int64, row[i]? = some (.int x) →
          (r.Reaches down x.toInt → ∃ y : Int64, ((p.run row).result m).1 = .ok (.int y) ∧
            y.toInt = if down then r.periods.floor x.toInt else r.periods.ceil x.toInt) ∧
          ∀ u, r = .date u ∨ r = .timestamp u → ¬r.Reaches down x.toInt →
            ∃ reason, ((p.run row).result m).1 = .error (.overflow reason) := by
  have hset : ∀ x, r.periods.IsStart x ↔ r.Boundary x := fun x => r.isStart_periods
  refine ⟨fun x => ?_, r.periods.monotone_floor, r.periods.monotone_ceil, fun down => ?_⟩
  · simp only [← hset]
    exact ⟨r.periods.isGreatest_floor x, r.periods.isLeast_ceil x, r.periods.floor_floor x, r.periods.ceil_ceil x,
      r.periods.floor_le x, r.periods.le_ceil x, r.periods.floor_eq_self_iff, r.periods.ceil_eq_self_iff⟩
  · have hplain : (defaultOf (r.type b).rep).Plain := by
      rw [rep_type]
      exact r.word.plain_defaultOf b
    have htype : ∀ n, SqlType.plain (r.type b).name n = r.type n := by
      cases r <;> exact fun _ => rfl
    rw [← htype n] at hi ⊢
    obtain ⟨p, hp, hrun⟩ := (r.codes down b).program_run (isStrict_operator down)
      (fun n => by rw [htype, rep_type]) (fun _ k hgood => ⟨hgood, r.outcome_ne_unbound down _⟩) hplain
      (by rwa [nullable_type]) (Machine.lasting_unregistered _) settings defs hi
    simp only [Int64.ofInt_toInt] at hrun
    refine ⟨p, hp, fun row m hrow hm => ⟨(hrun hrow hm).1, fun x hx => ⟨fun hreach => ?_, fun u hr hreach => ?_⟩⟩⟩
    · have hfits := holds_of_reaches hreach
      have hword : (Int64.ofInt (r.periods.round down x.toInt)).toInt = r.periods.round down x.toInt :=
        Word.toInt_ofInt hfits.fits
      refine ⟨_, ((hrun hrow hm).2 hx fun v hv => ?_).trans (outcome_of_reaches hreach), hword⟩
      cases (outcome_of_reaches hreach).symm.trans hv
      rw [rep_type]
      exact IntegerType.fits_type hfits.fits_prim b
    · obtain ⟨reason, hfault⟩ := exists_outcome_overflow hr hreach
      refine ⟨reason, ((hrun hrow hm).2 hx fun v hv => ?_).trans hfault⟩
      exact absurd (hfault.symm.trans hv) (by simp)

/-- The day before 1970-01-01 is rounded to the start of 1969 and to that of 1970. The last date, 262142-12-31, is not
rounded down to the start of its year, as there is no next one; nor is the last millisecond of 262141 rounded up to the
start of the next year. -/
theorem program_run_boundary_last_year :
    let days := [("d", SqlType.plain .date true)]
    let instants := [("t", SqlType.plain .timestamp false)]
    ∃ p q, (Term.call (.builtin .floor) (.plain .date true)
        [.input 0 (.plain .date true), .symbol (.timeUnit .year)]).program {} [] days = .ok p ∧
      (Term.call (.builtin .ceil) (.plain .timestamp false)
        [.input 0 (.plain .timestamp false), .symbol (.timeUnit .year)]).program {} [] instants = .ok q ∧
      ((p.run [.int (-1)]).result {}).1 = .ok (.int (-365)) ∧
      ((p.run [.null]).result {}).1 = .ok .null ∧
      (∃ reason, ((p.run [.int 95026236]).result {}).1 = .error (.overflow reason)) ∧
      IsGreatest {y | Rounding.Boundary (.date .year) y ∧ y ≤ 95026236} 95025872 ∧
      ((q.run [.int (-1)]).result {}).1 = .ok (.int 0) ∧
      ((q.run [.int 0]).result {}).1 = .ok (.int 0) ∧
      (∃ reason, ((q.run [.int 8210235340799999]).result {}).1 = .error (.overflow reason)) ∧
      IsLeast {y | Rounding.Boundary (.timestamp .year) y ∧ 8210235340799999 ≤ y} 8210235340800000 := by
  intro days instants
  have hd : days[0]? = some ("d", (Rounding.date .year).type true) := rfl
  have ht : instants[0]? = some ("t", (Rounding.timestamp .year).type false) := rfl
  have hlibrary : ({} : Machine).Unregistered routines := fun g _ => rfl
  have hday : ∀ x : Int64, (Value.int x).Fits (.boxed .i32) → IsRow days [.int x] :=
    fun x hx => .cons ⟨hx, fun h => by cases h⟩ .nil
  have hinstant : ∀ x : Int64, IsRow instants [.int x] :=
    fun x => .cons ⟨IntegerType.fits_big x, fun h => by cases h⟩ .nil
  obtain ⟨hdates, -, -, hdown⟩ := program_run_boundary {} [] (.date .year) (b := true) hd fun _ => rfl
  obtain ⟨hinstants, -, -, hup⟩ := program_run_boundary {} [] (.timestamp .year) (b := false) ht fun h => h
  obtain ⟨p, hp, hfloor⟩ := hdown true
  obtain ⟨q, hq, hceil⟩ := hup false
  have heve := (hfloor _ {} (hday (-1) rfl) hlibrary).2 _ rfl
  obtain ⟨y, hy, hy'⟩ := heve.1 (by decide)
  obtain rfl : y = -365 := Int64.toInt_inj.1 (hy'.trans (by decide))
  obtain ⟨z, hz, hz'⟩ := ((hceil _ {} (hinstant (-1)) hlibrary).2 _ rfl).1 (by decide)
  obtain rfl : z = 0 := Int64.toInt_inj.1 (hz'.trans (by decide))
  obtain ⟨w, hw, hw'⟩ := ((hceil _ {} (hinstant 0) hlibrary).2 _ rfl).1 (by decide)
  obtain rfl : w = 0 := Int64.toInt_inj.1 (hw'.trans (by decide))
  refine ⟨p, q, hp, hq, hy, ?_, ?_, ?_, hz, hw, ?_, ?_⟩
  · exact (hfloor [.null] {} (.cons ⟨rfl, fun _ => rfl⟩ .nil) hlibrary).1 rfl
  · exact ((hfloor _ {} (hday 95026236 rfl) hlibrary).2 _ rfl).2 _ (.inl rfl) (by decide)
  · exact (by decide : (Rounding.date .year).periods.floor 95026236 = 95025872) ▸ (hdates 95026236).1
  · exact ((hceil _ {} (hinstant 8210235340799999) hlibrary).2 _ rfl).2 _ (.inr rfl) (by decide)
  · exact (by decide : (Rounding.timestamp .year).periods.ceil 8210235340799999 = 8210235340800000) ▸
      (hinstants 8210235340799999).2.1

end Term

end SqlCode
