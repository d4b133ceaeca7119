import SqlCode.Proofs.Extraction
import SqlCode.Proofs.MonthArithmetic
import SqlCode.Proofs.PeriodBoundaries

/-!
# Timestamps with local time zone

A timestamp with local time zone counts milliseconds since the epoch, and its clock shows the timestamp that is later
by the offset of the session. Some functions of timestamps go by the clock, and others by the count.
-/

namespace SqlCode

open Run SqlCode.Expr SqlType IntegerType

/-! ### Reading the context -/

namespace Expr

variable {m : Machine} {e : Expr} {w : IntegerType} {n : ℤ}

theorem evalsTo_reader {f : String} (read : Context → Value) (hm : m.routines.get? f = none) (hroot : m.Rooted)
    (hf : ∀ vs, stateful? f vs = some do return read (← get).context) (r : Rep) :
    (Expr.call f [.root] r).EvalsTo m (read m.context) := by
  obtain ⟨v, hv⟩ := hroot
  refine evalsTo_call r (.cons (evalsTo_slot hv) .nil) ?_
  show ((get : Run Machine) >>= _).result m = _
  rw [result_bind, result_get, andThen_ok]
  simp only [hm, hf]
  rfl

theorem Number.toLocalTimestamp (h : e.Number w m n) (hm : m.routines.get? "timeZone" = none)
    (hm' : m.routines.get? "timestampWithLocalTimeZoneToTimestamp" = none) (hroot : m.Rooted)
    (hoffset : Word.Fits m.context.offset) (hfits : Word.Fits (n + m.context.offset)) :
    e.toLocalTimestamp.Number .big m (n + m.context.offset) := by
  have hzone : (Expr.call "timeZone" [.root] .object).EvalsTo m (.int (Int64.ofInt m.context.offset)) :=
    evalsTo_reader (fun c => .int (Word.wrap c.offset)) hm hroot (fun _ => rfl) _
  refine number_of_evalsTo rfl (by simp [Expr.toLocalTimestamp]) hfits
    (evalsTo_call _ (.cons h.carries.evalsTo (.cons hzone .nil)) ?_)
  rw [Run.result_call_library hm' rfl rfl]
  have hsum : Routine.localTime [.int (Int64.ofInt n), .int (Int64.ofInt m.context.offset)] =
      (checked "timestampWithLocalTimeZoneToTimestamp" ((Int64.ofInt n).toInt +
        (Int64.ofInt m.context.offset).toInt)).map .int := rfl
  rw [hsum, h.toInt, Word.toInt_ofInt hoffset, Value.checked_of_fits hfits]
  rfl

end Expr

/-! ### Functions of timestamps -/

/-- The functions of a timestamp. -/
inductive TimestampFunction
  | extract (span : TimeSpan)
  | round (down : Bool) (span : TimeSpan)
  | lastDay
  | dayName
  | monthName
deriving DecidableEq, Repr

namespace TimestampFunction

open Temporal

/-- The operator. -/
def builtin : TimestampFunction → Builtin
  | .extract _ => .extract
  | .round down _ => if down then .floor else .ceil
  | .lastDay => .lastDay
  | .dayName => .dayName
  | .monthName => .monthName

/-- Where the unit stands. -/
def place : TimestampFunction → UnitPlace
  | .extract span => .before span
  | .round _ span => .after span
  | _ => .none

/-- The type of the result, from that of the operand. -/
def type (f : TimestampFunction) (source : TypeName) (nullable : Bool) : SqlType :=
  match f with
  | .extract _ => .plain .bigInt nullable
  | .round _ _ => .plain source nullable
  | .lastDay => .plain .date nullable
  | .dayName | .monthName => .plain .varchar nullable

/-- A call on a column. -/
def call (f : TimestampFunction) (source : TypeName) (i : Nat) (n b : Bool) : Term :=
  .call (.builtin f.builtin) (f.type source b) (f.place.terms (.input i (.plain source n)))

/-- The function goes by the clock of a timestamp with local time zone: rounding does, and so does extraction of
calendar units and of the seconds since the epoch. -/
def isLocal : TimestampFunction → Bool
  | .extract span => span.start.isCalendar || span.start == .epoch
  | .round _ _ => true
  | _ => false

/-! ### Outcomes -/

/-- The calendar unit that timestamps are rounded to by a routine. -/
def calendarUnit? : TimeSpan → Option CalendarUnit
  | .year => some .year
  | .quarter => some .quarter
  | .month => some .month
  | .week => some .week
  | .day => some .day
  | _ => none

/-- How a unit is taken from a timestamp. -/
def extraction (u : TimeUnit) : Extraction := (Extraction.of? .timestamp u).getD .epoch

/-- The routine that rounds to a multiple. -/
def rounder (down : Bool) : String := if down then "floor" else "ceil"

/-- A name of the date of a timestamp. -/
def nameOf (name : Date → String) (n : ℤ) : Except Fault Value :=
  (dateOf (n / millisPerDay)).map fun d => .str (name d)

/-- The timestamp rounded to a unit. -/
def rounded (down : Bool) (span : TimeSpan) (n : ℤ) : Except Fault Value :=
  match calendarUnit? span with
  | some u => (Rounding.timestamp u).outcome down (Int64.ofInt n)
  | none => Routine.toMultiple (rounder down) down (.int (Int64.ofInt n)) (.int (Int64.ofInt span.start.wholeSize))

/-- What the function yields from a timestamp. -/
def outcome (f : TimestampFunction) (n : ℤ) : Except Fault Value :=
  match f with
  | .extract span => (extraction span.start).outcome span.start n
  | .round down span => rounded down span n
  | .lastDay => (Temporal.lastDay (n / millisPerDay)).map Routine.wordResult
  | .dayName => nameOf Date.dayName n
  | .monthName => nameOf Date.monthName n

theorem of?_extraction (u : TimeUnit) : Extraction.of? .timestamp u = some (extraction u) := by
  cases u <;> rfl

theorem of?_zoned (u : TimeUnit) : Extraction.of? .timestampWithLocalTimeZone u = some (extraction u) := by
  cases u <;> rfl

theorem isLocal_extraction (span : TimeSpan) : (extraction span.start).isLocal = (extract span).isLocal := by
  cases span <;> rfl

variable {source : TypeName}

theorem admits_toMultiple {type : SqlType} (htype : ∀ x : Int64, (Value.int x).Fits type.rep) (routine : String)
    (down : Bool) (x : Int64) (u : TimeUnit) :
    type.Admits (Routine.toMultiple routine down (.int x) (.int (Int64.ofInt u.wholeSize))) := by
  have hsize : 0 ≤ u.wholeSize ∧ Word.Fits u.wholeSize := by cases u <;> decide
  rcases hsize.1.lt_or_eq with hpos | hzero
  · rw [Routine.toMultiple_int routine down x (by rwa [Word.toInt_ofInt hsize.2])]
    exact admits_ok (htype _)
  · -- units below a millisecond have size zero
    have hfault : Routine.toMultiple routine down (.int x) (.int (Int64.ofInt 0)) = .error .divisionByZero := rfl
    rw [← hzero, hfault]
    exact admits_error _ (by simp)

theorem admits_lastDay (n : ℤ) (b : Bool) :
    (SqlType.plain .date b).Admits ((Temporal.lastDay (n / millisPerDay)).map Routine.wordResult) := by
  generalize n / millisPerDay = d
  have hoverflow : ∀ {reason}, Temporal.lastDay d = .error (.overflow reason) →
      (SqlType.plain .date b).Admits ((Temporal.lastDay d).map Routine.wordResult) := by
    intro reason h
    rw [h]
    exact admits_error _ (by simp)
  by_cases hd : Date.InCalendar (monthOfDay d)
  · by_cases hnext : Date.InCalendar (monthOfDay d + 1)
    · have hfirst : Date.InCalendar (monthOfDay (Date.monthStart (monthOfDay d + 1))) := by
        rwa [monthOfDay_monthStart]
      have hbounds := Date.inCalendar_ofDays_iff.1 hfirst
      rw [lastDay_of_inCalendar hd hnext]
      have hholds : IntegerType.regular.Holds (Date.monthStart (monthOfDay d + 1) - 1) := by
        show -2 ^ 31 ≤ _ ∧ _ < 2 ^ 31
        omega
      refine admits_ok ?_
      rw [TypeName.represents_word (.inl rfl) b]
      exact fits_type hholds.fits_prim b
    · obtain ⟨reason, hfault⟩ := exists_lastDay_overflow hd hnext
      exact hoverflow hfault
  · obtain ⟨reason, hfault⟩ := exists_dateOf_overflow hd
    have hlast : Temporal.lastDay d = .error (.overflow reason) := by
      unfold Temporal.lastDay
      rw [hfault]
      rfl
    exact hoverflow hlast

theorem nameOf_eq (name : Date → String) (n : ℤ) :
    nameOf name n = dateOf (n / millisPerDay) >>= fun d => .ok (.str (name d)) := by
  unfold nameOf
  cases dateOf (n / millisPerDay) <;> rfl

theorem admits_nameOf (name : Date → String) (n : ℤ) (b : Bool) :
    (SqlType.plain .varchar b).Admits (nameOf name n) := by
  rw [nameOf_eq]
  refine Extraction.admits_dateOf (fun _ => ?_) _
  exact admits_ok rfl

/-- The types of timestamps. -/
def IsTimestamp (source : TypeName) : Prop := source = .timestamp ∨ source = .timestampWithLocalTimeZone

theorem IsTimestamp.represents (h : IsTimestamp source) : IntegerType.big.Represents source := by
  rcases h with rfl | rfl <;> exact TypeName.represents_word (.inl rfl)

theorem admits_rounded (down : Bool) (span : TimeSpan) (n : ℤ) (h : IsTimestamp source) (b : Bool) :
    (SqlType.plain source b).Admits (rounded down span n) := by
  have hword : ∀ x : Int64, (Value.int x).Fits (SqlType.plain source b).rep := by
    intro x
    rw [h.represents]
    exact fits_type (fits_big x) b
  unfold rounded
  cases calendarUnit? span with
  | none => exact admits_toMultiple hword _ _ _ _
  | some u =>
    by_cases hreach : (Rounding.timestamp u).Reaches down (Int64.ofInt n).toInt
    · simp only [Rounding.outcome_of_reaches hreach]
      exact admits_ok (hword _)
    · obtain ⟨reason, hfault⟩ := Rounding.exists_outcome_overflow (.inr rfl) hreach
      simp only [hfault]
      exact admits_error _ (by simp)

theorem admits_outcome (f : TimestampFunction) (h : IsTimestamp source) (b : Bool) (n : ℤ) :
    (f.type source b).Admits (f.outcome n) := by
  cases f with
  | extract span => exact (extraction span.start).admits_outcome span.start n b
  | round down span => exact admits_rounded down span n h b
  | lastDay => exact admits_lastDay n b
  | dayName | monthName => exact admits_nameOf _ n b

/-! ### Code -/

/-- The code that rounds. -/
def rounding (down : Bool) (span : TimeSpan) (e : Expr) : Expr :=
  match calendarUnit? span with
  | some u => (Rounding.timestamp u).code down e (.const (.symbol (.timeUnit u.span)) .symbol)
  | none => Rounding.multiple down .big span.start e

/-- The code of a function, with the representation of its result. -/
def code (f : TimestampFunction) (r : Rep) (e : Expr) : Expr :=
  match f with
  | .extract span => (extraction span.start).code span.start (.const (.symbol (.timeUnit span)) .symbol) e
  | .round down span => rounding down span e
  | .lastDay => .call "lastDayTimestamp" [e] r
  | .dayName => .call "dayNameWithTimestamp" [e, .call "locale" [.root] .string] r
  | .monthName => .call "monthNameWithTimestamp" [e, .call "locale" [.root] .string] r

/-- What the code of a function is applied to. -/
def reading (f : TimestampFunction) (source : TypeName) (e : Expr) : Expr :=
  if source = .timestampWithLocalTimeZone ∧ f.isLocal then e.toLocalTimestamp else e

theorem reading_of_not_isLocal {f : TimestampFunction} (h : f.isLocal = false) (source : TypeName) (e : Expr) :
    f.reading source e = e := by
  simp [reading, h]

variable {site : CallSite} {b n : Bool}

theorem boundary_eq (down : Bool) (span : TimeSpan) (h : IsTimestamp source) (htype : site.type = .plain source b)
    (e : Expr) : site.boundary down [e, .const (.symbol (.timeUnit span)) .symbol] =
      .ok (rounding down span ((round down span).reading source e)) := by
  unfold CallSite.boundary
  rw [htype]
  rcases h with rfl | rfl <;> cases span <;> rfl

theorem temporal_eq (h : IsTimestamp source) (hoperands : site.operands.map (·.type) = [.plain source n])
    (dateRoutine timestampRoutine : String) (withLocale : Bool) (e : Expr) :
    site.temporal dateRoutine timestampRoutine withLocale [e] = .ok (.call timestampRoutine
      (if withLocale then [e, .call "locale" [.root] .string] else [e]) site.rep) := by
  obtain ⟨operand, rest, hsite, hoperand, -⟩ := List.map_eq_cons_iff.1 hoperands
  unfold CallSite.temporal
  rw [hsite]
  simp only [hoperand]
  rcases h with rfl | rfl <;> cases withLocale <;> rfl

theorem compute_eq (f : TimestampFunction) (h : IsTimestamp source) (htype : site.type = f.type source b)
    (hoperands : site.operands.map (·.type) = f.place.types (.plain source n)) (e : Expr) :
    f.builtin.lowering.compute site (f.place.exprs e) = pure (f.code (f.type source b).rep (f.reading source e)) := by
  have hrep : site.rep = (f.type source b).rep := congrArg SqlType.rep htype
  cases f with
  | extract span =>
    have hx : Extraction.of? source span.start = some (extraction span.start) := by
      rcases h with rfl | rfl
      · exact of?_extraction _
      · exact of?_zoned _
    have hcode := Extraction.extract_eq (Extraction.operand_of_types hoperands) hx e
    rw [Extraction.reading, isLocal_extraction] at hcode
    exact congrArg Emit.lift hcode
  | round down span =>
    have hcode := boundary_eq down span h htype e
    cases down with
    | true | false => exact congrArg Emit.lift hcode
  | lastDay =>
    rw [← hrep, reading_of_not_isLocal rfl]
    exact congrArg Emit.lift (temporal_eq h hoperands "lastDay" "lastDayTimestamp" false e)
  | dayName =>
    rw [← hrep, reading_of_not_isLocal rfl]
    exact congrArg Emit.lift (temporal_eq h hoperands "dayNameWithDate" "dayNameWithTimestamp" true e)
  | monthName =>
    rw [← hrep, reading_of_not_isLocal rfl]
    exact congrArg Emit.lift (temporal_eq h hoperands "monthNameWithDate" "monthNameWithTimestamp" true e)

theorem code_ne_convert (f : TimestampFunction) (r : Rep) (e a : Expr) (q : Rep) : f.code r e ≠ .convert a q := by
  cases f with
  | extract span => exact Extraction.code_ne_convert _ _ _ _ _ _
  | round down span =>
    show rounding down span e ≠ _
    unfold rounding
    split <;> simp [Rounding.code, Rounding.multiple, CallSite.toUnit]
  | lastDay | dayName | monthName => simp [code]

/-! ### What the code computes -/

/-- The routines that the code calls. -/
def routines : List String :=
  Extraction.routines ++ Rounding.routines ++ ["lastDayTimestamp", "dayNameWithTimestamp", "monthNameWithTimestamp",
    "locale", "timeZone", "timestampWithLocalTimeZoneToTimestamp"]

/-- The state that the code needs: the routines are those of the library, and they can read the context. -/
structure Ready (m : Machine) : Prop where
  library : m.Unregistered routines
  rooted : m.Rooted

theorem lasting_ready : Machine.Lasting Ready := by
  intro m m' h hrest hroot
  exact ⟨Machine.lasting_unregistered routines h.library hrest hroot, hroot h.rooted⟩

variable {m : Machine} {e : Expr} {k : ℤ}

theorem result_multiple (down : Bool) (u : TimeUnit) (hm : m.Unregistered Rounding.routines) (he : e.Number .big m k) :
    (Rounding.multiple down .big u e).eval.result m =
      (Routine.toMultiple (rounder down) down (.int (Int64.ofInt k)) (.int (Int64.ofInt u.wholeSize)), m) := by
  have hsize : Word.Fits u.wholeSize := by cases u <;> decide
  have hunit : ((Expr.whole u.wholeSize).mkConvert (.prim .i64)).EvalsTo m (.int (Int64.ofInt u.wholeSize)) :=
    (number_whole hsize).toLong.carries.evalsTo
  show (Expr.call _ [e.toLong, (Expr.whole u.wholeSize).mkConvert (.prim .i64)] _).eval.result m = _
  rw [result_call, result_evalAll (.cons he.toLong.carries.evalsTo (.cons hunit .nil)), andThen_ok]
  cases down with
  | true => exact Run.result_call_library (hm "floor" (by decide)) rfl rfl
  | false => exact Run.result_call_library (hm "ceil" (by decide)) rfl rfl

theorem result_rounding (down : Bool) (span : TimeSpan) (hm : m.Unregistered Rounding.routines)
    (he : e.Number .big m k) : (rounding down span e).eval.result m = (rounded down span k, m) := by
  unfold rounding rounded
  cases calendarUnit? span with
  | none => exact result_multiple down _ hm he
  | some u =>
    have hholds : IntegerType.big.Holds (Int64.ofInt k).toInt := by
      rw [he.toInt]
      exact he.holds
    exact Rounding.result_code (r := .timestamp u) down hm he.carries hholds rfl

theorem result_dateName {routine : String} {name : Date → String} (hm : m.routines.get? routine = none)
    (hlocale : m.routines.get? "locale" = none) (hroot : m.Rooted) (hs : ∀ vs, stateful? routine vs = none)
    (hf : Routine.find? routine = some (Routine.dateName routine (· / millisPerDay) name)) (he : e.Number .big m k)
    (r : Rep) : (Expr.call routine [e, .call "locale" [.root] .string] r).eval.result m = (nameOf name k, m) := by
  have hread := evalsTo_reader (fun c => .str c.locale) hlocale hroot (fun _ => rfl) .string
  rw [result_call, result_evalAll (.cons he.carries.evalsTo (.cons hread .nil)), andThen_ok,
    Run.result_call_library hm (hs _) hf]
  have hday : dateOf (k / millisPerDay) = dateOf ((Int64.ofInt k).toInt / millisPerDay) := by rw [he.toInt]
  rw [nameOf_eq, hday]
  rfl

theorem result_code (f : TimestampFunction) (hm : Ready m) (he : e.Number .big m k) (r : Rep) :
    (f.code r e).eval.result m = (f.outcome k, m) := by
  have hlibrary : ∀ {names : List String}, (∀ g ∈ names, g ∈ routines) → m.Unregistered names :=
    fun hsub g hg => hm.library g (hsub g hg)
  cases f with
  | extract span => exact Extraction.result_code (of?_extraction _) (hlibrary (by decide)) he
  | round down span => exact result_rounding down span (hlibrary (by decide)) he
  | lastDay =>
    show (Expr.call "lastDayTimestamp" [e] r).eval.result m = _
    rw [result_call, result_evalAll (.cons he.carries.evalsTo .nil), andThen_ok,
      Run.result_call_library (hm.library "lastDayTimestamp" (by decide)) rfl rfl]
    have hlast : Routine.ofWord "lastDayTimestamp" (fun n => Temporal.lastDay (n / millisPerDay))
        [.int (Int64.ofInt k)] = (Temporal.lastDay ((Int64.ofInt k).toInt / millisPerDay)).map Routine.wordResult := rfl
    rw [hlast, he.toInt]
    rfl
  | dayName =>
    exact result_dateName (hm.library "dayNameWithTimestamp" (by decide)) (hm.library "locale" (by decide)) hm.rooted
      (fun _ => rfl) rfl he r
  | monthName =>
    exact result_dateName (hm.library "monthNameWithTimestamp" (by decide)) (hm.library "locale" (by decide)) hm.rooted
      (fun _ => rfl) rfl he r

/-- How far the timestamp that a function goes by is ahead of the count. -/
def shift (f : TimestampFunction) (source : TypeName) (c : Context) : ℤ :=
  if source = .timestampWithLocalTimeZone ∧ f.isLocal then c.offset else 0

theorem number_reading (f : TimestampFunction) (source : TypeName) (hm : Ready m) (he : e.Number .big m k)
    (hoffset : Word.Fits m.context.offset) (hfits : Word.Fits (k + f.shift source m.context)) :
    (f.reading source e).Number .big m (k + f.shift source m.context) := by
  unfold reading shift at *
  split_ifs with h
  · rw [if_pos h] at hfits
    exact he.toLocalTimestamp (hm.library "timeZone" (by decide))
      (hm.library "timestampWithLocalTimeZoneToTimestamp" (by decide)) hm.rooted hoffset hfits
  · rwa [add_zero]

theorem isStrict_builtin (f : TimestampFunction) : f.builtin.IsStrict := by
  cases f with
  | extract span => exact Extraction.isStrict_extract
  | round down span => exact Rounding.isStrict_operator down
  | lastDay | dayName | monthName => exact ⟨⟨rfl, rfl, by decide⟩, fun _ _ => rfl, rfl⟩

/-- The code of a call yields the outcome of the function for the timestamp that it goes by. -/
theorem codes (f : TimestampFunction) (h : IsTimestamp source) (b : Bool) :
    f.builtin.Codes f.place source .big (f.type source b) Ready
      (fun c k => Word.Fits c.offset ∧ Word.Fits (k + f.shift source c))
      fun c k => f.outcome (k + f.shift source c) := by
  intro site e n hop hsite hoperands hrep
  refine ⟨_, f.compute_eq h hsite hoperands e, f.code_ne_convert _ _, fun {m k} hm hgood he => ?_⟩
  exact f.result_code hm (f.number_reading source hm he hgood.1 hgood.2) _

theorem program_run (f : TimestampFunction) (h : IsTimestamp source) (settings : Settings) (defs : List Term)
    {fields : List (String × SqlType)} {i : Nat} {name : String} (hi : fields[i]? = some (name, .plain source n))
    (hb : n → b) :
    ∃ p, (f.call source i n b).program settings defs fields = .ok p ∧
      ∀ {row m}, IsRow fields row → Ready m →
        (row[i]? = some .null → ((p.run row).result m).1 = .ok .null) ∧
        ∀ {t : Int64}, row[i]? = some (.int t) →
          Word.Fits m.context.offset ∧ Word.Fits (t.toInt + f.shift source m.context) →
          ((p.run row).result m).1 = f.outcome (t.toInt + f.shift source m.context) := by
  have hplain : (defaultOf (f.type source b).rep).Plain := by
    rcases h with rfl | rfl <;> cases f <;> cases b <;> exact plain_const rfl _
  have hnullable : (f.type source b).nullable = b := by cases f <;> rfl
  exact (f.codes h b).program_run f.isStrict_builtin h.represents (fun c k _ => f.admits_outcome h b _) hplain
    (by rwa [hnullable]) lasting_ready settings defs hi

end TimestampFunction

namespace Term

open TimestampFunction

/-- Functions of a timestamp with local time zone, compared with the same functions of a timestamp. FLOOR, CEIL and
EXTRACT of calendar units and of the seconds since the epoch go by the clock, so that they agree with the timestamp
that is later by the offset. LAST_DAY, DAYNAME, MONTHNAME and EXTRACT of clock units agree with the timestamp of the
same count. -/
theorem program_run_zoned (settings : Settings) (defs : List Term) {fields : List (String × SqlType)}
    (f : TimestampFunction) {n n' b b' : Bool} {i j : Nat} {name name' : String}
    (hi : fields[i]? = some (name, .plain .timestampWithLocalTimeZone n))
    (hj : fields[j]? = some (name', .plain .timestamp n')) (hb : n = true → b = true) (hb' : n' = true → b' = true) :
    ∃ p q, (f.call .timestampWithLocalTimeZone i n b).program settings defs fields = .ok p ∧
      (f.call .timestamp j n' b').program settings defs fields = .ok q ∧
      ∀ (row : List Value) (m : Machine), IsRow fields row → m.Unregistered routines → m.Rooted →
        (row[i]? = some .null → ((p.run row).result m).1 = .ok .null) ∧
        ∀ t s : Int64, row[i]? = some (.int t) → row[j]? = some (.int s) → Word.Fits m.context.offset →
          s.toInt = t.toInt + (if f.isLocal then m.context.offset else 0) →
          ((p.run row).result m).1 = ((q.run row).result m).1 := by
  obtain ⟨p, hp, hrunp⟩ := f.program_run (.inr rfl) settings defs hi hb
  obtain ⟨q, hq, hrunq⟩ := f.program_run (.inl rfl) settings defs hj hb'
  refine ⟨p, q, hp, hq, fun row m hrow hlibrary hroot => ?_⟩
  obtain ⟨hnull, hzoned⟩ := hrunp hrow ⟨hlibrary, hroot⟩
  refine ⟨hnull, fun t s ht hs hoffset heq => ?_⟩
  -- both calls come down to the outcome for `s`
  have hshift : t.toInt + f.shift .timestampWithLocalTimeZone m.context = s.toInt := by
    simpa [shift] using heq.symm
  have hplain : s.toInt + f.shift .timestamp m.context = s.toInt := by
    simp [shift]
  have hfits : Word.Fits s.toInt := Word.fits_toInt s
  have hp' := hzoned ht ⟨hoffset, by rwa [hshift]⟩
  have hq' := (hrunq hrow ⟨hlibrary, hroot⟩).2 hs ⟨hoffset, by rwa [hplain]⟩
  rw [hp', hq', hshift, hplain]

/-- Where the clock is an hour ahead, the last millisecond before the epoch is on the first day of January, but its
hour is 23. -/
theorem program_run_zoned_one_hour :
    let fields := [("z", SqlType.plain .timestampWithLocalTimeZone false), ("t", SqlType.plain .timestamp false)]
    let m : Machine := { context := { offset := 3600000 } }
    ∃ p q, ((extract .day).call .timestampWithLocalTimeZone 0 false false).program {} [] fields = .ok p ∧
      ((extract .hour).call .timestampWithLocalTimeZone 0 false false).program {} [] fields = .ok q ∧
      ((p.run [.int (-1), .int 3599999]).result m).1 = .ok (.int 1) ∧
      ((q.run [.int (-1), .int (-1)]).result m).1 = .ok (.int 23) := by
  intro fields m
  have hi : fields[0]? = some ("z", .plain .timestampWithLocalTimeZone false) := rfl
  have hj : fields[1]? = some ("t", .plain .timestamp false) := rfl
  have hrow : ∀ x y : Int64, IsRow fields [.int x, .int y] := fun x y =>
    .cons ⟨IntegerType.fits_big x, fun h => by cases h⟩ (.cons ⟨IntegerType.fits_big y, fun h => by cases h⟩ .nil)
  have hlibrary : m.Unregistered routines := fun g _ => rfl
  have hroot : m.Rooted := ⟨.null, rfl⟩
  have hb : false = true → false = true := id
  obtain ⟨p, q, hp, hq, hday⟩ := program_run_zoned {} [] (extract .day) hi hj hb hb
  obtain ⟨p', q', hp', hq', hhour⟩ := program_run_zoned {} [] (extract .hour) hi hj hb hb
  obtain ⟨r, hr, hrun⟩ := (extract .day).program_run (.inl rfl) {} [] hj hb
  obtain ⟨r', hr', hrun'⟩ := (extract .hour).program_run (.inl rfl) {} [] hj hb
  cases hq.symm.trans hr
  cases hq'.symm.trans hr'
  refine ⟨p, p', hp, hp', ?_, ?_⟩
  · refine ((hday _ m (hrow _ _) hlibrary hroot).2 (-1) 3599999 rfl rfl (by decide) rfl).trans ?_
    exact ((hrun (hrow _ _) ⟨hlibrary, hroot⟩).2 rfl ⟨by decide, by decide⟩).trans rfl
  · refine ((hhour _ m (hrow _ _) hlibrary hroot).2 (-1) (-1) rfl rfl (by decide) rfl).trans ?_
    exact ((hrun' (hrow _ _) ⟨hlibrary, hroot⟩).2 rfl ⟨by decide, by decide⟩).trans rfl

end Term

end SqlCode
