import SqlCode.Proofs.Calendar
import SqlCode.Proofs.NumberCalls

/-!
# The code of EXTRACT

EXTRACT takes a part of a date, time, timestamp or interval. Fields of the calendar are read off the day number by a
routine. The other parts are computed: the number is reduced by the next larger unit, and the rest is counted in the
unit. A timestamp with local time zone is read as what its clock shows for some parts and as it is for the others.
-/

namespace SqlCode

open Run SqlCode.Expr

/-- How a part is computed. -/
inductive Extraction
  /-- A field of the date of a day number. -/
  | dateField
  /-- A field of the date of a timestamp. -/
  | timestampField
  /-- The milliseconds of the minute, in a unit that is not larger. -/
  | fraction
  /-- The seconds since the epoch. -/
  | epoch
  /-- The rest within the next larger unit, counted in the unit. -/
  | count (larger : ℤ)
deriving DecidableEq, Repr

namespace Extraction

/-- How a unit is taken from a type, where the part is not zero for all values of the type. -/
def of? (type : TypeName) (u : TimeUnit) : Option Extraction :=
  if u.isCalendar then
    if type.isInterval then u.factor.toOption.map .count
    else
      match type with
      | .date => some .dateField
      | .timestamp | .timestampWithLocalTimeZone => some .timestampField
      | _ => none
  else if type = .date then none
  else
    match u with
    | .millisecond | .microsecond | .nanosecond => some .fraction
    | .epoch => if type = .timestamp ∨ type = .timestampWithLocalTimeZone then some .epoch else none
    | u => u.factor.toOption.map .count

/-- The part is taken from what the clock of a timestamp with local time zone shows. -/
def isLocal : Extraction → Bool
  | .timestampField | .epoch => true
  | _ => false

/-! ### Outcomes -/

/-- A field of the date of a day number. -/
def field (u : TimeUnit) (days : ℤ) : Except Fault Value := do
  let d ← Temporal.dateOf days
  match Temporal.extract? u d with
  | some n => .ok (Routine.wordResult n)
  | none => .error (.invalidArgument "unixDateExtract" (u.label ++ " is not a date field"))

/-- The number counted in a unit: the rest within the next larger unit, which is the number itself if there is none,
divided by the size of the unit. Quarters count from one. -/
def counted (u : TimeUnit) (larger n : ℤ) : ℤ :=
  let rest := if larger = 1 then n else n % larger
  if u = .quarter then (rest - 1).tdiv u.wholeSize + 1 else rest.tdiv u.wholeSize

/-- The part of a number, or why there is none. -/
def outcome (x : Extraction) (u : TimeUnit) (n : ℤ) : Except Fault Value :=
  match x with
  | .dateField => field u n
  | .timestampField => field u (n / millisPerDay)
  | .fraction => .ok (Routine.wordResult (n % millisPerMinute * u.perMillisecond))
  | .epoch => .ok (Routine.wordResult (n.tdiv millisPerSecond))
  | .count larger => .ok (Routine.wordResult (counted u larger n))

variable {m : Machine} {e : Expr} {w : IntegerType} {n : ℤ} {u : TimeUnit} {span : TimeSpan} {type : TypeName}
  {x : Extraction} {site : CallSite}

theorem field_of_inCalendar {d k : ℤ} (h : Date.InCalendar (Temporal.monthOfDay d))
    (hk : Temporal.extract? u (.ofDays d) = some k) : field u d = .ok (Routine.wordResult k) := by
  unfold field
  rw [Temporal.dateOf_of_inCalendar h]
  simp only [bind, Except.bind, hk]

theorem exists_field_overflow (u : TimeUnit) {d : ℤ} (h : ¬Date.InCalendar (Temporal.monthOfDay d)) :
    ∃ reason, field u d = .error (.overflow reason) := by
  obtain ⟨reason, hfault⟩ := Temporal.exists_dateOf_overflow h
  unfold field
  rw [hfault]
  exact ⟨reason, rfl⟩

theorem admits_wordResult (n : ℤ) (b : Bool) : (SqlType.plain .bigInt b).Admits (.ok (Routine.wordResult n)) :=
  SqlType.admits_ok (IntegerType.fits_type (w := .big) (IntegerType.fits_big _) b)

theorem admits_dateOf {type : SqlType} {f : Date → Except Fault Value} (h : ∀ d, type.Admits (f d)) (d : ℤ) :
    type.Admits (Temporal.dateOf d >>= f) := by
  by_cases hd : Date.InCalendar (Temporal.monthOfDay d)
  · rw [Temporal.dateOf_of_inCalendar hd]
    exact h _
  · obtain ⟨reason, hfault⟩ := Temporal.exists_dateOf_overflow hd
    rw [hfault]
    exact SqlType.admits_error _ (by simp)

theorem admits_field (u : TimeUnit) (d : ℤ) (b : Bool) : (SqlType.plain .bigInt b).Admits (field u d) := by
  refine admits_dateOf (fun d => ?_) d
  split
  · exact admits_wordResult _ b
  · exact SqlType.admits_error _ (by simp)

theorem admits_outcome (x : Extraction) (u : TimeUnit) (n : ℤ) (b : Bool) :
    (SqlType.plain .bigInt b).Admits (x.outcome u n) := by
  cases x with
  | dateField => exact admits_field u n b
  | timestampField => exact admits_field u _ b
  | fraction | epoch | count => exact admits_wordResult _ b

/-! ### Code -/

/-- The routines that the code calls. -/
def routines : List String := ["floorDiv", "floorMod", "unixDateExtract"]

/-- The code that counts in a unit. -/
def counting (u : TimeUnit) (larger : ℤ) (e : Expr) : Expr :=
  let rest := e.floorMod larger
  if u = .quarter then
    .mkBinary .add (.mkBinary .divide (.mkBinary .subtract rest (.long 1)) (.whole u.wholeSize)) (.long 1)
  else .mkBinary .divide rest (.whole u.wholeSize)

/-- The code of a part. -/
def code (x : Extraction) (u : TimeUnit) (unit e : Expr) : Expr :=
  match x with
  | .dateField => .call "unixDateExtract" [unit, e] (.prim .i64)
  | .timestampField => .call "unixDateExtract" [unit, e.floorDiv millisPerDay] (.prim .i64)
  | .fraction => .mkBinary .multiply (e.floorMod millisPerMinute) (.whole u.perMillisecond)
  | .epoch => .mkBinary .divide e.toLong (.whole millisPerSecond)
  | .count larger => counting u larger e

theorem isolate_eq {larger : ℤ} (h : u.factor = .ok larger) (e : Expr) :
    CallSite.isolate u e = .ok (counting u larger e) := by
  unfold CallSite.isolate counting
  rw [h]
  by_cases hquarter : u = .quarter
  · simp only [hquarter, if_true]
    rfl
  · simp only [hquarter, if_false]
    rfl

/-- What the code of a part is applied to. -/
def reading (x : Extraction) (type : TypeName) (e : Expr) : Expr :=
  if type = .timestampWithLocalTimeZone ∧ x.isLocal then e.toLocalTimestamp else e

theorem reading_of_not_isLocal (h : x.isLocal = false) (type : TypeName) (e : Expr) : x.reading type e = e := by
  simp [reading, h]

theorem reading_of_ne (x : Extraction) (h : type ≠ .timestampWithLocalTimeZone) (e : Expr) : x.reading type e = e := by
  simp [reading, h]

theorem exists_factor (h : u.factor.toOption.map count = some x) :
    ∃ larger, u.factor = .ok larger ∧ x = .count larger := by
  cases hf : u.factor with
  | error err => simp [hf, Except.toOption] at h
  | ok larger =>
    rw [hf] at h
    exact ⟨larger, rfl, (Option.some.inj h).symm⟩

/-- Counting goes by the next larger unit. -/
theorem factor_of_count {larger : ℤ} (h : of? type u = some (.count larger)) : u.factor = .ok larger := by
  have hfactor : u.factor.toOption.map count = some (.count larger) → u.factor = .ok larger := by
    intro hx
    obtain ⟨k, hk, heq⟩ := exists_factor hx
    cases heq
    exact hk
  unfold of? at h
  split at h
  · split at h
    · exact hfactor h
    · split at h <;> simp at h
  · split at h
    · simp at h
    · split at h
      · simp at h
      · simp at h
      · simp at h
      · split at h <;> simp at h
      · exact hfactor h

theorem operand_of_types {n : Bool} (h : site.operands.map (·.type) = (UnitPlace.before span).types (.plain type n)) :
    site.operands[1]?.map (·.type.name) = some type := by
  have hget : (site.operands.map (·.type))[1]? = some (.plain type n) := by
    rw [h]
    rfl
  rw [List.getElem?_map] at hget
  obtain ⟨operand, hoperand, htype⟩ := Option.map_eq_some_iff.1 hget
  exact Option.map_eq_some_iff.2 ⟨operand, hoperand, congrArg SqlType.name htype⟩

theorem extract_eq (htype : site.operands[1]?.map (·.type.name) = some type) (hx : of? type span.start = some x)
    (e : Expr) : site.extract [.const (.symbol (.timeUnit span)) .symbol, e] =
      .ok (x.code span.start (.const (.symbol (.timeUnit span)) .symbol) (x.reading type e)) := by
  obtain ⟨operand, hoperand, hname⟩ := Option.map_eq_some_iff.1 htype
  have hisolate : ∀ {u}, u.factor.toOption.map count = some x →
      CallSite.isolate u e = .ok (x.code u (.const (.symbol (.timeUnit span)) .symbol) (x.reading type e)) := by
    intro u hu
    obtain ⟨larger, hlarger, rfl⟩ := exists_factor hu
    rw [isolate_eq hlarger, reading_of_not_isLocal rfl]
    rfl
  unfold CallSite.extract
  rw [hoperand]
  subst hname
  unfold of? at hx
  show (if span.start.isCalendar then CallSite.calendarPart span.start operand.type.name _ e else _) = _
  by_cases hcalendar : span.start.isCalendar
  · rw [if_pos hcalendar] at hx ⊢
    unfold CallSite.calendarPart
    by_cases hinterval : operand.type.name.isInterval
    · rw [if_pos hinterval] at hx ⊢
      exact hisolate hx
    · rw [if_neg hinterval] at hx ⊢
      generalize operand.type.name = type at hx ⊢
      split at hx
      · cases hx
        rfl
      · cases hx
        rfl
      · cases hx
        rfl
      · cases hx
  · rw [if_neg hcalendar] at hx ⊢
    generalize operand.type.name = type at hx hisolate ⊢
    by_cases hdate : type = .date
    · rw [if_pos hdate] at hx
      cases hx
    · rw [if_neg hdate] at hx
      generalize span.start = u at hx hcalendar ⊢
      cases u with
      | millisecond | microsecond | nanosecond =>
        cases hx
        rw [reading_of_not_isLocal rfl]
        exact if_neg hdate
      | epoch =>
        by_cases hzone : type = .timestamp ∨ type = .timestampWithLocalTimeZone
        · obtain rfl : epoch = x := by simpa [hzone] using hx
          rcases hzone with rfl | rfl <;> rfl
        · simp [hzone] at hx
      | hour | minute | second => exact (if_neg hdate).trans (hisolate hx)
      | _ => exact absurd rfl hcalendar

theorem code_ne_convert (x : Extraction) (u : TimeUnit) (unit e a : Expr) (r : Rep) :
    x.code u unit e ≠ .convert a r := by
  cases x with
  | count larger =>
    show counting u larger e ≠ _
    unfold counting
    by_cases hquarter : u = .quarter <;> simp [hquarter, mkBinary]
  | _ => simp [code, mkBinary]

/-! ### What the code computes -/

theorem factor_bounds {larger : ℤ} (h : u.factor = .ok larger) :
    1 ≤ larger ∧ Word.Fits larger ∧ 0 < u.wholeSize ∧ Word.Fits u.wholeSize := by
  cases u <;> cases h <;> decide

theorem number_counting {larger : ℤ} (h : u.factor = .ok larger) (hn : e.Number w m n)
    (hm : m.routines.get? "floorMod" = none) : (counting u larger e).Number .big m (counted u larger n) := by
  obtain ⟨hlarger, hfits, hsize, hfits'⟩ := factor_bounds h
  obtain ⟨w', hrest⟩ : ∃ w', (e.floorMod larger).Number w' m (if larger = 1 then n else n % larger) := by
    by_cases hone : larger = 1
    · rw [if_pos hone, Expr.floorMod, if_pos hone]
      exact ⟨w, hn⟩
    · rw [if_neg hone]
      exact ⟨.big, hn.floorMod hm (by omega) hfits⟩
  unfold counting counted
  by_cases hquarter : u = .quarter
  · subst hquarter
    cases h
    -- the month is reduced before it is decremented, and a number below twelve cannot wrap
    have hless : Word.Fits (n % monthsPerYear - 1) := by
      simp only [Word.fits_iff, monthsPerYear]
      omega
    have hone : (Expr.long 1).Number .big m 1 := number_whole (by decide)
    have hquotient := (hrest.arithmetic (o := .minus) hone rfl hless).divide hsize hfits'
    refine hquotient.arithmetic (o := .plus) hone rfl ?_
    show Word.Fits ((n % 12 - 1).tdiv 3 + 1)
    have hle := Int.natAbs_tdiv_le_natAbs (n % 12 - 1) 3
    rw [Word.fits_iff]
    omega
  · simp only [hquarter, if_false]
    exact hrest.divide hsize hfits'

theorem number_fraction (u : TimeUnit) (hn : e.Number w m n) (hm : m.routines.get? "floorMod" = none) :
    (mkBinary .multiply (e.floorMod millisPerMinute) (.whole u.perMillisecond)).Number .big m
      (n % millisPerMinute * u.perMillisecond) := by
  have hscale : 1 ≤ u.perMillisecond ∧ u.perMillisecond ≤ 1000000 ∧ Word.Fits u.perMillisecond := by
    cases u <;> decide
  have hrest : 0 ≤ n % millisPerMinute ∧ n % millisPerMinute < 60000 := by
    unfold millisPerMinute
    omega
  refine (hn.floorMod hm (by decide) (by decide)).arithmetic (o := .multiply) (number_whole hscale.2.2) rfl ?_
  rw [Word.fits_iff]
  constructor <;> nlinarith

theorem result_dateExtract (hm : m.routines.get? "unixDateExtract" = none) (he : e.Number w m n) :
    (Expr.call "unixDateExtract" [.const (.symbol (.timeUnit span)) .symbol, e] (.prim .i64)).eval.result m =
      (field span.start n, m) := by
  have hunit : (Expr.const (.symbol (.timeUnit span)) .symbol).EvalsTo m (.symbol (.timeUnit span)) := rfl
  have hroutine : Routine.dateExtract [.symbol (.timeUnit span), .int (Int64.ofInt n)] =
      field span.start (Int64.ofInt n).toInt := rfl
  rw [result_call, result_evalAll (.cons hunit (.cons he.carries.evalsTo .nil)), andThen_ok,
    Run.result_call_library hm rfl rfl, hroutine, he.toInt]

theorem result_code (hx : of? type span.start = some x) (hm : m.Unregistered routines) (he : e.Number w m n) :
    (x.code span.start (.const (.symbol (.timeUnit span)) .symbol) e).eval.result m = (x.outcome span.start n, m) := by
  cases x with
  | dateField => exact result_dateExtract (hm "unixDateExtract" (by decide)) he
  | timestampField =>
    exact result_dateExtract (hm "unixDateExtract" (by decide))
      (he.floorDiv (hm "floorDiv" (by decide)) (by decide) (by decide))
  | fraction => exact (number_fraction _ he (hm "floorMod" (by decide))).carries.evalsTo
  | epoch => exact (he.toLong.divide (by decide) (by decide)).carries.evalsTo
  | count larger => exact (number_counting (factor_of_count hx) he (hm "floorMod" (by decide))).carries.evalsTo

theorem isStrict_extract : Builtin.extract.IsStrict :=
  ⟨⟨rfl, rfl, by decide⟩, fun _ _ => rfl, rfl⟩

theorem codes_extract (hx : of? type span.start = some x) (hzone : type ≠ .timestampWithLocalTimeZone)
    (w : IntegerType) (b : Bool) :
    Builtin.extract.Codes (.before span) type w (.plain .bigInt b) (·.Unregistered routines) (fun _ _ => True)
      fun _ => x.outcome span.start := by
  intro site e n hop hsite hoperands hrep
  refine ⟨_, congrArg Emit.lift (extract_eq (operand_of_types hoperands) hx e), code_ne_convert _ _ _ _, ?_⟩
  intro m k hm _ he
  rw [reading_of_ne x hzone]
  exact result_code hx hm he

theorem program_run (hx : of? type span.start = some x) (hzone : type ≠ .timestampWithLocalTimeZone)
    (hw : w.Represents type) (settings : Settings) (defs : List Term) {fields : List (String × SqlType)}
    {n b : Bool} (hb : n → b) {i : Nat} {name : String} (hi : fields[i]? = some (name, .plain type n)) :
    ∃ p, (Term.call (.builtin .extract) (.plain .bigInt b)
        [.symbol (.timeUnit span), .input i (.plain type n)]).program settings defs fields = .ok p ∧
      ∀ {row m}, IsRow fields row → m.Unregistered routines →
        (row[i]? = some .null → ((p.run row).result m).1 = .ok .null) ∧
        ∀ {t : Int64}, row[i]? = some (.int t) → ((p.run row).result m).1 = x.outcome span.start t.toInt := by
  have hplain := IntegerType.big.plain_defaultOf b
  obtain ⟨p, hp, hrun⟩ := (codes_extract hx hzone w b).program_run isStrict_extract hw
    (fun _ k _ => x.admits_outcome span.start k b) hplain hb (Machine.lasting_unregistered _) settings defs hi
  refine ⟨p, hp, fun hrow hm => ?_⟩
  obtain ⟨hnull, hvalue⟩ := hrun hrow hm
  exact ⟨hnull, fun ht => hvalue ht trivial⟩

end Extraction

end SqlCode
