import SqlCode.Proofs.Extraction

/-!
# Parts of dates, times and intervals

What EXTRACT takes from a value, part by part, and how the parts make up the value. The parts of the clock are those of
the time since midnight, and the fields of a date are those of the day number. Years and months of an interval are
rounded in different directions, and its quarters are counted as if months counted from one.
-/

namespace SqlCode

/-! ### Days of the year -/

namespace Date

theorem daysBeforeMonth_bounds (year : ℤ) {month : ℤ} (h : 1 ≤ month) (h' : month ≤ 12) :
    0 ≤ daysBeforeMonth year month ∧ daysBeforeMonth year month ≤ 335 := by
  unfold daysBeforeMonth
  interval_cases month <;> cases isLeap year <;> decide

theorem OnCalendar.ordinal_bounds {d : Date} (h : d.OnCalendar) : 1 ≤ d.ordinal ∧ d.ordinal ≤ 366 := by
  have hday := h.one_le_day
  have hlength := h.day_le.trans (monthLength_bounds d.year d.month).2
  have hmonth := daysBeforeMonth_bounds d.year h.one_le_month h.month_le
  unfold ordinal
  omega

theorem ordinal_eq (d : Date) : d.ordinal = d.toDays - (Date.mk d.year 1 1).toDays + 1 := by
  have hfirst : (Date.mk d.year 1 1).toDays = daysBeforeYear d.year - epoch := by
    show daysBeforeYear d.year + 0 + (1 - 1) - epoch = _
    omega
  rw [hfirst]
  unfold ordinal toDays
  omega

end Date

namespace Extraction

open Temporal

/-! ### Numbers -/

/-- The number that is taken. Fields of a date need a day that the calendar covers. -/
def number (x : Extraction) (u : TimeUnit) (n : ℤ) : ℤ :=
  match x with
  | .dateField => (extract? u (.ofDays n)).getD 0
  | .timestampField => (extract? u (.ofDays (n / millisPerDay))).getD 0
  | .fraction => n % millisPerMinute * u.perMillisecond
  | .epoch => n.tdiv millisPerSecond
  | .count larger => counted u larger n

/-- The day that a field is taken from. -/
def day? (x : Extraction) (n : ℤ) : Option ℤ :=
  match x with
  | .dateField => some n
  | .timestampField => some (n / millisPerDay)
  | _ => none

variable {x : Extraction} {type : TypeName} {u : TimeUnit} {n d : ℤ}

theorem outcome_of_day? (h : x.day? n = some d) :
    x.outcome u n = field u d ∧ x.number u n = (extract? u (.ofDays d)).getD 0 := by
  cases x <;> cases h <;> exact ⟨rfl, rfl⟩

theorem outcome_of_day?_eq_none (h : x.day? n = none) : x.outcome u n = .ok (Routine.wordResult (x.number u n)) := by
  cases x <;> cases h <;> rfl

/-- Numbers that are computed without the calendar are words. -/
theorem fits_number_of_day?_eq_none (hx : of? type u = some x) (hn : Word.Fits n) (h : x.day? n = none) :
    Word.Fits (x.number u n) := by
  -- the number is what code computes from the constant, and what code computes is a word
  have hconst : (Expr.whole n).Number .big {} n := Expr.number_whole hn
  cases x with
  | dateField | timestampField => cases h
  | fraction => exact (number_fraction u hconst rfl).fits
  | epoch => exact (hconst.divide (by decide) (by decide)).fits
  | count larger => exact (number_counting (factor_of_count hx) hconst rfl).fits

/-- The fields of a date that determine it, and those that follow from them. -/
def dateFields : List TimeUnit := [.year, .quarter, .month, .day, .doy]

theorem extract?_eq_some (hu : u ∈ dateFields) (d : Date) : extract? u d = some ((extract? u d).getD 0) := by
  simp only [dateFields, List.mem_cons, List.not_mem_nil, or_false] at hu
  rcases hu with rfl | rfl | rfl | rfl | rfl <;> rfl

theorem fits_extract? (hu : u ∈ dateFields) (h : Date.InCalendar (monthOfDay d)) :
    Word.Fits ((extract? u (.ofDays d)).getD 0) := by
  have hd := Date.onCalendar_ofDays d
  have hord := hd.ordinal_bounds
  obtain ⟨hone, htwelve, hday, hlength⟩ := hd
  have hlast := hlength.trans (Date.monthLength_bounds _ _).2
  unfold Date.InCalendar monthOfDay Date.monthIndex Date.leastYear Date.greatestYear at h
  have hfits : ∀ k : ℤ, -1000000 ≤ k ∧ k ≤ 1000000 → Word.Fits k := by
    simp only [Word.fits_iff]
    omega
  simp only [dateFields, List.mem_cons, List.not_mem_nil, or_false] at hu
  rcases hu with rfl | rfl | rfl | rfl | rfl
  · exact hfits (Date.ofDays d).year (by omega)
  · exact hfits (((Date.ofDays d).month - 1) / 3 + 1) (by omega)
  · exact hfits (Date.ofDays d).month (by omega)
  · exact hfits (Date.ofDays d).day (by omega)
  · exact hfits (Date.ofDays d).ordinal (by omega)

/-- The parts of a time of day. -/
def clockParts : List TimeUnit := [.hour, .minute, .second, .millisecond, .microsecond, .nanosecond]

/-- The parts of a value of the type. -/
def parts : TypeName → List TimeUnit
  | .timestamp => dateFields ++ clockParts
  | .date => dateFields
  | .time => clockParts
  | type => if type.isDayTimeInterval then .day :: clockParts else []

/-- Fields of a date or timestamp need a day that the calendar covers. -/
def Covered (type : TypeName) (u : TimeUnit) (t : ℤ) : Prop :=
  u ∈ dateFields →
    match type with
    | .date => Date.InCalendar (monthOfDay t)
    | .timestamp => Date.InCalendar (monthOfDay (t / millisPerDay))
    | _ => True

/-- The part of a value of the type. -/
def part (type : TypeName) (u : TimeUnit) (t : ℤ) : ℤ := ((of? type u).map (·.number u t)).getD 0

theorem part_eq (h : of? type u = some x) (t : ℤ) : part type u t = x.number u t := by
  rw [part, h]
  rfl

theorem of?_clock (h : type ≠ .date) :
    of? type .hour = some (.count millisPerDay) ∧ of? type .minute = some (.count millisPerHour) ∧
      of? type .second = some (.count millisPerMinute) ∧ of? type .millisecond = some .fraction ∧
      of? type .microsecond = some .fraction ∧ of? type .nanosecond = some .fraction :=
  ⟨if_neg h, if_neg h, if_neg h, if_neg h, if_neg h, if_neg h⟩

theorem exists_of?_clock (hu : u ∈ clockParts) (h : type ≠ .date) :
    ∃ x, of? type u = some x ∧ ∀ t, x.day? t = none := by
  simp only [clockParts, List.mem_cons, List.not_mem_nil, or_false] at hu
  rcases hu with rfl | rfl | rfl | rfl | rfl | rfl <;> exact ⟨_, if_neg h, fun _ => rfl⟩

theorem of?_dateFields (hu : u ∈ dateFields) :
    of? .date u = some .dateField ∧ of? .timestamp u = some .timestampField := by
  simp only [dateFields, List.mem_cons, List.not_mem_nil, or_false] at hu
  rcases hu with rfl | rfl | rfl | rfl | rfl <;> exact ⟨rfl, rfl⟩

theorem of?_day_interval (h : type.isDayTimeInterval) : of? type .day = some (.count 1) := by
  have hinterval : type.isInterval := by simp [TypeName.isInterval, h]
  exact if_pos hinterval

theorem not_mem_dateFields : ∀ u ∈ clockParts, u ∉ dateFields := by decide

/-- A part is a field of a day, or it takes no day and needs no calendar. -/
def IsPart (x : Extraction) (type : TypeName) (u : TimeUnit) (t : ℤ) : Prop :=
  (∃ d, x.day? t = some d ∧ u ∈ dateFields ∧ (Covered type u t ↔ Date.InCalendar (monthOfDay d))) ∨
    (x.day? t = none ∧ Covered type u t)

theorem exists_isPart (h : u ∈ parts type) : ∃ x, of? type u = some x ∧ ∀ t, IsPart x type u t := by
  have hclock : u ∈ clockParts → type ≠ .date → ∃ x, of? type u = some x ∧ ∀ t, IsPart x type u t := by
    intro hu hdate
    obtain ⟨x, hx, hday⟩ := exists_of?_clock hu hdate
    exact ⟨x, hx, fun t => .inr ⟨hday t, fun hu' => absurd hu' (not_mem_dateFields u hu)⟩⟩
  unfold parts at h
  split at h
  · rcases List.mem_append.1 h with hu | hu
    · exact ⟨_, (of?_dateFields hu).2, fun t => .inl ⟨_, rfl, hu, ⟨fun hc => hc hu, fun hc _ => hc⟩⟩⟩
    · exact hclock hu (by simp)
  · exact ⟨_, (of?_dateFields h).1, fun t => .inl ⟨_, rfl, h, ⟨fun hc => hc h, fun hc _ => hc⟩⟩⟩
  · exact hclock h (by simp)
  · rename_i htimestamp hdate htime
    split at h
    · rename_i hinterval
      rcases List.mem_cons.1 h with rfl | hu
      · refine ⟨.count 1, of?_day_interval hinterval, fun t => .inr ⟨rfl, fun _ => ?_⟩⟩
        split
        · exact absurd rfl hdate
        · exact absurd rfl htimestamp
        · trivial
      · exact hclock hu hdate
    · cases h

theorem exists_outcome_eq (h : u ∈ parts type) : ∃ x, of? type u = some x ∧ ∀ t, Word.Fits t →
    (Covered type u t → x.outcome u t = .ok (Routine.wordResult (part type u t)) ∧ Word.Fits (part type u t)) ∧
    (¬Covered type u t → ∃ reason, x.outcome u t = .error (.overflow reason)) := by
  obtain ⟨x, hx, hparts⟩ := exists_isPart h
  refine ⟨x, hx, fun t ht => ?_⟩
  rw [part_eq hx]
  rcases hparts t with ⟨d, hd, hu, hcovered⟩ | ⟨hnone, hcovered⟩
  · obtain ⟨houtcome, hnumber⟩ := outcome_of_day? (u := u) hd
    rw [houtcome, hnumber, hcovered]
    exact ⟨fun hc => ⟨field_of_inCalendar hc (extract?_eq_some hu _), fits_extract? hu hc⟩,
      fun hc => exists_field_overflow u hc⟩
  · exact ⟨fun _ => ⟨outcome_of_day?_eq_none hnone, fits_number_of_day?_eq_none hx ht hnone⟩,
      fun hc => absurd hcovered hc⟩

/-! ### Clocks and dates -/

/-- The parts are those of a time on a day: hours, minutes and seconds in their ranges, and milliseconds of the minute
in three units. -/
structure IsTime (part : TimeUnit → ℤ) (day t : ℤ) : Prop where
  hour : 0 ≤ part .hour ∧ part .hour < 24
  minute : 0 ≤ part .minute ∧ part .minute < 60
  second : 0 ≤ part .second ∧ part .second < 60
  second_eq : part .second = part .millisecond / 1000
  microsecond : part .microsecond = 1000 * part .millisecond
  nanosecond : part .nanosecond = 1000000 * part .millisecond
  eq : t = day * 86400000 + part .hour * 3600000 + part .minute * 60000 + part .millisecond

/-- The parts are the fields of a date with its quarter and the ordinal of the day in its year. -/
structure IsDay (part : TimeUnit → ℤ) (day : ℤ) : Prop where
  onCalendar : (Date.mk (part .year) (part .month) (part .day)).OnCalendar
  toDays : (Date.mk (part .year) (part .month) (part .day)).toDays = day
  quarter : part .quarter = (part .month - 1) / 3 + 1
  doy : part .doy = day - (Date.mk (part .year) 1 1).toDays + 1

/-- The parts of a clock are those of the time since midnight. -/
theorem isTime_part (h : type ≠ .date) (t : ℤ) : IsTime (part type · t) (t / millisPerDay) t := by
  obtain ⟨hhour, hminute, hsecond, hmilli, hmicro, hnano⟩ := of?_clock h
  -- a remainder is not negative, so that the truncating quotient is the floor before the epoch too
  have hcount : ∀ {u larger}, of? type u = some (.count larger) → u ≠ .quarter → 1 < larger →
      part type u t = t % larger / u.wholeSize := by
    intro u larger hu hquarter hlarger
    rw [part_eq hu]
    show counted u larger t = _
    rw [counted, if_neg hquarter, if_neg hlarger.ne', Int.tdiv_eq_ediv_of_nonneg (Int.emod_nonneg _ (by omega))]
  have hh : part type .hour t = t % 86400000 / 3600000 := hcount hhour (by decide) (by decide)
  have hm : part type .minute t = t % 3600000 / 60000 := hcount hminute (by decide) (by decide)
  have hs : part type .second t = t % 60000 / 1000 := hcount hsecond (by decide) (by decide)
  have hms : part type .millisecond t = t % 60000 * 1 := part_eq hmilli t
  have hus : part type .microsecond t = t % 60000 * 1000 := part_eq hmicro t
  have hns : part type .nanosecond t = t % 60000 * 1000000 := part_eq hnano t
  unfold millisPerDay
  constructor <;> omega

theorem isDay_of_fields {part : TimeUnit → ℤ} {d : ℤ} (h : ∀ u ∈ dateFields, extract? u (.ofDays d) = some (part u)) :
    IsDay part d := by
  have hyear : (Date.ofDays d).year = part .year := Option.some.inj (h .year (by decide))
  have hmonth : (Date.ofDays d).month = part .month := Option.some.inj (h .month (by decide))
  have hday : (Date.ofDays d).day = part .day := Option.some.inj (h .day (by decide))
  have hquarter : ((Date.ofDays d).month - 1) / 3 + 1 = part .quarter := Option.some.inj (h .quarter (by decide))
  have hdoy : (Date.ofDays d).ordinal = part .doy := Option.some.inj (h .doy (by decide))
  have hdate : Date.mk (part .year) (part .month) (part .day) = .ofDays d := by
    rw [← hyear, ← hmonth, ← hday]
  refine ⟨hdate ▸ Date.onCalendar_ofDays d, hdate ▸ Date.toDays_ofDays d, ?_, ?_⟩
  · rw [← hquarter, hmonth]
  · rw [← hdoy, Date.ordinal_eq, Date.toDays_ofDays, hyear]

theorem isDay_part_date (t : ℤ) : IsDay (part .date · t) t := by
  refine isDay_of_fields fun u hu => ?_
  rw [part_eq (of?_dateFields hu).1]
  exact extract?_eq_some hu _

theorem isDay_part_timestamp (t : ℤ) : IsDay (part .timestamp · t) (t / millisPerDay) := by
  refine isDay_of_fields fun u hu => ?_
  rw [part_eq (of?_dateFields hu).2]
  exact extract?_eq_some hu _

/-- Date, hour, minute and millisecond determine a timestamp. -/
theorem eq_of_parts_eq {p p' : TimeUnit → ℤ} {d d' t t' : ℤ} (hday : IsDay p d) (hday' : IsDay p' d')
    (htime : IsTime p d t) (htime' : IsTime p' d' t')
    (h : ∀ u ∈ [TimeUnit.year, .month, .day, .hour, .minute, .millisecond], p u = p' u) : t = t' := by
  have hd : d = d' := by
    rw [← hday.toDays, ← hday'.toDays, h .year (by decide), h .month (by decide), h .day (by decide)]
  rw [htime.eq, htime'.eq, hd, h .hour (by decide), h .minute (by decide), h .millisecond (by decide)]

theorem isTime_part_time {t : ℤ} (h : 0 ≤ t) (h' : t < millisPerDay) : IsTime (part .time · t) 0 t := by
  have htime := isTime_part (show TypeName.time ≠ .date by decide) t
  rwa [Int.ediv_eq_zero_of_lt h h'] at htime

theorem isTime_part_interval (h : type.isDayTimeInterval) {t : ℤ} (ht : 0 ≤ t) :
    IsTime (part type · t) (part type .day t) t := by
  have hday : part type .day t = t / millisPerDay := by
    rw [part_eq (of?_day_interval h)]
    exact Int.tdiv_eq_ediv_of_nonneg ht
  rw [hday]
  exact isTime_part (by rintro rfl; cases h) t

end Extraction

namespace Term

open Extraction

/-- EXTRACT takes timestamps, dates, times of day and day-time intervals apart: the parts of the clock and the fields
of the date, with quarter and day of the year, are those of the value, so that a timestamp is determined by them.
Fields of a date need a day that the calendar covers and overflow otherwise. -/
theorem program_run_extract (settings : Settings) (defs : List Term) {fields : List (String × SqlType)}
    {type : TypeName} {n b : Bool} {i : Nat} {name : String} (hi : fields[i]? = some (name, .plain type n))
    (hb : n = true → b = true) :
    ∃ part : TimeUnit → ℤ → ℤ,
      (∀ span : TimeSpan, span.start ∈ parts type →
        ∃ p, (Term.call (.builtin .extract) (.plain .bigInt b)
            [.symbol (.timeUnit span), .input i (.plain type n)]).program settings defs fields = .ok p ∧
          ∀ (row : List Value) (m : Machine), IsRow fields row → m.Unregistered routines →
            (row[i]? = some .null → ((p.run row).result m).1 = .ok .null) ∧
            ∀ t : Int64, row[i]? = some (.int t) →
              (Covered type span.start t.toInt →
                ∃ y : Int64, ((p.run row).result m).1 = .ok (.int y) ∧ y.toInt = part span.start t.toInt) ∧
              (¬Covered type span.start t.toInt → ∃ reason, ((p.run row).result m).1 = .error (.overflow reason))) ∧
      (type = .timestamp → ∀ t, IsTime (part · t) (t / millisPerDay) t) ∧
      (type = .time → ∀ t, 0 ≤ t → t < millisPerDay → IsTime (part · t) 0 t) ∧
      (type.isDayTimeInterval = true → ∀ t, 0 ≤ t → IsTime (part · t) (part .day t) t) ∧
      (type = .timestamp → ∀ t, IsDay (part · t) (t / millisPerDay)) ∧
      (type = .date → ∀ t, IsDay (part · t) t) ∧
      (type = .timestamp → ∀ t t', (∀ u ∈ [TimeUnit.year, .month, .day, .hour, .minute, .millisecond],
        part u t = part u t') → t = t') := by
  refine ⟨part type, fun span hspan => ?_, ?_, ?_, ?_, ?_, ?_, ?_⟩
  · obtain ⟨x, hx, houtcome⟩ := exists_outcome_eq hspan
    obtain ⟨htype, hzone⟩ : (type.isDatetime = true ∨ type.isInterval = true) ∧ type ≠ .timestampWithLocalTimeZone := by
      cases type <;> simp [parts, TypeName.isDayTimeInterval] at hspan <;> decide
    obtain ⟨p, hp, hrun⟩ := program_run hx hzone (TypeName.represents_word htype) settings defs hb hi
    refine ⟨p, hp, fun row m hrow hm => ⟨(hrun hrow hm).1, fun t ht => ?_⟩⟩
    obtain ⟨hok, hfault⟩ := houtcome t.toInt (Word.fits_toInt t)
    rw [(hrun hrow hm).2 ht]
    refine ⟨fun hc => ?_, hfault⟩
    obtain ⟨hpart, hfits⟩ := hok hc
    exact ⟨_, hpart, Word.toInt_ofInt hfits⟩
  · rintro rfl t
    exact isTime_part (by decide) t
  · rintro rfl t h h'
    exact isTime_part_time h h'
  · exact fun h t ht => isTime_part_interval h ht
  · rintro rfl t
    exact isDay_part_timestamp t
  · rintro rfl t
    exact isDay_part_date t
  · rintro rfl t t' h
    exact eq_of_parts_eq (isDay_part_timestamp t) (isDay_part_timestamp t') (isTime_part (by decide) t)
      (isTime_part (by decide) t') h

/-- The last millisecond before the epoch is 23:59:59.999 on 1969-12-31. -/
theorem program_run_extract_eve :
    let fields := [("t", SqlType.plain .timestamp true)]
    let extract := fun span => (Term.call (.builtin .extract) (.plain .bigInt true)
      [.symbol (.timeUnit span), .input 0 (.plain .timestamp true)]).program {} [] fields
    ∃ p q r, extract .year = .ok p ∧ extract .hour = .ok q ∧ extract .microsecond = .ok r ∧
      ((p.run [.int (-1)]).result {}).1 = .ok (.int 1969) ∧ ((q.run [.int (-1)]).result {}).1 = .ok (.int 23) ∧
      ((r.run [.int (-1)]).result {}).1 = .ok (.int 59999000) ∧ ((p.run [.null]).result {}).1 = .ok .null := by
  intro fields extract
  have hi : fields[0]? = some ("t", .plain .timestamp true) := rfl
  obtain ⟨part, hparts, htime, -, -, hday, -, -⟩ := program_run_extract {} [] (b := true) hi fun _ => rfl
  have hrow : IsRow fields [.int (-1)] := .cons ⟨rfl, fun h => by cases h⟩ .nil
  have hlibrary : ({} : Machine).Unregistered routines := fun g _ => rfl
  obtain ⟨p, hp, hyear⟩ := hparts .year (by decide)
  obtain ⟨q, hq, hhour⟩ := hparts .hour (by decide)
  obtain ⟨r, hr, hmicro⟩ := hparts .microsecond (by decide)
  have hcovered : ∀ u, Covered .timestamp u (-1) := fun u _ => Date.inCalendar_ofDays_iff.2 (by decide)
  obtain ⟨y, hy, hy'⟩ : ∃ y : Int64, _ ∧ y.toInt = part .year (-1) :=
    ((hyear _ {} hrow hlibrary).2 _ rfl).1 (hcovered _)
  obtain ⟨h, hh, hh'⟩ : ∃ y : Int64, _ ∧ y.toInt = part .hour (-1) :=
    ((hhour _ {} hrow hlibrary).2 _ rfl).1 (hcovered _)
  obtain ⟨s, hs, hs'⟩ : ∃ y : Int64, _ ∧ y.toInt = part .microsecond (-1) :=
    ((hmicro _ {} hrow hlibrary).2 _ rfl).1 (hcovered _)
  have heve : IsTime (part · (-1)) (-1) (-1) := htime rfl (-1)
  have hdate := hday rfl (-1)
  have hnewYear : Date.mk (part .year (-1)) (part .month (-1)) (part .day (-1)) = ⟨1969, 12, 31⟩ :=
    hdate.onCalendar.eq_of_toDays_eq ⟨by decide, by decide, by decide, by decide⟩ (hdate.toDays.trans (by decide))
  obtain ⟨⟨_, _⟩, ⟨_, _⟩, ⟨_, _⟩, _, _, _, _⟩ := heve
  obtain rfl : y = 1969 := Int64.toInt_inj.1 (hy'.trans (congrArg Date.year hnewYear))
  obtain rfl : h = 23 := Int64.toInt_inj.1 (hh'.trans (show _ = (23 : ℤ) by omega))
  obtain rfl : s = 59999000 := Int64.toInt_inj.1 (hs'.trans (show _ = (59999000 : ℤ) by omega))
  exact ⟨p, q, r, hp, hq, hr, hy, hh, hs, (hyear [.null] {} (.cons ⟨rfl, fun _ => rfl⟩ .nil) hlibrary).1 rfl⟩

/-- The 20th of May in the year 318857 is not covered by the calendar, so that the year of a timestamp on that day
overflows. -/
theorem program_run_extract_overflow :
    let fields := [("t", SqlType.plain .timestamp false)]
    ∃ p, (Term.call (.builtin .extract) (.plain .bigInt false)
        [.symbol (.timeUnit .year), .input 0 (.plain .timestamp false)]).program {} [] fields = .ok p ∧
      (∃ reason, ((p.run [.int 10000000000000000]).result {}).1 = .error (.overflow reason)) ∧
      (Date.mk 318857 5 20).OnCalendar ∧ (Date.mk 318857 5 20).toDays = 10000000000000000 / millisPerDay := by
  intro fields
  have hrow : IsRow fields [.int 10000000000000000] := .cons ⟨rfl, fun h => by cases h⟩ .nil
  have hi : fields[0]? = some ("t", .plain .timestamp false) := rfl
  obtain ⟨x, hx, houtcome⟩ := exists_outcome_eq (show TimeSpan.year.start ∈ parts .timestamp by decide)
  obtain ⟨p, hp, hrun⟩ := program_run hx (by decide) (TypeName.represents_word (.inl rfl)) {} [] id hi
  refine ⟨p, hp, ?_, ⟨by decide, by decide, by decide, by decide⟩, by decide⟩
  rw [(hrun hrow fun g _ => rfl).2 rfl]
  refine (houtcome _ (Word.fits_toInt _)).2 fun h => ?_
  exact absurd (Date.inCalendar_ofDays_iff.1 (h (by decide))) (by decide)

end Term

/-! ### Years, quarters and months of an interval -/

namespace Extraction

theorem twelve_mul_tdiv_add_emod (t : ℤ) :
    12 * t.tdiv 12 + t % 12 = if 0 ≤ t ∨ 12 ∣ t then t else t + 12 := by
  have hdiv := Int.mul_ediv_add_emod t 12
  rw [Int.tdiv_eq_ediv]
  split_ifs with h
  · omega
  · have hsign : Int.sign 12 = 1 := rfl
    omega

/-- The quarter is the one of a month that counts from one, so that the months 3, 6 and 9, which count from zero, are a
quarter behind. -/
theorem counted_quarter (t : ℤ) : counted .quarter 12 t =
    if t % 12 ∈ ([3, 6, 9] : List ℤ) then t % 12 / 3 else t % 12 / 3 + 1 := by
  show (t % 12 - 1).tdiv 3 + 1 = _
  have hnonneg : 0 ≤ t % 12 := Int.emod_nonneg t (by decide)
  have hlt : t % 12 < 12 := Int.emod_lt_of_pos t (by decide)
  generalize t % 12 = k at *
  interval_cases k <;> rfl

theorem program_run_count {type : TypeName} {span : TimeSpan} {larger : ℤ}
    (hx : of? type span.start = some (.count larger)) (hinterval : type.isInterval) (settings : Settings)
    (defs : List Term) {fields : List (String × SqlType)} {n b : Bool} (hb : n → b) {i : Nat}
    {name : String} (hi : fields[i]? = some (name, .plain type n)) :
    ∃ p, (Term.call (.builtin .extract) (.plain .bigInt b)
        [.symbol (.timeUnit span), .input i (.plain type n)]).program settings defs fields = .ok p ∧
      ∀ {row : List Value} {m : Machine}, IsRow fields row → m.Unregistered routines →
        (row[i]? = some .null → ((p.run row).result m).1 = .ok .null) ∧
        ∀ {t : Int64}, row[i]? = some (.int t) → ∃ y : Int64, ((p.run row).result m).1 = .ok (.int y) ∧
          y.toInt = counted span.start larger t.toInt := by
  have hzone : type ≠ .timestampWithLocalTimeZone := by
    rintro rfl
    cases hinterval
  obtain ⟨p, hp, hrun⟩ := program_run hx hzone (TypeName.represents_word (.inr hinterval)) settings defs hb hi
  refine ⟨p, hp, fun hrow hm => ?_⟩
  obtain ⟨hnull, hvalue⟩ := hrun hrow hm
  refine ⟨hnull, fun {t} ht => ⟨_, hvalue ht, Word.toInt_ofInt ?_⟩⟩
  exact fits_number_of_day?_eq_none hx (Word.fits_toInt t) rfl

end Extraction

namespace Term

open Extraction

/-- EXTRACT of years, months and quarters from a number of months. Years are rounded toward zero and months are never
negative, so that the two make up the interval unless it is negative and not a number of whole years, when they are a
year ahead. The months 0 to 2, 4, 5, 7, 8, 10 and 11 are in their quarter, and the first months of the other quarters
are still in the quarter before. -/
theorem program_run_extract_months (settings : Settings) (defs : List Term) {fields : List (String × SqlType)}
    {type : TypeName} (htype : type.isYearMonthInterval = true) {n b : Bool} {i : Nat} {name : String}
    (hi : fields[i]? = some (name, .plain type n)) (hb : n = true → b = true) :
    let extract := fun span => (Term.call (.builtin .extract) (.plain .bigInt b)
      [.symbol (.timeUnit span), .input i (.plain type n)]).program settings defs fields
    ∃ p q r, extract .year = .ok p ∧ extract .month = .ok q ∧ extract .quarter = .ok r ∧
      ∀ (row : List Value) (m : Machine), IsRow fields row → m.Unregistered routines →
        (row[i]? = some .null → ((p.run row).result m).1 = .ok .null ∧ ((q.run row).result m).1 = .ok .null ∧
          ((r.run row).result m).1 = .ok .null) ∧
        ∀ t : Int64, row[i]? = some (.int t) → ∃ year month quarter : Int64,
          ((p.run row).result m).1 = .ok (.int year) ∧ ((q.run row).result m).1 = .ok (.int month) ∧
          ((r.run row).result m).1 = .ok (.int quarter) ∧
          year.toInt = t.toInt.tdiv 12 ∧ month.toInt = t.toInt % 12 ∧
          12 * year.toInt + month.toInt = (if 0 ≤ t.toInt ∨ 12 ∣ t.toInt then t.toInt else t.toInt + 12) ∧
          quarter.toInt =
            if month.toInt ∈ ([3, 6, 9] : List ℤ) then month.toInt / 3 else month.toInt / 3 + 1 := by
  intro extract
  have hinterval : type.isInterval = true := by simp [TypeName.isInterval, htype]
  have hyear : of? type TimeSpan.year.start = some (.count 1) := if_pos hinterval
  have hmonth : of? type TimeSpan.month.start = some (.count 12) := if_pos hinterval
  have hquarter : of? type TimeSpan.quarter.start = some (.count 12) := if_pos hinterval
  obtain ⟨p, hp, hrunp⟩ := program_run_count hyear hinterval settings defs hb hi
  obtain ⟨q, hq, hrunq⟩ := program_run_count hmonth hinterval settings defs hb hi
  obtain ⟨r, hr, hrunr⟩ := program_run_count hquarter hinterval settings defs hb hi
  refine ⟨p, q, r, hp, hq, hr, fun row m hrow hm => ⟨fun hv => ?_, fun t ht => ?_⟩⟩
  · exact ⟨(hrunp hrow hm).1 hv, (hrunq hrow hm).1 hv, (hrunr hrow hm).1 hv⟩
  · obtain ⟨year, hyear, hyear'⟩ := (hrunp hrow hm).2 ht
    obtain ⟨month, hmonth, hmonth'⟩ := (hrunq hrow hm).2 ht
    obtain ⟨quarter, hquarter, hquarter'⟩ := (hrunr hrow hm).2 ht
    have hrest : month.toInt = t.toInt % 12 := hmonth'.trans (Int.tdiv_one _)
    have hquotient : year.toInt = t.toInt.tdiv 12 := hyear'
    refine ⟨year, month, quarter, hyear, hmonth, hquarter, hquotient, hrest, ?_, ?_⟩
    · rw [hquotient, hrest, twelve_mul_tdiv_add_emod]
    · rw [hrest]
      exact hquarter'.trans (counted_quarter t.toInt)

/-- Three months are in the first quarter, and minus one month is month 11 of the year zero. -/
theorem program_run_extract_months_third :
    let fields := [("m", SqlType.plain .intervalMonth false)]
    let extract := fun span => (Term.call (.builtin .extract) (.plain .bigInt false)
      [.symbol (.timeUnit span), .input 0 (.plain .intervalMonth false)]).program {} [] fields
    ∃ p q r, extract .year = .ok p ∧ extract .month = .ok q ∧ extract .quarter = .ok r ∧
      ((r.run [.int 3]).result {}).1 = .ok (.int 1) ∧ ((r.run [.int 4]).result {}).1 = .ok (.int 2) ∧
      ((p.run [.int (-1)]).result {}).1 = .ok (.int 0) ∧ ((q.run [.int (-1)]).result {}).1 = .ok (.int 11) := by
  intro fields extract
  have hi : fields[0]? = some ("m", .plain .intervalMonth false) := rfl
  have hrow : ∀ x : Int64, (Value.int x).Fits (.prim .i32) → IsRow fields [.int x] :=
    fun x hx => .cons ⟨hx, fun h => by cases h⟩ .nil
  obtain ⟨p, q, r, hp, hq, hr, hrun⟩ := program_run_extract_months {} [] rfl hi fun h => h
  have hlibrary : ({} : Machine).Unregistered routines := fun g _ => rfl
  obtain ⟨_, _, k, -, -, hk, -, hmonth, -, hk'⟩ := (hrun _ {} (hrow 3 rfl) hlibrary).2 3 rfl
  obtain rfl : k = 1 := Int64.toInt_inj.1 (by rw [hk', hmonth]; rfl)
  obtain ⟨_, _, k, -, -, hl, -, hmonth, -, hl'⟩ := (hrun _ {} (hrow 4 rfl) hlibrary).2 4 rfl
  obtain rfl : k = 2 := Int64.toInt_inj.1 (by rw [hl', hmonth]; rfl)
  obtain ⟨y, k, _, hy, hm, -, hy', hm', -, -⟩ := (hrun _ {} (hrow (-1) rfl) hlibrary).2 (-1) rfl
  obtain rfl : y = 0 := Int64.toInt_inj.1 (hy'.trans (by decide))
  obtain rfl : k = 11 := Int64.toInt_inj.1 (hm'.trans (by decide))
  exact ⟨p, q, r, hp, hq, hr, hk, hl, hy, hm⟩

end Term

end SqlCode
