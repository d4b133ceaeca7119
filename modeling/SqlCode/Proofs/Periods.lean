import SqlCode.Proofs.Calendar

/-!
# Periods

Years, quarters, months, weeks, days and the parts of a day are consecutive periods: each ends where the next one
starts. So the start below a point is that of its own period, and the start above it is the point itself or the start
of the next period. The routines that round days look up both.
-/

namespace SqlCode

variable {d n size x : ℤ}

/-! ### Consecutive periods -/

/-- Consecutive periods: where they start, and in which one a point lies. -/
structure Periods where
  start : ℤ → ℤ
  index : ℤ → ℤ
  strictMono : StrictMono start
  start_le : ∀ x, start (index x) ≤ x
  lt_start : ∀ x, x < start (index x + 1)

namespace Periods

variable (p : Periods)

/-- A period starts at the point. -/
def IsStart (x : ℤ) : Prop := ∃ k, p.start k = x

/-- The start of the period that the point lies in. -/
def floor (x : ℤ) : ℤ := p.start (p.index x)

/-- The point itself if a period starts there, and otherwise the start of the next period. -/
def ceil (x : ℤ) : ℤ := if p.floor x = x then x else p.start (p.index x + 1)

theorem isGreatest_floor (x : ℤ) : IsGreatest {y | p.IsStart y ∧ y ≤ x} (p.floor x) := by
  refine ⟨⟨⟨_, rfl⟩, p.start_le x⟩, ?_⟩
  rintro _ ⟨⟨k, rfl⟩, hk⟩
  have hlt := p.strictMono.lt_iff_lt.1 (hk.trans_lt (p.lt_start x))
  exact p.strictMono.monotone (Int.lt_add_one_iff.1 hlt)

theorem isLeast_ceil (x : ℤ) : IsLeast {y | p.IsStart y ∧ x ≤ y} (p.ceil x) := by
  unfold ceil
  split_ifs with h
  · exact ⟨⟨⟨_, h⟩, le_rfl⟩, fun y hy => hy.2⟩
  · refine ⟨⟨⟨_, rfl⟩, (p.lt_start x).le⟩, ?_⟩
    rintro _ ⟨⟨k, rfl⟩, hk⟩
    have hlt : p.start (p.index x) < p.start k := (lt_of_le_of_ne (p.start_le x) h).trans_le hk
    exact p.strictMono.monotone (p.strictMono.lt_iff_lt.1 hlt)

theorem floor_le (x : ℤ) : p.floor x ≤ x := (p.isGreatest_floor x).1.2

theorem le_ceil (x : ℤ) : x ≤ p.ceil x := (p.isLeast_ceil x).1.2

theorem isStart_floor (x : ℤ) : p.IsStart (p.floor x) := (p.isGreatest_floor x).1.1

theorem isStart_ceil (x : ℤ) : p.IsStart (p.ceil x) := (p.isLeast_ceil x).1.1

theorem floor_eq_self_iff : p.floor x = x ↔ p.IsStart x :=
  ⟨fun h => h ▸ p.isStart_floor x, fun h => (p.floor_le x).antisymm ((p.isGreatest_floor x).2 ⟨h, le_rfl⟩)⟩

theorem ceil_eq_self_iff : p.ceil x = x ↔ p.IsStart x :=
  ⟨fun h => h ▸ p.isStart_ceil x, fun h => ((p.isLeast_ceil x).2 ⟨h, le_rfl⟩).antisymm (p.le_ceil x)⟩

theorem floor_floor (x : ℤ) : p.floor (p.floor x) = p.floor x := p.floor_eq_self_iff.2 (p.isStart_floor x)

theorem ceil_ceil (x : ℤ) : p.ceil (p.ceil x) = p.ceil x := p.ceil_eq_self_iff.2 (p.isStart_ceil x)

theorem monotone_floor : Monotone p.floor := fun x y h =>
  (p.isGreatest_floor y).2 ⟨p.isStart_floor x, (p.floor_le x).trans h⟩

theorem monotone_ceil : Monotone p.ceil := fun x y h =>
  (p.isLeast_ceil x).2 ⟨p.isStart_ceil y, h.trans (p.le_ceil y)⟩

/-- The start of a period, down or up. -/
def round (down : Bool) (x : ℤ) : ℤ := if down then p.floor x else p.ceil x

/-- A period for every point. -/
def points : Periods where
  start k := k
  index x := x
  strictMono := strictMono_id
  start_le _ := le_rfl
  lt_start := Int.lt_succ

/-- The periods on a coarser scale: the points of a period are those whose quotient lies in it. -/
def scaled (size : ℤ) (h : 0 < size) : Periods where
  start k := size * p.start k
  index x := p.index (x / size)
  strictMono := p.strictMono.const_mul h
  start_le x := (mul_le_mul_of_nonneg_left (p.start_le _) h.le).trans (Int.mul_ediv_self_le h.ne')
  lt_start x := by
    have hlt : x / size + 1 ≤ p.start (p.index (x / size) + 1) := p.lt_start _
    calc x < size * (x / size + 1) := by
          rw [mul_add, mul_one]
          exact Int.lt_mul_ediv_self_add h
      _ ≤ size * p.start (p.index (x / size) + 1) := mul_le_mul_of_nonneg_left hlt h.le

theorem isStart_scaled (h : 0 < size) :
    (p.scaled size h).IsStart x ↔ size ∣ x ∧ p.IsStart (x / size) := by
  constructor
  · rintro ⟨k, rfl⟩
    refine ⟨Dvd.intro _ rfl, k, ?_⟩
    exact (Int.mul_ediv_cancel_left _ h.ne').symm
  · rintro ⟨⟨q, rfl⟩, k, hk⟩
    rw [Int.mul_ediv_cancel_left _ h.ne'] at hk
    exact ⟨k, congrArg (size * ·) hk⟩

/-- The quotient by the scale, rounded down or up. -/
def quotient (down : Bool) (x size : ℤ) : ℤ := if down then x / size else -(-x / size)

theorem mul_quotient (down : Bool) (x : ℤ) (h : 0 < size) :
    size * quotient down x size = if down ∨ x % size = 0 then x - x % size else x - x % size + size := by
  have hsplit := Int.mul_ediv_add_emod x size
  unfold quotient
  cases down with
  | true =>
    simp only [true_or, if_true]
    omega
  | false =>
    simp only [Bool.false_eq_true, false_or, if_false]
    split_ifs with hdvd
    · rw [hdvd, add_zero] at hsplit
      rw [hdvd, sub_zero, ← hsplit, ← mul_neg, Int.mul_ediv_cancel_left _ h.ne', neg_neg]
    · have hmod := Int.emod_nonneg x h.ne'
      have hmod' := Int.emod_lt_of_pos x h
      have hup : -x / size = -(x / size) - 1 ∧ -x % size = size - x % size :=
        (Int.ediv_emod_unique h).2 ⟨by linear_combination -hsplit, by omega, by omega⟩
      rw [hup.1]
      linear_combination hsplit

/-- Rounding on a coarser scale can be done in two steps: the quotient is rounded to a whole number, and that number
to a start. -/
theorem round_scaled (down : Bool) (h : 0 < size) (x : ℤ) :
    (p.scaled size h).round down x = size * p.round down (quotient down x size) := by
  cases down with
  | true => rfl
  | false =>
    have hle : ∀ c : ℤ, x ≤ size * c ↔ -(-x / size) ≤ c := by
      intro c
      rw [neg_le, Int.le_ediv_iff_mul_le h, neg_mul, neg_le_neg_iff, mul_comm]
    refine ((p.scaled size h).isLeast_ceil x).unique ⟨⟨?_, (hle _).2 (p.le_ceil _)⟩, ?_⟩
    · obtain ⟨k, hk⟩ := p.isStart_ceil (-(-x / size))
      exact ⟨k, congrArg (size * ·) hk⟩
    · rintro _ ⟨⟨k, rfl⟩, hk⟩
      exact mul_le_mul_of_nonneg_left ((p.isLeast_ceil _).2 ⟨⟨k, rfl⟩, (hle _).1 hk⟩) h.le

theorem round_points (down : Bool) (x : ℤ) : points.round down x = x := by
  have hstart : points.IsStart x := ⟨x, rfl⟩
  cases down with
  | true => exact points.floor_eq_self_iff.2 hstart
  | false => exact points.ceil_eq_self_iff.2 hstart

open Date Temporal in
/-- Periods of a number of months. -/
def months (n : ℤ) (h : 0 < n) : Periods where
  start k := monthStart (n * k)
  index d := monthOfDay d / n
  strictMono := strictMono_monthStart.comp (strictMono_id.const_mul h)
  start_le d := by
    obtain ⟨hle, -⟩ := monthIndex_ofDays_iff.1 (rfl : monthOfDay d = _)
    exact (strictMono_monthStart.monotone (Int.mul_ediv_self_le h.ne')).trans hle
  lt_start d := by
    obtain ⟨-, hlt⟩ := monthIndex_ofDays_iff.1 (rfl : monthOfDay d = _)
    have hnext : monthOfDay d + 1 ≤ n * (monthOfDay d / n + 1) := by
      rw [mul_add, mul_one]
      exact Int.lt_mul_ediv_self_add h
    exact hlt.trans_le (strictMono_monthStart.monotone hnext)

open Date Temporal in
theorem isStart_months (h : 0 < n) :
    (months n h).IsStart d ↔ (ofDays d).day = 1 ∧ n ∣ monthOfDay d := by
  have hd := eq_monthStart_add d
  constructor
  · rintro ⟨k, rfl⟩
    have hmonth : monthOfDay ((months n h).start k) = n * k := monthOfDay_monthStart _
    rw [hmonth] at hd ⊢
    have hstart : (months n h).start k = monthStart (n * k) := rfl
    exact ⟨by omega, Dvd.intro _ rfl⟩
  · rintro ⟨hday, k, hk⟩
    refine ⟨k, ?_⟩
    rw [hday, sub_self, add_zero, hk] at hd
    exact hd.symm

/-- The weeks, which start on Sundays; 1970-01-04 is one. -/
def weeks : Periods where
  start k := 7 * k + 3
  index d := (d - 3) / 7
  strictMono := fun j k h => by
    show 7 * j + 3 < 7 * k + 3
    omega
  start_le d := by omega
  lt_start d := by omega

theorem isStart_weeks : weeks.IsStart d ↔ 7 ∣ d - 3 := by
  constructor
  · rintro ⟨k, rfl⟩
    exact ⟨k, by show 7 * k + 3 - 3 = _; omega⟩
  · rintro ⟨k, hk⟩
    exact ⟨k, by show 7 * k + 3 = _; omega⟩

end Periods

/-! ### Units -/

/-- The units whose periods are whole days. -/
inductive CalendarUnit
  | year
  | quarter
  | month
  | week
  | day
deriving DecidableEq, Repr

/-- The units whose periods are parts of a day. -/
inductive ClockUnit
  | hour
  | minute
  | second
  | millisecond
deriving DecidableEq, Repr

namespace ClockUnit

/-- The unit as a span. -/
def span : ClockUnit → TimeSpan
  | .hour => .hour
  | .minute => .minute
  | .second => .second
  | .millisecond => .millisecond

/-- The milliseconds of the unit. -/
def millis : ClockUnit → ℤ
  | .hour => 60 * 60 * 1000
  | .minute => 60 * 1000
  | .second => 1000
  | .millisecond => 1

theorem millis_pos (u : ClockUnit) : 0 < u.millis := by cases u <;> decide

/-- The periods of the unit, which start at its multiples. -/
def periods (u : ClockUnit) : Periods := Periods.points.scaled u.millis u.millis_pos

theorem isStart_periods (u : ClockUnit) : u.periods.IsStart x ↔ u.millis ∣ x := by
  rw [periods, Periods.isStart_scaled]
  exact and_iff_left ⟨_, rfl⟩

end ClockUnit

namespace CalendarUnit

open Date Temporal

/-- The unit as a span. -/
def span : CalendarUnit → TimeSpan
  | .year => .year
  | .quarter => .quarter
  | .month => .month
  | .week => .week
  | .day => .day

/-- The length of the periods that are counted in months. -/
def months? : CalendarUnit → Option ℤ
  | .year => some 12
  | .quarter => some 3
  | .month => some 1
  | .week | .day => none

/-- The day is the first one of a year, quarter, month or week; every day is the first of a day. -/
def Starts (u : CalendarUnit) (d : ℤ) : Prop :=
  match u with
  | .year => (ofDays d).month = 1 ∧ (ofDays d).day = 1
  | .quarter => (ofDays d).month ∈ ([1, 4, 7, 10] : List ℤ) ∧ (ofDays d).day = 1
  | .month => (ofDays d).day = 1
  | .week => 7 ∣ d - 3
  | .day => True

instance (u : CalendarUnit) (d : ℤ) : Decidable (u.Starts d) :=
  match u with
  | .year | .quarter => inferInstanceAs (Decidable (_ ∧ _))
  | .month => inferInstanceAs (Decidable (_ = _))
  | .week => inferInstanceAs (Decidable (_ ∣ _))
  | .day => inferInstanceAs (Decidable True)

/-- The periods of the unit. -/
def periods : CalendarUnit → Periods
  | .year => .months 12 (by decide)
  | .quarter => .months 3 (by decide)
  | .month => .months 1 (by decide)
  | .week => .weeks
  | .day => .points

theorem periods_of_months? {u : CalendarUnit} (h : u.months? = some n) :
    ∃ hn : 0 < n, u.periods = .months n hn := by
  cases u <;> cases h <;> exact ⟨by decide, rfl⟩

theorem isStart_periods (u : CalendarUnit) : u.periods.IsStart d ↔ u.Starts d := by
  have hmonth : monthOfDay d = 12 * (ofDays d).year + ((ofDays d).month - 1) := rfl
  have hle := (onCalendar_ofDays d).one_le_month
  have hle' := (onCalendar_ofDays d).month_le
  cases u with
  | year =>
    refine (Periods.isStart_months (by decide)).trans ?_
    simp only [Starts]
    omega
  | quarter =>
    refine (Periods.isStart_months (by decide)).trans ?_
    simp only [Starts, List.mem_cons, List.not_mem_nil, or_false]
    omega
  | month => exact (Periods.isStart_months (by decide)).trans (and_iff_left (one_dvd _))
  | week => exact Periods.isStart_weeks
  | day => exact iff_of_true ⟨d, rfl⟩ trivial

/-- The day is in the range of dates. If the periods are counted in months, so is the first month of the next
period. -/
def Covers (u : CalendarUnit) (d : ℤ) : Prop :=
  InCalendar (monthOfDay d) ∧ ∀ n ∈ u.months?, InCalendar (n * (monthOfDay d / n + 1))

instance (u : CalendarUnit) (d : ℤ) : Decidable (u.Covers d) := inferInstanceAs (Decidable (_ ∧ _))

/-- Rounding a date stays within a week or a year of the range: -262146-01-01 and 262147-01-01 are Sundays, so that
periods of all units start there. -/
theorem round_bounds (u : CalendarUnit) (down : Bool) (h : InCalendar (monthOfDay d)) :
    -96466388 ≤ u.periods.round down d ∧ u.periods.round down d ≤ 95027698 := by
  have hd := inCalendar_ofDays_iff.1 h
  have hlow : u.periods.IsStart (-96466388) := u.isStart_periods.2 (by cases u <;> decide)
  have hhigh : u.periods.IsStart 95027698 := u.isStart_periods.2 (by cases u <;> decide)
  cases down with
  | true =>
    exact ⟨(u.periods.isGreatest_floor d).2 ⟨hlow, by omega⟩, (u.periods.floor_le d).trans (by omega)⟩
  | false =>
    exact ⟨le_trans (by omega) (u.periods.le_ceil d), (u.periods.isLeast_ceil d).2 ⟨hhigh, by omega⟩⟩

end CalendarUnit

/-! ### Routines -/

namespace Temporal

open Date

variable {u : CalendarUnit}

theorem monthPeriod_of_inCalendar {k : ℤ} (h : InCalendar (k + n)) :
    monthPeriod (firstOf k).year (firstOf k).month n = .ok (monthStart k, monthStart (k + n)) := by
  show (shiftMonths (firstOf k) n >>= _) = _
  rw [shiftMonths_of_inCalendar (onCalendar_firstOf k) (by rwa [monthIndex_firstOf]), addMonths_firstOf]
  rfl

theorem exists_monthPeriod_overflow {k : ℤ} (h : ¬InCalendar (k + n)) :
    ∃ reason, monthPeriod (firstOf k).year (firstOf k).month n = .error (.overflow reason) := by
  obtain ⟨reason, hfault⟩ := exists_shiftMonths_overflow (onCalendar_firstOf k) (n := n) (by rwa [monthIndex_firstOf])
  refine ⟨reason, ?_⟩
  show (shiftMonths (firstOf k) n >>= _) = _
  rw [hfault]
  rfl

/-- Periods that are counted in months start with a month whose number is a multiple of their length. -/
theorem period_of_months? (hu : u.months? = some n) (h : InCalendar (monthOfDay d)) :
    period u.span.start d =
      monthPeriod (firstOf (n * (monthOfDay d / n))).year (firstOf (n * (monthOfDay d / n))).month n := by
  have hmonth : monthOfDay d = 12 * (ofDays d).year + ((ofDays d).month - 1) := rfl
  have hle := (onCalendar_ofDays d).one_le_month
  have hle' := (onCalendar_ofDays d).month_le
  unfold period
  rw [dateOf_of_inCalendar h]
  cases u <;> cases hu
  · show monthPeriod (ofDays d).year 1 12 = monthPeriod (_ / 12) (_ % 12 + 1) 12
    congr 1 <;> omega
  · show monthPeriod (ofDays d).year (((ofDays d).month - 1) / 3 * 3 + 1) 3 = monthPeriod (_ / 12) (_ % 12 + 1) 3
    congr 1 <;> omega
  · show monthPeriod (ofDays d).year (ofDays d).month 1 = monthPeriod (_ / 12) (_ % 12 + 1) 1
    congr 1 <;> omega

theorem period_of_covers (h : u.Covers d) :
    period u.span.start d = .ok (u.periods.floor d, u.periods.start (u.periods.index d + 1)) := by
  obtain ⟨hd, hnext⟩ := h
  cases hu : u.months? with
  | some n =>
    obtain ⟨hn, hperiods⟩ := CalendarUnit.periods_of_months? hu
    have hsum : n * (monthOfDay d / n) + n = n * (monthOfDay d / n + 1) := by ring
    rw [period_of_months? hu hd, monthPeriod_of_inCalendar (by rw [hsum]; exact hnext n hu), hsum, hperiods]
    rfl
  | none =>
    unfold period
    rw [dateOf_of_inCalendar hd]
    cases u with
    | week =>
      show Except.ok (d - (d + 4) % 7, d - (d + 4) % 7 + 7) =
        Except.ok (7 * ((d - 3) / 7) + 3, 7 * ((d - 3) / 7 + 1) + 3)
      congr 2 <;> omega
    | day => rfl
    | _ => cases hu

theorem exists_period_overflow (h : ¬u.Covers d) :
    ∃ reason, period u.span.start d = .error (.overflow reason) := by
  by_cases hd : InCalendar (monthOfDay d)
  · -- the day is a date, so that it is the next period that is out of range
    obtain ⟨n, hu, hnext⟩ : ∃ n, u.months? = some n ∧ ¬InCalendar (n * (monthOfDay d / n + 1)) := by
      by_contra hall
      push Not at hall
      exact h ⟨hd, hall⟩
    rw [period_of_months? hu hd]
    exact exists_monthPeriod_overflow (by rwa [← mul_add_one])
  · obtain ⟨reason, hfault⟩ := exists_dateOf_overflow hd
    refine ⟨reason, ?_⟩
    unfold period
    rw [hfault]
    rfl

theorem roundDate_of_covers (down : Bool) (h : u.Covers d) :
    roundDate u.span.start d down = .ok (u.periods.round down d) := by
  unfold roundDate
  rw [period_of_covers h]
  cases down with
  | true => rfl
  | false =>
    show Except.ok (if u.periods.floor d == d then u.periods.floor d else _) = Except.ok (u.periods.ceil d)
    unfold Periods.ceil
    by_cases hfloor : u.periods.floor d = d
    · simp [hfloor]
    · simp [hfloor]

theorem exists_roundDate_overflow (down : Bool) (h : ¬u.Covers d) :
    ∃ reason, roundDate u.span.start d down = .error (.overflow reason) := by
  obtain ⟨reason, hfault⟩ := exists_period_overflow h
  refine ⟨reason, ?_⟩
  unfold roundDate
  rw [hfault]
  rfl

theorem roundTimestamp_midnight (unit : TimeUnit) (down : Bool) (d : ℤ) :
    roundTimestamp unit (millisPerDay * d) down = (roundDate unit d down).map (millisPerDay * ·) := by
  have hday : millisPerDay * d / millisPerDay = d := Int.mul_ediv_cancel_left _ (by decide)
  have hmod : millisPerDay * d % millisPerDay = 0 := Int.mul_emod_right _ _
  unfold roundTimestamp
  simp only [hday, hmod]
  cases roundDate unit d down with
  | error e => rfl
  | ok n =>
    show Except.ok ((if !down && decide (0 ≠ 0) && n == d then d + 1 else n) * millisPerDay) = .ok (millisPerDay * n)
    simp [mul_comm]

theorem exists_roundTimestamp_overflow (down : Bool) {t : ℤ} (h : ¬u.Covers (t / millisPerDay)) :
    ∃ reason, roundTimestamp u.span.start t down = .error (.overflow reason) := by
  obtain ⟨reason, hfault⟩ := exists_roundDate_overflow down h
  refine ⟨reason, ?_⟩
  unfold roundTimestamp
  simp only [hfault]
  rfl

/-- A timestamp next to the ends of the 64-bit range may wrap when it is rounded to a midnight. Neither day is a date
then. -/
theorem covers_midnight_iff {down : Bool} {t : Int64} (hd : d = Periods.quotient down t.toInt millisPerDay) :
    u.Covers ((Int64.ofInt (millisPerDay * d)).toInt / millisPerDay) ↔ u.Covers d := by
  by_cases hfits : Word.Fits (millisPerDay * d)
  · rw [Word.toInt_ofInt hfits, Int.mul_ediv_cancel_left _ (by decide)]
  · have hbounds := Int64.le_toInt t
    have hbounds' := Int64.toInt_lt t
    have hout : ¬InCalendar (monthOfDay d) ∧
        ¬InCalendar (monthOfDay ((Int64.ofInt (millisPerDay * d)).toInt / millisPerDay)) := by
      have hsize : ((Int64.size : ℕ) : ℤ) = 18446744073709551616 := rfl
      unfold monthOfDay
      rw [inCalendar_ofDays_iff, inCalendar_ofDays_iff, Int64.toInt_ofInt, Int.bmod_def, hsize]
      simp only [Word.fits_iff, millisPerDay] at hfits
      unfold millisPerDay at *
      unfold Periods.quotient at hd
      split at hd <;> split <;> omega
    exact iff_of_false (fun h => hout.2 h.1) fun h => hout.1 h.1

end Temporal

end SqlCode
