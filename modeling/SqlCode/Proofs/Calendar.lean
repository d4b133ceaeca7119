import Mathlib.Tactic
import SqlCode.Routine.Temporal

/-!
# The calendar

Months are counted through, from January of the year zero. Each month starts where the one before it ends, so the
first days of the months cut the day numbers into intervals, and a date is a month together with a place in its
interval. What is said about dates follows from that.

* `Date.monthStart`: the first day of a month, and `Date.monthSize`, the number of its days;
* `Date.monthStart_succ`: each month starts where the one before it ends;
* `Date.onCalendar_ofDays`, `Date.toDays_ofDays`, `Date.ofDays_toDays`: dates and day numbers correspond;
* `Date.monthIndex_ofDays_iff`: the month of a day;
* `Date.InCalendar`: the months that dates range over;
* `Temporal.monthOfDay`: the month of a day number, with `Temporal.dateOf_of_inCalendar` and
  `Temporal.shiftMonths_of_inCalendar` for what the routines make of it.
-/

namespace SqlCode

variable {d : Date} {k n : ℤ}

namespace Date

/-- The month is one of a year, and the day is one of the month. -/
structure OnCalendar (d : Date) : Prop where
  one_le_month : 1 ≤ d.month
  month_le : d.month ≤ 12
  one_le_day : 1 ≤ d.day
  day_le : d.day ≤ monthLength d.year d.month

/-- The number of months from January of the year zero. -/
def monthIndex (d : Date) : ℤ := 12 * d.year + (d.month - 1)

/-- The first day of a month. -/
def firstOf (k : ℤ) : Date := ⟨k / 12, k % 12 + 1, 1⟩

/-- The number of days of a month. -/
def monthSize (k : ℤ) : ℤ := monthLength (k / 12) (k % 12 + 1)

/-- The day number of the first day of a month. -/
def monthStart (k : ℤ) : ℤ := (firstOf k).toDays

/-- The number of days of a year. -/
def yearLength (year : ℤ) : ℤ := if isLeap year then 366 else 365

/-! ### Lengths -/

theorem daysBeforeYear_succ (y : ℤ) : daysBeforeYear (y + 1) = daysBeforeYear y + yearLength y := by
  unfold daysBeforeYear yearLength isLeap
  simp only [decide_eq_true_eq]
  split_ifs <;> omega

theorem daysBeforeMonth_succ (y : ℤ) {m : ℤ} (h : 1 ≤ m) (h' : m ≤ 11) :
    daysBeforeMonth y (m + 1) = daysBeforeMonth y m + monthLength y m := by
  unfold daysBeforeMonth monthLength
  interval_cases m <;> cases isLeap y <;> rfl

theorem daysBeforeMonth_december (y : ℤ) : daysBeforeMonth y 12 + monthLength y 12 = yearLength y := by
  unfold daysBeforeMonth monthLength yearLength
  cases isLeap y <;> rfl

theorem monthLength_bounds (y m : ℤ) : 28 ≤ monthLength y m ∧ monthLength y m ≤ 31 := by
  unfold monthLength
  split_ifs <;> omega

theorem monthSize_bounds (k : ℤ) : 28 ≤ monthSize k ∧ monthSize k ≤ 31 := monthLength_bounds _ _

theorem monthStart_eq (k : ℤ) :
    monthStart k = daysBeforeYear (k / 12) + daysBeforeMonth (k / 12) (k % 12 + 1) - epoch := by
  show daysBeforeYear (k / 12) + daysBeforeMonth (k / 12) (k % 12 + 1) + (1 - 1) - epoch = _
  omega

theorem monthStart_succ (k : ℤ) : monthStart (k + 1) = monthStart k + monthSize k := by
  rw [monthStart_eq, monthStart_eq, monthSize]
  by_cases h : k % 12 = 11
  · have hyear : (k + 1) / 12 = k / 12 + 1 ∧ (k + 1) % 12 = 0 := by omega
    have hlength : daysBeforeMonth (k / 12) (11 + 1) + monthLength (k / 12) (11 + 1) = yearLength (k / 12) :=
      daysBeforeMonth_december (k / 12)
    have hjanuary : daysBeforeMonth (k / 12 + 1) (0 + 1) = 0 := rfl
    rw [hyear.1, hyear.2, h, daysBeforeYear_succ, hjanuary, ← hlength]
    omega
  · have hyear : (k + 1) / 12 = k / 12 ∧ (k + 1) % 12 = k % 12 + 1 := by omega
    rw [hyear.1, hyear.2, daysBeforeMonth_succ _ (by omega) (by omega)]
    omega

theorem strictMono_monthStart : StrictMono monthStart := by
  refine strictMono_int_of_lt_succ fun k => ?_
  have := monthSize_bounds k
  rw [monthStart_succ]
  omega

theorem onCalendar_firstOf (k : ℤ) : (firstOf k).OnCalendar := by
  have hsize := monthSize_bounds k
  exact ⟨show 1 ≤ k % 12 + 1 by omega, show k % 12 + 1 ≤ 12 by omega, le_rfl, show 1 ≤ monthSize k by omega⟩

theorem monthIndex_firstOf (k : ℤ) : (firstOf k).monthIndex = k := by
  show 12 * (k / 12) + (k % 12 + 1 - 1) = k
  omega

/-! ### Dates and day numbers -/

theorem daysBeforeYear_add_one (y : ℤ) : daysBeforeYear (y + 1) = 365 * y + y / 4 - y / 100 + y / 400 := by
  have hyear : y + 1 - 1 = y := by omega
  simp only [daysBeforeYear, hyear]

theorem isLeap_iff (y : ℤ) : isLeap y ↔ y % 4 = 0 ∧ (y % 100 ≠ 0 ∨ y % 400 = 0) := decide_eq_true_iff

/-- The cycles of 400, 100, 4 and 1 years that are taken off add up to the first day of the year. Only a leap year has
a day after its 365th. -/
theorem yearOf_bounds (n : ℤ) :
    daysBeforeYear (yearOf n) ≤ n ∧ n < daysBeforeYear (yearOf n) + yearLength (yearOf n) := by
  obtain ⟨q400, hq400⟩ : ∃ q, q = n / 146097 := ⟨_, rfl⟩
  obtain ⟨q100, hq100⟩ : ∃ q, q = min (n % 146097 / 36524) 3 := ⟨_, rfl⟩
  obtain ⟨q4, hq4⟩ : ∃ q, q = (n % 146097 - 36524 * q100) / 1461 := ⟨_, rfl⟩
  obtain ⟨q1, hq1⟩ : ∃ q, q = min ((n % 146097 - 36524 * q100) % 1461 / 365) 3 := ⟨_, rfl⟩
  have hyear : yearOf n = 400 * q400 + 100 * q100 + 4 * q4 + q1 + 1 := by
    rw [hq1, hq4, hq100, hq400]
    rfl
  have hbounds : 0 ≤ q100 ∧ q100 ≤ 3 ∧ 0 ≤ q4 ∧ q4 ≤ 24 ∧ 0 ≤ q1 ∧ q1 ≤ 3 := by omega
  have hbefore : daysBeforeYear (yearOf n) = 146097 * q400 + 36524 * q100 + 1461 * q4 + 365 * q1 := by
    rw [hyear, daysBeforeYear_add_one]
    clear hq400 hq100 hq4 hq1
    omega
  have hrest : 0 ≤ n - daysBeforeYear (yearOf n) ∧ (n - daysBeforeYear (yearOf n) ≤ 364 ∨
      n - daysBeforeYear (yearOf n) = 365 ∧ q1 = 3 ∧ (q4 ≤ 23 ∨ q100 = 3)) := by omega
  have hlength : 365 ≤ yearLength (yearOf n) := by
    unfold yearLength
    split_ifs <;> omega
  refine ⟨by omega, ?_⟩
  rcases hrest.2 with hday | ⟨hday, hleap⟩
  · omega
  · have hyearLength : yearLength (yearOf n) = 366 := if_pos ((isLeap_iff _).2 (by clear hq400 hq100 hq4 hq1; omega))
    omega

/-- The month of a day of the year: the last one that does not start after the day. -/
theorem monthOf_bounds {y o : ℤ} (h : 0 ≤ o) (h' : o < yearLength y) :
    (1 ≤ monthOf y o ∧ monthOf y o ≤ 12) ∧ daysBeforeMonth y (monthOf y o) ≤ o ∧
      o < daysBeforeMonth y (monthOf y o) + monthLength y (monthOf y o) := by
  have hjanuary : daysBeforeMonth y 1 = 0 := rfl
  have hdecember := daysBeforeMonth_december y
  have hnext : ∀ m ∈ ([1, 2, 3, 4, 5, 6, 7, 8, 9, 10, 11] : List ℤ),
      daysBeforeMonth y (m + 1) = daysBeforeMonth y m + monthLength y m := by
    intro m hm
    simp only [List.mem_cons, List.not_mem_nil, or_false] at hm
    exact daysBeforeMonth_succ y (by omega) (by omega)
  norm_num at hnext
  -- the months are tried from December on, and the month after the one that is found starts after the day
  simp only [monthOf, List.find?_cons, List.find?_nil]
  repeat' split
  all_goals
    simp only [decide_eq_true_eq, decide_eq_false_iff_not, Option.getD_some, Option.getD_none] at *
    omega

/-- Every day number is that of a date on the calendar. -/
theorem onCalendar_ofDays (n : ℤ) : (ofDays n).OnCalendar := by
  obtain ⟨hle, hlt⟩ := yearOf_bounds (n + epoch)
  obtain ⟨⟨hmonth, hmonth'⟩, hday, hday'⟩ := monthOf_bounds (y := yearOf (n + epoch))
    (o := n + epoch - daysBeforeYear (yearOf (n + epoch))) (by omega) (by omega)
  exact ⟨hmonth, hmonth', Int.le_add_of_nonneg_left (Int.sub_nonneg_of_le hday),
    Int.add_one_le_of_lt (Int.sub_left_lt_of_lt_add hday')⟩

theorem toDays_ofDays (n : ℤ) : (ofDays n).toDays = n := by
  unfold ofDays toDays
  simp only
  omega

theorem OnCalendar.firstOf_monthIndex (h : d.OnCalendar) : firstOf d.monthIndex = ⟨d.year, d.month, 1⟩ := by
  have := h.one_le_month
  have := h.month_le
  unfold firstOf monthIndex
  congr 1 <;> omega

/-- The day number of a date is a place in the interval of its month. -/
theorem OnCalendar.toDays_eq (h : d.OnCalendar) : d.toDays = monthStart d.monthIndex + (d.day - 1) := by
  rw [monthStart, h.firstOf_monthIndex]
  unfold toDays
  simp only
  omega

theorem OnCalendar.monthSize_monthIndex (h : d.OnCalendar) :
    monthSize d.monthIndex = monthLength d.year d.month := by
  show monthLength (firstOf d.monthIndex).year (firstOf d.monthIndex).month = _
  rw [h.firstOf_monthIndex]

theorem OnCalendar.monthIndex_eq_iff (h : d.OnCalendar) :
    d.monthIndex = k ↔ monthStart k ≤ d.toDays ∧ d.toDays < monthStart (k + 1) := by
  have heq := h.toDays_eq
  have hday := h.one_le_day
  have hday' := h.day_le
  have hnext := monthStart_succ d.monthIndex
  rw [h.monthSize_monthIndex] at hnext
  constructor
  · rintro rfl
    omega
  · rintro ⟨hle, hlt⟩
    have hlt' : monthStart d.monthIndex < monthStart (k + 1) := by omega
    have hlt'' : monthStart k < monthStart (d.monthIndex + 1) := by omega
    rw [strictMono_monthStart.lt_iff_lt] at hlt' hlt''
    omega

/-- A date on the calendar is a month together with a day of it. -/
theorem OnCalendar.ext {e : Date} (hd : d.OnCalendar) (he : e.OnCalendar) (hmonth : d.monthIndex = e.monthIndex)
    (hday : d.day = e.day) : d = e := by
  have hfirst : (⟨d.year, d.month, 1⟩ : Date) = ⟨e.year, e.month, 1⟩ := by
    rw [← hd.firstOf_monthIndex, hmonth, he.firstOf_monthIndex]
  obtain ⟨y, m, a⟩ := d
  obtain ⟨y', m', b⟩ := e
  simp only [Date.mk.injEq] at hfirst hday ⊢
  omega

theorem OnCalendar.eq_of_toDays_eq {e : Date} (hd : d.OnCalendar) (he : e.OnCalendar)
    (h : d.toDays = e.toDays) : d = e := by
  have hmonth : d.monthIndex = e.monthIndex := by rw [hd.monthIndex_eq_iff, h, ← he.monthIndex_eq_iff]
  rw [hd.toDays_eq, he.toDays_eq, hmonth] at h
  exact hd.ext he hmonth (by omega)

theorem ofDays_toDays (h : d.OnCalendar) : ofDays d.toDays = d :=
  (onCalendar_ofDays _).eq_of_toDays_eq h (toDays_ofDays _)

theorem monthIndex_ofDays_iff : (ofDays n).monthIndex = k ↔ monthStart k ≤ n ∧ n < monthStart (k + 1) := by
  rw [(onCalendar_ofDays n).monthIndex_eq_iff, toDays_ofDays]

theorem monotone_monthIndex_ofDays : Monotone fun n => (ofDays n).monthIndex := by
  intro n n' h
  obtain ⟨hle, -⟩ := monthIndex_ofDays_iff.1 (rfl : (ofDays n).monthIndex = _)
  obtain ⟨-, hlt⟩ := monthIndex_ofDays_iff.1 (rfl : (ofDays n').monthIndex = _)
  have hmonths : monthStart (ofDays n).monthIndex < monthStart ((ofDays n').monthIndex + 1) := by omega
  rw [strictMono_monthStart.lt_iff_lt] at hmonths
  exact Int.le_of_lt_add_one hmonths

/-! ### Months later -/

theorem monthIndex_addMonths (d : Date) (n : ℤ) : (d.addMonths n).monthIndex = d.monthIndex + n := by
  unfold addMonths monthIndex
  simp only
  omega

theorem day_addMonths (d : Date) (n : ℤ) :
    (d.addMonths n).day = min d.day (monthSize (d.monthIndex + n)) := rfl

theorem OnCalendar.addMonths (h : d.OnCalendar) (n : ℤ) : (d.addMonths n).OnCalendar := by
  have hday := h.one_le_day
  have hsize := monthSize_bounds (d.monthIndex + n)
  refine ⟨?_, ?_, ?_, min_le_right _ _⟩
  · show 1 ≤ (12 * d.year + (d.month - 1) + n) % 12 + 1
    omega
  · show (12 * d.year + (d.month - 1) + n) % 12 + 1 ≤ 12
    omega
  · rw [day_addMonths]
    omega

theorem OnCalendar.toDays_addMonths (h : d.OnCalendar) (n : ℤ) : (d.addMonths n).toDays =
    monthStart (d.monthIndex + n) + (min d.day (monthSize (d.monthIndex + n)) - 1) := by
  rw [(h.addMonths n).toDays_eq, monthIndex_addMonths, day_addMonths]

theorem addMonths_firstOf (k n : ℤ) : (firstOf k).addMonths n = firstOf (k + n) := by
  have hsize := monthSize_bounds (k + n)
  refine ((onCalendar_firstOf k).addMonths n).ext (onCalendar_firstOf (k + n)) ?_ ?_
  · rw [monthIndex_addMonths, monthIndex_firstOf, monthIndex_firstOf]
  · rw [day_addMonths, monthIndex_firstOf]
    exact min_eq_left (show 1 ≤ monthSize (k + n) by omega)

/-! ### The range of dates -/

/-- The month is in the range of dates. -/
def InCalendar (k : ℤ) : Prop := leastYear ≤ k / 12 ∧ k / 12 ≤ greatestYear

theorem OnCalendar.inRange_iff (h : d.OnCalendar) : d.inRange ↔ InCalendar d.monthIndex := by
  have hyear : d.monthIndex / 12 = d.year := congrArg Date.year h.firstOf_monthIndex
  rw [InCalendar, hyear]
  exact decide_eq_true_iff

theorem inCalendar_iff : InCalendar k ↔ -3145716 ≤ k ∧ k < 3145716 := by
  unfold InCalendar leastYear greatestYear
  omega

instance (k : ℤ) : Decidable (InCalendar k) := inferInstanceAs (Decidable (_ ∧ _))

theorem inCalendar_ofDays_iff : InCalendar (ofDays n).monthIndex ↔ -96465292 ≤ n ∧ n < 95026237 := by
  obtain ⟨hle, hlt⟩ := monthIndex_ofDays_iff.1 (rfl : (ofDays n).monthIndex = _)
  have hfirst : monthStart (-3145716) = -96465292 := by decide
  have hlast : monthStart 3145716 = 95026237 := by decide
  have hmono := strictMono_monthStart
  rw [inCalendar_iff, ← hfirst, ← hlast]
  constructor
  · rintro ⟨h, h'⟩
    exact ⟨(hmono.monotone h).trans hle, hlt.trans_le (hmono.monotone (by omega))⟩
  · rintro ⟨h, h'⟩
    have hleast := hmono.lt_iff_lt.1 (h.trans_lt hlt)
    have hgreatest := hmono.lt_iff_lt.1 (hle.trans_lt h')
    omega

end Date

namespace Temporal

open Date

/-- The month of a day, counted through. -/
def monthOfDay (d : ℤ) : ℤ := (ofDays d).monthIndex

theorem eq_monthStart_add (d : ℤ) : d = monthStart (monthOfDay d) + ((ofDays d).day - 1) := by
  conv_lhs => rw [← toDays_ofDays d]
  exact (onCalendar_ofDays d).toDays_eq

theorem monthOfDay_monthStart (k : ℤ) : monthOfDay (monthStart k) = k := by
  rw [monthOfDay, monthStart, ofDays_toDays (onCalendar_firstOf k), monthIndex_firstOf]

theorem dateOf_of_inCalendar (h : InCalendar (ofDays n).monthIndex) : dateOf n = .ok (ofDays n) := by
  unfold dateOf ofDays?
  simp only [(onCalendar_ofDays n).inRange_iff.2 h, if_true]

theorem exists_dateOf_overflow (h : ¬InCalendar (ofDays n).monthIndex) :
    ∃ reason, dateOf n = .error (.overflow reason) := by
  rw [← (onCalendar_ofDays n).inRange_iff] at h
  unfold dateOf ofDays?
  simp only [h, if_false, Bool.false_eq_true]
  exact ⟨_, rfl⟩

variable (hd : d.OnCalendar)
include hd

theorem shiftMonths_of_inCalendar (h : InCalendar (d.monthIndex + n)) : shiftMonths d n = .ok (d.addMonths n) := by
  rw [← monthIndex_addMonths, ← (hd.addMonths n).inRange_iff] at h
  unfold shiftMonths
  simp only [h, if_true]

theorem exists_shiftMonths_overflow (h : ¬InCalendar (d.monthIndex + n)) :
    ∃ reason, shiftMonths d n = .error (.overflow reason) := by
  rw [← monthIndex_addMonths, ← (hd.addMonths n).inRange_iff] at h
  unfold shiftMonths
  simp only [h, if_false, Bool.false_eq_true]
  exact ⟨_, rfl⟩

end Temporal

end SqlCode
