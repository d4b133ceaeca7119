import SqlCode.Proofs.Calendar
import SqlCode.Routine.Library

/-!
# Month arithmetic

Adding months to a date moves it to another month and keeps the day, or takes the last day if the month is too short.
A timestamp keeps its time of day as well. The number of months between two timestamps is found by counting down
from the difference of their months.
-/

namespace SqlCode

variable {d n t u : ℤ} {r : Int64}

namespace Temporal

open Date

/-- The day some months later. -/
def dayLater (d n : ℤ) : ℤ := ((ofDays d).addMonths n).toDays

/-- The timestamp some months later, with the same time of day. -/
def timeLater (t n : ℤ) : ℤ := dayLater (t / millisPerDay) n * millisPerDay + t % millisPerDay

/-! ### Days some months later -/

theorem ofDays_dayLater (d n : ℤ) : ofDays (dayLater d n) = (ofDays d).addMonths n :=
  ofDays_toDays ((onCalendar_ofDays d).addMonths n)

theorem monthOfDay_dayLater (d n : ℤ) : monthOfDay (dayLater d n) = monthOfDay d + n := by
  rw [monthOfDay, ofDays_dayLater, monthIndex_addMonths, monthOfDay]

theorem day_dayLater (d n : ℤ) :
    (ofDays (dayLater d n)).day = min (ofDays d).day (monthSize (monthOfDay d + n)) := by
  rw [ofDays_dayLater, day_addMonths, monthOfDay]

theorem dayLater_eq (d n : ℤ) : dayLater d n =
    monthStart (monthOfDay d + n) + (min (ofDays d).day (monthSize (monthOfDay d + n)) - 1) :=
  (onCalendar_ofDays d).toDays_addMonths n

theorem day_le_monthSize (d : ℤ) : (ofDays d).day ≤ monthSize (monthOfDay d) := by
  rw [monthOfDay, (onCalendar_ofDays d).monthSize_monthIndex]
  exact (onCalendar_ofDays d).day_le

theorem dayLater_zero (d : ℤ) : dayLater d 0 = d := by
  have hsize := day_le_monthSize d
  conv_rhs => rw [eq_monthStart_add d]
  rw [dayLater_eq, add_zero, min_eq_left hsize]

theorem monthStart_le_dayLater (d n : ℤ) :
    monthStart (monthOfDay d + n) ≤ dayLater d n ∧ dayLater d n < monthStart (monthOfDay d + n + 1) :=
  monthIndex_ofDays_iff.1 (monthOfDay_dayLater d n)

theorem strictMono_dayLater (d : ℤ) : StrictMono (dayLater d) := by
  refine strictMono_int_of_lt_succ fun n => ?_
  have hlt := (monthStart_le_dayLater d n).2
  have hle := (monthStart_le_dayLater d (n + 1)).1
  rw [← add_assoc] at hle
  omega

/-- A later day stays later or lands on the same day: in one month the shorter days stay in order, and later months
stay later. -/
theorem monotone_dayLater (n : ℤ) : Monotone fun d => dayLater d n := by
  intro d d' h
  show dayLater d n ≤ dayLater d' n
  rcases (monotone_monthIndex_ofDays h).lt_or_eq with hlt | heq
  · have hmonth : monthOfDay d + n + 1 ≤ monthOfDay d' + n := by
      have : monthOfDay d < monthOfDay d' := hlt
      omega
    have hend := (monthStart_le_dayLater d n).2
    have hstart := (monthStart_le_dayLater d' n).1
    exact hend.le.trans ((strictMono_monthStart.monotone hmonth).trans hstart)
  · have hmonth : monthOfDay d = monthOfDay d' := heq
    have hd := eq_monthStart_add d
    have hd' := eq_monthStart_add d'
    rw [dayLater_eq, dayLater_eq, ← hmonth]
    rw [← hmonth] at hd'
    have hday : (ofDays d).day ≤ (ofDays d').day := by omega
    have := min_le_min_right (monthSize (monthOfDay d + n)) hday
    omega

/-- Going forth and back does not go past the day. -/
theorem dayLater_dayLater_neg_le (d n : ℤ) : dayLater (dayLater d n) (-n) ≤ d := by
  conv_rhs => rw [eq_monthStart_add d]
  rw [dayLater_eq, monthOfDay_dayLater, day_dayLater, add_neg_cancel_right]
  have hle : min (min (ofDays d).day (monthSize (monthOfDay d + n))) (monthSize (monthOfDay d)) ≤ (ofDays d).day :=
    (min_le_left _ _).trans (min_le_left _ _)
  omega

/-! ### Timestamps some months later -/

theorem timeLater_div (t n : ℤ) : timeLater t n / millisPerDay = dayLater (t / millisPerDay) n := by
  unfold timeLater millisPerDay
  omega

theorem timeLater_mod (t n : ℤ) : timeLater t n % millisPerDay = t % millisPerDay := by
  unfold timeLater millisPerDay
  omega

theorem timeLater_midnight (d n : ℤ) : timeLater (d * millisPerDay) n = dayLater d n * millisPerDay := by
  have hday : d * millisPerDay / millisPerDay = d ∧ d * millisPerDay % millisPerDay = 0 := by
    unfold millisPerDay
    omega
  rw [timeLater, hday.1, hday.2, add_zero]

theorem timeLater_zero (t : ℤ) : timeLater t 0 = t := by
  rw [timeLater, dayLater_zero]
  unfold millisPerDay
  omega

theorem strictMono_timeLater (t : ℤ) : StrictMono (timeLater t) := by
  intro n n' h
  have hday := strictMono_dayLater (t / millisPerDay) h
  unfold timeLater millisPerDay at *
  omega

/-- Past the month of a timestamp, every timestamp is later. -/
theorem lt_timeLater
    (h : monthOfDay (u / millisPerDay) < monthOfDay (t / millisPerDay) + n) : u < timeLater t n := by
  have hend := (monthIndex_ofDays_iff.1 (rfl : (ofDays (u / millisPerDay)).monthIndex = _)).2
  have hstart := (monthStart_le_dayLater (t / millisPerDay) n).1
  have hmono := strictMono_monthStart.monotone (show monthOfDay (u / millisPerDay) + 1 ≤ _ from h)
  have hday : u / millisPerDay < dayLater (t / millisPerDay) n := hend.trans_le (hmono.trans hstart)
  unfold timeLater millisPerDay at *
  omega

/-! ### Months between timestamps -/

/-- The loop finds the greatest number of months after which the date is not past the limit. -/
theorem isGreatest_settleMonths {limit : ℤ} (hle : t ≤ limit) {N : ℕ}
    (hrange : ∀ k : ℕ, k ≤ N → InCalendar (monthOfDay (t / millisPerDay) + k)) :
    ∃ m : ℕ, settleMonths (ofDays (t / millisPerDay)) (t % millisPerDay) limit N = .ok m ∧
      IsGreatest {k : ℕ | k ≤ N ∧ timeLater t k ≤ limit} m := by
  induction N with
  | zero =>
    refine ⟨0, rfl, ⟨le_rfl, ?_⟩, fun k hk => hk.1⟩
    rw [Nat.cast_zero, timeLater_zero]
    exact hle
  | succ N ih =>
    have hshift : shiftMonths (ofDays (t / millisPerDay)) ((N : ℤ) + 1) =
        .ok ((ofDays (t / millisPerDay)).addMonths ((N : ℤ) + 1)) :=
      shiftMonths_of_inCalendar (onCalendar_ofDays _) (by exact_mod_cast hrange (N + 1) le_rfl)
    have hstep : settleMonths (ofDays (t / millisPerDay)) (t % millisPerDay) limit (N + 1) =
        if timeLater t ((N : ℤ) + 1) > limit
        then settleMonths (ofDays (t / millisPerDay)) (t % millisPerDay) limit N else .ok (N + 1) := by
      rw [settleMonths, hshift]
      rfl
    rw [hstep]
    by_cases h : timeLater t ((N : ℤ) + 1) > limit
    · obtain ⟨m, hm, hgreatest⟩ := ih fun k hk => hrange k (by omega)
      refine ⟨m, by rw [if_pos h, hm], ⟨⟨by have := hgreatest.1.1; omega, hgreatest.1.2⟩, fun k hk => ?_⟩⟩
      -- the longest number of months is out, so that all others are among the shorter ones
      have hne : k ≠ N + 1 := by
        rintro rfl
        exact absurd hk.2 (by push_cast; omega)
      exact hgreatest.2 ⟨by have := hk.1; omega, hk.2⟩
    · exact ⟨N + 1, by rw [if_neg h], ⟨le_rfl, by push_cast; omega⟩, fun k hk => hk.1⟩

theorem isGreatest_monthsBetween (hle : t ≤ u) (ht : InCalendar (monthOfDay (t / millisPerDay)))
    (hu : InCalendar (monthOfDay (u / millisPerDay))) :
    ∃ m : ℤ, monthsBetween u t = .ok m ∧ IsGreatest {k | 0 ≤ k ∧ timeLater t k ≤ u} m := by
  have hday : t / millisPerDay ≤ u / millisPerDay := Int.ediv_le_ediv (by decide) hle
  have hmonth : monthOfDay (t / millisPerDay) ≤ monthOfDay (u / millisPerDay) := monotone_monthIndex_ofDays hday
  obtain ⟨N, hN⟩ : ∃ N : ℕ, monthOfDay (u / millisPerDay) = monthOfDay (t / millisPerDay) + N :=
    (Int.le.dest hmonth).imp fun _ h => h.symm
  have hrange : ∀ k : ℕ, k ≤ N → InCalendar (monthOfDay (t / millisPerDay) + k) := by
    intro k hk
    rw [inCalendar_iff] at *
    omega
  obtain ⟨m, hm, hgreatest⟩ := isGreatest_settleMonths hle hrange
  have hcount : ((ofDays (u / millisPerDay)).year - (ofDays (t / millisPerDay)).year) * 12 +
      (ofDays (u / millisPerDay)).month - (ofDays (t / millisPerDay)).month = N := by
    unfold monthOfDay monthIndex at hN
    omega
  refine ⟨m, ?_, ⟨by omega, hgreatest.1.2⟩, fun k hk => ?_⟩
  · unfold monthsBetween
    rw [dateOf_of_inCalendar hu, dateOf_of_inCalendar ht]
    show (settleMonths _ _ _ (Int.toNat _)).map Int.ofNat = _
    rw [hcount, Int.toNat_natCast, hm]
    rfl
  · obtain ⟨k, rfl⟩ := Int.eq_ofNat_of_zero_le hk.1
    have hN' : k ≤ N := by
      by_contra hlt
      exact absurd hk.2 (not_le.2 (lt_timeLater (by omega)))
    exact_mod_cast hgreatest.2 ⟨hN', hk.2⟩

theorem timeLater_timeLater_neg_le (t n : ℤ) : timeLater (timeLater t n) (-n) ≤ t := by
  have hday := dayLater_dayLater_neg_le (t / millisPerDay) n
  rw [timeLater, timeLater_div, timeLater_mod]
  unfold millisPerDay at *
  omega

theorem exists_subtractMonths (hle : t ≤ u) (ht : InCalendar (monthOfDay (t / millisPerDay)))
    (hu : InCalendar (monthOfDay (u / millisPerDay))) :
    ∃ m : ℤ, subtractMonths u t = .ok m ∧ subtractMonths t u = .ok (-m) ∧
      IsGreatest {k | 0 ≤ k ∧ timeLater t k ≤ u} m := by
  obtain ⟨m, hm, hgreatest⟩ := isGreatest_monthsBetween hle ht hu
  refine ⟨m, by rw [subtractMonths, if_neg (not_lt.2 hle), hm], ?_, hgreatest⟩
  rcases hle.lt_or_eq with hlt | rfl
  · rw [subtractMonths, if_pos hlt, hm]
    rfl
  · have hzero : m = 0 := by
      have hpos := hgreatest.1.1
      have hback : timeLater t m ≤ timeLater t 0 := by
        rw [timeLater_zero]
        exact hgreatest.1.2
      have := (strictMono_timeLater t).le_iff_le.1 hback
      omega
    rw [subtractMonths, if_neg (lt_irrefl t), hm, hzero]
    rfl

/-- The difference takes an addition of months back. -/
theorem subtractMonths_timeLater (ht : InCalendar (monthOfDay (t / millisPerDay)))
    (hn : InCalendar (monthOfDay (t / millisPerDay) + n)) : subtractMonths (timeLater t n) t = .ok n := by
  have hlater : InCalendar (monthOfDay (timeLater t n / millisPerDay)) := by
    rwa [timeLater_div, monthOfDay_dayLater]
  have hmono := strictMono_timeLater t
  rcases le_or_gt 0 n with hpos | hneg
  · have hle : t ≤ timeLater t n := by
      conv_lhs => rw [← timeLater_zero t]
      exact hmono.monotone hpos
    obtain ⟨m, hm, -, hgreatest⟩ := exists_subtractMonths hle ht hlater
    have hn' : IsGreatest {k | 0 ≤ k ∧ timeLater t k ≤ timeLater t n} n :=
      ⟨⟨hpos, le_rfl⟩, fun k hk => hmono.le_iff_le.1 hk.2⟩
    rw [hm, hgreatest.unique hn']
  · have hle : timeLater t n ≤ t := by
      conv_rhs => rw [← timeLater_zero t]
      exact hmono.monotone hneg.le
    obtain ⟨m, -, hm, hgreatest⟩ := exists_subtractMonths hle hlater ht
    have hn' : IsGreatest {k | 0 ≤ k ∧ timeLater (timeLater t n) k ≤ t} (-n) := by
      refine ⟨⟨by omega, timeLater_timeLater_neg_le t n⟩, fun k hk => ?_⟩
      by_contra hlt
      refine absurd hk.2 (not_le.2 (lt_timeLater ?_))
      rw [timeLater_div, monthOfDay_dayLater]
      omega
    rw [hm, hgreatest.unique hn', neg_neg]

/-! ### What the functions give -/

/-- Adding months fails exactly outside the range of dates. -/
theorem addMonths_eq_ok_iff {r : ℤ} : addMonths d n = .ok r ↔
    InCalendar (monthOfDay d) ∧ InCalendar (monthOfDay d + n) ∧ r = dayLater d n := by
  by_cases hd : InCalendar (monthOfDay d)
  · have hdate : addMonths d n = shiftMonths (ofDays d) n >>= fun s => .ok s.toDays := by
      rw [addMonths, dateOf_of_inCalendar hd]
      rfl
    rw [hdate]
    by_cases hn : InCalendar (monthOfDay d + n)
    · rw [shiftMonths_of_inCalendar (onCalendar_ofDays d) hn]
      show Except.ok (dayLater d n) = _ ↔ _
      simp [hd, hn, eq_comm]
    · obtain ⟨reason, hfault⟩ := exists_shiftMonths_overflow (onCalendar_ofDays d) hn
      rw [hfault]
      exact iff_of_false (by rintro ⟨⟩) fun h => hn h.2.1
  · obtain ⟨reason, hfault⟩ := exists_dateOf_overflow hd
    rw [addMonths, hfault]
    exact iff_of_false (by rintro ⟨⟩) fun h => hd h.1

theorem addMonthsToTimestamp_eq_ok_iff {r : ℤ} : Routine.addMonthsToTimestamp t n = .ok r ↔
    InCalendar (monthOfDay (t / millisPerDay)) ∧ InCalendar (monthOfDay (t / millisPerDay) + n) ∧
      r = timeLater t n := by
  unfold Routine.addMonthsToTimestamp
  cases h : addMonths (t / millisPerDay) n with
  | error e =>
    refine iff_of_false (by rintro ⟨⟩) fun h' => ?_
    cases h.symm.trans (addMonths_eq_ok_iff.2 ⟨h'.1, h'.2.1, rfl⟩)
  | ok x =>
    obtain ⟨ht, hn, rfl⟩ := addMonths_eq_ok_iff.1 h
    show Except.ok (timeLater t n) = _ ↔ _
    simp [ht, hn, eq_comm]

theorem lastDay_eq (hd : InCalendar (monthOfDay d)) :
    lastDay d = shiftMonths (firstOf (monthOfDay d)) 1 >>= fun s => .ok (s.toDays - 1) := by
  rw [lastDay, dateOf_of_inCalendar hd, monthOfDay, (onCalendar_ofDays d).firstOf_monthIndex]
  rfl

/-- The last day of a month comes before the first day of the next one, which must be in the range of dates. -/
theorem lastDay_of_inCalendar (hd : InCalendar (monthOfDay d)) (hnext : InCalendar (monthOfDay d + 1)) :
    lastDay d = .ok (monthStart (monthOfDay d + 1) - 1) := by
  rw [lastDay_eq hd, shiftMonths_of_inCalendar (onCalendar_firstOf _) (by rwa [monthIndex_firstOf]), addMonths_firstOf]
  rfl

theorem exists_lastDay_overflow (hd : InCalendar (monthOfDay d)) (hnext : ¬InCalendar (monthOfDay d + 1)) :
    ∃ reason, lastDay d = .error (.overflow reason) := by
  obtain ⟨reason, hfault⟩ := exists_shiftMonths_overflow (onCalendar_firstOf (monthOfDay d))
    (n := 1) (by rwa [monthIndex_firstOf])
  rw [lastDay_eq hd, hfault]
  exact ⟨reason, rfl⟩

/-- Timestamps in the range of dates are words. -/
theorem fits_of_inCalendar_div (h : InCalendar (monthOfDay (t / millisPerDay))) : Word.Fits t := by
  have := inCalendar_ofDays_iff.1 h
  unfold millisPerDay at this
  rw [Word.fits_iff]
  omega

theorem fits_of_inCalendar (h : InCalendar (monthOfDay d)) : Word.Fits d := by
  have := inCalendar_ofDays_iff.1 h
  rw [Word.fits_iff]
  omega

/-- The day lies a number of months after another one, on the same day of the month or on the last one. -/
def IsLater (d n r : ℤ) : Prop :=
  monthOfDay r = monthOfDay d + n ∧
    (ofDays r).day = min (ofDays d).day (monthLength (ofDays r).year (ofDays r).month)

theorem isLater_dayLater (d n : ℤ) : IsLater d n (dayLater d n) := by
  refine ⟨monthOfDay_dayLater d n, ?_⟩
  rw [← (onCalendar_ofDays _).monthSize_monthIndex, day_dayLater]
  show _ = min _ (monthSize (monthOfDay (dayLater d n)))
  rw [monthOfDay_dayLater]

end Temporal

/-! ### Routines -/

namespace Routine

open Date Temporal

/-- What a routine of the library gives for integers. -/
def onWords (name : String) (ns : List Int64) : Except Fault Value :=
  match find? name with
  | some r => r (ns.map .int)
  | none => .error (.unknownRoutine name)

theorem map_wordResult_eq_ok_iff {o : Except Fault ℤ} (hfits : ∀ x, o = .ok x → Word.Fits x) :
    o.map wordResult = .ok (.int r) ↔ o = .ok r.toInt := by
  cases o with
  | error e => exact iff_of_false (by rintro ⟨⟩) (by rintro ⟨⟩)
  | ok x =>
    show Except.ok (Value.int (Int64.ofInt x)) = _ ↔ _
    simp only [Except.ok.injEq, Value.int.injEq]
    constructor
    · rintro rfl
      exact (Word.toInt_ofInt (hfits x rfl)).symm
    · rintro rfl
      exact Int64.ofInt_toInt r

theorem addMonthsInt_eq_ok_iff {d n : Int64} : onWords "addMonthsInt" [d, n] = .ok (.int r) ↔
    InCalendar (monthOfDay d.toInt) ∧ InCalendar (monthOfDay d.toInt + n.toInt) ∧
      r.toInt = dayLater d.toInt n.toInt := by
  rw [show onWords "addMonthsInt" [d, n] = (Temporal.addMonths d.toInt n.toInt).map wordResult from rfl,
    map_wordResult_eq_ok_iff, addMonths_eq_ok_iff]
  intro x hx
  obtain ⟨-, hn, rfl⟩ := addMonths_eq_ok_iff.1 hx
  exact fits_of_inCalendar (by rwa [monthOfDay_dayLater])

theorem addMonths_eq_ok_iff {t n : Int64} : onWords "addMonths" [t, n] = .ok (.int r) ↔
    InCalendar (monthOfDay (t.toInt / millisPerDay)) ∧
      InCalendar (monthOfDay (t.toInt / millisPerDay) + n.toInt) ∧ r.toInt = timeLater t.toInt n.toInt := by
  rw [show onWords "addMonths" [t, n] = (addMonthsToTimestamp t.toInt n.toInt).map wordResult from rfl,
    map_wordResult_eq_ok_iff, addMonthsToTimestamp_eq_ok_iff]
  intro x hx
  obtain ⟨-, hn, rfl⟩ := addMonthsToTimestamp_eq_ok_iff.1 hx
  exact fits_of_inCalendar_div (by rwa [timeLater_div, monthOfDay_dayLater])

theorem exists_map_subtractMonths (hle : t ≤ u) (ht : InCalendar (monthOfDay (t / millisPerDay)))
    (hu : InCalendar (monthOfDay (u / millisPerDay))) :
    ∃ m : Int64, (Temporal.subtractMonths u t).map wordResult = .ok (.int m) ∧
      (Temporal.subtractMonths t u).map wordResult = .ok (.int (-m)) ∧
      IsGreatest {k | 0 ≤ k ∧ timeLater t k ≤ u} m.toInt ∧ u < timeLater t (m.toInt + 1) := by
  obtain ⟨m, hm, hm', hgreatest⟩ := exists_subtractMonths hle ht hu
  have hfits : Word.Fits m := by
    have hbound := inCalendar_iff.1 ht
    have hbound' := inCalendar_iff.1 hu
    have hpos := hgreatest.1.1
    have hmonths : ¬monthOfDay (u / millisPerDay) < monthOfDay (t / millisPerDay) + m := fun h =>
      absurd hgreatest.1.2 (not_le.2 (lt_timeLater h))
    rw [Word.fits_iff]
    omega
  refine ⟨Int64.ofInt m, by rw [hm]; rfl, ?_, ?_, ?_⟩
  · rw [hm', ← Int64.ofInt_neg]
    rfl
  · rwa [Word.toInt_ofInt hfits]
  · rw [Word.toInt_ofInt hfits]
    by_contra hge
    have hnext : m + 1 ≤ m := hgreatest.2 ⟨by have := hgreatest.1.1; omega, not_lt.1 hge⟩
    omega

theorem subtractMonths_addMonths (ht : InCalendar (monthOfDay (t / millisPerDay)))
    (hn : InCalendar (monthOfDay (t / millisPerDay) + n)) :
    (Temporal.subtractMonths (timeLater t n) t).map wordResult = .ok (.int (Int64.ofInt n)) := by
  rw [subtractMonths_timeLater ht hn]
  rfl

theorem mul_millisPerDay_div (d : ℤ) : d * millisPerDay / millisPerDay = d :=
  Int.mul_ediv_cancel d (by decide)

section Words

variable {d e n t u t' n' d' r' : Int64}

theorem onWords_subtractMonths (hd : InCalendar (monthOfDay d.toInt)) (he : InCalendar (monthOfDay e.toInt)) :
    onWords "subtractMonths" [e, d] = (Temporal.subtractMonths (e.toInt * millisPerDay)
      (d.toInt * millisPerDay)).map wordResult := by
  have hfits : ∀ {x : ℤ}, InCalendar (monthOfDay x) →
      (Word.wrap (x * millisPerDay)).toInt = x * millisPerDay := by
    intro x hx
    exact Word.toInt_ofInt (fits_of_inCalendar_div (by rwa [mul_millisPerDay_div]))
  rw [← hfits hd, ← hfits he]
  rfl

theorem exists_addMonthsInt (hd : InCalendar (monthOfDay d.toInt))
    (hn : InCalendar (monthOfDay d.toInt + n.toInt)) :
    ∃ r : Int64, onWords "addMonthsInt" [d, n] = .ok (.int r) ∧ IsLater d.toInt n.toInt r.toInt ∧
      onWords "subtractMonths" [r, d] = .ok (.int n) := by
  have hlater : InCalendar (monthOfDay (dayLater d.toInt n.toInt)) := by rwa [monthOfDay_dayLater]
  have hr : (Int64.ofInt (dayLater d.toInt n.toInt)).toInt = dayLater d.toInt n.toInt :=
    Word.toInt_ofInt (fits_of_inCalendar hlater)
  refine ⟨_, addMonthsInt_eq_ok_iff.2 ⟨hd, hn, hr⟩, by rw [hr]; exact isLater_dayLater _ _, ?_⟩
  rw [onWords_subtractMonths hd (by rwa [hr]), hr, ← timeLater_midnight,
    subtractMonths_addMonths (by rwa [mul_millisPerDay_div]) (by rwa [mul_millisPerDay_div]),
    Int64.ofInt_toInt]

theorem addMonthsInt_le (hle : d.toInt ≤ d'.toInt) (hle' : n.toInt ≤ n'.toInt)
    (hr : onWords "addMonthsInt" [d, n] = .ok (.int r))
    (hr' : onWords "addMonthsInt" [d', n'] = .ok (.int r')) : r.toInt ≤ r'.toInt := by
  obtain ⟨-, -, hr⟩ := addMonthsInt_eq_ok_iff.1 hr
  obtain ⟨-, -, hr'⟩ := addMonthsInt_eq_ok_iff.1 hr'
  rw [hr, hr']
  exact (monotone_dayLater n.toInt hle).trans ((strictMono_dayLater _).monotone hle')

theorem exists_addMonths (ht : InCalendar (monthOfDay (t.toInt / millisPerDay)))
    (hn : InCalendar (monthOfDay (t.toInt / millisPerDay) + n.toInt)) :
    ∃ r : Int64, onWords "addMonths" [t, n] = .ok (.int r) ∧
      IsLater (t.toInt / millisPerDay) n.toInt (r.toInt / millisPerDay) ∧
      r.toInt % millisPerDay = t.toInt % millisPerDay ∧
      onWords "subtractMonthsTimestamp" [r, t] = .ok (.int n) := by
  have hr : (Int64.ofInt (timeLater t.toInt n.toInt)).toInt = timeLater t.toInt n.toInt :=
    Word.toInt_ofInt (fits_of_inCalendar_div (by rwa [timeLater_div, monthOfDay_dayLater]))
  refine ⟨_, addMonths_eq_ok_iff.2 ⟨ht, hn, hr⟩, ?_, ?_, ?_⟩
  · rw [hr, timeLater_div]
    exact isLater_dayLater _ _
  · rw [hr, timeLater_mod]
  · show (Temporal.subtractMonths (Int64.ofInt _).toInt t.toInt).map wordResult = _
    rw [hr, subtractMonths_addMonths ht hn, Int64.ofInt_toInt]

/-- Two timestamps change their order only where they arrive at the same day. -/
theorem addMonths_le_or (hle : t.toInt ≤ t'.toInt) (hle' : n.toInt ≤ n'.toInt)
    (hr : onWords "addMonths" [t, n] = .ok (.int r))
    (hr' : onWords "addMonths" [t', n'] = .ok (.int r')) :
    r.toInt ≤ r'.toInt ∨ r.toInt / millisPerDay = r'.toInt / millisPerDay ∧
      t.toInt / millisPerDay < t'.toInt / millisPerDay := by
  obtain ⟨-, -, hr⟩ := addMonths_eq_ok_iff.1 hr
  obtain ⟨-, -, hr'⟩ := addMonths_eq_ok_iff.1 hr'
  have hday : t.toInt / millisPerDay ≤ t'.toInt / millisPerDay := Int.ediv_le_ediv (by decide) hle
  have hlater : dayLater (t.toInt / millisPerDay) n.toInt ≤
      dayLater (t'.toInt / millisPerDay) n'.toInt :=
    (monotone_dayLater n.toInt hday).trans ((strictMono_dayLater _).monotone hle')
  rw [hr, hr', timeLater_div, timeLater_div]
  unfold timeLater millisPerDay at *
  omega

theorem exists_subtractMonths_days (hle : d.toInt ≤ e.toInt) (hd : InCalendar (monthOfDay d.toInt))
    (he : InCalendar (monthOfDay e.toInt)) :
    ∃ m : Int64, onWords "subtractMonths" [e, d] = .ok (.int m) ∧
      onWords "subtractMonths" [d, e] = .ok (.int (-m)) ∧
      IsGreatest {k | 0 ≤ k ∧ dayLater d.toInt k ≤ e.toInt} m.toInt ∧
      e.toInt < dayLater d.toInt (m.toInt + 1) := by
  have hset : {k | 0 ≤ k ∧ dayLater d.toInt k ≤ e.toInt} =
      {k | 0 ≤ k ∧ timeLater (d.toInt * millisPerDay) k ≤ e.toInt * millisPerDay} := by
    ext k
    simp only [Set.mem_ofPred_eq, timeLater_midnight]
    unfold millisPerDay
    omega
  obtain ⟨m, hm, hm', hgreatest, hlt⟩ := exists_map_subtractMonths (t := d.toInt * millisPerDay)
    (u := e.toInt * millisPerDay) (by unfold millisPerDay; omega)
    (by rwa [mul_millisPerDay_div]) (by rwa [mul_millisPerDay_div])
  rw [onWords_subtractMonths hd he, onWords_subtractMonths he hd]
  refine ⟨m, hm, hm', hset ▸ hgreatest, ?_⟩
  rw [timeLater_midnight] at hlt
  unfold millisPerDay at hlt
  omega

theorem onWords_lastDay (hd : InCalendar (monthOfDay d.toInt)) :
    (InCalendar (monthOfDay d.toInt + 1) → ∃ r : Int64, onWords "lastDay" [d] = .ok (.int r) ∧
      r.toInt = monthStart (monthOfDay d.toInt + 1) - 1) ∧
    (¬InCalendar (monthOfDay d.toInt + 1) →
      ∃ reason, onWords "lastDay" [d] = .error (.overflow reason)) := by
  have hroute : onWords "lastDay" [d] = (Temporal.lastDay d.toInt).map wordResult := rfl
  rw [hroute]
  refine ⟨fun hnext => ?_, fun hnext => ?_⟩
  · have hfits : Word.Fits (monthStart (monthOfDay d.toInt + 1) - 1) := by
      have := inCalendar_ofDays_iff.1 (show InCalendar (monthOfDay _) by rwa [monthOfDay_monthStart])
      rw [Word.fits_iff]
      omega
    refine ⟨Int64.ofInt (monthStart (monthOfDay d.toInt + 1) - 1), ?_, Word.toInt_ofInt hfits⟩
    rw [lastDay_of_inCalendar hd hnext]
    rfl
  · obtain ⟨reason, hfault⟩ := exists_lastDay_overflow hd hnext
    exact ⟨reason, by rw [hfault]; rfl⟩

end Words

/-- Month arithmetic on words. A date plus a number of months lies in the month that is so much
later, on the same day or on the last day of the month. A timestamp keeps its time of day. The
difference takes an addition back, also with negative numbers; it is the greatest number of months
that fits between two days or timestamps, and its sign changes with the order. Additions of dates
keep the order of dates and of numbers of months. Additions of timestamps keep the order of numbers
of months, and two timestamps change their order only if they come from different days and arrive at
the same day. The last day of a month comes before the first day of the next one, and where that one
is out of range, there is none. -/
theorem month_arithmetic :
    (∀ d n : Int64, InCalendar (monthOfDay d.toInt) → InCalendar (monthOfDay d.toInt + n.toInt) →
      ∃ r : Int64, onWords "addMonthsInt" [d, n] = .ok (.int r) ∧ IsLater d.toInt n.toInt r.toInt ∧
        onWords "subtractMonths" [r, d] = .ok (.int n)) ∧
    (∀ d d' n n' r r' : Int64, d.toInt ≤ d'.toInt → n.toInt ≤ n'.toInt →
      onWords "addMonthsInt" [d, n] = .ok (.int r) → onWords "addMonthsInt" [d', n'] = .ok (.int r') →
      r.toInt ≤ r'.toInt) ∧
    (∀ t n : Int64, InCalendar (monthOfDay (t.toInt / millisPerDay)) →
      InCalendar (monthOfDay (t.toInt / millisPerDay) + n.toInt) →
      ∃ r : Int64, onWords "addMonths" [t, n] = .ok (.int r) ∧
        IsLater (t.toInt / millisPerDay) n.toInt (r.toInt / millisPerDay) ∧
        r.toInt % millisPerDay = t.toInt % millisPerDay ∧
        onWords "subtractMonthsTimestamp" [r, t] = .ok (.int n)) ∧
    (∀ t t' n n' r r' : Int64, t.toInt ≤ t'.toInt → n.toInt ≤ n'.toInt →
      onWords "addMonths" [t, n] = .ok (.int r) → onWords "addMonths" [t', n'] = .ok (.int r') →
      r.toInt ≤ r'.toInt ∨ r.toInt / millisPerDay = r'.toInt / millisPerDay ∧
        t.toInt / millisPerDay < t'.toInt / millisPerDay) ∧
    (∀ d e : Int64, d.toInt ≤ e.toInt → InCalendar (monthOfDay d.toInt) → InCalendar (monthOfDay e.toInt) →
      ∃ m : Int64, onWords "subtractMonths" [e, d] = .ok (.int m) ∧
        onWords "subtractMonths" [d, e] = .ok (.int (-m)) ∧
        IsGreatest {k | 0 ≤ k ∧ dayLater d.toInt k ≤ e.toInt} m.toInt ∧
        e.toInt < dayLater d.toInt (m.toInt + 1)) ∧
    (∀ t u : Int64, t.toInt ≤ u.toInt → InCalendar (monthOfDay (t.toInt / millisPerDay)) →
      InCalendar (monthOfDay (u.toInt / millisPerDay)) →
      ∃ m : Int64, onWords "subtractMonthsTimestamp" [u, t] = .ok (.int m) ∧
        onWords "subtractMonthsTimestamp" [t, u] = .ok (.int (-m)) ∧
        IsGreatest {k | 0 ≤ k ∧ timeLater t.toInt k ≤ u.toInt} m.toInt ∧
        u.toInt < timeLater t.toInt (m.toInt + 1)) ∧
    ∀ d : Int64, InCalendar (monthOfDay d.toInt) →
      (InCalendar (monthOfDay d.toInt + 1) → ∃ r : Int64, onWords "lastDay" [d] = .ok (.int r) ∧
        r.toInt = monthStart (monthOfDay d.toInt + 1) - 1) ∧
      (¬InCalendar (monthOfDay d.toInt + 1) → ∃ reason, onWords "lastDay" [d] = .error (.overflow reason)) := by
  refine ⟨fun d n hd hn => exists_addMonthsInt hd hn,
    fun d d' n n' r r' hle hle' hr hr' => addMonthsInt_le hle hle' hr hr',
    fun t n ht hn => exists_addMonths ht hn,
    fun t t' n n' r r' hle hle' hr hr' => addMonths_le_or hle hle' hr hr',
    fun d e hle hd he => exists_subtractMonths_days hle hd he,
    fun t u hle ht hu => exists_map_subtractMonths hle ht hu, fun d hd => onWords_lastDay hd⟩

/-- The timestamps 2023-01-30 23:00 and 2023-01-31 01:00 change their order when a month is added: both arrive at
2023-02-28 and keep their times of day. -/
theorem addMonths_reverses_order : ¬∀ t t' n r r' : Int64, t.toInt ≤ t'.toInt →
    onWords "addMonths" [t, n] = .ok (.int r) → onWords "addMonths" [t', n] = .ok (.int r') →
    r.toInt ≤ r'.toInt := by
  intro h
  have hle := h 1675119600000 1675126800000 1 1677625200000 1677546000000 (by decide) rfl rfl
  exact absurd hle (by decide)

/-- One month after 2024-01-31 is 2024-02-29, the day before is none, and one month before 2024-02-29 is 2024-01-29.
The last month of the range has no last day. -/
theorem month_arithmetic_leap_day :
    onWords "addMonthsInt" [19753, 1] = .ok (.int 19782) ∧ onWords "subtractMonths" [19782, 19753] = .ok (.int 1) ∧
      onWords "addMonthsInt" [19782, -1] = .ok (.int 19751) ∧
      onWords "subtractMonths" [19751, 19782] = .ok (.int (-1)) ∧
      onWords "subtractMonths" [19781, 19753] = .ok (.int 0) ∧
      IsGreatest {k | 0 ≤ k ∧ dayLater 19753 k ≤ 19781} 0 ∧
      ∃ reason, onWords "lastDay" [95026236] = .error (.overflow reason) := by
  obtain ⟨hdate, -, -, -, hbetween, -, hlast⟩ := month_arithmetic
  obtain ⟨r, hr, -, hback⟩ := hdate 19753 1 (by decide) (by decide)
  obtain ⟨r', hr', -, hback'⟩ := hdate 19782 (-1) (by decide) (by decide)
  obtain ⟨m, hm, -, hgreatest, -⟩ := hbetween 19753 19781 (by decide) (by decide) (by decide)
  have hday : onWords "addMonthsInt" [19753, 1] = .ok (.int 19782) := rfl
  have hday' : onWords "addMonthsInt" [19782, -1] = .ok (.int 19751) := rfl
  have hnone : onWords "subtractMonths" [19781, 19753] = .ok (.int 0) := rfl
  cases hr.symm.trans hday
  cases hr'.symm.trans hday'
  cases hm.symm.trans hnone
  exact ⟨hr, hback, hr', hback', hm, hgreatest, (hlast 95026236 (by decide)).2 (by decide)⟩

end Routine

end SqlCode
