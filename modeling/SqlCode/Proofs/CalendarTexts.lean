import Mathlib.Data.List.DropRight
import SqlCode.Calendar.Reader
import SqlCode.Proofs.Calendar

/-!
# Texts of dates and times

A date and a time of day are written with a fixed number of digits in each place, and what is written is read back
whatever follows it. The readers skip blanks, so that it matters that digits and signs are none.
-/

namespace SqlCode

variable {d : Date} {t : ℤ} {n w : ℕ} {c : Char}

/-! ### Blanks -/

theorem CharClass.isWhiteSpace_of_visible (h : 32 < c.toNat) (h' : c.toNat < 127) : isWhiteSpace c = false := by
  simp only [isWhiteSpace, CodePoints.contains, Trait.whiteSpaces, List.any_cons, List.any_nil, Bool.or_false,
    Bool.or_eq_false_iff, Bool.and_eq_false_iff, decide_eq_false_iff_not]
  omega

theorem CharClass.isWhiteSpace_of_isDigit (h : c.isDigit) : isWhiteSpace c = false := by
  have hbounds : 48 ≤ c.toNat ∧ c.toNat ≤ 57 := by
    simpa [Char.isDigit, UInt32.le_iff_toNat_le] using h
  exact isWhiteSpace_of_visible (by omega) (by omega)

namespace Blank

open CharClass

variable {cs before after : List Char}

theorem trimLeft_cons (h : isWhiteSpace c = false) : trimLeft (c :: cs) = c :: cs :=
  List.dropWhile_cons_of_neg (by simp [h])

theorem trimRight_append_blanks (h : ∀ c ∈ after, isWhiteSpace c) : trimRight (cs ++ after) = trimRight cs := by
  unfold trimRight
  rw [List.reverse_append, List.dropWhile_append_of_pos fun c hc => h c (List.mem_reverse.1 hc)]

/-- Blanks around a text do not count. -/
theorem trim_append_blanks (h : ∀ c ∈ before, isWhiteSpace c) (h' : ∀ c ∈ after, isWhiteSpace c) :
    trim (before ++ cs ++ after) = trim cs := by
  unfold trim trimLeft
  rw [List.append_assoc, List.dropWhile_append_of_pos h, List.dropWhile_append]
  split_ifs with hempty
  · -- a text of blanks only
    have hafter : after.dropWhile isWhiteSpace = [] := List.dropWhile_eq_nil_iff.2 h'
    rw [hafter, List.isEmpty_iff.1 hempty]
  · exact trimRight_append_blanks h'

/-- A text that begins and ends with characters that are no blanks. -/
theorem trim_eq_self (h : ∀ c ∈ cs.head?, isWhiteSpace c = false) (h' : ∀ c ∈ cs.getLast?, isWhiteSpace c = false) :
    trim cs = cs := by
  have hleft : trimLeft cs = cs := by
    cases cs with
    | nil => rfl
    | cons c cs => exact trimLeft_cons (h c rfl)
  rw [trim, hleft]
  show cs.rdropWhile isWhiteSpace = cs
  rw [List.rdropWhile_eq_self_iff]
  intro hne
  rw [h' _ (List.getLast?_eq_getLast_of_ne_nil hne)]
  simp

end Blank

/-! ### Numerals -/

namespace Numeral

theorem toList_padded (w n : ℕ) : (padded w n).toList =
    List.replicate (w - (Nat.toDigits 10 n).length) '0' ++ Nat.toDigits 10 n := by
  simp [padded, Nat.repr_eq_ofList_toDigits]

theorem isDigit_of_mem_padded (h : c ∈ (padded w n).toList) : c.isDigit := by
  rw [toList_padded, List.mem_append] at h
  rcases h with h | h
  · rw [List.eq_of_mem_replicate h]
    rfl
  · exact Nat.isDigit_of_mem_toDigits (by decide) (by decide) h

theorem padded_ne_nil (w n : ℕ) : (padded w n).toList ≠ [] := by
  simp [toList_padded, Nat.toDigits_ne_nil]

theorem length_padded (hw : 0 < w) (h : n < 10 ^ w) :
    (padded w n).toList.length = w := by
  have hdigits := (Nat.length_toDigits_le_iff (by decide) hw).2 h
  rw [toList_padded, List.length_append, List.length_replicate]
  omega

theorem nat?_padded (w n : ℕ) : nat? (padded w n).toList = some n := by
  have hall : (padded w n).toList.all Char.isDigit = true :=
    List.all_eq_true.2 fun _ hc => isDigit_of_mem_padded hc
  have hvalue : Nat.ofDigitChars 10 (padded w n).toList 0 = n := by
    rw [toList_padded, Nat.ofDigitChars_append, Nat.ofDigitChars_replicate_zero, Nat.mul_zero,
      Nat.ofDigitChars_ten_toDigits]
  rw [nat?, if_pos ⟨padded_ne_nil w n, hall⟩, hvalue]

end Numeral

theorem Date.inRange_of_year (h : 0 ≤ d.year) (h' : d.year ≤ 9999) : d.inRange = true :=
  decide_eq_true ⟨show -262143 ≤ d.year by omega, show d.year ≤ 262142 by omega⟩

namespace Calendar

open Numeral

theorem exists_padded_eq_cons (w n : ℕ) :
    ∃ c cs, (padded w n).toList = c :: cs ∧ c.isDigit := by
  obtain ⟨c, cs, h⟩ := List.exists_cons_of_ne_nil (padded_ne_nil w n)
  exact ⟨c, cs, h, isDigit_of_mem_padded (by rw [h]; exact List.mem_cons_self)⟩

theorem trimLeft_padded (w n : ℕ) (rest : List Char) :
    Blank.trimLeft ((padded w n).toList ++ rest) = (padded w n).toList ++ rest := by
  obtain ⟨c, cs, h, hdigit⟩ := exists_padded_eq_cons w n
  rw [h]
  exact Blank.trimLeft_cons (CharClass.isWhiteSpace_of_isDigit hdigit)

/-- A number that is written in full width is read back, whatever follows. -/
theorem number?_padded (hw : 0 < w) (h : n < 10 ^ w) (rest : List Char) :
    number? w ((padded w n).toList ++ rest) = some (n, rest) := by
  have hlength := length_padded hw h
  have htake : (((padded w n).toList ++ rest).take w).takeWhile Char.isDigit = (padded w n).toList := by
    rw [List.take_left' hlength, List.takeWhile_eq_self_iff]
    exact fun c hc => isDigit_of_mem_padded hc
  simp only [number?, trimLeft_padded, htake, nat?_padded, Option.map_some, List.drop_left]

/-! ### Dates -/

theorem year?_yearText {year : ℤ} (h : 0 ≤ year) (h' : year ≤ 9999) (rest : List Char) :
    year? ((Date.yearText year).toList ++ rest) = some (year, rest) := by
  have htext : Date.yearText year = padded 4 year.natAbs := by
    rw [Date.yearText, if_neg (by omega), if_neg (by omega)]
  have hnumber := number?_padded (n := year.natAbs) (show 0 < 4 by decide) (by omega) rest
  obtain ⟨c, cs, hcons, hdigit⟩ := exists_padded_eq_cons 4 year.natAbs
  rw [htext]
  unfold year?
  rw [trimLeft_padded]
  split
  · rename_i heq
    rw [hcons, List.cons_append, List.cons.injEq] at heq
    rw [heq.1] at hdigit
    cases hdigit
  · rename_i heq
    rw [hcons, List.cons_append, List.cons.injEq] at heq
    rw [heq.1] at hdigit
    cases hdigit
  · rw [hnumber]
    simp only [Option.map_some, Option.some.injEq, Prod.mk.injEq, and_true]
    omega

theorem mark?_cons (c : Char) (cs : List Char) : mark? c (c :: cs) = some cs := if_pos rfl

/-- A date of the years 0 to 9999 is read back, whatever follows. -/
theorem date?_text (hd : d.OnCalendar) (h : 0 ≤ d.year) (h' : d.year ≤ 9999) (rest : List Char) :
    date? (d.text.toList ++ rest) = some (d, rest) := by
  have hvalid : d.isValid = true :=
    decide_eq_true ⟨Date.inRange_of_year h h', hd.one_le_month, hd.month_le, hd.one_le_day, hd.day_le⟩
  have hlength := (hd.day_le).trans (Date.monthLength_bounds d.year d.month).2
  have hmonth := hd.month_le
  obtain ⟨year, month, day⟩ := d
  have htext : (Date.mk year month day).text.toList ++ rest = (Date.yearText year).toList ++ '-' ::
      ((padded 2 month.toNat).toList ++ '-' :: ((padded 2 day.toNat).toList ++ rest)) := by
    simp [Date.text]
  have hfields : (month.toNat : ℤ) = month ∧ (day.toNat : ℤ) = day :=
    ⟨Int.toNat_of_nonneg (by linarith [hd.one_le_month]), Int.toNat_of_nonneg (by linarith [hd.one_le_day])⟩
  simp only at h h' hmonth hlength
  rw [htext, date?, year?_yearText h h']
  simp only [Option.bind_eq_bind, Option.bind_some, mark?_cons,
    number?_padded (w := 2) (by decide) (show month.toNat < 10 ^ 2 by omega),
    number?_padded (w := 2) (by decide) (show day.toNat < 10 ^ 2 by omega), hfields.1, hfields.2, hvalid, if_true]

/-! ### Times of day -/

theorem hourMinute?_padded {hour minute : ℕ} (h : hour < 24) (h' : minute < 60) (rest : List Char) :
    hourMinute? ((padded 2 hour).toList ++ ':' :: ((padded 2 minute).toList ++ rest)) =
      some (hour * millisPerHour + minute * millisPerMinute, rest) := by
  unfold hourMinute?
  simp only [Option.bind_eq_bind, Option.bind_some, mark?_cons,
    number?_padded (w := 2) (by decide) (show hour < 10 ^ 2 by omega),
    number?_padded (w := 2) (by decide) (show minute < 10 ^ 2 by omega), and_self, h, h', if_true]

theorem toList_timeText (t : ℤ) : (timeText t).toList =
    (padded 2 (t / millisPerHour).toNat).toList ++ ':' :: ((padded 2 (t / millisPerMinute % 60).toNat).toList ++
      ':' :: (padded 2 (t / millisPerSecond % 60).toNat).toList) := by
  simp [timeText]

theorem time?_timeText (h : 0 ≤ t) (h' : t < millisPerDay) :
    time? (timeText t).toList = some (t / 1000 * 1000, []) := by
  unfold millisPerDay at h'
  have hour : (t / millisPerHour).toNat < 24 := by unfold millisPerHour; omega
  have minute : (t / millisPerMinute % 60).toNat < 60 := by unfold millisPerMinute; omega
  have second : (t / millisPerSecond % 60).toNat < 60 := by unfold millisPerSecond; omega
  have hsecond := number?_padded (w := 2) (by decide) (second.trans (by decide)) []
  rw [List.append_nil] at hsecond
  rw [toList_timeText, time?, hourMinute?_padded hour minute]
  simp only [Option.bind_eq_bind, Option.bind_some, mark?_cons, hsecond, fraction?, second.le, if_true,
    Option.some.injEq, Prod.mk.injEq, and_true]
  unfold millisPerHour millisPerMinute millisPerSecond
  omega

/-! ### Whole texts -/

theorem parseDate?_text (hd : d.OnCalendar) (h : 0 ≤ d.year) (h' : d.year ≤ 9999) :
    parseDate? d.text.toList = some d.toDays := by
  have hdate := date?_text hd h h' []
  rw [List.append_nil] at hdate
  rw [parseDate?, hdate]
  rfl

theorem parseTime?_timeText (h : 0 ≤ t) (h' : t < millisPerDay) :
    parseTime? (timeText t).toList = some (t / 1000 * 1000) := by
  rw [parseTime?, time?_timeText h h']
  rfl

theorem parseTimestamp?_text (hd : d.OnCalendar) (hyear : 0 ≤ d.year) (hyear' : d.year ≤ 9999)
    (h : 0 ≤ t) (h' : t < millisPerDay) :
    parseTimestamp? (d.text ++ " " ++ timeText t).toList = some (d.toDays * millisPerDay + t / 1000 * 1000) := by
  have htext : (d.text ++ " " ++ timeText t).toList = d.text.toList ++ ' ' :: (timeText t).toList := by simp
  have hblank : Blank.trimLeft (' ' :: (timeText t).toList) = (timeText t).toList := by
    have hskip : Blank.trimLeft (' ' :: (timeText t).toList) = Blank.trimLeft (timeText t).toList :=
      List.dropWhile_cons_of_pos rfl
    rw [hskip, toList_timeText, trimLeft_padded]
  have hread : dateTime? (fun cs => some (Blank.trimLeft cs)) (d.text ++ " " ++ timeText t).toList =
      some (d.toDays * millisPerDay + t / 1000 * 1000) := by
    rw [htext, dateTime?, date?_text hd hyear hyear']
    simp only [Option.bind_eq_bind, Option.bind_some, hblank, time?_timeText h h', complete?]
  rw [parseTimestamp?, hread]
  rfl

end Calendar

end SqlCode
