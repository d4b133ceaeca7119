import SqlCode.Proofs.CalendarTexts
import SqlCode.Routine.Cast

/-!
# Casts to text and back

Numbers, truth values, dates, times and timestamps are written as texts without blanks around them and read back.
Times are written to the second, so that the milliseconds are lost; before 1970 too, what is left is the second that has
begun. A timestamp is its date together with its time of day.
-/

namespace SqlCode

open CharClass

/-! ### Numerals of integers -/

namespace Numeral

theorem toList_repr_negSucc (k : ℕ) : (Int.negSucc k).repr.toList = '-' :: (k + 1).repr.toList := by
  show ("-" ++ (k + 1).repr).toList = _
  simp

theorem isDigit_of_mem_repr {n : ℕ} {c : Char} (h : c ∈ n.repr.toList) : c.isDigit := by
  rw [Nat.toList_repr] at h
  exact Nat.isDigit_of_mem_toDigits (by decide) (by decide) h

theorem nat?_repr (n : ℕ) : nat? n.repr.toList = some n := by rw [Nat.toList_repr, nat?_toDigits]

theorem int?_repr (n : ℤ) : int? n.repr.toList = some n := by
  cases n with
  | ofNat k =>
    -- the numeral starts with a digit and not with a sign
    have hsign : ∀ {c cs}, k.repr.toList = c :: cs → c.isDigit := fun h =>
      isDigit_of_mem_repr (h ▸ List.mem_cons_self)
    show int? k.repr.toList = some (k : ℤ)
    unfold int?
    split
    · rename_i heq
      cases hsign heq
    · rename_i heq
      cases hsign heq
    · rw [nat?_repr]
      rfl
  | negSucc k =>
    rw [toList_repr_negSucc]
    show (nat? (k + 1).repr.toList).map (fun n => -(n : ℤ)) = _
    rw [nat?_repr]
    rfl

theorem isWhiteSpace_of_mem_repr {n : ℤ} {c : Char} (h : c ∈ n.repr.toList) : isWhiteSpace c = false := by
  cases n with
  | ofNat k => exact isWhiteSpace_of_isDigit (isDigit_of_mem_repr h)
  | negSucc k =>
    rw [toList_repr_negSucc, List.mem_cons] at h
    rcases h with rfl | h
    · rfl
    · exact isWhiteSpace_of_isDigit (isDigit_of_mem_repr h)

end Numeral

namespace Cast

open Calendar Numeral

/-! ### Texts without blanks around them -/

theorem trimmed_repr (n : ℤ) : trimmed n.repr = n.repr.toList :=
  Blank.trim_eq_self (fun _ hc => isWhiteSpace_of_mem_repr (List.mem_of_mem_head? hc))
    fun _ hc => isWhiteSpace_of_mem_repr (List.mem_of_mem_getLast? hc)

/-- A text that begins and ends with a numeral. -/
theorem trim_between_padded (w n w' n' : ℕ) (cs : List Char) :
    Blank.trim ((padded w n).toList ++ cs ++ (padded w' n').toList) =
      (padded w n).toList ++ cs ++ (padded w' n').toList := by
  have hdigit : ∀ {w n c}, c ∈ (padded w n).toList → isWhiteSpace c = false := fun h =>
    isWhiteSpace_of_isDigit (isDigit_of_mem_padded h)
  refine Blank.trim_eq_self (fun c hc => ?_) fun c hc => ?_
  · rw [List.append_assoc, List.head?_append_of_ne_nil _ (padded_ne_nil w n)] at hc
    exact hdigit (List.mem_of_mem_head? hc)
  · rw [List.getLast?_append_of_ne_nil _ (padded_ne_nil w' n')] at hc
    exact hdigit (List.mem_of_mem_getLast? hc)

theorem trimmed_timeText (t : ℤ) : trimmed (timeText t) = (timeText t).toList := by
  have h := trim_between_padded 2 (t / millisPerHour).toNat 2 (t / millisPerSecond % 60).toNat
    (':' :: ((padded 2 (t / millisPerMinute % 60).toNat).toList ++ [':']))
  have htext : (timeText t).toList = (padded 2 (t / millisPerHour).toNat).toList ++
      (':' :: ((padded 2 (t / millisPerMinute % 60).toNat).toList ++ [':'])) ++
      (padded 2 (t / millisPerSecond % 60).toNat).toList := by simp [toList_timeText]
  rw [trimmed, htext, h]

section Date

variable {d : Date} (h : 0 ≤ d.year) (h' : d.year ≤ 9999)
include h h'

theorem exists_toList_text : ∃ cs, d.text.toList =
    (padded 4 d.year.natAbs).toList ++ cs ++ (padded 2 d.day.toNat).toList := by
  have hyear : Date.yearText d.year = padded 4 d.year.natAbs := by
    rw [Date.yearText, if_neg (by omega), if_neg (by omega)]
  exact ⟨'-' :: ((padded 2 d.month.toNat).toList ++ ['-']), by simp [Date.text, hyear]⟩

theorem trimmed_text : trimmed d.text = d.text.toList := by
  obtain ⟨cs, hcs⟩ := exists_toList_text h h'
  rw [trimmed, hcs, trim_between_padded]

theorem trimmed_timestampText (t : ℤ) :
    trimmed (d.text ++ " " ++ timeText t) = (d.text ++ " " ++ timeText t).toList := by
  obtain ⟨cs, hcs⟩ := exists_toList_text h h'
  have htext : (d.text ++ " " ++ timeText t).toList = (padded 4 d.year.natAbs).toList ++
      (cs ++ (padded 2 d.day.toNat).toList ++ ' ' :: ((padded 2 (t / millisPerHour).toNat).toList ++
        ':' :: ((padded 2 (t / millisPerMinute % 60).toNat).toList ++ [':']))) ++
      (padded 2 (t / millisPerSecond % 60).toNat).toList := by
    simp [hcs, toList_timeText]
  rw [trimmed, htext, trim_between_padded]

end Date

/-! ### Texts that are read -/

/-- The types whose values are read from texts. -/
def reads (type : TypeName) : Bool :=
  type.isNumeric || type == .boolean || type == .date || type == .time || isTimestamp type

/-- The truth value of a word in letters of either case. -/
def truth? (cs : List Char) : Option Value :=
  let word := String.ofList (cs.map Char.toUpper)
  if word = "TRUE" then some (.bool true) else if word = "FALSE" then some (.bool false) else none

theorem toBoolean?_str (s : String) : toBoolean? (.str s) = truth? (trimmed s) := by
  simp only [toBoolean?, truth?]
  split <;> simp_all

/-- What a text without blanks around it is read as. -/
def read? (type : TypeName) (cs : List Char) : Option Value :=
  match type with
  | .tinyInt | .smallInt | .integer | .bigInt => ((int? cs).bind Word.ofInt?).map .int
  | .decimal => (Decimal.parse? (String.ofList cs)).map .decimal
  | .real | .float | .double => (Double.parse? cs).map .float
  | .boolean => truth? cs
  | .date => (parseDate? cs).map Routine.wordResult
  | .time => (parseTime? cs).map Routine.wordResult
  | .timestamp | .timestampWithLocalTimeZone => (parseTimestamp? cs).map Routine.wordResult
  | _ => none

/-- Texts are read without the blanks around them. -/
theorem cast_str (s : String) (source : TypeName) {target : TypeName} (h : reads target) :
    cast (.str s) source target = orInvalid (.str s) target (read? target (trimmed s)) := by
  cases target <;> simp [reads, TypeName.isNumeric, TypeName.isExactInteger, TypeName.isApproximate, isTimestamp] at h <;>
    simp [cast, TypeName.isCharacter, TypeName.isExactInteger, TypeName.isApproximate, isTimestamp, toPart, toTimestamp,
      toInteger?, toDecimal?, toFloat?, toBoolean?_str, read?]

theorem orInvalid_eq_ok_iff {v w : Value} {target : TypeName} {o : Option Value} :
    orInvalid v target o = .ok w ↔ o = some w := by
  cases o <;> simp [orInvalid]

/-- What a text is cast to does not depend on the blanks around it. -/
theorem cast_str_eq_ok_iff {s s' : String} (h : trimmed s = trimmed s') (source : TypeName) {target : TypeName}
    (htarget : reads target) {v : Value} :
    cast (.str s) source target = .ok v ↔ cast (.str s') source target = .ok v := by
  rw [cast_str s source htarget, cast_str s' source htarget, orInvalid_eq_ok_iff, orInvalid_eq_ok_iff, h]

theorem isTimestamp_iff {type : TypeName} :
    isTimestamp type ↔ type = .timestamp ∨ type = .timestampWithLocalTimeZone := by
  cases type <;> simp [isTimestamp]

/-! ### There and back -/

/-- The value after a cast to a type of texts and back. -/
def viaText (v : Value) (type text : TypeName) : Except Fault Value := do
  cast (← cast v type text) text type

section ViaText

variable {text : TypeName} (htext : text.isCharacter = true)
include htext

theorem viaText_eq {v : Value} {type : TypeName} {s : String} (h : toText v type = .ok (.str s)) :
    viaText v type text = cast (.str s) text type := by
  have hcast : cast v type text = .ok (.str s) := (if_pos htext).trans h
  rw [viaText, hcast]
  rfl

theorem viaText_bigInt (n : Int64) : viaText (.int n) .bigInt text = .ok (.int n) := by
  rw [viaText_eq htext (s := n.toInt.repr) rfl, cast_str _ _ rfl, trimmed_repr, read?, int?_repr,
    Option.bind_some, Word.ofInt?_toInt]
  rfl

theorem viaText_boolean (b : Bool) : viaText (.bool b) .boolean text = .ok (.bool b) := by
  cases b with
  | true => exact viaText_eq htext (s := "TRUE") rfl
  | false => exact viaText_eq htext (s := "FALSE") rfl

theorem viaText_date {d : Int64} (h : 0 ≤ (Date.ofDays d.toInt).year) (h' : (Date.ofDays d.toInt).year ≤ 9999) :
    viaText (.int d) .date text = .ok (.int d) := by
  have hd := Date.onCalendar_ofDays d.toInt
  have hwritten : toText (.int d) .date = .ok (.str (Date.ofDays d.toInt).text) := by
    show (Temporal.dateOf d.toInt >>= fun d => Except.ok (Value.str d.text)) = _
    rw [Temporal.dateOf_of_inCalendar (hd.inRange_iff.1 (Date.inRange_of_year h h'))]
    rfl
  rw [viaText_eq htext hwritten, cast_str _ _ rfl, trimmed_text h h', read?, parseDate?_text hd h h',
    Date.toDays_ofDays]
  exact congrArg (fun w => Except.ok (Value.int w)) (Int64.ofInt_toInt d)

theorem viaText_time {t : Int64} (h : 0 ≤ t.toInt) (h' : t.toInt < millisPerDay) :
    viaText (.int t) .time text = .ok (Routine.wordResult (t.toInt / 1000 * 1000)) := by
  have hwritten : toText (.int t) .time = .ok (.str (timeText t.toInt)) := by
    show orInvalid (.int t) .varchar ((timeText? t.toInt).map Value.str) = _
    rw [timeText?, if_pos ⟨h, h'⟩]
    rfl
  rw [viaText_eq htext hwritten, cast_str _ _ rfl, trimmed_timeText, read?, parseTime?_timeText h h']
  rfl

/-- The second of a timestamp that has begun, before 1970 too. -/
theorem viaText_timestamp {stamp : TypeName} (hstamp : isTimestamp stamp) {t : Int64}
    (h : 0 ≤ (Date.ofDays (t.toInt / millisPerDay)).year) (h' : (Date.ofDays (t.toInt / millisPerDay)).year ≤ 9999) :
    viaText (.int t) stamp text = .ok (Routine.wordResult (t.toInt / 1000 * 1000)) := by
  have hd := Date.onCalendar_ofDays (t.toInt / millisPerDay)
  have htime : 0 ≤ t.toInt % millisPerDay ∧ t.toInt % millisPerDay < millisPerDay := by
    unfold millisPerDay
    omega
  have hwritten : toText (.int t) stamp =
      .ok (.str ((Date.ofDays (t.toInt / millisPerDay)).text ++ " " ++ timeText (t.toInt % millisPerDay))) := by
    have hopen : toText (.int t) stamp = (Temporal.dateOf (t.toInt / millisPerDay) >>= fun d =>
        Except.ok (Value.str (d.text ++ " " ++ timeText (t.toInt % millisPerDay)))) := by
      rcases isTimestamp_iff.1 hstamp with rfl | rfl <;> rfl
    rw [hopen, Temporal.dateOf_of_inCalendar (hd.inRange_iff.1 (Date.inRange_of_year h h'))]
    rfl
  have hsecond : t.toInt / millisPerDay * millisPerDay + t.toInt % millisPerDay / 1000 * 1000 =
      t.toInt / 1000 * 1000 := by
    unfold millisPerDay
    omega
  have hread : ∀ cs, read? stamp cs = (parseTimestamp? cs).map Routine.wordResult := by
    rcases isTimestamp_iff.1 hstamp with rfl | rfl <;> exact fun _ => rfl
  rw [viaText_eq htext hwritten, cast_str _ _ (by simp [reads, hstamp]), trimmed_timestampText h h', hread,
    parseTimestamp?_text hd h h' htime.1 htime.2, Date.toDays_ofDays, hsecond]
  rfl

end ViaText

/-! ### Dates and times of timestamps -/

/-- A timestamp is its date together with its time of day. -/
theorem cast_timestamp_parts {stamp : TypeName} (hstamp : isTimestamp stamp) (t : Int64) :
    cast (.int t) stamp .date = .ok (Routine.wordResult (t.toInt / millisPerDay)) ∧
      cast (.int t) stamp .time = .ok (Routine.wordResult (t.toInt % millisPerDay)) := by
  simp [cast, TypeName.isCharacter, TypeName.isExactInteger, TypeName.isApproximate, toPart, hstamp]

theorem toInt_wordResult {n : ℤ} (h : Word.Fits n) : ∃ w : Int64, Routine.wordResult n = .int w ∧ w.toInt = n :=
  ⟨_, rfl, Word.toInt_ofInt h⟩

/-- A value that is cast to text and back. Integers, truth values and dates of the years 1 to 9999 come back as they are;
times of day and timestamps of these years come back at the second that has begun. A timestamp is the midnight of its
date and its time of day, and blanks around a text do not change what it is cast to. -/
theorem text_round_trip {text stamp : TypeName} (htext : text.isCharacter = true) (hstamp : isTimestamp stamp = true) :
    (∀ n : Int64, viaText (.int n) .bigInt text = .ok (.int n)) ∧
    (∀ b : Bool, viaText (.bool b) .boolean text = .ok (.bool b)) ∧
    (∀ d : Int64, 1 ≤ (Date.ofDays d.toInt).year → (Date.ofDays d.toInt).year ≤ 9999 →
      viaText (.int d) .date text = .ok (.int d)) ∧
    (∀ t : Int64, 0 ≤ t.toInt → t.toInt < 86400000 → ∃ u : Int64,
      viaText (.int t) .time text = .ok (.int u) ∧ u.toInt = t.toInt / 1000 * 1000) ∧
    (∀ t : Int64, 1 ≤ (Date.ofDays (t.toInt / 86400000)).year → (Date.ofDays (t.toInt / 86400000)).year ≤ 9999 →
      ∃ u : Int64, viaText (.int t) stamp text = .ok (.int u) ∧ u.toInt = t.toInt / 1000 * 1000) ∧
    (∀ t : Int64, ∃ d s : Int64, cast (.int t) stamp .date = .ok (.int d) ∧ cast (.int t) stamp .time = .ok (.int s) ∧
      d.toInt * 86400000 + s.toInt = t.toInt) ∧
    ∀ (before s after : String) (target : TypeName) (v : Value), reads target = true →
      (∀ c ∈ before.toList, isWhiteSpace c = true) → (∀ c ∈ after.toList, isWhiteSpace c = true) →
      (cast (.str (before ++ s ++ after)) text target = .ok v ↔ cast (.str s) text target = .ok v) := by
  refine ⟨viaText_bigInt htext, viaText_boolean htext, fun d h h' => viaText_date htext (by omega) h', ?_, ?_, ?_, ?_⟩
  · intro t h h'
    obtain ⟨u, hu, hu'⟩ := toInt_wordResult (n := t.toInt / 1000 * 1000)
      (by rw [Word.fits_iff]; omega)
    exact ⟨u, by rw [viaText_time htext h h', hu], hu'⟩
  · intro t h h'
    have hyear : 0 ≤ (Date.ofDays (t.toInt / millisPerDay)).year := le_trans (by decide) h
    have hrange := Date.inCalendar_ofDays_iff.1
      ((Date.onCalendar_ofDays (t.toInt / millisPerDay)).inRange_iff.1 (Date.inRange_of_year hyear h'))
    unfold millisPerDay at hrange
    obtain ⟨u, hu, hu'⟩ := toInt_wordResult (n := t.toInt / 1000 * 1000)
      (by rw [Word.fits_iff]; omega)
    exact ⟨u, by rw [viaText_timestamp htext hstamp hyear h', hu], hu'⟩
  · intro t
    obtain ⟨hdate, htime⟩ := cast_timestamp_parts hstamp t
    have hfits := Word.fits_toInt t
    unfold millisPerDay at hdate htime
    rw [Word.fits_iff] at hfits
    obtain ⟨d, hd, hd'⟩ := toInt_wordResult (n := t.toInt / 86400000)
      (by rw [Word.fits_iff]; omega)
    obtain ⟨s, hs, hs'⟩ := toInt_wordResult (n := t.toInt % 86400000)
      (by rw [Word.fits_iff]; omega)
    exact ⟨d, s, by rw [hdate, hd], by rw [htime, hs], by rw [hd', hs']; omega⟩
  · intro before s after target v htarget hbefore hafter
    refine cast_str_eq_ok_iff ?_ text htarget
    rw [trimmed, String.toList_append, String.toList_append, Blank.trim_append_blanks hbefore hafter, trimmed]

/-- The last millisecond of 1969 comes back as the last second, and that of a day likewise; a numeral may stand between a
blank and a tab. -/
theorem text_round_trip_eve :
    viaText (.int (-1)) .timestamp .varchar = .ok (.int (-1000)) ∧
      viaText (.int 86399999) .time .varchar = .ok (.int 86399000) ∧
      cast (.str (" " ++ "-12" ++ "\t")) .varchar .bigInt = .ok (.int (-12)) := by
  obtain ⟨hinteger, -, -, htime, hstamp, -, hblanks⟩ := @text_round_trip .varchar .timestamp rfl rfl
  obtain ⟨u, hu, hu'⟩ := hstamp (-1) (by decide) (by decide)
  obtain ⟨w, hw, hw'⟩ := htime 86399999 (by decide) (by decide)
  obtain rfl : u = -1000 := Int64.toInt_inj.1 (hu'.trans (by decide))
  obtain rfl : w = 86399000 := Int64.toInt_inj.1 (hw'.trans (by decide))
  have hspace : ∀ c ∈ " ".toList, isWhiteSpace c = true := by
    intro c hc
    obtain rfl : c = ' ' := by simpa using hc
    rfl
  have htab : ∀ c ∈ "\t".toList, isWhiteSpace c = true := by
    intro c hc
    obtain rfl : c = '\t' := by simpa using hc
    rfl
  exact ⟨hu, hw, (hblanks " " "-12" "\t" .bigInt _ rfl hspace htab).2 (hinteger (-12))⟩

end Cast

end SqlCode
