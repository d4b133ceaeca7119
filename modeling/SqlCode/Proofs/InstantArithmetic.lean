import SqlCode.Proofs.TimeOfDay

/-!
# Dates, timestamps and the intervals between them

A date is a number of days in 32 bits, a timestamp a number of milliseconds in 64 bits, and a day-time interval a number
of milliseconds in 64 bits. An interval that is added to a date is first rounded toward zero to whole days, and the
difference of two dates is scaled to milliseconds. Sums and differences of dates wrap around 32 bits; those of
timestamps have to fit.
-/

namespace SqlCode

open Run SqlCode.Expr TimeOfDay Value IntegerType

namespace Instant

/-- Types of dates and timestamps. -/
def IsInstant (type : TypeName) : Prop :=
  type = .date ∨ type = .timestamp ∨ type = .timestampWithLocalTimeZone

/-! ### Numbers -/

/-- The milliseconds that the type counts by. -/
def unit (type : TypeName) : ℤ := if type = .date then millisPerDay else 1

/-- The date or timestamp that is an interval later or earlier. -/
def moved (minus : Bool) (type : TypeName) (s k : ℤ) : ℤ :=
  (sum minus s (k.tdiv (unit type))).bmod (2 ^ type.word.bits)

/-- The interval between two dates or timestamps. -/
def elapsed (type : TypeName) (s t : ℤ) : ℤ := (s - t).bmod (2 ^ type.word.bits) * unit type

/-- The number can be computed: dates wrap, and timestamps do not. -/
def Allows (type : TypeName) (n : ℤ) : Prop := type = .date ∨ Word.Fits n

/-- The instant that is an interval later can be computed. -/
def Reaches (type : TypeName) (s k : ℤ) : Prop := Allows type (sum false s (k.tdiv (unit type)))

variable {type interval : TypeName} {minus : Bool} {s t k : ℤ}

theorem unit_pos (type : TypeName) : 0 < unit type := by
  unfold unit
  split_ifs <;> decide

theorem unit_of_ne (h : type ≠ .date) : unit type = 1 := if_neg h

/-- The time between two instants leads from one to the other, even if it wraps. -/
theorem moved_elapsed (hs : type.word.Holds s) (t : ℤ) : moved false type t (elapsed type s t) = s := by
  unfold moved elapsed
  rw [Int.mul_tdiv_cancel _ (unit_pos type).ne']
  show (t + (s - t).bmod _).bmod _ = s
  rw [Int.add_bmod_bmod, add_sub_cancel]
  exact holds_iff.1 hs

/-- Going back by what has been added. -/
theorem moved_moved (hs : type.word.Holds s) (k : ℤ) : moved true type (moved false type s k) k = s := by
  show ((s + k.tdiv (unit type)).bmod _ - k.tdiv (unit type)).bmod _ = s
  rw [Int.bmod_sub_bmod, add_sub_cancel_right]
  exact holds_iff.1 hs

/-- What has been added is the time between the two instants, in whole units. -/
theorem elapsed_moved (hk : type.word.Holds (k.tdiv (unit type))) (s : ℤ) :
    elapsed type (moved false type s k) s = k.tdiv (unit type) * unit type := by
  show ((s + k.tdiv (unit type)).bmod _ - s).bmod _ * _ = _
  rw [Int.bmod_sub_bmod, add_sub_cancel_left, holds_iff.1 hk]

theorem IsInstant.ne_time (h : IsInstant type) : type ≠ .time := by
  rintro rfl
  simp [IsInstant] at h

theorem IsInstant.represents (h : IsInstant type) : type.word.Represents type := by
  refine TypeName.represents_word (.inl ?_)
  obtain rfl | rfl | rfl := h <;> rfl

theorem IsInstant.word_of_ne (h : IsInstant type) (hne : type ≠ .date) : type.word = .big := by
  obtain rfl | rfl | rfl := h
  · exact absurd rfl hne
  · rfl
  · rfl

theorem moved_of_ne (htype : IsInstant type) (hne : type ≠ .date) (h : Word.Fits (sum minus s k)) :
    moved minus type s k = sum minus s k := by
  unfold moved
  rw [unit_of_ne hne, Int.tdiv_one, htype.word_of_ne hne]
  exact holds_iff.1 (holds_big h)

theorem elapsed_of_ne (htype : IsInstant type) (hne : type ≠ .date) (h : Word.Fits (s - t)) :
    elapsed type s t = s - t := by
  unfold elapsed
  rw [unit_of_ne hne, mul_one, htype.word_of_ne hne]
  exact holds_iff.1 (holds_big h)

theorem holds_moved (minus : Bool) (type : TypeName) (s k : ℤ) : type.word.Holds (moved minus type s k) :=
  type.word.holds_bmod _

theorem fits_elapsed (type : TypeName) (s t : ℤ) : Word.Fits (elapsed type s t) := by
  have hholds := type.word.holds_bmod (s - t)
  unfold elapsed
  by_cases htype : type = .date
  · subst htype
    have hbounds : -2 ^ 31 ≤ (s - t).bmod (2 ^ TypeName.date.word.bits) ∧
        (s - t).bmod (2 ^ TypeName.date.word.bits) < 2 ^ 31 := hholds
    show Word.Fits (_ * 86400000)
    rw [Word.fits_iff]
    omega
  · rw [unit_of_ne htype, mul_one]
    exact hholds.fits

/-! ### Code -/

/-- The code of a sum or difference with an interval. -/
def addition (minus : Bool) (type : TypeName) (a b : Expr) : Expr :=
  mkBinary (operation minus).op a
    (if type = .date then (mkBinary .divide b (.whole millisPerDay)).toInt else b)

/-- The code of a difference of two instants. -/
def difference (type : TypeName) (a b : Expr) : Expr :=
  let d := (mkBinary .subtract a b).toLong
  if type = .date then mkBinary .multiply d (.whole millisPerDay) else d

section Site

variable {site : CallSite} {a b : Expr} {n n' : Bool}

theorem datetime_addition (htype : IsInstant type) (hinterval : interval.isDayTimeInterval)
    (hop : site.op = .builtin (operator minus)) (hsite : site.type.name = type)
    (hoperands : site.operands.map (·.type) = [.plain type n, .plain interval n']) :
    site.datetime [a, b] = .ok (addition minus type a b) := by
  have hminus := builtin?_beq hop
  have hmonths := not_isYearMonthInterval hinterval
  have hadd : ∀ e : Expr, site.addInterval minus a e = mkBinary (operation minus).op a e := by
    intro e
    unfold CallSite.addInterval
    rw [if_neg (hsite ▸ htype.ne_time)]
    cases minus <;> rfl
  unfold CallSite.datetime addition
  rw [map_name hoperands]
  obtain rfl | rfl | rfl := htype
  all_goals
    simp only [CallSite.pair, hminus, CallSite.align, hsite, hmonths, hinterval, ← hadd]
    rfl

theorem datetime_difference (htype : IsInstant type) (hinterval : interval.isDayTimeInterval)
    (hop : site.op = .builtin .minusDate) (hsite : site.type.name = interval)
    (hoperands : site.operands.map (·.type) = [.plain type n, .plain type n']) :
    site.datetime [a, b] = .ok (difference type a b) := by
  have hne : interval ≠ .timestamp := by
    rintro rfl
    cases hinterval
  have hmonths := not_isYearMonthInterval hinterval
  unfold CallSite.datetime
  rw [map_name hoperands, hop]
  obtain rfl | rfl | rfl := htype
  all_goals
    simp only [CallSite.pair, CallSite.align, hsite, if_neg hne, CallSite.difference, hmonths]
    rfl

end Site

section Numbers

variable {m : Machine} {a b : Expr}

theorem number_addition (htype : IsInstant type) (ha : a.Number type.word m s) (hb : b.Number .big m k)
    (h : Allows type (sum minus s (k.tdiv (unit type)))) :
    (addition minus type a b).Number type.word m (moved minus type s k) := by
  by_cases hdate : type = .date
  · subst hdate
    exact number_sum minus ha (hb.divide (by decide) (by decide))
  · have hfits := h.resolve_left hdate
    have hideal : (operation minus).ideal? s k = some (sum minus s k) := by cases minus <;> rfl
    rw [unit_of_ne hdate, Int.tdiv_one] at hfits
    rw [moved_of_ne htype hdate hfits, htype.word_of_ne hdate, addition, if_neg hdate]
    exact ha.arithmetic hb hideal hfits

theorem number_difference (htype : IsInstant type) (ha : a.Number type.word m s) (hb : b.Number type.word m t)
    (h : Allows type (s - t)) : (difference type a b).Number .big m (elapsed type s t) := by
  by_cases hdate : type = .date
  · subst hdate
    have hint : b.toInt = b := mkConvert_of_rep_eq hb.rep
    have hdays := number_sum true ha hb
    rw [hint] at hdays
    exact hdays.toLong.arithmetic (o := .multiply) (number_whole (by decide)) rfl (fits_elapsed .date s t)
  · have hfits := h.resolve_left hdate
    rw [htype.word_of_ne hdate] at hb
    rw [elapsed_of_ne htype hdate hfits, difference, if_neg hdate]
    exact (ha.arithmetic (o := .minus) hb rfl hfits).toLong

end Numbers

/-! ### Calls -/

variable (htype : IsInstant type) (hinterval : interval.isDayTimeInterval = true)
include htype hinterval

theorem gives_addition (minus n n' b : Bool) :
    (operator minus).Gives [.plain type n, .plain interval n'] (.plain type b) []
      (AreNumbers fun s k => Allows type (sum minus s (k.tdiv (unit type)))) (onNumbers (moved minus type)) := by
  refine Builtin.gives_onNumbers (isStrict_operator minus) htype.represents (represents_interval hinterval) htype.represents
    (fun h hn => absurd hn h.null_notMem) ?_ (holds_moved minus type) fun _ hd he h => number_addition htype hd he h.number
  intro site d e hop hsite hoperands
  have hcode := datetime_addition (a := d) (b := e) htype hinterval hop hsite hoperands
  cases minus with
  | true | false => exact congrArg Emit.lift hcode

theorem gives_difference (n n' b : Bool) :
    Builtin.minusDate.Gives [.plain type n, .plain type n'] (.plain interval b) []
      (AreNumbers fun s t => Allows type (s - t)) (onNumbers (elapsed type)) := by
  refine Builtin.gives_onNumbers (isStrict_operator true) htype.represents htype.represents (represents_interval hinterval)
    (fun h hn => absurd hn h.null_notMem) ?_ (fun s t => holds_big (fits_elapsed type s t)) fun _ hd he h =>
      number_difference htype hd he h.number
  intro site d e hop hsite hoperands
  exact congrArg Emit.lift (datetime_difference (a := d) (b := e) htype hinterval hop hsite hoperands)

omit hinterval

/-! ### What can be computed after a first step -/

/-- The time between two instants can be added to the second one. -/
theorem allows_moved_elapsed (hs : Word.Fits s) (h : Allows type (s - t)) :
    Allows type (sum false t ((elapsed type s t).tdiv (unit type))) := by
  by_cases hdate : type = .date
  · exact .inl hdate
  · rw [elapsed_of_ne htype hdate (h.resolve_left hdate), unit_of_ne hdate, Int.tdiv_one]
    show Allows type (t + (s - t))
    rw [add_sub_cancel]
    exact .inr hs

/-- What has been added can be subtracted. -/
theorem allows_moved_moved (hs : Word.Fits s) (h : Reaches type s k) :
    Allows type (sum true (moved false type s k) (k.tdiv (unit type))) := by
  by_cases hdate : type = .date
  · exact .inl hdate
  · have hfits := h.resolve_left hdate
    rw [unit_of_ne hdate, Int.tdiv_one] at hfits ⊢
    rw [moved_of_ne htype hdate hfits]
    show Allows type (s + k - k)
    rw [add_sub_cancel_right]
    exact .inr hs

/-- The instant can be subtracted from what it has been moved to. -/
theorem allows_elapsed_moved (hk : Word.Fits k) (h : Reaches type s k) :
    Allows type (moved false type s k - s) := by
  by_cases hdate : type = .date
  · exact .inl hdate
  · have hfits := h.resolve_left hdate
    rw [unit_of_ne hdate, Int.tdiv_one] at hfits
    rw [moved_of_ne htype hdate hfits]
    show Allows type (s + k - s)
    rw [add_sub_cancel_left]
    exact .inr hk

end Instant

/-! ### Terms -/

namespace Term

open Instant Value

variable {fields : List (String × SqlType)} {good : List Value → Prop} {d e : Term}
  {count count' : List Value → ℤ}

section Inverse

variable {point interval : TypeName} {n n' b c : Bool}
  (hpoint : IsInstant point) (hinterval : interval.isDayTimeInterval = true)
include hpoint hinterval

theorem Counts.addition (minus b : Bool) (hd : d.Counts fields good (.plain point n) count)
    (he : e.Counts fields good (.plain interval n') count')
    (hgood : ∀ {row}, good row → Allows point (TimeOfDay.sum minus (count row) ((count' row).tdiv (unit point)))) :
    (Term.call (.builtin (TimeOfDay.operator minus)) (.plain point b) [d, e]).Counts fields good (.plain point b)
      fun row => moved minus point (count row) (count' row) :=
  .call (gives_addition hpoint hinterval minus n n' b) (fun s k => (holds_moved minus point s k).fits) hd he hgood

theorem Counts.difference (b : Bool) (hd : d.Counts fields good (.plain point n) count)
    (he : e.Counts fields good (.plain point n') count')
    (hgood : ∀ {row}, good row → Allows point (count row - count' row)) :
    (Term.call (.builtin .minusDate) (.plain interval b) [d, e]).Counts fields good (.plain interval b)
      fun row => elapsed point (count row) (count' row) :=
  .call (gives_difference hpoint hinterval n n' b) (fits_elapsed point) hd he hgood

variable {x y v : Term} {x' y' v' : List Value → Value} (hx : x.Leaf fields (.plain point n) x')
include hx

theorem counts_moved_elapsed (hy : y.Leaf fields (.plain point n') y') :
    (Term.call (.builtin .datetimePlus) (.plain point b)
      [y, .call (.builtin .minusDate) (.plain interval c) [x, y]]).Counts fields
      (fun row => AreNumbers (fun s t => Allows point (s - t)) [x' row, y' row]) (.plain point b)
      fun row => moved false point (y' row).number (elapsed point (x' row).number (y' row).number) := by
  let near := fun row => AreNumbers (fun s t => Allows point (s - t)) [x' row, y' row]
  have hx₁ := hx.counts near fun h => h.left
  have hy₁ := hy.counts near fun h => h.right
  have hbetween := hx₁.difference hpoint hinterval c hy₁ fun h => h.number
  exact hy₁.addition hpoint hinterval false b hbetween fun h =>
    allows_moved_elapsed hpoint (Value.fits_number _) h.number

variable (hv : v.Leaf fields (.plain interval n') v')
include hv

theorem counts_moved :
    (Term.call (.builtin .datetimePlus) (.plain point b) [x, v]).Counts fields
      (fun row => AreNumbers (Instant.Reaches point) [x' row, v' row])
      (.plain point b) fun row => moved false point (x' row).number (v' row).number :=
  .addition hpoint hinterval false b (hx.counts _ fun h => h.left) (hv.counts _ fun h => h.right) fun h => h.number

theorem counts_moved_moved :
    (Term.call (.builtin .minusDate) (.plain point b)
      [.call (.builtin .datetimePlus) (.plain point b) [x, v], v]).Counts fields
      (fun row => AreNumbers (Instant.Reaches point) [x' row, v' row])
      (.plain point b) fun row => moved true point (moved false point (x' row).number (v' row).number) (v' row).number :=
  .addition hpoint hinterval true b (counts_moved hpoint hinterval hx hv) (hv.counts _ fun h => h.right) fun h =>
    allows_moved_moved hpoint (Value.fits_number _) h.number

theorem counts_elapsed_moved :
    (Term.call (.builtin .minusDate) (.plain interval c)
      [.call (.builtin .datetimePlus) (.plain point b) [x, v], x]).Counts fields
      (fun row => AreNumbers (Instant.Reaches point) [x' row, v' row])
      (.plain interval c) fun row => elapsed point (moved false point (x' row).number (v' row).number) (x' row).number :=
  .difference hpoint hinterval c (counts_moved hpoint hinterval hx hv) (hx.counts _ fun h => h.left) fun h =>
    allows_elapsed_moved hpoint (Value.fits_number _) h.number

end Inverse

/-- Adding to an instant the time to another one gives the other one, for dates always and for timestamps if the time
between them fits. Subtracting an interval that has been added gives the instant, and subtracting the instant gives the
interval, for timestamps if the sum fits; for dates the interval is rounded toward zero to whole days, of which there
must not be more than a date can count. The operands are inputs or literals. -/
theorem program_run_instant_interval (settings : Settings) (defs : List Term) {point interval : TypeName}
    (hpoint : IsInstant point) (hinterval : interval.isDayTimeInterval = true) {n n' n'' b c : Bool} {x y v : Term}
    {x' y' v' : List Value → Value} (hx : x.Leaf fields (.plain point n) x') (hy : y.Leaf fields (.plain point n') y')
    (hv : v.Leaf fields (.plain interval n'') v') :
    let plus := fun d e => Term.call (.builtin .datetimePlus) (.plain point b) [d, e]
    let minus := fun d e => Term.call (.builtin .minusDate) (.plain point b) [d, e]
    let between := fun d e => Term.call (.builtin .minusDate) (.plain interval c) [d, e]
    ∃ p q r, (plus y (between x y)).program settings defs fields = .ok p ∧
      (minus (plus x v) v).program settings defs fields = .ok q ∧
      (between (plus x v) x).program settings defs fields = .ok r ∧
      ∀ (row : List Value) (m : Machine), IsRow fields row →
        (∀ s t : Int64, x' row = .int s → y' row = .int t → point = .date ∨ Word.Fits (s.toInt - t.toInt) →
          ((p.run row).result m).1 = .ok (.int s)) ∧
        ∀ s k : Int64, x' row = .int s → v' row = .int k →
          (point = .date ∨ Word.Fits (s.toInt + k.toInt) → ((q.run row).result m).1 = .ok (.int s)) ∧
          (point = .date → -2 ^ 31 ≤ k.toInt.tdiv 86400000 → k.toInt.tdiv 86400000 < 2 ^ 31 →
            ∃ d : Int64, ((r.run row).result m).1 = .ok (.int d) ∧ d.toInt = k.toInt.tdiv 86400000 * 86400000) ∧
          (point ≠ .date → Word.Fits (s.toInt + k.toInt) → ((r.run row).result m).1 = .ok (.int k)) := by
  intro plus minus between
  obtain ⟨p, hp, hrunp⟩ := (counts_moved_elapsed hpoint hinterval hx hy).program_run settings defs
  obtain ⟨q, hq, hrunq⟩ := (counts_moved_moved hpoint hinterval hx hv).program_run settings defs
  obtain ⟨r, hr, hrunr⟩ := (counts_elapsed_moved hpoint hinterval hx hv).program_run settings defs
  refine ⟨p, q, r, hp, hq, hr, fun row m hrow => ⟨fun s t hs ht h => ?_, fun s k hs hk => ?_⟩⟩
  · have hholds : point.word.Holds s.toInt := hx.holds hpoint.represents hrow hs
    rw [hrunp hrow (areNumbers_pair hs ht h), hs, ht]
    show Except.ok (Value.int (Int64.ofInt (moved false point t.toInt (elapsed point s.toInt t.toInt)))) = _
    rw [moved_elapsed hholds, Int64.ofInt_toInt]
  · have hholds : point.word.Holds s.toInt := hx.holds hpoint.represents hrow hs
    have hallows : point = .date ∨ Word.Fits (s.toInt + k.toInt) →
        Allows point (TimeOfDay.sum false s.toInt (k.toInt.tdiv (unit point))) := by
      intro h
      by_cases hdate : point = .date
      · exact .inl hdate
      · rw [unit_of_ne hdate, Int.tdiv_one]
        exact .inr (h.resolve_left hdate)
    have hbetween : point = .date ∨ Word.Fits (s.toInt + k.toInt) →
        point.word.Holds (k.toInt.tdiv (unit point)) →
        ((r.run row).result m).1 = .ok (.int (Int64.ofInt (k.toInt.tdiv (unit point) * unit point))) := by
      intro h hdays
      rw [hrunr hrow (areNumbers_pair hs hk (hallows h)), hs, hk]
      exact congrArg (fun n => Except.ok (Value.int (Int64.ofInt n))) (elapsed_moved hdays s.toInt)
    refine ⟨fun h => ?_, fun hdate hle hlt => ?_, fun hdate h => ?_⟩
    · rw [hrunq hrow (areNumbers_pair hs hk (hallows h)), hs, hk]
      show Except.ok (Value.int (Int64.ofInt (moved true point (moved false point s.toInt k.toInt) k.toInt))) = _
      rw [moved_moved hholds, Int64.ofInt_toInt]
    · subst hdate
      have hfits : Word.Fits (k.toInt.tdiv 86400000 * 86400000) := by
        rw [Word.fits_iff]
        omega
      exact ⟨_, hbetween (.inl rfl) ⟨hle, hlt⟩, Word.toInt_ofInt hfits⟩
    · have hresult := hbetween (.inr h)
      rw [unit_of_ne hdate, Int.tdiv_one, mul_one, hpoint.word_of_ne hdate, Int64.ofInt_toInt] at hresult
      exact hresult (IntegerType.holds_big (Word.fits_toInt k))

/-- From the first to the last date, whose distance in days does not fit 32 bits. A day and a millisecond before the last
date is the day before it. -/
theorem program_run_instant_interval_last_date :
    let fields := [("d", SqlType.plain .date false), ("v", SqlType.plain .intervalDay true)]
    let first := Term.literal (.int (-2147483648)) (.plain .date false)
    let last := Term.input 0 (.plain .date false)
    let back := Term.input 1 (.plain .intervalDay true)
    let plus := fun d e => Term.call (.builtin .datetimePlus) (.plain .date true) [d, e]
    let minus := fun d e => Term.call (.builtin .minusDate) (.plain .date true) [d, e]
    let between := fun d e => Term.call (.builtin .minusDate) (.plain .intervalDay true) [d, e]
    ∃ p q r, (plus first (between last first)).program {} [] fields = .ok p ∧
      (minus (plus last back) back).program {} [] fields = .ok q ∧
      (between (plus last back) last).program {} [] fields = .ok r ∧
      ((p.run [.int 2147483647, .int (-86400001)]).result {}).1 = .ok (.int 2147483647) ∧
      ((q.run [.int 2147483647, .int (-86400001)]).result {}).1 = .ok (.int 2147483647) ∧
      ((r.run [.int 2147483647, .int (-86400001)]).result {}).1 = .ok (.int (-86400000)) := by
  intro fields first last back plus minus between
  have hrow : IsRow fields [.int 2147483647, .int (-86400001)] :=
    .cons ⟨rfl, fun h => by cases h⟩ (.cons ⟨rfl, fun h => by cases h⟩ .nil)
  have hlast : last.Leaf fields (.plain .date false) fun row => row.getD 0 .null := .input rfl
  have hback : back.Leaf fields (.plain .intervalDay true) fun row => row.getD 1 .null := .input rfl
  have hfirst : first.Leaf fields (.plain .date false) fun _ => .int (-2147483648) := .literal rfl (by simp)
  obtain ⟨p, q, r, hp, hq, hr, hrun⟩ :=
    program_run_instant_interval {} [] (b := true) (c := true) (.inl rfl) rfl hlast hfirst hback
  obtain ⟨hsum, hboth⟩ := hrun _ {} hrow
  obtain ⟨hundone, hdays, -⟩ := hboth 2147483647 (-86400001) rfl rfl
  obtain ⟨d, hd, hd'⟩ := hdays rfl (by decide) (by decide)
  obtain rfl : d = -86400000 := Int64.toInt_inj.1 (hd'.trans (by decide))
  exact ⟨p, q, r, hp, hq, hr, hsum 2147483647 (-2147483648) rfl rfl (.inl rfl), hundone (.inl rfl), hd⟩

end Term

end SqlCode
