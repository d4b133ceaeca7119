import SqlCode.Proofs.NumberTerms

/-!
# Times of day and intervals

A day-time interval is added to a time of day or subtracted from it, and the sum wraps around midnight. The code cuts
the interval to 32 bits and adds in 32 bits before it reduces the sum to a day, so that a sum wraps around 2 ^ 32
milliseconds first, which is not a number of whole days.
-/

namespace SqlCode

open Run SqlCode.Expr

namespace TimeOfDay

/-- The exact sum or difference. -/
def sum (minus : Bool) (t v : ℤ) : ℤ := if minus then t - v else t + v

/-- The time of day that the code gives. -/
def later (minus : Bool) (t v : ℤ) : ℤ := (sum minus t v).bmod (2 ^ 32) % millisPerDay

variable {minus : Bool} {t v : ℤ}

theorem later_bounds (minus : Bool) (t v : ℤ) : 0 ≤ later minus t v ∧ later minus t v < 86400000 := by
  unfold later millisPerDay
  omega

theorem holds_later (minus : Bool) (t v : ℤ) : IntegerType.regular.Holds (later minus t v) := by
  have hbounds := later_bounds minus t v
  show -2 ^ 31 ≤ later minus t v ∧ later minus t v < 2 ^ 31
  omega

theorem toInt_later (minus : Bool) (t v : ℤ) : (Int64.ofInt (later minus t v)).toInt = later minus t v :=
  Word.toInt_ofInt (holds_later minus t v).fits

/-- Wrapping around 32 bits takes off as many multiples of 2 ^ 32 as bring the number into range. -/
theorem bmod_eq (s : ℤ) : s.bmod (2 ^ 32) = s - 4294967296 * ((s + 2147483648) / 4294967296) := by
  rw [Int.bmod_def]
  push_cast
  split_ifs <;> omega

/-- The time of day is right if and only if the sum wraps around 32 bits a multiple of 84375 times, which takes off a
number of whole days. -/
theorem later_eq_iff (minus : Bool) (t v : ℤ) :
    later minus t v = sum minus t v % 86400000 ↔ 84375 ∣ (sum minus t v + 2147483648) / 4294967296 := by
  unfold later millisPerDay
  rw [bmod_eq]
  generalize sum minus t v = s
  generalize (s + 2147483648) / 4294967296 = q
  have hdays : (s - 4294967296 * q) % 86400000 = s % 86400000 ↔ 86400000 ∣ 4294967296 * q := by
    rw [Int.emod_eq_emod_iff_emod_sub_eq_zero, sub_sub_cancel_left, ← Int.dvd_iff_emod_eq_zero, dvd_neg]
  -- a day and 2 ^ 32 share the factor 1024, and what is left of them is coprime
  have hcoprime : IsCoprime (84375 : ℤ) 4194304 := by
    rw [Int.isCoprime_iff_gcd_eq_one]
    rfl
  rw [hdays, show (4294967296 : ℤ) * q = 1024 * (4194304 * q) by ring, show (86400000 : ℤ) = 1024 * 84375 by rfl,
    mul_dvd_mul_iff_left (by decide)]
  exact ⟨hcoprime.dvd_of_dvd_mul_left, fun h => h.mul_left _⟩

theorem later_of_holds (h : IntegerType.regular.Holds (sum minus t v)) :
    later minus t v = sum minus t v % 86400000 := by
  have hwrap : (sum minus t v).bmod (2 ^ 32) = sum minus t v := IntegerType.holds_iff.1 h
  rw [later, hwrap]
  rfl

/-! ### Code -/

/-- The operator that adds or subtracts. -/
def operator (minus : Bool) : Builtin := if minus then .minusDate else .datetimePlus

/-- The operation of the machine. -/
def operation (minus : Bool) : Arithmetic := if minus then .minus else .plus

/-- The code of a sum or difference. -/
def code (minus : Bool) (a b : Expr) : Expr := ((mkBinary (operation minus).op a b.toInt).floorMod millisPerDay).toInt

variable {site : CallSite} {type : TypeName} {m : Machine} {a b : Expr} {n n' : Bool}

theorem word_interval (h : type.isDayTimeInterval) : type.word = .big := by
  cases type <;> first | rfl | cases h

theorem not_isYearMonthInterval (h : type.isDayTimeInterval) : type.isYearMonthInterval = false := by
  cases type <;> first | rfl | cases h

theorem represents_interval (h : type.isDayTimeInterval) : IntegerType.big.Represents type := by
  rw [← word_interval h]
  exact TypeName.represents_word (.inr (by simp [TypeName.isInterval, h]))

theorem map_name {type' : TypeName} (h : site.operands.map (·.type) = [.plain type n, .plain type' n']) :
    site.operands.map (·.type.name) = [type, type'] := by
  have hmap := congrArg (List.map SqlType.name) h
  rwa [List.map_map] at hmap

theorem builtin?_beq (hop : site.op = .builtin (operator minus)) :
    (site.op.builtin? == some Builtin.minusDate) = minus := by
  rw [hop]
  cases minus <;> rfl

theorem datetime_eq (hop : site.op = .builtin (operator minus)) (hsite : site.type.name = .time)
    (htype : type.isDayTimeInterval)
    (hoperands : site.operands.map (·.type) = [.plain .time n, .plain type n']) :
    site.datetime [a, b] = .ok (code minus a b) := by
  unfold CallSite.datetime
  rw [map_name hoperands]
  have hadd : site.addInterval minus a b.toInt = code minus a b := by
    unfold CallSite.addInterval
    rw [if_pos hsite]
    cases minus <;> rfl
  simp only [CallSite.pair, builtin?_beq hop, CallSite.align, not_isYearMonthInterval htype, htype, ← hadd]
  rfl

/-- Adding what is cut to 32 bits in 32 bits is cutting the sum. -/
theorem outcome_cut (minus : Bool) (ht : Word.Fits t) (v : ℤ) :
    (operation minus).outcome .regular (.int (Int64.ofInt t)) (IntegerType.regular.wrapped v) =
      .ok (.int (Int64.ofInt ((sum minus t v).bmod (2 ^ 32)))) := by
  have hcut : (Int64.ofInt (v.bmod (2 ^ 32))).toInt = v.bmod (2 ^ 32) :=
    Word.toInt_ofInt (IntegerType.regular.holds_bmod v).fits
  cases minus with
  | true =>
    show Except.ok (IntegerType.regular.wrapped ((Int64.ofInt t).toInt - (Int64.ofInt (v.bmod (2 ^ 32))).toInt)) = _
    rw [hcut, Word.toInt_ofInt ht]
    exact congrArg (fun k => Except.ok (Value.int (Int64.ofInt k))) Int.sub_bmod_bmod
  | false =>
    show Except.ok (IntegerType.regular.wrapped ((Int64.ofInt t).toInt + (Int64.ofInt (v.bmod (2 ^ 32))).toInt)) = _
    rw [hcut, Word.toInt_ofInt ht]
    exact congrArg (fun k => Except.ok (Value.int (Int64.ofInt k))) Int.add_bmod_bmod

theorem number_sum {w : IntegerType} (minus : Bool) (ha : a.Number .regular m t) (hb : b.Number w m v) :
    (mkBinary (operation minus).op a b.toInt).Number .regular m ((sum minus t v).bmod (2 ^ 32)) := by
  have hcut : (Value.int (Int64.ofInt v)).convert (.prim .i32) = .ok (IntegerType.regular.wrapped v) := by
    have hprim := IntegerType.regular.toPrim_int (Int64.ofInt v)
    rwa [hb.toInt] at hprim
  have hrep : b.toInt.rep = .prim .i32 := rep_mkConvert _ _
  have hinterval : b.toInt.EvalsTo m (IntegerType.regular.wrapped v) := hb.carries.evalsTo_mkConvert hcut
  have hlogical : (operation minus).op.isLogical = false := by cases minus <;> rfl
  have hnode : mkBinary (operation minus).op a b.toInt = .binary (operation minus).op a b.toInt (.prim .i32) := by
    rw [mkBinary_of_not_isLogical hlogical, ha.rep, hrep]
    cases minus <;> rfl
  have hresult := Arithmetic.result_mkConvert_mkBinary (o := operation minus) (w := .regular) (r := .prim .i32) rfl
    ha.rep hrep (ha.rep ▸ ha.carries.fits) (IntegerType.fits_wrapped .regular v) ha.carries.evalsTo hinterval
  have hholds : IntegerType.regular.Holds ((sum minus t v).bmod (2 ^ 32)) := IntegerType.regular.holds_bmod _
  rw [hnode] at hresult ⊢
  rw [mkConvert_of_rep_eq (show (Expr.binary _ a b.toInt (.prim .i32)).rep = .prim .i32 from rfl),
    outcome_cut minus ha.fits] at hresult
  exact ⟨rfl, hholds, .plain hresult hholds.fits_prim (by simp)⟩

theorem number_code (minus : Bool) (hm : m.routines.get? "floorMod" = none) (ha : a.Number .regular m t)
    (hb : b.Number .big m v) : (code minus a b).Number .regular m (later minus t v) := by
  have hrest := (number_sum minus ha hb).floorMod hm (show 1 < millisPerDay by decide) (by decide)
  have hrep : (code minus a b).rep = .prim .i32 := by rw [code, Expr.toInt, rep_mkConvert]
  exact ⟨hrep, holds_later minus t v, hrest.carries.mkConvert (holds_later minus t v).fits_prim⟩

theorem isStrict_operator (minus : Bool) : (operator minus).IsStrict := by
  cases minus <;> exact ⟨⟨rfl, rfl, by decide⟩, fun _ _ => rfl, rfl⟩

theorem gives (minus : Bool) (htype : type.isDayTimeInterval) {b : Bool} (hb : n ∨ n' → b) :
    (operator minus).Gives [.plain .time n, .plain type n'] (.plain .time b) ["floorMod"] (fun _ => True)
      (Value.onNumbers (later minus)) := by
  have htime : IntegerType.regular.Represents .time := TypeName.represents_word (.inl rfl)
  refine Builtin.gives_onNumbers (isStrict_operator minus) htime (represents_interval htype) htime (fun _ _ => hb) ?_
    (holds_later minus) fun hm hx hy _ => number_code minus (hm "floorMod" (by simp)) hx hy
  intro site d e hop hsite hoperands
  have hcode := datetime_eq (a := d) (b := e) hop hsite htype hoperands
  cases minus with
  | true | false => exact congrArg Emit.lift hcode

end TimeOfDay

namespace Term

open TimeOfDay

/-- Adding a day-time interval to a time of day, or subtracting it, compiles and gives a time of day. Sum and difference
are cut to 32 bits before they are reduced to a day, so that the result is the sum modulo a day only if it wraps
around 32 bits a multiple of 84375 times, as it does if it fits. Null gives null. -/
theorem program_run_time_interval (settings : Settings) (defs : List Term) {fields : List (String × SqlType)}
    {type : TypeName} (htype : type.isDayTimeInterval = true) {n n' b : Bool} {i j : Nat} {name name' : String}
    (hi : fields[i]? = some (name, .plain .time n)) (hj : fields[j]? = some (name', .plain type n'))
    (hb : n = true ∨ n' = true → b = true) (minus : Bool) :
    ∃ p, (Term.call (.builtin (if minus then .minusDate else .datetimePlus)) (.plain .time b)
        [.input i (.plain .time n), .input j (.plain type n')]).program settings defs fields = .ok p ∧
      ∀ (row : List Value) (m : Machine), IsRow fields row → m.Unregistered ["floorMod"] →
        (row[i]? = some .null ∨ row[j]? = some .null → ((p.run row).result m).1 = .ok .null) ∧
        ∀ t v : Int64, row[i]? = some (.int t) → row[j]? = some (.int v) →
          let s := if minus then t.toInt - v.toInt else t.toInt + v.toInt
          ∃ y : Int64, ((p.run row).result m).1 = .ok (.int y) ∧ 0 ≤ y.toInt ∧ y.toInt < 86400000 ∧
            y.toInt = s.bmod (2 ^ 32) % 86400000 ∧
            (y.toInt = s % 86400000 ↔ 84375 ∣ (s + 2 ^ 31) / 2 ^ 32) ∧
            (-2 ^ 31 ≤ s → s < 2 ^ 31 → y.toInt = s % 86400000) := by
  have hyields : (operator minus).Yields [.input i (.plain .time n), .input j (.plain type n')] _ _ _ _ :=
    gives minus htype hb rfl
  obtain ⟨p, hp, hrun⟩ := hyields.program_run
    (.cons (Term.gives_input hi) (.cons (Term.gives_input hj) .nil)) settings defs
  refine ⟨p, hp, fun row m hrow hm => ?_⟩
  have hresult := hrun hrow trivial hm
  simp only [List.map_cons, List.map_nil, List.getD_eq_getElem?_getD] at hresult
  refine ⟨fun hnull => ?_, fun t v ht hv => ?_⟩
  · rw [hresult]
    rcases hnull with h | h <;> exact congrArg Except.ok (Value.onNumbers_null (by simp [h]))
  · rw [ht, hv] at hresult
    obtain ⟨hnonneg, hlt⟩ := later_bounds minus t.toInt v.toInt
    refine ⟨_, hresult, ?_⟩
    rw [toInt_later]
    exact ⟨hnonneg, hlt, rfl, later_eq_iff minus _ _, fun hle hlt => later_of_holds ⟨hle, hlt⟩⟩

/-- A millisecond before midnight is the last one of the day. After 2 ^ 31 milliseconds, which are 24 days and
73883648 milliseconds, the sum has wrapped around 32 bits. -/
theorem program_run_time_interval_wrapped :
    let fields := [("t", SqlType.plain .time false), ("v", SqlType.plain .intervalDay true)]
    let call := fun op => (Term.call (.builtin op) (.plain .time true)
      [.input 0 (.plain .time false), .input 1 (.plain .intervalDay true)]).program {} [] fields
    ∃ p q, call .datetimePlus = .ok p ∧ call .minusDate = .ok q ∧
      ((p.run [.int 0, .int 2147483648]).result {}).1 = .ok (.int 12516352) ∧
      ((q.run [.int 0, .int 1]).result {}).1 = .ok (.int 86399999) ∧
      ((q.run [.int 0, .null]).result {}).1 = .ok .null ∧ (2147483648 : ℤ) % 86400000 = 73883648 := by
  intro fields call
  have hi : fields[0]? = some ("t", .plain .time false) := rfl
  have hj : fields[1]? = some ("v", .plain .intervalDay true) := rfl
  have hrow : ∀ v, v.Fits (.boxed .i64) → IsRow fields [.int 0, v] := fun v hv =>
    .cons ⟨rfl, fun h => by cases h⟩ (.cons ⟨hv, fun _ => rfl⟩ .nil)
  have hlibrary : ({} : Machine).Unregistered ["floorMod"] := fun g _ => rfl
  obtain ⟨p, hp, hplus⟩ := program_run_time_interval {} [] rfl hi hj (b := true) (fun _ => rfl) false
  obtain ⟨q, hq, hminus⟩ := program_run_time_interval {} [] rfl hi hj (b := true) (fun _ => rfl) true
  obtain ⟨y, hy, -, -, hy', -⟩ := (hplus _ {} (hrow (.int 2147483648) rfl) hlibrary).2 0 2147483648 rfl rfl
  obtain ⟨z, hz, -, -, hz', -⟩ := (hminus _ {} (hrow (.int 1) rfl) hlibrary).2 0 1 rfl rfl
  obtain rfl : y = 12516352 := Int64.toInt_inj.1 (hy'.trans (by decide))
  obtain rfl : z = 86399999 := Int64.toInt_inj.1 (hz'.trans (by decide))
  exact ⟨p, q, hp, hq, hy, hz, (hminus _ {} (hrow .null rfl) hlibrary).1 (.inr rfl), by decide⟩

end Term

end SqlCode
