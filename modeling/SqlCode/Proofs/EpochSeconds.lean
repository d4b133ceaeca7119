import SqlCode.Proofs.Extraction
import Mathlib.Order.Bounds.Basic

/-!
# Seconds since the epoch

EXTRACT of the epoch and UNIX_SECONDS both count the seconds of a timestamp. EXTRACT is compiled to a division, which
rounds toward zero, and UNIX_SECONDS to a routine, which rounds down. They differ before the epoch, where EXTRACT is a
second ahead unless the timestamp is a whole second. TIMESTAMP_SECONDS goes back from seconds to a timestamp.
-/

namespace SqlCode

open Run SqlCode.Expr

namespace EpochSeconds

/-! ### Rounding -/

/-- Rounding toward zero is rounding down, but for the numbers below zero that are not whole seconds. -/
theorem tdiv_eq (t : ℤ) : t.tdiv 1000 = if 0 ≤ t ∨ 1000 ∣ t then t / 1000 else t / 1000 + 1 := by
  rw [Int.tdiv_eq_ediv]
  split_ifs
  · exact add_zero _
  · rfl

theorem isGreatest_floor (t : ℤ) : IsGreatest {k : ℤ | 1000 ∣ k ∧ k ≤ t} (t / 1000 * 1000) := by
  refine ⟨⟨dvd_mul_left _ _, by omega⟩, ?_⟩
  rintro k ⟨hdvd, hle⟩
  omega

/-- Rounding toward zero gives the last whole second only where it is rounding down. -/
theorem isGreatest_tdiv_iff (t : ℤ) :
    IsGreatest {k : ℤ | 1000 ∣ k ∧ k ≤ t} (t.tdiv 1000 * 1000) ↔ 0 ≤ t ∨ 1000 ∣ t := by
  constructor
  · intro h
    have heq := h.unique (isGreatest_floor t)
    rw [tdiv_eq] at heq
    split_ifs at heq with hwhole
    · exact hwhole
    · omega
  · intro h
    rw [tdiv_eq, if_pos h]
    exact isGreatest_floor t

/-! ### Code -/

variable {ready : Machine → Prop} {b : Bool}

/-- The code of EXTRACT of the epoch calls no routine. -/
theorem codes_epoch (ready : Machine → Prop) (b : Bool) :
    Builtin.extract.Codes (.before .epoch) .timestamp .big (.plain .bigInt b) ready (fun _ _ => True)
      fun _ k => .ok (Routine.wordResult (k.tdiv 1000)) := by
  intro site e n _ _ hoperands _
  refine ⟨_, congrArg Emit.lift (Extraction.extract_eq (x := .epoch) (Extraction.operand_of_types hoperands) rfl e),
    Extraction.code_ne_convert _ _ _ _, ?_⟩
  intro m k _ _ he
  rw [Extraction.reading_of_ne _ (by decide)]
  exact (he.toLong.divide (by decide) (by decide)).carries.evalsTo

theorem codes_ofWord {f : Builtin} {routine : String} {g : ℤ → Except Fault ℤ}
    (hlowering : f.lowering = .routine routine .strict false) (hs : ∀ vs, stateful? routine vs = none)
    (hroutine : Routine.find? routine = some (Routine.ofWord routine g))
    (hready : ∀ {m}, ready m → m.routines.get? routine = none) (source : TypeName) (w : IntegerType) (type : SqlType) :
    f.Codes .none source w type ready (fun _ _ => True) fun _ k => (g k).map Routine.wordResult := by
  intro site e n _ _ _ _
  refine ⟨.call routine [e] site.rep, by rw [hlowering]; rfl, by simp, ?_⟩
  intro m k hm _ he
  rw [result_call, result_evalAll (.cons he.carries.evalsTo .nil), andThen_ok,
    Run.result_call_library (hready hm) (hs _) hroutine]
  show ((g (Int64.ofInt k).toInt).map Routine.wordResult, m) = _
  rw [he.toInt]

/-! ### Terms -/

/-- The seconds of a timestamp, toward zero or down. -/
def seconds (down : Bool) (t : ℤ) : ℤ := if down then t / 1000 else t.tdiv 1000

theorem seconds_mono (down : Bool) {t t' : ℤ} (h : t ≤ t') : seconds down t ≤ seconds down t' := by
  cases down with
  | true => exact Int.ediv_le_ediv (by decide) h
  | false =>
    show t.tdiv 1000 ≤ t'.tdiv 1000
    rw [tdiv_eq, tdiv_eq]
    split_ifs <;> omega

/-- The call that counts the seconds. -/
def counting (down : Bool) (type : SqlType) (t : Term) : Term :=
  if down then .call (.builtin .unixSeconds) type [t]
  else .call (.builtin .extract) type [.symbol (.timeUnit .epoch), t]

/-- The routines that are called. -/
def routines : List String := ["unixSeconds", "timestampSeconds"]

variable {fields : List (String × SqlType)} {n c : Bool} {i : ℕ} {name : String}

theorem type_counting (down : Bool) (type : SqlType) (t : Term) : (counting down type t).type = type := by
  cases down <;> rfl

/-- Both ways of rounding stay closer to zero than the timestamp. -/
theorem fits_seconds (down : Bool) (t : Int64) : Word.Fits (seconds down t.toInt) := by
  have hfits := Word.fits_toInt t
  rw [Word.fits_iff] at hfits ⊢
  cases down with
  | true => exact ⟨by show _ ≤ t.toInt / 1000; omega, by show t.toInt / 1000 ≤ _; omega⟩
  | false =>
    show _ ≤ t.toInt.tdiv 1000 ∧ t.toInt.tdiv 1000 ≤ _
    rw [tdiv_eq]
    split_ifs <;> omega

theorem toInt_seconds (down : Bool) (t : Int64) :
    (Int64.ofInt (seconds down t.toInt)).toInt = seconds down t.toInt :=
  Word.toInt_ofInt (fits_seconds down t)

theorem gives_counting (down : Bool) (hi : fields[i]? = some (name, .plain .timestamp n)) (hb : n → b) :
    (counting down (.plain .bigInt b) (.input i (.plain .timestamp n))).Gives fields routines (IsRow fields)
      fun row => (row.getD i .null).onNumber fun k => .int (Int64.ofInt (seconds down k)) := by
  have hw : IntegerType.big.Represents .timestamp := TypeName.represents_word (.inl rfl)
  have hplain := IntegerType.big.plain_defaultOf b
  have hfits : ∀ k : ℤ, (Value.int (Int64.ofInt k)).Fits (SqlType.plain .bigInt b).rep :=
    fun k => IntegerType.fits_type (w := .big) (IntegerType.fits_big _) b
  cases down with
  | true =>
    exact (codes_ofWord (f := .unixSeconds) rfl (fun _ => rfl) rfl (fun hm => hm "unixSeconds" (by decide)) .timestamp
      .big (.plain .bigInt b)).gives ⟨⟨rfl, rfl, by decide⟩, fun _ _ => rfl, rfl⟩ hw hplain hb (fun _ => hfits _) rfl
      (Term.gives_input hi)
  | false =>
    exact (codes_epoch _ b).gives Extraction.isStrict_extract hw hplain hb (fun _ => hfits _) rfl (Term.gives_input hi)

/-- The timestamp of a number of seconds. -/
def instant (k : ℤ) : Except Fault Value :=
  if Word.Fits (k * 1000) then .ok (.int (Int64.ofInt (k * 1000))) else .error (.overflow "timestampSeconds")

theorem scaleUp_eq (k : ℤ) :
    (Routine.scaleUp "timestampSeconds" millisPerSecond k).map Routine.wordResult = instant k := by
  unfold Routine.scaleUp instant
  show Except.map _ (Except.map _ (checked _ (k * 1000))) = _
  split_ifs with h
  · rw [Value.checked_of_fits h]
    show Except.ok (Value.int (Int64.ofInt (Int64.ofInt (k * 1000)).toInt)) = _
    rw [Int64.ofInt_toInt]
  · simp [checked, Word.ofInt?, h, Except.map]

theorem admits_instant (k : ℤ) (c : Bool) : (SqlType.plain .timestamp c).Admits (instant k) := by
  unfold instant
  split_ifs
  · refine SqlType.admits_ok ?_
    have hw : IntegerType.big.Represents .timestamp := TypeName.represents_word (.inl rfl)
    rw [hw c]
    exact IntegerType.fits_type (IntegerType.fits_big _) c
  · exact SqlType.admits_error _ (by simp)

/-- Going back from the seconds toward zero never overflows. -/
theorem instant_tdiv (t : Int64) :
    instant (seconds false t.toInt) = .ok (.int (Int64.ofInt (t.toInt.tdiv 1000 * 1000))) ∧
      (Int64.ofInt (t.toInt.tdiv 1000 * 1000)).toInt = t.toInt.tdiv 1000 * 1000 := by
  have hfits : Word.Fits (t.toInt.tdiv 1000 * 1000) := by
    have ht := Word.fits_toInt t
    rw [tdiv_eq]
    rw [Word.fits_iff] at ht ⊢
    split_ifs <;> omega
  exact ⟨if_pos hfits, Word.toInt_ofInt hfits⟩

theorem fits_floor_iff (t : Int64) : Word.Fits (t.toInt / 1000 * 1000) ↔ -9223372036854775000 ≤ t.toInt := by
  have ht := Word.fits_toInt t
  rw [Word.fits_iff] at ht ⊢
  omega

theorem instant_floor {t : Int64} (h : -9223372036854775000 ≤ t.toInt) :
    instant (seconds true t.toInt) = .ok (.int (Int64.ofInt (t.toInt / 1000 * 1000))) ∧
      (Int64.ofInt (t.toInt / 1000 * 1000)).toInt = t.toInt / 1000 * 1000 := by
  have hfits := (fits_floor_iff t).2 h
  exact ⟨if_pos hfits, Word.toInt_ofInt hfits⟩

/-- The first timestamps are in a second that has begun before them. -/
theorem instant_floor_of_lt {t : Int64} (h : t.toInt < -9223372036854775000) :
    instant (seconds true t.toInt) = .error (.overflow "timestampSeconds") :=
  if_neg fun hfits => absurd ((fits_floor_iff t).1 hfits) (not_le.2 h)

theorem exists_programs (down : Bool) (settings : Settings) (defs : List Term)
    (hi : fields[i]? = some (name, .plain .timestamp n)) (hb : n → b) (hc : b → c) :
    ∃ p r, (counting down (.plain .bigInt b) (.input i (.plain .timestamp n))).program settings defs fields =
        .ok p ∧
      (Term.call (.builtin .timestampSeconds) (.plain .timestamp c)
        [counting down (.plain .bigInt b) (.input i (.plain .timestamp n))]).program settings defs fields =
        .ok r ∧
      ∀ {row m}, IsRow fields row → m.Unregistered routines →
        (row[i]? = some .null → ((p.run row).result m).1 = .ok .null ∧ ((r.run row).result m).1 = .ok .null) ∧
        ∀ {t : Int64}, row[i]? = some (.int t) →
          ((p.run row).result m).1 = .ok (.int (Int64.ofInt (seconds down t.toInt))) ∧
          ((r.run row).result m).1 = instant (seconds down t.toInt) := by
  have hcounting := gives_counting down hi hb
  have hcodes : Builtin.timestampSeconds.Codes .none .bigInt .big (.plain .timestamp c) (·.Unregistered routines)
      (fun _ _ => True) fun _ => instant := by
    rw [← funext scaleUp_eq]
    exact codes_ofWord rfl (fun _ => rfl) rfl (fun hm => hm "timestampSeconds" (by decide)) _ _ _
  obtain ⟨p, hp, hrun⟩ := hcounting.program_run settings defs
  obtain ⟨r, hr, hrun'⟩ := hcodes.program_run_of_gives ⟨⟨rfl, rfl, by decide⟩, fun _ _ => rfl, rfl⟩
    (fun _ => rfl) (fun _ k _ => admits_instant k c) (IntegerType.big.plain_defaultOf c) hc (Machine.lasting_unregistered _) id
    (type_counting down _ _) hcounting settings defs
  refine ⟨p, r, hp, hr, fun {row m} hrow hm => ?_⟩
  obtain ⟨hnull, hvalue⟩ := hrun' hrow hm
  have hresult := hrun hrow hm
  simp only [List.getD_eq_getElem?_getD] at hresult hnull hvalue
  refine ⟨fun h => ?_, fun {t} h => ?_⟩
  · rw [h] at hresult hnull
    exact ⟨hresult, hnull rfl⟩
  · rw [h] at hresult hvalue
    have hback := hvalue rfl trivial
    rw [toInt_seconds] at hback
    exact ⟨hresult, hback⟩

end EpochSeconds

namespace Term

open EpochSeconds

/-- EXTRACT of the epoch gives the seconds of a timestamp rounded toward zero, and UNIX_SECONDS gives them rounded down.
The two agree from the epoch on and for whole seconds, and otherwise EXTRACT is one second ahead. Both are monotone.
TIMESTAMP_SECONDS of UNIX_SECONDS is the last whole second, unless that is before the first timestamp, where it
overflows. TIMESTAMP_SECONDS of EXTRACT is the last whole second only where the two agree. Null gives null. -/
theorem program_run_epoch_seconds (settings : Settings) (defs : List Term) {fields : List (String × SqlType)}
    {n b c : Bool} {i : ℕ} {name : String} (hi : fields[i]? = some (name, .plain .timestamp n))
    (hb : n = true → b = true) (hc : b = true → c = true) :
    let epoch := Term.call (.builtin .extract) (.plain .bigInt b)
      [.symbol (.timeUnit .epoch), .input i (.plain .timestamp n)]
    let unix := Term.call (.builtin .unixSeconds) (.plain .bigInt b) [.input i (.plain .timestamp n)]
    let back := fun t => Term.call (.builtin .timestampSeconds) (.plain .timestamp c) [t]
    ∃ p q r s, epoch.program settings defs fields = .ok p ∧ unix.program settings defs fields = .ok q ∧
      (back epoch).program settings defs fields = .ok r ∧
      (back unix).program settings defs fields = .ok s ∧
      (∀ (row : List Value) (m : Machine), IsRow fields row → m.Unregistered ["unixSeconds", "timestampSeconds"] →
        (row[i]? = some .null → ∀ u ∈ [p, q, r, s], ((u.run row).result m).1 = .ok .null) ∧
        ∀ t : Int64, row[i]? = some (.int t) → ∃ x y z : Int64,
          ((p.run row).result m).1 = .ok (.int x) ∧ x.toInt = t.toInt.tdiv 1000 ∧
          ((q.run row).result m).1 = .ok (.int y) ∧ y.toInt = t.toInt / 1000 ∧
          x.toInt = (if 0 ≤ t.toInt ∨ 1000 ∣ t.toInt then y.toInt else y.toInt + 1) ∧
          ((r.run row).result m).1 = .ok (.int z) ∧ z.toInt = x.toInt * 1000 ∧
          (IsGreatest {k : ℤ | 1000 ∣ k ∧ k ≤ t.toInt} z.toInt ↔ 0 ≤ t.toInt ∨ 1000 ∣ t.toInt) ∧
          (-9223372036854775000 ≤ t.toInt → ∃ z : Int64, ((s.run row).result m).1 = .ok (.int z) ∧
            IsGreatest {k : ℤ | 1000 ∣ k ∧ k ≤ t.toInt} z.toInt) ∧
          (t.toInt < -9223372036854775000 →
            ((s.run row).result m).1 = .error (.overflow "timestampSeconds"))) ∧
      ∀ u ∈ [p, q], ∀ (row row' : List Value) (m m' : Machine), IsRow fields row → IsRow fields row' →
        m.Unregistered ["unixSeconds", "timestampSeconds"] → m'.Unregistered ["unixSeconds", "timestampSeconds"] →
        ∀ t t' : Int64, row[i]? = some (.int t) → row'[i]? = some (.int t') → t.toInt ≤ t'.toInt →
          ∃ x x' : Int64, ((u.run row).result m).1 = .ok (.int x) ∧ ((u.run row').result m').1 = .ok (.int x') ∧
            x.toInt ≤ x'.toInt := by
  intro epoch unix back
  obtain ⟨p, r, hp, hr, hepoch⟩ := exists_programs false settings defs hi hb hc
  obtain ⟨q, s, hq, hs, hunix⟩ := exists_programs true settings defs hi hb hc
  refine ⟨p, q, r, s, hp, hq, hr, hs, fun row m hrow hm => ⟨fun hnull => ?_, fun t ht => ?_⟩, ?_⟩
  · obtain ⟨hpnull, hrnull⟩ := (hepoch hrow hm).1 hnull
    obtain ⟨hqnull, hsnull⟩ := (hunix hrow hm).1 hnull
    simp only [List.forall_mem_cons, List.not_mem_nil, false_imp_iff, implies_true, and_true]
    exact ⟨hpnull, hqnull, hrnull, hsnull⟩
  · obtain ⟨hp', hr'⟩ := (hepoch hrow hm).2 ht
    obtain ⟨hq', hs'⟩ := (hunix hrow hm).2 ht
    obtain ⟨hinstant, hz⟩ := instant_tdiv t
    refine ⟨_, _, _, hp', toInt_seconds false t, hq', toInt_seconds true t, ?_, hr'.trans hinstant, ?_, ?_, ?_, ?_⟩
    · rw [toInt_seconds, toInt_seconds]
      exact tdiv_eq t.toInt
    · rw [hz, toInt_seconds]
      rfl
    · rw [hz]
      exact isGreatest_tdiv_iff t.toInt
    · intro hle
      obtain ⟨hfloor, hz'⟩ := instant_floor hle
      refine ⟨_, hs'.trans hfloor, ?_⟩
      rw [hz']
      exact isGreatest_floor t.toInt
    · exact fun hlt => hs'.trans (instant_floor_of_lt hlt)
  · have hmono : ∀ {down : Bool} {t t' : Int64}, t.toInt ≤ t'.toInt →
        (Int64.ofInt (seconds down t.toInt)).toInt ≤ (Int64.ofInt (seconds down t'.toInt)).toInt := by
      intro down t t' hle
      rw [toInt_seconds, toInt_seconds]
      exact seconds_mono down hle
    simp only [List.forall_mem_cons, List.not_mem_nil, false_imp_iff, implies_true, and_true]
    refine ⟨?_, ?_⟩ <;> intro row row' m m' hrow hrow' hm hm' t t' ht ht' hle
    · exact ⟨_, _, ((hepoch hrow hm).2 ht).1, ((hepoch hrow' hm').2 ht').1, hmono hle⟩
    · exact ⟨_, _, ((hunix hrow hm).2 ht).1, ((hunix hrow' hm').2 ht').1, hmono hle⟩

/-- A millisecond before the epoch, EXTRACT gives second zero, which has not begun, and UNIX_SECONDS gives the second
before. The first timestamp is in a second whose beginning is no timestamp. -/
theorem program_run_epoch_seconds_before :
    let fields := [("t", SqlType.plain .timestamp true)]
    let epoch := Term.call (.builtin .extract) (.plain .bigInt true)
      [.symbol (.timeUnit .epoch), .input 0 (.plain .timestamp true)]
    let unix := Term.call (.builtin .unixSeconds) (.plain .bigInt true) [.input 0 (.plain .timestamp true)]
    let back := fun t => Term.call (.builtin .timestampSeconds) (.plain .timestamp true) [t]
    ∃ p q r s, epoch.program {} [] fields = .ok p ∧ unix.program {} [] fields = .ok q ∧
      (back epoch).program {} [] fields = .ok r ∧ (back unix).program {} [] fields = .ok s ∧
      ((p.run [.int (-1)]).result {}).1 = .ok (.int 0) ∧ ((q.run [.int (-1)]).result {}).1 = .ok (.int (-1)) ∧
      ((r.run [.int (-1)]).result {}).1 = .ok (.int 0) ∧
      ((s.run [.int (-1)]).result {}).1 = .ok (.int (-1000)) ∧
      ((s.run [.int Int64.minValue]).result {}).1 = .error (.overflow "timestampSeconds") ∧
      ((r.run [.null]).result {}).1 = .ok .null := by
  intro fields epoch unix back
  have hi : fields[0]? = some ("t", .plain .timestamp true) := rfl
  have hrow : ∀ v, v.Fits (.boxed .i64) → IsRow fields [v] := fun v hv => .cons ⟨hv, fun _ => rfl⟩ .nil
  have hlibrary : ({} : Machine).Unregistered ["unixSeconds", "timestampSeconds"] := fun g _ => rfl
  obtain ⟨p, q, r, s, hp, hq, hr, hs, hrun, -⟩ :=
    program_run_epoch_seconds {} [] hi (b := true) (c := true) (fun _ => rfl) fun _ => rfl
  obtain ⟨x, y, z, hx, hx', hy, hy', -, hz, hz', -, hback, -⟩ := (hrun _ {} (hrow (.int (-1)) rfl) hlibrary).2 _ rfl
  obtain ⟨z', hback', hgreatest⟩ := hback (by decide)
  obtain ⟨-, -, -, -, -, -, -, -, -, -, -, -, hfirst⟩ :=
    (hrun _ {} (hrow (.int Int64.minValue) rfl) hlibrary).2 _ rfl
  obtain rfl : x = 0 := Int64.toInt_inj.1 (hx'.trans (by decide))
  obtain rfl : y = -1 := Int64.toInt_inj.1 (hy'.trans (by decide))
  obtain rfl : z = 0 := Int64.toInt_inj.1 (hz'.trans (by decide))
  obtain rfl : z' = -1000 := Int64.toInt_inj.1 ((hgreatest.unique (isGreatest_floor _)).trans (by decide))
  exact ⟨p, q, r, s, hp, hq, hr, hs, hx, hy, hz, hback', hfirst (by decide),
    (hrun _ {} (hrow .null rfl) hlibrary).1 rfl r (by simp)⟩

end Term

end SqlCode
