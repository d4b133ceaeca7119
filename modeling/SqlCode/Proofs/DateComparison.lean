import SqlCode.Proofs.ExactComparison

/-!
# Comparisons of dates with timestamps

A date is a day number, and a timestamp counts milliseconds. Operands of a comparison are brought to the
representation of their common type TIMESTAMP, which widens the day number and does not turn it into an instant.
A cast to TIMESTAMP does. So a comparison of a date with a timestamp compares a number of days with a number of
milliseconds, while the comparison of the cast date compares instants.
-/

namespace SqlCode

open Run SqlCode.Expr

/-- The instant at which a day starts, in milliseconds. -/
def Value.midnight : Value → Value
  | .int d => .int (Int64.ofInt (d.toInt * millisPerDay))
  | _ => .null

/-- Every day starts at an instant that 64 bits hold. -/
theorem Value.exists_day {v : Value} {n : Bool} (h : v.Fits (SqlType.plain .date n).rep) (hne : v ≠ .null) :
    ∃ d : Int64, v = .int d ∧ Word.Fits (d.toInt * millisPerDay) := by
  have hprim : v.Fits (.prim .i32) := by
    cases n with
    | false => exact h
    | true => exact (Value.fits_boxed_iff.1 h).resolve_left hne
  obtain ⟨d, rfl, hd⟩ := (IntegerType.fits_prim_iff (w := .regular)).1 hprim
  refine ⟨d, rfl, ?_⟩
  unfold IntegerType.Holds at hd
  simp only [IntegerType.bits] at hd
  norm_num at hd
  simp only [Word.fits_iff, millisPerDay]
  omega

/-- A cast of a date to TIMESTAMP gives the instant at which the day starts. -/
theorem Builtin.gives_midnight (n : Bool) :
    Builtin.cast.Gives [.plain .date n] (.plain .timestamp n) ["cast"]
      (fun vs => (vs.getD 0 .null).IsOf (.plain .date n)) fun vs => (vs.getD 0 .null).midnight := by
  have hname : (SqlType.plain .date n).name ≠ (SqlType.plain .timestamp n).name := by simp [SqlType.plain]
  have hnumeric : ¬((SqlType.plain .date n).name.isNumeric ∧ (SqlType.plain .timestamp n).name.isNumeric) :=
    fun h => by cases h.1
  refine gives_cast hname hnumeric ?_ id rfl fun {v} hv hne => ?_
  · exact IntegerType.big.plain_defaultOf n
  · obtain ⟨d, rfl, hd⟩ := Value.exists_day hv hne
    refine ⟨?_, ?_, by simp [Value.midnight]⟩
    · show (checked "cast" (d.toInt * millisPerDay)).map Value.int = _
      rw [Value.checked_of_fits hd]
      rfl
    · cases n <;> rfl

/-! ### Programs -/

namespace ExactType

/-- Dates and timestamps are represented as INTEGER and BIGINT numbers, and what they are brought to as BIGINT. -/
theorem aligns_date_timestamp (n n' : Bool) :
    (integer .regular).Aligns (integer .big) n n' (.plain .date n) (.plain .timestamp n') := by
  refine ⟨⟨?_, ?_⟩, ⟨.plain .timestamp (n || n'), ?_, ?_⟩, ?_, ?_⟩ <;>
    cases n <;> cases n' <;> first | rfl | simp [SqlType.plain]

theorem aligns_timestamp_date (n n' : Bool) :
    (integer .big).Aligns (integer .regular) n n' (.plain .timestamp n) (.plain .date n') := by
  refine ⟨⟨?_, ?_⟩, ⟨.plain .timestamp (n || n'), ?_, ?_⟩, ?_, ?_⟩ <;>
    cases n <;> cases n' <;> first | rfl | simp [SqlType.plain]

theorem aligns_timestamps (n n' : Bool) :
    (integer .big).Aligns (integer .big) n n' (.plain .timestamp n) (.plain .timestamp n') := by
  refine ⟨⟨?_, ?_⟩, ⟨.plain .timestamp (n || n'), ?_, ?_⟩, ?_, ?_⟩ <;>
    cases n <;> cases n' <;> first | rfl | simp [SqlType.plain]

end ExactType

namespace Term

open Comparison

/-- Comparisons of a date with a timestamp, in either order, decide the relation between the day number and the
milliseconds of the timestamp. With the date cast to TIMESTAMP, they decide the relation between the instants. All
four programs compile, and all give null where an operand is null. -/
theorem program_run_date_timestamp (settings : Settings) (defs : List Term)
    {fields : List (String × SqlType)} (o : Comparison) {n n' b : Bool} {i j : Nat} {name name' : String}
    (hi : fields[i]? = some (name, .plain .date n)) (hj : fields[j]? = some (name', .plain .timestamp n'))
    (hb : (n || n') = true → b = true) :
    let date := Term.input i (.plain .date n)
    let start := Term.call (.builtin .cast) (.plain .timestamp n) [date]
    let timestamp := Term.input j (.plain .timestamp n')
    let program := fun x y => (Term.call (.builtin o.builtin) (.plain .boolean b) [x, y]).program settings
      defs fields
    ∃ p p' q q', program date timestamp = .ok p ∧ program timestamp date = .ok p' ∧
      program start timestamp = .ok q ∧ program timestamp start = .ok q' ∧
      ∀ (row : List Value) (m : Machine) (v w : Value),
        IsRow fields row → row[i]? = some v → row[j]? = some w →
        ((p.run row).result m).1 = .ok (o.outcome v w) ∧
        ((p'.run row).result m).1 = .ok (o.outcome w v) ∧
        (m.routines.get? "cast" = none → ((q.run row).result m).1 = .ok (o.outcome v.midnight w) ∧
          ((q'.run row).result m).1 = .ok (o.outcome w v.midnight)) := by
  intro date start timestamp program
  have hb' : (n' || n) = true → b = true := by rwa [Bool.or_comm]
  have hstart : start.Gives fields ["cast"] (IsRow fields) fun row => (row.getD i .null).midnight :=
    gives_call (Builtin.gives_midnight n) (.cons (gives_input hi) .nil) fun _ h => h.getD hi
  have hnull : ∀ row, IsRow fields row → (row.getD i .null = .null → n = true) ∧
      ((row.getD i .null).midnight = .null → n = true) ∧ (row.getD j .null = .null → n' = true) := by
    intro row hrow
    refine ⟨(hrow.getD hi).nullable, fun h => (hrow.getD hi).nullable ?_, (hrow.getD hj).nullable⟩
    by_contra hne
    obtain ⟨d, hd, -⟩ := Value.exists_day (hrow.getD hi).fits hne
    rw [hd] at h
    cases h
  have hnone : ∀ (w w' : IntegerType) (routines : List String),
      ∀ g ∈ ExactType.routines o (.integer w) (.integer w'), g ∈ routines := by
    simp [ExactType.routines, ExactType.wider]
  obtain ⟨p, hp, hrun⟩ := o.program_run [] (ExactType.aligns_date_timestamp n n') hb (gives_input hi)
    (gives_input hj) (hnone _ _ _) (fun row hrow => ⟨(hnull row hrow).1, (hnull row hrow).2.2⟩) settings defs
  obtain ⟨p', hp', hrun'⟩ := o.program_run [] (ExactType.aligns_timestamp_date n' n) hb' (gives_input hj)
    (gives_input hi) (hnone _ _ _) (fun row hrow => ⟨(hnull row hrow).2.2, (hnull row hrow).1⟩) settings defs
  obtain ⟨q, hq, hcast⟩ := o.program_run ["cast"] (ExactType.aligns_timestamps n n') hb hstart
    (gives_input hj) (hnone _ _ _) (fun row hrow => (hnull row hrow).2) settings defs
  obtain ⟨q', hq', hcast'⟩ := o.program_run ["cast"] (ExactType.aligns_timestamps n' n) hb' (gives_input hj) hstart
    (hnone _ _ _) (fun row hrow => (hnull row hrow).2.symm) settings defs
  refine ⟨p, p', q, q', hp, hp', hq, hq', fun row m v w hrow hv hw => ?_⟩
  have hlibrary : m.Unregistered [] := by simp [Machine.Unregistered]
  have hget : row.getD i .null = v ∧ row.getD j .null = w := by
    rw [List.getD_eq_getElem?_getD, List.getD_eq_getElem?_getD, hv, hw]
    exact ⟨rfl, rfl⟩
  rw [← hget.1, ← hget.2]
  refine ⟨hrun hrow hlibrary, hrun' hrow hlibrary, fun hm => ?_⟩
  have hroutine : m.Unregistered ["cast"] := by simpa [Machine.Unregistered] using hm
  exact ⟨hcast hrow hroutine, hcast' hrow hroutine⟩

/-- The second day starts at 86400000. The comparison of the date with this instant says that they differ, and
that the date equals the instant one millisecond after the epoch. -/
theorem program_run_date_timestamp_second_day :
    let fields := [("d", SqlType.plain .date false), ("t", SqlType.plain .timestamp true)]
    let date := Term.input 0 (.plain .date false)
    let start := Term.call (.builtin .cast) (.plain .timestamp false) [date]
    let timestamp := Term.input 1 (.plain .timestamp true)
    let program := fun x y => (Term.call (.builtin .equals) (.plain .boolean true) [x, y]).program {} [] fields
    ∃ p q, program date timestamp = .ok p ∧ program start timestamp = .ok q ∧
      ((p.run [.int 1, .int 86400000]).result {}).1 = .ok (.bool false) ∧
      ((q.run [.int 1, .int 86400000]).result {}).1 = .ok (.bool true) ∧
      ((p.run [.int 1, .int 1]).result {}).1 = .ok (.bool true) ∧
      ((q.run [.int 1, .int 1]).result {}).1 = .ok (.bool false) ∧
      ((p.run [.int 1, .null]).result {}).1 = .ok .null := by
  intro fields date start timestamp program
  have hd : fields[0]? = some ("d", .plain .date false) := rfl
  have ht : fields[1]? = some ("t", .plain .timestamp true) := rfl
  have hrow : ∀ w : Value, w.Fits (.boxed .i64) → IsRow fields [.int 1, w] := fun w hw =>
    .cons ⟨rfl, fun h => by cases h⟩ (.cons ⟨hw, fun _ => rfl⟩ .nil)
  obtain ⟨p, p', q, q', hp, -, hq, -, hrun⟩ := program_run_date_timestamp {} [] .equals hd ht fun _ => rfl
  obtain ⟨hday, -, hcast⟩ := hrun [.int 1, .int 86400000] {} _ _ (hrow _ rfl) rfl rfl
  obtain ⟨hday', -, hcast'⟩ := hrun [.int 1, .int 1] {} _ _ (hrow _ rfl) rfl rfl
  obtain ⟨hnull, -, -⟩ := hrun [.int 1, .null] {} _ _ (hrow _ rfl) rfl rfl
  refine ⟨p, q, hp, hq, hday.trans ?_, (hcast rfl).1.trans ?_, hday'.trans ?_, (hcast' rfl).1.trans ?_, hnull⟩
  · rw [outcome_int]
    rfl
  · rw [Value.midnight, outcome_int]
    rfl
  · rw [outcome_int]
    rfl
  · rw [Value.midnight, outcome_int]
    rfl

end Term

end SqlCode
