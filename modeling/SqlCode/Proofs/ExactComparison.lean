import SqlCode.Proofs.ExactNumbers
import SqlCode.Proofs.IntegerArithmetic

/-!
# Comparisons of exact numbers

Comparisons of TINYINT, SMALLINT, INTEGER, BIGINT and DECIMAL operands. The operands are brought to the wider of
their types, which keeps the numbers; integers are then compared by the machine and decimals by a routine. Both
compare the numbers.
-/

namespace SqlCode

open Run SqlCode.Expr IntegerType

variable {b n n' : Bool} {v w : Value} {m : Machine} {o : Comparison}

/-! ### Operators -/

/-- Equality, inequality and the four orders. -/
inductive Comparison
  | equals
  | notEquals
  | lessThan
  | lessThanOrEqual
  | greaterThan
  | greaterThanOrEqual
deriving DecidableEq, Repr

namespace Comparison

/-- The operator of terms. -/
def builtin : Comparison → Builtin
  | .equals => .equals
  | .notEquals => .notEquals
  | .lessThan => .lessThan
  | .lessThanOrEqual => .lessThanOrEqual
  | .greaterThan => .greaterThan
  | .greaterThanOrEqual => .greaterThanOrEqual

/-- The operator of the machine. -/
def op : Comparison → BinaryOp
  | .equals => .equal
  | .notEquals => .notEqual
  | .lessThan => .lessThan
  | .lessThanOrEqual => .lessThanOrEqual
  | .greaterThan => .greaterThan
  | .greaterThanOrEqual => .greaterThanOrEqual

/-- The routine that stands in where the machine has no operator. -/
def routine : Comparison → String
  | .equals => "eq"
  | .notEquals => "ne"
  | .lessThan => "lt"
  | .lessThanOrEqual => "le"
  | .greaterThan => "gt"
  | .greaterThanOrEqual => "ge"

section Order

variable {α : Type} [LinearOrder α]

/-- The relation that the comparison decides. -/
def Relates : Comparison → α → α → Prop
  | .equals, x, y => x = y
  | .notEquals, x, y => x ≠ y
  | .lessThan, x, y => x < y
  | .lessThanOrEqual, x, y => x ≤ y
  | .greaterThan, x, y => x > y
  | .greaterThanOrEqual, x, y => x ≥ y

instance (o : Comparison) (x y : α) : Decidable (o.Relates x y) := by
  cases o <;> unfold Relates <;> infer_instance

theorem accepts_compare (o : Comparison) (x y : α) : o.op.accepts (compare x y) = decide (o.Relates x y) := by
  rcases lt_trichotomy x y with h | h | h
  · rw [compare_lt_iff_lt.2 h]
    cases o <;> simp [op, BinaryOp.accepts, Relates, h, h.ne, h.le, h.not_ge]
  · rw [compare_eq_iff_eq.2 h]
    cases o <;> simp [op, BinaryOp.accepts, Relates, h]
  · rw [compare_gt_iff_gt.2 h]
    cases o <;> simp [op, BinaryOp.accepts, Relates, h, h.ne', h.le, h.asymm, h.not_ge]

end Order

/-- What the comparison gives on two values: null, unless both are numbers. -/
def outcome (o : Comparison) (v w : Value) : Value :=
  match v.number?, w.number? with
  | some x, some y => .bool (decide (o.Relates x y))
  | _, _ => .null

theorem outcome_null (h : v = .null ∨ w = .null) : o.outcome v w = .null := by
  rcases h with rfl | rfl
  · rfl
  · unfold outcome
    cases v.number? <;> rfl

theorem outcome_number {x y : ℚ} (hv : v.number? = some x)
    (hw : w.number? = some y) : o.outcome v w = .bool (decide (o.Relates x y)) := by
  rw [outcome, hv, hw]

theorem outcome_int (o : Comparison) (a b : Int64) :
    o.outcome (.int a) (.int b) = .bool (decide (o.Relates a.toInt b.toInt)) := by
  have hcast : o.Relates (a.toInt : ℚ) (b.toInt : ℚ) ↔ o.Relates a.toInt b.toInt := by
    cases o <;> simp [Relates]
  rw [outcome_number rfl rfl, decide_eq_decide.2 hcast]

theorem isComparison_op (o : Comparison) : o.op.isComparison := by cases o <;> rfl

theorem lowering_eq (o : Comparison) : o.builtin.lowering = .binary o.op .strict true (some o.routine) := by
  cases o <;> rfl

/-- The routine compares as the machine does. -/
theorem result_call_routine (o : Comparison) (hm : m.routines.get? o.routine = none)
    (v w : Value) : (Run.call o.routine [v, w]).result m = (Value.compareBy o.op v w, m) := by
  have hfind : (∀ vs, Run.stateful? o.routine vs = none) ∧
      Routine.find? o.routine = some (Routine.comparison o.op) := by
    cases o <;> exact ⟨fun _ => rfl, rfl⟩
  rw [Run.result_call_library hm (hfind.1 _) hfind.2]
  rfl

end Comparison

/-! ### Types -/

/-- The types of exact numbers. -/
inductive ExactType
  | integer (w : IntegerType)
  | decimal
deriving DecidableEq, Repr

namespace ExactType

/-- The SQL type, with or without null. -/
def type : ExactType → Bool → SqlType
  | .integer w, nullable => w.type nullable
  | .decimal, nullable => .plain .decimal nullable

/-- The type that operands of two types are brought to. -/
def wider : ExactType → ExactType → ExactType
  | .integer w, .integer w' => .integer (w.wider w')
  | _, _ => .decimal

/-- The second type has the numbers of the first one. -/
def AtMost : ExactType → ExactType → Prop
  | .integer w, .integer w' => w.bits ≤ w'.bits
  | .decimal, .integer _ => False
  | _, .decimal => True

/-- The routines that a comparison of operands of the two types may call. -/
def routines (o : Comparison) (t t' : ExactType) : List String :=
  match t.wider t' with
  | .integer _ => []
  | .decimal => [o.routine]

theorem atMost_wider (t t' : ExactType) : t.AtMost (t.wider t') ∧ t'.AtMost (t.wider t') := by
  cases t with
  | decimal => cases t' <;> exact ⟨trivial, trivial⟩
  | integer w =>
    cases t' with
    | decimal => exact ⟨trivial, trivial⟩
    | integer w' => exact w.bits_le_wider w'

theorem common?_type (t t' : ExactType) (n n' : Bool) :
    SqlType.common? [t.type n, t'.type n'] = some ((t.wider t').type (n || n')) := by
  rcases t with w | _ <;> rcases t' with w' | _
  · cases w <;> cases w' <;> cases n <;> cases n' <;> rfl
  · cases w <;> cases n <;> cases n' <;> rfl
  · cases w' <;> cases n <;> cases n' <;> rfl
  · cases n <;> cases n' <;> rfl

theorem rep_wider {t t' : ExactType} (h : (t.type n).rep = (t'.type n').rep) :
    ((t.wider t').type (n || n')).rep = (t.type n).rep := by
  rcases t with w | _ <;> rcases t' with w' | _
  · simp only [type, rep_type] at h
    obtain ⟨rfl, rfl⟩ : w = w' ∧ n = n' := by
      cases w <;> cases w' <;> cases n <;> cases n' <;> first | exact ⟨rfl, rfl⟩ | cases h
    rw [wider, wider_self, Bool.or_self]
  · cases w <;> cases n <;> cases h
  · cases w' <;> cases n' <;> cases h
  · rfl

theorem int_or_decimal_of_fits {t : ExactType} (h : v.Fits (t.type n).rep)
    (hne : v ≠ .null) : (∃ k, v = .int k) ∨ ∃ d, v = .decimal d := by
  cases t with
  | integer w =>
    obtain ⟨k, rfl, -⟩ := fits_prim_iff.1 (fits_of_bits_le h hne le_rfl)
    exact .inl ⟨k, rfl⟩
  | decimal => exact .inr (Value.exists_decimal h hne)

theorem exists_number? {t : ExactType} (h : v.Fits (t.type n).rep) (hne : v ≠ .null) :
    ∃ x, v.number? = some x := by
  rcases int_or_decimal_of_fits h hne with ⟨k, rfl⟩ | ⟨d, rfl⟩
  · exact ⟨_, rfl⟩
  · exact ⟨_, rfl⟩

/-- An operand that is not null, brought to a wider type, has the number that it had. -/
theorem evalsTo_operand {t t' : ExactType} {f : Flagged}
    (hf : f.value.rep = (t.type n).rep) (hatom : f.value.isAtom) (hv : f.Represents m v)
    (hne : v ≠ .null) (h : t.AtMost t') (b : Bool) :
    ∃ u, (f.value.mkConvert (t'.type b).rep).unbox.EvalsTo m u ∧ u.number? = v.number? := by
  have hfits : v.Fits (t.type n).rep := hf ▸ hv.fits
  cases t' with
  | integer w' =>
    cases t with
    | decimal => exact absurd h id
    | integer w =>
      -- an integer fits the wider type as it is
      have hwide : v.Fits (w'.type b).rep :=
        fits_type (fits_of_bits_le hfits hne h) b
      exact ⟨v, (((hv.carries hatom).mkConvert hwide).unbox hne).evalsTo, rfl⟩
  | decimal =>
    -- decimals are not boxed, so that only the conversion matters
    have hunbox : (f.value.mkConvert .decimal).unbox = f.value.mkConvert .decimal := by
      unfold unbox
      rw [rep_mkConvert]
    obtain ⟨u, hu, hnumber⟩ : ∃ u, v.convert .decimal = .ok u ∧ u.number? = v.number? := by
      rcases int_or_decimal_of_fits hfits hne with ⟨k, rfl⟩ | ⟨d, rfl⟩
      · exact ⟨_, rfl, congrArg some (Decimal.toRat_ofInt _)⟩
      · exact ⟨_, rfl, rfl⟩
    refine ⟨u, ?_, hnumber⟩
    show (f.value.mkConvert .decimal).unbox.EvalsTo m u
    rw [hunbox]
    exact hv.evalsTo_mkConvert hatom hu

end ExactType

/-! ### The code of a comparison -/

/-- Operands of the types are represented as those of exact types, and so is what they are brought to. -/
structure ExactType.Aligns (t t' : ExactType) (n n' : Bool) (type type' : SqlType) : Prop where
  rep : type.rep = (t.type n).rep ∧ type'.rep = (t'.type n').rep
  common : ∃ c, SqlType.common? [type, type'] = some c ∧ c.rep = ((t.wider t').type (n || n')).rep
  name : type.name ≠ .any ∧ type'.name ≠ .any

theorem ExactType.aligns (t t' : ExactType) (n n' : Bool) : t.Aligns t' n n' (t.type n) (t'.type n') := by
  have hname : ∀ (k : ExactType) (b : Bool), (k.type b).name ≠ .any := by
    rintro (w | _) b
    · cases w <;> simp [type, IntegerType.type, IntegerType.name, SqlType.plain]
    · simp [type, SqlType.plain]
  exact ⟨⟨rfl, rfl⟩, ⟨_, common?_type t t' n n', rfl⟩, hname t n, hname t' n'⟩

namespace Comparison

open Emit ExactType

variable {t t' : ExactType} {type type' result : SqlType} {site : CallSite} {x y : Flagged}

/-- The operands are converted to their common type and then unboxed. -/
theorem operandsFor_eq (h : t.Aligns t' n n' type type')
    (hsite : site.Calls o.builtin [type, type'] result [x, y]) :
    operandsFor .strict true site [x, y] =
      [(x.value.mkConvert ((t.wider t').type (n || n')).rep).unbox,
        (y.value.mkConvert ((t.wider t').type (n || n')).rep).unbox] := by
  obtain - | ⟨hx, - | ⟨hy, - | -⟩⟩ := hsite.args
  obtain ⟨c, hc, hrep⟩ := h.common
  have hharm : site.harmonize [x.value, y.value] =
      [x.value.mkConvert ((t.wider t').type (n || n')).rep,
        y.value.mkConvert ((t.wider t').type (n || n')).rep] := by
    simp only [CallSite.harmonize, hsite.operands, hc, hrep]
    split_ifs with hall
    · -- operands of one type have the representation of the common type already
      obtain rfl : type' = type := by simpa using hall
      have hwide := rep_wider (h.rep.1.symm.trans h.rep.2)
      rw [mkConvert_of_rep_eq (by rw [hx.rep, h.rep.1, hwide]),
        mkConvert_of_rep_eq (by rw [hy.rep, h.rep.1, hwide])]
    · rfl
  show (site.harmonize [x.value, y.value]).map unbox = _
  rw [hharm]
  rfl

/-- The machine compares integers, and the routine compares decimals. -/
def code (o : Comparison) (t : ExactType) (e e' : Expr) : Expr :=
  match t with
  | .integer _ => .mkBinary o.op e e'
  | .decimal => .call o.routine [e, e'] .truth

theorem compute_eq (h : t.Aligns t' n n' type type')
    (hsite : site.Calls o.builtin [type, type'] result [x, y]) {k : ExactType} {e e' : Expr}
    (he : e.rep = (k.type b).rep.unbox) (he' : e'.rep = (k.type b).rep.unbox) :
    o.builtin.lowering.compute site [e, e'] = pure (o.code k e e') := by
  have hany := hsite.any_operands (by simp [h.name.1, h.name.2])
  have hbinary : site.binary o.op (some o.routine) [e, e'] = .ok (o.code k e e') := by
    simp only [CallSite.binary, hany, he, he', Bool.false_eq_true, if_false]
    cases k with
    | integer w =>
      have hbackup : CallSite.needsBackup o.op ((integer w).type b).rep.unbox
          ((integer w).type b).rep.unbox = false := by
        cases w <;> cases b <;> cases o <;> rfl
      rw [hbackup, if_neg Bool.false_ne_true]
      rfl
    | decimal =>
      have hrep : site.backupRep o.op = .truth := if_pos o.isComparison_op
      rw [hrep]
      rfl
  rw [lowering_eq]
  exact congrArg Emit.lift hbinary

/-- The code evaluates to the truth of the relation between the numbers of its operands. -/
theorem carries_code {k : ExactType} {e e' : Expr} {u u' : Value} {p q : ℚ}
    (hm : k = .decimal → m.routines.get? o.routine = none) (he : e.EvalsTo m u) (he' : e'.EvalsTo m u')
    (hu : u.number? = some p) (hu' : u'.number? = some q) :
    (o.code k e e').Carries m (.bool (decide (o.Relates p q))) := by
  have hcompare : Value.compareBy o.op u u' = .ok (.bool (decide (o.Relates p q))) := by
    rw [Value.compareBy_of_number? o.isComparison_op hu hu', accepts_compare]
  cases k with
  | integer w =>
    have hlogical : o.op.isLogical = false := by cases o <;> rfl
    have hnode : o.code (.integer w) e e' = .binary o.op e e' .truth := by
      rw [code, mkBinary_of_not_isLogical hlogical, o.isComparison_op, if_pos rfl]
    have happly : Value.applyBinary o.op u u' .truth = .ok (.bool (decide (o.Relates p q))) := by
      rw [Value.applyBinary, o.isComparison_op, if_pos rfl, hcompare]
      rfl
    rw [hnode]
    exact .plain (evalsTo_binary hlogical he he' happly) rfl (by simp)
  | decimal =>
    have hcall : (Run.call o.routine [u, u']).result m = (.ok (.bool (decide (o.Relates p q))), m) := by
      rw [o.result_call_routine (hm rfl), hcompare]
    exact .plain (evalsTo_call .truth (.cons he (.cons he' .nil)) hcall) rfl (by simp [code])

theorem exists_code (h : t.Aligns t' n n' type type')
    (hsite : site.Calls o.builtin [type, type'] result [x, y]) : ∃ raw,
      o.builtin.lowering.compute site (operandsFor .strict true site [x, y]) = pure raw ∧
        ∀ {m v w}, m.Unregistered (ExactType.routines o t t') → x.Represents m v → y.Represents m w →
          v ≠ .null → w ≠ .null → raw.Carries m (o.outcome v w) := by
  obtain - | ⟨hx, - | ⟨hy, - | -⟩⟩ := hsite.args
  obtain ⟨hle, hle'⟩ := atMost_wider t t'
  have hcompute := compute_eq h hsite
    (show (x.value.mkConvert ((t.wider t').type (n || n')).rep).unbox.rep = _ by rw [rep_unbox, rep_mkConvert])
    (show (y.value.mkConvert ((t.wider t').type (n || n')).rep).unbox.rep = _ by rw [rep_unbox, rep_mkConvert])
  rw [operandsFor_eq h hsite]
  refine ⟨_, hcompute, fun {m v w} hm hv hw hv' hw' => ?_⟩
  obtain ⟨p, hp⟩ := exists_number? (h.rep.1 ▸ hx.rep ▸ hv.fits) hv'
  obtain ⟨q, hq⟩ := exists_number? (h.rep.2 ▸ hy.rep ▸ hw.fits) hw'
  obtain ⟨u, hu, hnumber⟩ := evalsTo_operand (hx.rep.trans h.rep.1) hx.isAtom hv hv' hle (n || n')
  obtain ⟨u', hu', hnumber'⟩ := evalsTo_operand (hy.rep.trans h.rep.2) hy.isAtom hw hw' hle' (n || n')
  have hlibrary : t.wider t' = .decimal → m.routines.get? o.routine = none := by
    intro hk
    refine hm o.routine ?_
    rw [ExactType.routines, hk]
    exact List.mem_singleton_self _
  rw [outcome_number hp hq]
  exact carries_code hlibrary hu hu' (hnumber.trans hp) (hnumber'.trans hq)

/-- The values of the operands are null only where the types admit it. -/
def Admits (n n' : Bool) (vs : List Value) : Prop :=
  (vs.getD 0 .null = .null → n) ∧ (vs.getD 1 .null = .null → n')

/-- The outcome is null only where an operand is. -/
theorem fits_outcome (h : t.Aligns t' n n' type type') (hb : (n || n') → b)
    (hv : v.Fits type.rep) (hw : w.Fits type'.rep) (hgood : Admits n n' [v, w]) :
    (o.outcome v w).Fits (SqlType.plain .boolean b).rep := by
  by_cases hnull : v = .null ∨ w = .null
  · have hnullable : (n || n') := by
      rcases hnull with rfl | rfl
      · rw [hgood.1 rfl, Bool.true_or]
      · rw [hgood.2 rfl, Bool.or_true]
    rw [outcome_null hnull, hb hnullable]
    rfl
  · obtain ⟨hv', hw'⟩ := not_or.1 hnull
    obtain ⟨p, hp⟩ := exists_number? (h.rep.1 ▸ hv) hv'
    obtain ⟨q, hq⟩ := exists_number? (h.rep.2 ▸ hw) hw'
    rw [outcome_number hp hq]
    cases b <;> rfl

theorem gives (o : Comparison) (h : t.Aligns t' n n' type type') (hb : (n || n') → b) :
    o.builtin.Gives [type, type'] (.plain .boolean b) (ExactType.routines o t t') (Admits n n')
      fun vs => o.outcome (vs.getD 0 .null) (vs.getD 1 .null) := by
  have hlow := o.lowering_eq
  refine Builtin.gives_strict (by cases o <;> exact ⟨rfl, rfl, by decide⟩) (by cases b <;> exact plain_const rfl _)
    (fun _ => by rw [hlow]; rfl) ?_ ?_ ?_
  · intro vs hvs hgood
    obtain - | ⟨hv, - | ⟨hw, - | -⟩⟩ := hvs
    exact fits_outcome h hb hv hw hgood
  · rintro (_ | ⟨v, _ | ⟨w, _ | ⟨u, vs⟩⟩⟩) hlen hmem <;> simp at hlen hmem
    exact outcome_null (hmem.imp Eq.symm Eq.symm)
  · intro site args hsite
    have hargs := hsite.args
    obtain - | ⟨hx, - | ⟨hy, - | -⟩⟩ := hargs
    obtain ⟨raw, hraw, hcarries⟩ := exists_code h hsite
    refine ⟨raw, by rw [show o.builtin.lowering.harmonizes = true by rw [hlow]; rfl, hraw],
      fun {m vs} hm hvs hgood hnot => ?_⟩
    have hfits := hsite.fits hvs
    obtain - | ⟨hv, - | ⟨hw, - | -⟩⟩ := hvs
    obtain - | ⟨hv', - | ⟨hw', - | -⟩⟩ := hfits
    simp only [List.mem_cons, List.not_mem_nil, or_false, not_or] at hnot
    have hraw := hcarries hm hv hw (Ne.symm hnot.1) (Ne.symm hnot.2)
    exact (hraw.mkConvert (fits_outcome h hb hv' hw' hgood)).evalsTo

end Comparison

/-! ### Programs -/

/-- The program of a comparison of two terms decides the relation between their numbers. -/
theorem Comparison.program_run (o : Comparison) {fields : List (String × SqlType)} (routines : List String) {x y : Term}
    {value value' : List Value → Value} {t t' : ExactType}
    (h : t.Aligns t' n n' x.type y.type) (hb : (n || n') → b)
    (hx : x.Gives fields routines (IsRow fields) value) (hy : y.Gives fields routines (IsRow fields) value')
    (hroutines : ∀ g ∈ ExactType.routines o t t', g ∈ routines)
    (hadmits : ∀ row, IsRow fields row → Admits n n' [value row, value' row])
    (settings : Settings) (defs : List Term) :
    ∃ p, (Term.call (.builtin o.builtin) (.plain .boolean b) [x, y]).program settings defs fields = .ok p ∧
      ∀ {row m}, IsRow fields row → m.Unregistered routines →
        ((p.run row).result m).1 = .ok (o.outcome (value row) (value' row)) :=
  (Term.gives_call ((o.gives h hb).mono hroutines) (.cons hx (.cons hy .nil)) hadmits).program_run settings
    defs

/-- Comparisons across the types of exact numbers are exact. A comparison of two input fields of these types
compiles, with a type that admits null if one of theirs does. On every row of values of the fields, it gives null
if an operand is null, and otherwise the truth of the relation between the numbers, whether the machine compares
them or, where an operand is a decimal, the routine of the library. -/
theorem Term.program_run_comparison (settings : Settings) (defs : List Term)
    {fields : List (String × SqlType)} (o : Comparison) {t t' : ExactType} {n n' b : Bool} {i j : Nat}
    {name name' : String} (hi : fields[i]? = some (name, t.type n)) (hj : fields[j]? = some (name', t'.type n'))
    (hb : (n || n') = true → b = true) :
    ∃ p, (Term.call (.builtin o.builtin) (.plain .boolean b)
        [.input i (t.type n), .input j (t'.type n')]).program settings defs fields = .ok p ∧
      ∀ (row : List Value) (m : Machine) (v v' : Value), IsRow fields row → row[i]? = some v →
        row[j]? = some v' → (t = .decimal ∨ t' = .decimal → m.routines.get? o.routine = none) →
        ((p.run row).result m).1 = .ok (o.outcome v v') := by
  have hnullable : ∀ (k : ExactType) (c : Bool), (k.type c).nullable = c := by
    rintro (w | _) c <;> rfl
  have hadmits : ∀ row, IsRow fields row → Comparison.Admits n n' [row.getD i .null, row.getD j .null] :=
    fun row hrow => ⟨fun h => hnullable t n ▸ (hrow.getD hi).nullable h,
      fun h => hnullable t' n' ▸ (hrow.getD hj).nullable h⟩
  obtain ⟨p, hp, hrun⟩ := o.program_run _ (t.aligns t' n n') hb (gives_input hi) (gives_input hj)
    (fun _ hg => hg) hadmits settings defs
  refine ⟨p, hp, fun row m v v' hrow hv hv' hm => ?_⟩
  have hlibrary : m.Unregistered (ExactType.routines o t t') := by
    intro g hg
    rcases t with w | _
    · rcases t' with w' | _
      · exact absurd hg List.not_mem_nil
      · exact List.mem_singleton.1 hg ▸ hm (.inr rfl)
    · exact List.mem_singleton.1 hg ▸ hm (.inl rfl)
  rw [hrun hrow hlibrary, List.getD_eq_getElem?_getD, List.getD_eq_getElem?_getD, hv, hv']
  rfl

/-- A decimal that is too large for 64 bits against the greatest BIGINT, a decimal with a trailing zero, and a
null operand. -/
theorem Term.program_run_comparison_decimals :
    let fields := [("x", ExactType.decimal.type true), ("y", (ExactType.integer .big).type false)]
    ∃ p, (Term.call (.builtin .lessThanOrEqual) (.plain .boolean true)
        [.input 0 (ExactType.decimal.type true), .input 1 ((ExactType.integer .big).type false)]).program {} [] fields =
          .ok p ∧
      ((p.run [.decimal ⟨1, -30⟩, .int Int64.maxValue]).result {}).1 = .ok (.bool false) ∧
      ((p.run [.decimal ⟨-20, 1⟩, .int (-2)]).result {}).1 = .ok (.bool true) ∧
      ((p.run [.null, .int 0]).result {}).1 = .ok .null := by
  intro fields
  have hx : fields[0]? = some ("x", ExactType.decimal.type true) := rfl
  have hy : fields[1]? = some ("y", (ExactType.integer .big).type false) := rfl
  obtain ⟨p, hp, hrun⟩ := program_run_comparison {} [] .lessThanOrEqual hx hy fun _ => rfl
  have hrow : ∀ (v : Value) (k : Int64), v.Fits .decimal →
      ((p.run [v, .int k]).result {}).1 = .ok (Comparison.lessThanOrEqual.outcome v (.int k)) := by
    intro v k hv
    refine hrun [v, .int k] {} _ _ ?_ rfl rfl fun _ => rfl
    exact .cons ⟨hv, fun _ => rfl⟩ (.cons ⟨rfl, fun h => by cases h⟩ .nil)
  have hgreatest : (Value.int Int64.maxValue).number? = some 9223372036854775807 := by
    rw [Value.number?, show Int64.maxValue.toInt = 9223372036854775807 by decide]
    norm_num
  have htwo : (Value.int (-2)).number? = some (-2) := by
    rw [Value.number?, show (-2 : Int64).toInt = -2 by decide]
    norm_num
  refine ⟨p, hp, ?_, ?_, ?_⟩
  · rw [hrow (.decimal ⟨1, -30⟩) _ rfl, Comparison.outcome_number rfl hgreatest]
    norm_num [Comparison.Relates, Decimal.toRat]
  · rw [hrow (.decimal ⟨-20, 1⟩) _ rfl, Comparison.outcome_number rfl htwo]
    norm_num [Comparison.Relates, Decimal.toRat]
  · rw [hrow .null _ rfl, Comparison.outcome_null (.inl rfl)]

end SqlCode
