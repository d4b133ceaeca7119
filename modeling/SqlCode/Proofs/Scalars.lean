import SqlCode.Proofs.Denotation

/-!
# Operations of the machine on truth values and 32-bit integers

On values of the fragment that are not null, the operations of the machine give what the operators mean. No
sum, difference or product of 32-bit integers overflows a word, so that cutting it to 32 bits wraps it.
-/

namespace SqlCode

variable {op : BinaryOp} {ks : List Kind} {vs : List Value} {k : Kind} {v : Value} {b : Builtin}

namespace BinaryOp

/-- What a comparison asks of the order of its operands. -/
def accepts : BinaryOp → Ordering → Bool
  | .equal, o => o == .eq
  | .notEqual, o => o != .eq
  | .lessThan, o => o == .lt
  | .lessThanOrEqual, o => o != .gt
  | .greaterThan, o => o == .gt
  | .greaterThanOrEqual, o => o != .lt
  | _, _ => false

/-- Addition, subtraction and multiplication. -/
def isRing : BinaryOp → Bool
  | .add | .subtract | .multiply => true
  | _ => false

/-- Addition, subtraction and multiplication of integers. -/
def onIntegers : BinaryOp → Int → Int → Int
  | .add, a, b => a + b
  | .subtract, a, b => a - b
  | .multiply, a, b => a * b
  | _, _, _ => 0

end BinaryOp

namespace Value

/-! ### Values of a kind -/

theorem fits_truth_iff : v.Fits (.prim .bool) ↔ ∃ b, v = .bool b := by
  rw [fits_prim_iff]
  cases v <;> simp [toPrim]

theorem bmod_bounds (n : Int) :
    -2147483648 ≤ n.bmod (2 ^ 32) ∧ n.bmod (2 ^ 32) ≤ 2147483647 := by
  have hlo : -(((2 ^ 32 : Nat) : Int) / 2) ≤ n.bmod (2 ^ 32) := Int.le_bmod (by decide)
  have hhi : n.bmod (2 ^ 32) < (((2 ^ 32 : Nat) : Int) + 1) / 2 := Int.bmod_lt (by decide)
  have hpow : ((2 ^ 32 : Nat) : Int) = 4294967296 := by decide
  rw [hpow] at hlo hhi
  omega

theorem toInt_ofInt_bmod (n : Int) : (Int64.ofInt (n.bmod (2 ^ 32))).toInt = n.bmod (2 ^ 32) := by
  refine Word.toInt_ofInt ?_
  have := bmod_bounds n
  rw [Word.fits_iff]
  omega

theorem toPrim_int (n : Int64) : (Value.int n).toPrim .i32 = .ok (wrapped n.toInt) := rfl

theorem fits_integer_iff : v.Fits (.prim .i32) ↔
    ∃ n : Int64, v = .int n ∧ -2147483648 ≤ n.toInt ∧ n.toInt ≤ 2147483647 := by
  rw [fits_prim_iff]
  constructor
  · intro h
    cases v with
    | int n =>
      refine ⟨n, rfl, ?_⟩
      rw [toPrim_int, wrapped, Except.ok.injEq, Value.int.injEq] at h
      rw [← h, toInt_ofInt_bmod]
      exact bmod_bounds _
    | decimal d =>
      simp only [toPrim] at h
      split at h <;> simp at h
    | _ => simp [toPrim] at h
  · rintro ⟨n, rfl, hlo, hhi⟩
    have hmod : n.toInt.bmod (2 ^ 32) = n.toInt :=
      Int.bmod_eq_of_le (by norm_num; omega) (by norm_num; omega)
    rw [toPrim_int, wrapped, hmod, Int64.ofInt_toInt]

theorem fits_wrapped (n : Int) : (wrapped n).Fits (.prim .i32) := by
  rw [fits_prim_iff, wrapped, toPrim_int, toInt_ofInt_bmod, wrapped, Int.bmod_bmod]

/-- A value of a kind fits the type unless it is null and the type does not admit null. -/
theorem fits_type {nullable : Bool} (h : v.Fits (.boxed k.prim))
    (hn : nullable = false → v ≠ .null) : v.Fits (k.type nullable).rep := by
  rw [Kind.rep_type]
  cases nullable with
  | false => exact (fits_boxed_iff.1 h).resolve_left (hn rfl)
  | true => exact h

theorem fits_boxed_of_fits_type {nullable : Bool}
    (h : v.Fits (k.type nullable).rep) : v.Fits (.boxed k.prim) := by
  rw [Kind.rep_type] at h
  cases nullable with
  | false => exact fits_boxed_iff.2 (.inr h)
  | true => exact h

/-! ### Comparisons -/

theorem compareBy_int (hop : op.isComparison) (a b : Int64) :
    compareBy op (.int a) (.int b) = .ok (.bool (op.accepts (compare a.toInt b.toInt))) := by
  have heq : (Value.int a).equals (.int b) = (compare a.toInt b.toInt == .eq) := by
    simp [equals, isNumeric, compare?, compareNumbers?]
  cases op with
  | equal => rw [BinaryOp.accepts, ← heq]; rfl
  | notEqual => rw [BinaryOp.accepts, bne, ← heq]; rfl
  | lessThan | lessThanOrEqual | greaterThan | greaterThanOrEqual => rfl
  | _ => exact absurd hop (by decide)

theorem compareBy_bool (hop : op.isComparison) (a b : Bool) :
    compareBy op (.bool a) (.bool b) = .ok (.bool (op.accepts (compare a b))) := by
  cases op with
  | equal | notEqual | lessThan | lessThanOrEqual | greaterThan | greaterThanOrEqual =>
    cases a <;> cases b <;> rfl
  | _ => exact absurd hop (by decide)

theorem compareBy_of_fits {w : Value} (hop : op.isComparison)
    (hv : v.Fits (.prim k.prim)) (hw : w.Fits (.prim k.prim)) :
    compareBy op v w = .ok (v.comparison (op.accepts) w) ∧
      ∃ c, v.comparison (op.accepts) w = .bool c := by
  cases k with
  | truth =>
    obtain ⟨a, rfl⟩ := fits_truth_iff.1 hv
    obtain ⟨b, rfl⟩ := fits_truth_iff.1 hw
    exact ⟨compareBy_bool hop a b, _, rfl⟩
  | integer =>
    obtain ⟨a, rfl, -⟩ := fits_integer_iff.1 hv
    obtain ⟨b, rfl, -⟩ := fits_integer_iff.1 hw
    exact ⟨compareBy_int hop a b, _, rfl⟩

/-! ### Arithmetic -/

theorem convert_ofInt {n : Int} (h : Word.Fits n) :
    (Value.int (Int64.ofInt n)).convert (.prim .i32) = .ok (wrapped n) := by
  show (Value.int (Int64.ofInt n)).toPrim .i32 = _
  rw [toPrim_int, Word.toInt_ofInt h]

theorem checked_of_fits {n : Int} (h : Word.Fits n) (operation : String) :
    checked operation n = .ok (Int64.ofInt n) := by
  simp [checked, Word.ofInt?, h]

theorem fits_onIntegers {a b : Int} (ha : -2147483648 ≤ a ∧ a ≤ 2147483647)
    (hb : -2147483648 ≤ b ∧ b ≤ 2147483647) : Word.Fits (op.onIntegers a b) := by
  rw [Word.fits_iff]
  cases op with
  | multiply => constructor <;> simp only [BinaryOp.onIntegers] <;> nlinarith
  | _ =>
    simp only [BinaryOp.onIntegers]
    omega

theorem applyBinary_of_fits {w : Value} (hop : op.isRing)
    (hv : v.Fits (.prim .i32)) (hw : w.Fits (.prim .i32)) :
    applyBinary op v w (.prim .i32) = .ok (v.wrapping (op.onIntegers) w) := by
  obtain ⟨a, rfl, ha⟩ := fits_integer_iff.1 hv
  obtain ⟨b, rfl, hb⟩ := fits_integer_iff.1 hw
  have hfits : Word.Fits (op.onIntegers a.toInt b.toInt) := fits_onIntegers ha hb
  have harith : arithmetic op (.int a) (.int b) =
      .ok (.int (Int64.ofInt (op.onIntegers a.toInt b.toInt))) := by
    have hword : wordArithmetic op a b = checked op.label (op.onIntegers a.toInt b.toInt) := by
      cases op with
      | add | subtract | multiply => rfl
      | _ => exact absurd hop (by decide)
    show (wordArithmetic op a b).map Value.int = _
    rw [hword, checked_of_fits hfits]
    rfl
  have hcmp : op.isComparison = false := by
    cases op with
    | add | subtract | multiply => rfl
    | _ => exact absurd hop (by decide)
  show (do
    let u ← if op.isComparison then compareBy op (.int a) (.int b) else arithmetic op (.int a) (.int b)
    u.fit (.prim .i32)) = _
  rw [hcmp, harith]
  exact convert_ofInt hfits

theorem applyUnary_negate (hv : v.Fits (.prim .i32)) :
    ∃ n : Int64, v = .int n ∧ applyUnary .negate v (.prim .i32) = .ok (wrapped (-n.toInt)) := by
  obtain ⟨n, rfl, hn⟩ := fits_integer_iff.1 hv
  have hfits : Word.Fits (-n.toInt) := by
    rw [Word.fits_iff]
    omega
  refine ⟨n, rfl, ?_⟩
  show ((checked "negate" (-n.toInt)).map Value.int >>= fun u => u.fit (.prim .i32)) = _
  rw [checked_of_fits hfits]
  exact convert_ofInt hfits

/-! ### Kleene's logic -/

theorem truth_or_null (h : v.Fits (.boxed .bool)) : v = .null ∨ ∃ b, v = .bool b :=
  (fits_boxed_iff.1 h).imp_right fits_truth_iff.1

/-- A conjunction (`neutral = true`) or a disjunction (`neutral = false`) of several values: the other truth
value decides, and without it null does. -/
theorem foldr_kleene {neutral : Bool} (h : ∀ v ∈ vs, v.Fits (.boxed .bool)) :
    vs.foldr (bif neutral then kleeneAnd else kleeneOr) (.bool neutral) =
      if vs.any (·.isBool !neutral) then .bool !neutral
      else if vs.any isNull then .null else .bool neutral := by
  induction vs with
  | nil => rfl
  | cons v vs ih =>
    rw [List.foldr_cons, ih fun w hw => h w (by simp [hw]), List.any_cons, List.any_cons]
    generalize vs.any (·.isBool !neutral) = decided
    generalize vs.any isNull = hasNull
    rcases truth_or_null (h v (by simp)) with rfl | ⟨b, rfl⟩
    · cases neutral <;> cases decided <;> cases hasNull <;> rfl
    · cases neutral <;> cases b <;> cases decided <;> cases hasNull <;> rfl

end Value

namespace Builtin

/-- The six tests for null and for a truth value, with the kind of what they test. -/
def tests (b : Builtin) (k : Kind) : Bool :=
  match b with
  | .isNull | .isNotNull => true
  | .isTrue | .isNotTrue | .isFalse | .isNotFalse => k = .truth
  | _ => false

/-- The operator of the machine for a comparison or for arithmetic, with its backup routine. -/
def machineOp? : Builtin → Option (BinaryOp × String)
  | .equals => some (.equal, "eq")
  | .notEquals => some (.notEqual, "ne")
  | .lessThan => some (.lessThan, "lt")
  | .lessThanOrEqual => some (.lessThanOrEqual, "le")
  | .greaterThan => some (.greaterThan, "gt")
  | .greaterThanOrEqual => some (.greaterThanOrEqual, "ge")
  | .plus => some (.add, "plus")
  | .minus => some (.subtract, "minus")
  | .multiply => some (.multiply, "multiply")
  | _ => none

/-- The families of operators, with the kinds of their operands and of their value. -/
inductive Takes : Builtin → List Kind → Kind → Prop
  | and {ks : List Kind} : (∀ k ∈ ks, k = .truth) → Takes .and ks .truth
  | or {ks : List Kind} : (∀ k ∈ ks, k = .truth) → Takes .or ks .truth
  | coalesce {k : Kind} {ks : List Kind} : (∀ k' ∈ ks, k' = k) → Takes .coalesce (k :: ks) k
  | not : Takes .not [.truth] .truth
  | test {b : Builtin} {k : Kind} : b.tests k → Takes b [k] .truth
  | comparison {b : Builtin} {op : BinaryOp} {f : String} {k : Kind} :
      b.machineOp? = some (op, f) → op.isComparison → Takes b [k, k] .truth
  | arithmetic {b : Builtin} {op : BinaryOp} {f : String} :
      b.machineOp? = some (op, f) → op.isRing → Takes b [.integer, .integer] .integer
  | unaryMinus : Takes .unaryMinus [.integer] .integer
  | unaryPlus : Takes .unaryPlus [.integer] .integer
  | cast : Takes .cast [.integer] .integer

theorem takes_of_result? (h : b.result? ks = some k) :
    b.Takes ks k := by
  unfold result? at h
  split at h
  case h_1 =>
    split_ifs at h with hks
    cases h
    exact .and (by simpa using hks)
  case h_2 =>
    split_ifs at h with hks
    cases h
    exact .or (by simpa using hks)
  case h_3 =>
    split_ifs at h with hks
    cases h
    exact .coalesce (by simpa using hks)
  case h_4 =>
    cases h
    exact .not
  case h_5 | h_6 | h_7 | h_8 | h_9 | h_10 =>
    cases h
    exact .test rfl
  case h_11 | h_12 | h_13 | h_14 | h_15 | h_16 =>
    split_ifs at h with hk
    cases h
    cases hk
    exact .comparison rfl rfl
  case h_17 | h_18 | h_19 =>
    cases h
    exact .arithmetic rfl rfl
  case h_20 =>
    cases h
    exact .unaryMinus
  case h_21 =>
    cases h
    exact .unaryPlus
  case h_22 =>
    cases h
    exact .cast
  case h_23 => cases h

/-- What comparisons and arithmetic become, and what they mean. -/
theorem machineOp?_spec {f : String} (h : b.machineOp? = some (op, f)) :
    b.lowering = operator op f ∧
      (op.isComparison → ∀ v w, b.meaning [v, w] = v.comparison op.accepts w) ∧
      (op.isRing → ∀ v w, b.meaning [v, w] = v.wrapping op.onIntegers w) := by
  unfold machineOp? at h
  split at h <;> cases h
  case h_1 | h_2 | h_3 | h_4 | h_5 | h_6 =>
    exact ⟨rfl, fun _ _ _ => rfl, fun hr => absurd hr (by decide)⟩
  case h_7 | h_8 | h_9 => exact ⟨rfl, fun hc => absurd hc (by decide), fun _ _ _ => rfl⟩

open Value

theorem fits_of_forall₂
    (h : List.Forall₂ (fun k v => v.Fits (.boxed k.prim)) ks vs) (hk : ∀ k' ∈ ks, k' = k) :
    ∀ v ∈ vs, v.Fits (.boxed k.prim) := by
  induction h with
  | nil => simp
  | cons hv _ ih =>
    obtain ⟨rfl, hks⟩ := List.forall_mem_cons.1 hk
    exact List.forall_mem_cons.2 ⟨hv, ih hks⟩

/-- The value of a call is of the kind of the call, or null. -/
theorem Takes.fits (h : b.Takes ks k)
    (hvs : List.Forall₂ (fun k v => v.Fits (.boxed k.prim)) ks vs) :
    (b.meaning vs).Fits (.boxed k.prim) := by
  cases h with
  | and hks =>
    show (vs.foldr (bif true then kleeneAnd else kleeneOr) (.bool true)).Fits _
    rw [foldr_kleene (fits_of_forall₂ hvs hks)]
    split_ifs <;> rfl
  | or hks =>
    show (vs.foldr (bif false then kleeneAnd else kleeneOr) (.bool false)).Fits _
    rw [foldr_kleene (fits_of_forall₂ hvs hks)]
    split_ifs <;> rfl
  | coalesce hks =>
    show ((vs.find? fun v => !v.isNull).getD .null).Fits _
    cases hf : vs.find? fun v => !v.isNull with
    | none => rfl
    | some v => exact fits_of_forall₂ hvs (by simpa using hks) v (List.mem_of_find?_eq_some hf)
  | not =>
    obtain - | ⟨hv, - | -⟩ := hvs
    obtain rfl | ⟨c, rfl⟩ := truth_or_null hv <;> rfl
  | @test b _ ht =>
    obtain - | ⟨hv, - | -⟩ := hvs
    cases b with
    | isNull | isNotNull | isTrue | isNotTrue | isFalse | isNotFalse => rfl
    | _ => cases ht
  | comparison hop hc =>
    obtain - | ⟨-, - | ⟨-, - | -⟩⟩ := hvs
    rw [(machineOp?_spec hop).2.1 hc]
    unfold Value.comparison
    split <;> rfl
  | arithmetic hop hr =>
    obtain - | ⟨-, - | ⟨-, - | -⟩⟩ := hvs
    rw [(machineOp?_spec hop).2.2 hr]
    unfold wrapping
    split
    · exact fits_boxed_iff.2 (.inr (fits_wrapped _))
    · rfl
  | unaryMinus =>
    obtain - | ⟨hv, - | -⟩ := hvs
    rcases fits_boxed_iff.1 hv with rfl | hv
    · rfl
    · obtain ⟨n, rfl, -⟩ := fits_integer_iff.1 hv
      exact fits_boxed_iff.2 (.inr (fits_wrapped _))
  | unaryPlus | cast =>
    obtain - | ⟨hv, - | -⟩ := hvs
    exact hv

end Builtin

end SqlCode
