import SqlCode.Proofs.CompileScope

/-!
# The meaning of truth-valued and integer terms

The fragment of terms over BOOLEAN and INTEGER: what its operators mean, which terms are well typed, and what
a well-typed term denotes for a row. Nothing here refers to code.

* `Builtin.meaning`: Kleene's logic, tests that are never null, COALESCE, comparisons and wrapping 32-bit
  arithmetic;
* `Term.WellTyped`: the rules of typing. A reference is typed by the definition that it refers to, so a term
  with a circular reference has no derivation;
* `Term.Denotes`: the value of a term for a row, which is unique (`Term.Denotes.unique`);
* `Term.height`: how deeply the references of a definition are nested.
-/

namespace SqlCode

/-! ### Kinds -/

/-- The kinds of values: truth values and 32-bit integers. -/
inductive Kind
  | truth
  | integer
deriving DecidableEq, Repr

namespace Kind

/-- The name of the SQL type. -/
def name : Kind → TypeName
  | .truth => .boolean
  | .integer => .integer

/-- The machine kind. -/
def prim : Kind → Prim
  | .truth => .bool
  | .integer => .i32

/-- The SQL type, with or without null. -/
def type (k : Kind) (nullable : Bool) : SqlType := .plain k.name nullable

theorem rep_type (k : Kind) (nullable : Bool) :
    (k.type nullable).rep = if nullable then .boxed k.prim else .prim k.prim := by
  cases k <;> rfl

end Kind

/-! ### Operators -/

namespace Value

/-- Kleene's conjunction: false decides, and without false null does. -/
def kleeneAnd : Value → Value → Value
  | .bool false, _ | _, .bool false => .bool false
  | .bool true, .bool true => .bool true
  | _, _ => .null

/-- Kleene's disjunction: true decides, and without true null does. -/
def kleeneOr : Value → Value → Value
  | .bool true, _ | _, .bool true => .bool true
  | .bool false, .bool false => .bool false
  | _, _ => .null

/-- Kleene's negation. -/
def kleeneNot : Value → Value
  | .bool b => .bool !b
  | _ => .null

/-- A comparison of integers or of truth values, where false stands before true; null if an operand is. -/
def comparison (holds : Ordering → Bool) : Value → Value → Value
  | .int a, .int b => .bool (holds (compare a.toInt b.toInt))
  | .bool a, .bool b => .bool (holds (compare a b))
  | _, _ => .null

/-- The integer that the low 32 bits of a number stand for. -/
def wrapped (n : Int) : Value := .int (Int64.ofInt (n.bmod (2 ^ 32)))

/-- Integer arithmetic in 32 bits; null if an operand is. -/
def wrapping (f : Int → Int → Int) : Value → Value → Value
  | .int a, .int b => wrapped (f a.toInt b.toInt)
  | _, _ => .null

end Value

/-- The kind of the value of a call, from the kinds of its operands; none if the operator does not take
them. Conjunction, disjunction and COALESCE take any number of operands, but at least one. -/
def Builtin.result? (b : Builtin) (ks : List Kind) : Option Kind :=
  match b, ks with
  | .and, .truth :: ks | .or, .truth :: ks => if ks.all (· = .truth) then some .truth else none
  | .coalesce, k :: ks => if ks.all (· = k) then some k else none
  | .not, [.truth] | .isTrue, [.truth] | .isNotTrue, [.truth] | .isFalse, [.truth]
  | .isNotFalse, [.truth] | .isNull, [_] | .isNotNull, [_] => some .truth
  | .equals, [k, k'] | .notEquals, [k, k'] | .lessThan, [k, k'] | .lessThanOrEqual, [k, k']
  | .greaterThan, [k, k'] | .greaterThanOrEqual, [k, k'] => if k' = k then some .truth else none
  | .plus, [.integer, .integer] | .minus, [.integer, .integer] | .multiply, [.integer, .integer]
  | .unaryMinus, [.integer] | .unaryPlus, [.integer] | .cast, [.integer] => some .integer
  | _, _ => none

/-- The value of a call, from the values of its operands. -/
def Builtin.meaning (b : Builtin) (vs : List Value) : Value :=
  match b, vs with
  | .and, vs => vs.foldr Value.kleeneAnd (.bool true)
  | .or, vs => vs.foldr Value.kleeneOr (.bool false)
  | .coalesce, vs => (vs.find? fun v => !v.isNull).getD .null
  | .not, [v] => v.kleeneNot
  | .isNull, [v] => .bool v.isNull
  | .isNotNull, [v] => .bool !v.isNull
  | .isTrue, [v] => .bool (v.isBool true)
  | .isNotTrue, [v] => .bool !v.isBool true
  | .isFalse, [v] => .bool (v.isBool false)
  | .isNotFalse, [v] => .bool !v.isBool false
  | .equals, [v, w] => v.comparison (· == .eq) w
  | .notEquals, [v, w] => v.comparison (· != .eq) w
  | .lessThan, [v, w] => v.comparison (· == .lt) w
  | .lessThanOrEqual, [v, w] => v.comparison (· != .gt) w
  | .greaterThan, [v, w] => v.comparison (· == .gt) w
  | .greaterThanOrEqual, [v, w] => v.comparison (· != .lt) w
  | .plus, [v, w] => v.wrapping (· + ·) w
  | .minus, [v, w] => v.wrapping (· - ·) w
  | .multiply, [v, w] => v.wrapping (· * ·) w
  | .unaryMinus, [.int n] => .wrapped (-n.toInt)
  | .unaryPlus, [v] | .cast, [v] => v
  | _, _ => .null

/-! ### Terms -/

namespace Term

/-- The term is of the fragment and well typed: operands have the kinds that their operator takes, and
references have the type of what they refer to. A literal is a value of its type. -/
inductive WellTyped (defs : List Term) (fields : List (String × SqlType)) : Term → Prop
  | literal {v : Value} {k : Kind} {nullable : Bool} :
      v.Fits (k.type nullable).rep → WellTyped defs fields (.literal v (k.type nullable))
  | input {i : Nat} {name : String} {k : Kind} {nullable : Bool} :
      fields[i]? = some (name, k.type nullable) →
      WellTyped defs fields (.input i (k.type nullable))
  | shared {i : Nat} {t : Term} :
      defs[i]? = some t → WellTyped defs fields t →
      WellTyped defs fields (.shared i t.type)
  | call {b : Builtin} {operands : List Term} {sorts : List (Kind × Bool)} {k : Kind}
      {nullable : Bool} :
      operands.map Term.type = sorts.map (fun s => s.1.type s.2) →
      b.result? (sorts.map (·.1)) = some k →
      (∀ t ∈ operands, WellTyped defs fields t) →
      WellTyped defs fields (.call (.builtin b) (k.type nullable) operands)

/-- The value of a term for a row. -/
inductive Denotes (defs : List Term) (row : List Value) : Term → Value → Prop
  | literal {v : Value} {type : SqlType} : Denotes defs row (.literal v type) v
  | input {i : Nat} {type : SqlType} {v : Value} :
      row[i]? = some v → Denotes defs row (.input i type) v
  | shared {i : Nat} {type : SqlType} {t : Term} {v : Value} :
      defs[i]? = some t → Denotes defs row t v →
      Denotes defs row (.shared i type) v
  | call {b : Builtin} {type : SqlType} {operands : List Term} {vs : List Value} :
      operands.length = vs.length → (∀ p ∈ operands.zip vs, Denotes defs row p.1 p.2) →
      Denotes defs row (.call (.builtin b) type operands) (b.meaning vs)

/-- No part of the term that is declared NOT NULL denotes null for the row. -/
def KeepsNotNull (defs : List Term) (row : List Value) (t : Term) : Prop :=
  ∀ s, Occurs defs s t → s.type.nullable = false → ¬ s.Denotes defs row .null

variable {defs : List Term} {fields : List (String × SqlType)} {row : List Value}

theorem Denotes.unique {t : Term} {v w : Value} (h : t.Denotes defs row v)
    (h' : t.Denotes defs row w) : w = v := by
  induction h generalizing w with
  | literal =>
    cases h'
    rfl
  | input hv =>
    cases h' with
    | input hw => exact Option.some.inj (hw.symm.trans hv)
  | shared ht _ ih =>
    cases h' with
    | shared ht' hw =>
      obtain rfl := Option.some.inj (ht'.symm.trans ht)
      exact ih hw
  | @call b type operands vs hlen hvs ih =>
    cases h' with
    | @call _ _ _ ws hlen' hws =>
      rw [eq_of_zip_unique hlen hlen' fun p hp w hw => ih p hp (hws _ hw)]

theorem Denotes.resolve_go {n : Nat} {t : Term} {v : Value} (h : t.Denotes defs row v) :
    (resolve.go defs n t).Denotes defs row v := by
  induction n generalizing t with
  | zero => exact h
  | succ n ih =>
    cases h with
    | @shared i type t' v hdef ht =>
      rw [resolve.go, hdef]
      exact ih ht
    | literal => exact .literal
    | input hv => exact .input hv
    | call hlen hvs => exact .call hlen hvs

/-- A term that is a literal, directly or through definitions, denotes its value. -/
theorem Denotes.literal? {t : Term} {u v : Value} (h : t.Denotes defs row v)
    (hl : t.literal? defs = some u) : u = v := by
  have hr : (t.resolve defs).Denotes defs row v := h.resolve_go
  unfold Term.literal? at hl
  split at hl
  · rename_i w type heq
    rw [heq] at hr
    cases hl
    cases hr
    rfl
  · cases hl

/-! ### How deeply references are nested -/

/-- The term refers to a definition, in itself or in an operand. -/
inductive Mentions (j : Nat) : Term → Prop
  | shared {type : SqlType} : Mentions j (.shared j type)
  | operand {op : Operator} {type : SqlType} {operands : List Term} {t : Term} :
      t ∈ operands → Mentions j t → Mentions j (.call op type operands)

/-- The first definition mentions the second one. -/
def Refers (defs : List Term) (i j : Nat) : Prop :=
  ∃ t, defs[i]? = some t ∧ t.Mentions j

open Classical in
/-- The number of definitions that a definition refers to, directly or through others. -/
noncomputable def height (defs : List Term) (i : Nat) : Nat :=
  ((Finset.range defs.length).filter (Relation.TransGen (Refers defs) i)).card

theorem height_le (defs : List Term) (i : Nat) : height defs i ≤ defs.length := by
  classical
  unfold height
  exact (Finset.card_filter_le _ _).trans (Finset.card_range _).le

theorem height_lt {i j : Nat} (h : Refers defs i j) (hj : j < defs.length)
    (hc : ¬ Relation.TransGen (Refers defs) j j) :
    height defs j < height defs i := by
  classical
  unfold height
  refine Finset.card_lt_card ⟨fun k hk => ?_, fun hsub => ?_⟩
  · simp only [Finset.mem_filter] at hk ⊢
    exact ⟨hk.1, hk.2.head h⟩
  · have hmem := hsub (Finset.mem_filter.2 ⟨Finset.mem_range.2 hj, .single h⟩)
    exact hc (Finset.mem_filter.1 hmem).2

/-- A well-typed term refers to definitions that exist and do not lead back to themselves. -/
theorem WellTyped.acyclic {t : Term} (ht : t.WellTyped defs fields) {j : Nat}
    (hm : t.Mentions j) :
    j < defs.length ∧ ¬ Relation.TransGen (Refers defs) j j := by
  have hacc : j < defs.length ∧ Acc (Function.swap (Refers defs)) j := by
    induction ht generalizing j with
    | literal | input => cases hm
    | @shared i t hdef _ ih =>
      cases hm
      refine ⟨(List.getElem?_eq_some_iff.1 hdef).1, .intro _ ?_⟩
      rintro k ⟨t', ht', hk⟩
      obtain rfl := Option.some.inj (hdef.symm.trans ht')
      exact (ih hk).2
    | call _ _ _ ih =>
      cases hm with
      | operand ht hm => exact ih _ ht hm
  have hirrefl : ∀ {r : Nat → Nat → Prop} {a : Nat}, Acc r a → ¬ r a a := by
    intro r a ha
    induction ha with
    | intro a _ ih => exact fun hr => ih a hr hr
  exact ⟨hacc.1, fun hc => hirrefl hacc.2.transGen (Relation.transGen_swap.2 hc)⟩

end Term

end SqlCode
