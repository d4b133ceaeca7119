import SqlCode.Number.BitOp
import SqlCode.Routine.Basic
import SqlCode.Value.Operate

/-!
# Comparison, arithmetic and bitwise routines

The routines behind the operators, for operands whose types leave the choice of operation to the
values.
-/

namespace SqlCode

namespace Routine

def comparison (op : BinaryOp) : Routine := fun args => do
  let a ← Args.value "comparison" args 0
  let b ← Args.value "comparison" args 1
  Value.compareBy op a b

def arithmetic (op : BinaryOp) : Routine := fun args => do
  let a ← Args.value "arithmetic" args 0
  let b ← Args.value "arithmetic" args 1
  Value.arithmetic op a b

/-- Three-valued negation. -/
def negation : Routine := fun args => do
  match ← Args.value "not" args 0 with
  | .null => .ok .null
  | .bool b => .ok (.bool !b)
  | v => .error (.expected "not" "a boolean" v)

/-- The argument that stands first in the given order; null loses to every value, and of equal
arguments the first is kept. -/
def extreme (routine : String) (keep : Ordering) : Routine := fun args => do
  let a ← Args.value routine args 0
  let b ← Args.value routine args 1
  match a, b with
  | .null, v | v, .null => .ok v
  | a, b =>
    match a.compare? b with
    | some o => .ok (if o == keep || o == .eq then a else b)
    | none => .error (.invalidArgument routine "operands are not comparable")

/-- A bitwise operation on two integers or two binaries of one length; null leaves the other
argument as it is. -/
def bitwise (op : BitOp) : Routine := fun args => do
  let a ← Args.value op.routine args 0
  let b ← Args.value op.routine args 1
  let refuse : Except Fault Value :=
    .error (.invalidArgument op.routine "expected two integers or equal-length binaries")
  match a, b with
  | .null, v | v, .null => .ok v
  | .int x, .int y => .ok (.int (op.onWords x y))
  | .bytes x, .bytes y =>
    if x.length = y.length then .ok (.bytes (x.zipWith op.onBytes y)) else refuse
  | _, _ => refuse

def comparisons : List (String × Routine) :=
  [("lt", comparison .lessThan), ("le", comparison .lessThanOrEqual),
   ("gt", comparison .greaterThan), ("ge", comparison .greaterThanOrEqual),
   ("eq", comparison .equal), ("ne", comparison .notEqual),
   ("ltAny", comparison .lessThan), ("leAny", comparison .lessThanOrEqual),
   ("gtAny", comparison .greaterThan), ("geAny", comparison .greaterThanOrEqual),
   ("eqAny", comparison .equal), ("neAny", comparison .notEqual),
   ("plus", arithmetic .add), ("minus", arithmetic .subtract),
   ("multiply", arithmetic .multiply), ("divide", arithmetic .divide),
   ("plusAny", arithmetic .add), ("minusAny", arithmetic .subtract),
   ("multiplyAny", arithmetic .multiply), ("divideAny", arithmetic .divide),
   ("not", negation),
   ("lesser", extreme "lesser" .lt), ("greater", extreme "greater" .gt),
   (BitOp.and.routine, bitwise .and), (BitOp.or.routine, bitwise .or),
   (BitOp.xor.routine, bitwise .xor)]

end Routine

end SqlCode
