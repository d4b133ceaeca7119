import SqlCode.Code.Operator
import SqlCode.Value.Compare
import SqlCode.Value.Convert

/-!
# Comparison and arithmetic on values

Both answer null when an operand is null. Arithmetic works in the widest kind of its operands:
decimal, then double, then integer, where integers fault rather than wrap.
-/

namespace SqlCode

/-- The ordering operator holds of two values in the given order. -/
def BinaryOp.holds? (op : BinaryOp) (o : Ordering) : Option Bool :=
  match op with
  | .lessThan => some (o == .lt)
  | .lessThanOrEqual => some (o != .gt)
  | .greaterThan => some (o == .gt)
  | .greaterThanOrEqual => some (o != .lt)
  | _ => none

/-- The fault of an operator that does not compute with numbers. -/
def BinaryOp.notArithmetic (op : BinaryOp) : Fault := .typeMismatch (op.label ++ " is not arithmetic")

namespace Value

/-- The truth of a comparison. -/
def compareBy (op : BinaryOp) (a b : Value) : Except Fault Value :=
  if a.isNull || b.isNull then .ok .null
  else
    match op with
    | .equal => .ok (.bool (a.equals b))
    | .notEqual => .ok (.bool !a.equals b)
    | op =>
      match a.compare? b with
      | none => .error (.typeMismatch ("cannot compare " ++ a.kindName ++ " with " ++ b.kindName))
      | some o =>
        match op.holds? o with
        | some h => .ok (.bool h)
        | none => .error (.typeMismatch (op.label ++ " is not a comparison"))

/-- Arithmetic on words: quotients are cut toward zero, and a remainder faults where its
quotient would. -/
def wordArithmetic (op : BinaryOp) (x y : Int64) : Except Fault Int64 :=
  match op with
  | .add => checked op.label (x.toInt + y.toInt)
  | .subtract => checked op.label (x.toInt - y.toInt)
  | .multiply => checked op.label (x.toInt * y.toInt)
  | .divide =>
    if y = 0 then .error .divisionByZero else checked op.label (x.toInt.tdiv y.toInt)
  | .modulo =>
    if y = 0 then .error .divisionByZero
    else do
      let _ ← checked op.label (x.toInt.tdiv y.toInt)
      checked op.label (x.toInt.tmod y.toInt)
  | op => .error op.notArithmetic

def decimalArithmetic (op : BinaryOp) (x y : Decimal) : Except Fault Decimal :=
  match op with
  | .add => .ok (x.add y)
  | .subtract => .ok (x.sub y)
  | .multiply => .ok (x.mul y)
  | .divide => if y.isZero then .error .divisionByZero else .ok (x.div y)
  | .modulo => if y.isZero then .error .divisionByZero else .ok (x.rem y)
  | op => .error op.notArithmetic

def floatArithmetic (op : BinaryOp) (x y : Float) : Except Fault Float :=
  match op with
  | .add => .ok (x + y)
  | .subtract => .ok (x - y)
  | .multiply => .ok (x * y)
  | .divide => .ok (x / y)
  | .modulo => .ok (Double.rem x y)
  | op => .error op.notArithmetic

def arithmetic (op : BinaryOp) (a b : Value) : Except Fault Value :=
  if a.isNull || b.isNull then .ok .null
  else if !a.isNumeric || !b.isNumeric then
    .error (.typeMismatch (op.label ++ " of " ++ a.kindName ++ " and " ++ b.kindName))
  else
    match a, b with
    | .int x, .int y => (wordArithmetic op x y).map .int
    | .decimal _, _ | _, .decimal _ =>
      match a.toDecimal?, b.toDecimal? with
      | some x, some y => (decimalArithmetic op x y).map .decimal
      | _, _ => .error (.typeMismatch "non-finite value in decimal arithmetic")
    | _, _ =>
      (floatArithmetic op (a.toFloat?.getD Double.nan) (b.toFloat?.getD Double.nan)).map .float

def negate : Value → Except Fault Value
  | .null => .ok .null
  | .int n => (checked "negate" (-n.toInt)).map .int
  | .float x => .ok (.float (-x))
  | .decimal d => .ok (.decimal d.neg)
  | v => .error (.typeMismatch ("cannot negate " ++ v.kindName))

/-- The value of a node fitted to its representation. -/
def fit (v : Value) (r : Rep) : Except Fault Value :=
  match r, v with
  | _, .null => .ok .null
  | .prim _, v | .boxed _, v => v.convert r
  | .decimal, v => .ok ((v.toDecimal?.map Value.decimal).getD v)
  | _, v => .ok v

end Value

end SqlCode
