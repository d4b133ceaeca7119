import SqlCode.Code.Flagged
import SqlCode.Machine.Basic

/-!
# Running code

The meaning of expressions and statements. Operands are evaluated from left to right, conjunction and
disjunction stop at an operand that decides them, and a choice evaluates one branch.
-/

namespace SqlCode

namespace Value

/-- Three-valued conjunction of operands that are both known. -/
def conj (a b : Value) : Value :=
  match a, b with
  | _, .bool false => .bool false
  | .null, _ | _, .null => .null
  | _, _ => .bool true

/-- Three-valued disjunction of operands that are both known. -/
def disj (a b : Value) : Value :=
  match a, b with
  | _, .bool true => .bool true
  | .null, _ | _, .null => .null
  | _, _ => .bool false

def isBool (v : Value) (b : Bool) : Bool :=
  match v with
  | .bool c => c == b
  | _ => false

/-- The value of an operator that evaluates both of its operands. -/
def applyBinary (op : BinaryOp) (a b : Value) (r : Rep) : Except Fault Value := do
  let v ← if op.isComparison then compareBy op a b else arithmetic op a b
  v.fit r

def applyUnary (op : UnaryOp) (v : Value) (r : Rep) : Except Fault Value :=
  match op with
  | .isNull => .ok (.bool v.isNull)
  | .isNotNull => .ok (.bool !v.isNull)
  | .unaryPlus => .ok v
  | .not =>
    match v with
    | .null => .ok .null
    | .bool b => .ok (.bool !b)
    | v => .error (.typeMismatch ("NOT of " ++ v.kindName))
  | .negate => do
    let n ← v.negate
    n.fit r

end Value

mutual

def Expr.eval : Expr → Run Value
  | .const v _ => return v
  | .slot s => do
    match (← get).get? s.name with
    | some v => return v
    | none => throw (.unboundVariable s.name)
  | .call routine args _ => do
    let vs ← Expr.evalAll args
    Run.call routine vs
  | .binary .andAlso a b _ => do
    let v ← Expr.eval a
    if v.isBool false then return v
    else return v.conj (← Expr.eval b)
  | .binary .orElse a b _ => do
    let v ← Expr.eval a
    if v.isBool true then return v
    else return v.disj (← Expr.eval b)
  | .binary op a b r => do
    let v ← Expr.eval a
    let w ← Expr.eval b
    Run.lift (Value.applyBinary op v w r)
  | .unary op a r => do
    let v ← Expr.eval a
    Run.lift (Value.applyUnary op v r)
  | .cond test a b _ => do
    if (← Expr.eval test).isBool true then Expr.eval a else Expr.eval b
  | .convert a r => do
    let v ← Expr.eval a
    Run.lift (v.convert r)
  | .new .list => return .list []
  | .new .map => return .map []
termination_by structural e => e

def Expr.evalAll : List Expr → Run (List Value)
  | [] => return []
  | e :: es => do
    let v ← Expr.eval e
    return v :: (← Expr.evalAll es)
termination_by structural es => es

end

def Run.assign (name : String) (v : Value) : Run Unit := modify (·.bind name v)

/-- Changes the container that a variable holds. -/
def Run.mutate (name routine : String) (args : List Value) : Run Unit := do
  match Mutator.find? routine with
  | none => throw (.unknownRoutine routine)
  | some f =>
    match (← get).get? name with
    | none => throw (.unboundVariable name)
    | some v => assign name (← lift (f v args))

mutual

def Stmt.exec : Stmt → Run Unit
  | .declare slot e | .assign slot e => do
    let v ← e.eval
    Run.assign slot.name v
  | .invoke slot routine args => do
    let vs ← Expr.evalAll args
    Run.mutate slot.name routine vs
  | .ite test a b => do
    if (← test.eval).isBool true then Stmt.execBlock a else Stmt.execBlock b
  | .throw fault => Run.lift (.error fault)
termination_by structural s => s

def Stmt.execBlock : List Stmt → Run Unit
  | [] => return ()
  | s :: ss => do
    Stmt.exec s
    Stmt.execBlock ss
termination_by structural ss => ss

end

/-- Binds values to slots; a short list leaves the later slots alone. -/
def Machine.bindSlots (slots : List Slot) (values : List Value) (m : Machine) : Machine :=
  (slots.zip values).foldl (fun m p => m.bind p.1.name p.2) m

def Block.exec (b : Block) : Run Unit := Stmt.execBlock b

/-- The value of a flagged expression: null if its null test holds. -/
def Flagged.eval (f : Flagged) : Run Value := do
  if (← f.isNull.eval).isBool true then return .null else f.value.eval

def Block.evaluate (b : Block) (f : Flagged) : Run Value := do
  Block.exec b
  f.eval

end SqlCode
