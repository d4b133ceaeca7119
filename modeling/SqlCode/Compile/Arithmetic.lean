import SqlCode.Compile.Emit

/-!
# Operators on two operands and on one

Where the representations of the operands allow it, an operator becomes an operator of the machine; else it
becomes a call of its backup routine.
-/

namespace SqlCode

namespace CallSite

/-- The representation of what the backup routine of an operator gives. -/
def backupRep (site : CallSite) (op : BinaryOp) : Rep :=
  if op.isComparison then .truth else site.rep

/-- The machine has no such operator for these representations: the left one has no machine kind, the
right one is decimal, an order is asked for of truth values, or two boxed values are compared. -/
def needsBackup (op : BinaryOp) (left right : Rep) : Bool :=
  left.kind?.isNone || right == .decimal ||
    (op.isOrdering && !left.kind?.any Prim.isNumeric) ||
    (op.isEquality && left.boxedKind?.isSome && right.boxedKind?.isSome)

/-- An operator on two operands. An operand of type ANY leaves the choice to the running program. -/
def binary (site : CallSite) (op : BinaryOp) (backup : Option String) (args : List Expr) :
    Except CompileError Expr :=
  match args with
  | [left, right] =>
    match backup with
    | none => .ok (.mkBinary op left right)
    | some routine =>
      if site.operands.any (·.type.name == .any) then
        .ok (.call (routine ++ "Any") [left.box, right.box]
          (if op.isComparison then .truth else .object))
      else if needsBackup op left.rep right.rep then
        .ok (.call routine args (site.backupRep op))
      else .ok (.mkBinary op left right)
  | args => site.invalid ("expected 2 operands, got " ++ toString args.length)

/-- An operator on one operand, whose representation the result keeps. -/
def unary (site : CallSite) (op : UnaryOp) (args : List Expr) : Except CompileError Expr :=
  match args with
  | [] => site.invalid "expected 1 operand"
  | e :: _ => .ok ((Expr.mkUnary op e).mkConvert e.rep)

end CallSite

end SqlCode
