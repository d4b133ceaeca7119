import SqlCode.Code.Builder
import SqlCode.Code.Flagged
import SqlCode.Fault
import SqlCode.Compile.Settings
import SqlCode.SqlType.CommonType
import SqlCode.Term.Basic

/-!
# Emitting code for a call

A call site is what a lowering may know about its call. `guarded` is the frame of most calls: null
operands that decide the call are tested first, and the call itself is computed on operands that are
unboxed where they cannot be null.
-/

namespace SqlCode

/-- Emitting code: a builder is threaded, and a failing step leaves no code. -/
abbrev Emit := StateT Builder (Except CompileError)

/-- What a lowering may know about an operand: its type, and its value if it is a literal. -/
structure Operand where
  type : SqlType
  literal? : Option Value := none

/-- What a lowering may know about its call. -/
structure CallSite where
  settings : Settings := {}
  op : Operator
  type : SqlType
  operands : List Operand

namespace CallSite

def rep (site : CallSite) : Rep := site.type.rep

/-- The error of a call whose operands do not have the expected shape. -/
def invalid {α : Type} (site : CallSite) (reason : String) : Except CompileError α :=
  .error (.invalidCall site.op.name reason)

/-- The error of a call that no rule covers. -/
def unsupported {α : Type} (detail : String) : Except CompileError α := .error (.unsupported detail)

/-- The operands in the representation of their common type, if their types differ and have one. -/
def harmonize (site : CallSite) (args : List Expr) : List Expr :=
  let types := site.operands.map (·.type)
  match types with
  | [] => args
  | first :: _ =>
    if types.all (· == first) then args
    else
      match SqlType.common? types with
      | some t => args.map (·.mkConvert t.rep)
      | none => args

/-- The computed value in the representation of the call; tables already have their shape. -/
def conform (site : CallSite) (e : Expr) : Expr :=
  if e.rep = site.rep ∨ site.op.isTable then e else e.mkConvert site.rep

end CallSite

/-- The slot that stands for the context of the evaluation. -/
def Expr.root : Expr := .slot ⟨"root", .object⟩

def Expr.symbol? (e : Expr) : Option Symbol :=
  match e with
  | .const (.symbol s) _ => some s
  | _ => none

namespace Emit

/-- A step that emits nothing. -/
def lift {α : Type} (r : Except CompileError α) : Emit α := StateT.lift r

/-- Declares variables for a value and its null test, where they are not trivial. -/
def result (stem : String) (value : Expr) : Emit Flagged := do
  let value ← modifyGet (·.append (stem ++ "_value") value)
  let isNull ← modifyGet (·.append (stem ++ "_isNull") value.mkIsNull)
  return ⟨isNull, value⟩

/-- The frame of a call under a null policy. Where the null tests of the operands decide the call, its
value is `whenNull` and the call is not computed. -/
def guarded (policy : NullPolicy) (harmonize : Bool) (stem : String) (whenNull : Rep → Expr)
    (compute : List Expr → Emit Expr) (site : CallSite) (args : List Flagged) : Emit Flagged := do
  let condition := policy.condition (args.map (·.isNull))
  let values := args.map (·.value)
  let values := policy.unbox (if harmonize then site.harmonize values else values)
  let safe := site.conform (← compute values)
  result stem (.mkCond condition (whenNull safe.rep) safe)

end Emit

end SqlCode
