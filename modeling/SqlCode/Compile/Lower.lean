import SqlCode.Compile.Arithmetic
import SqlCode.Compile.Cast
import SqlCode.Compile.Construct
import SqlCode.Compile.Documents
import SqlCode.Compile.Logic
import SqlCode.Compile.System
import SqlCode.Compile.Temporal

/-!
# The code of a call

`Lowering.compute` gives the value of a call whose deciding operands are not null, and
`Lowering.emit` puts it into the frame of the null policy. Only conjunction, disjunction and casts to
the same type have no such frame.
-/

namespace SqlCode

namespace Lowering

/-- The routine that a number of operands selects. -/
def routineFor? (least : Nat) (routines : List String) (arity : Nat) : Option String :=
  if arity < least then none else routines[arity - least]?

/-- The value of a call where no null operand decides it. Only constructors emit statements for it. -/
def compute (l : Lowering) (site : CallSite) (args : List Expr) : Emit Expr :=
  match l with
  | .routine name _ _ | .named _ _ name => return .call name args site.rep
  | .byArity _ _ least routines =>
    match routineFor? least routines args.length with
    | some name => return .call name args site.rep
    | none =>
      Emit.lift (site.invalid ("no variant takes " ++ toString args.length ++ " operands"))
  | .negation positive => do
    let e ← positive.compute site args
    return e.unbox.mkNot
  | .temporal _ date timestamp withLocale =>
    Emit.lift (site.temporal date timestamp withLocale args)
  | .binary op _ _ backup => Emit.lift (site.binary op backup args)
  | .unary op _ => Emit.lift (site.unary op args)
  | .logicalAnd | .logicalOr =>
    Emit.lift (CallSite.unsupported (site.op.name ++ " is implemented as a whole"))
  | .logicalNot => return .call "not" args (.boxed .bool)
  | .predicate test => Emit.lift (site.predicate test args)
  | .cast => Emit.lift (site.cast args)
  | .reinterpret => Emit.lift (site.reinterpret args)
  | .coalesce => Emit.lift (site.coalesce args)
  | .extract => Emit.lift (site.extract args)
  | .floor => Emit.lift (site.boundary true args)
  | .ceil => Emit.lift (site.boundary false args)
  | .datetime => Emit.lift (site.datetime args)
  | .constructor => Emit.constructor site args
  | .item => Emit.lift (site.item args)
  | .system => Emit.lift site.system
  | .jsonValue => Emit.lift (site.jsonValue args)
  | .trim => Emit.lift (site.trim args)
  | .pi => return .const (.float Double.pi) (.prim .f64)
  | .default => return .null site.rep
  | .sequence name => Emit.lift (site.sequence name args)

/-- The value of a call that a null operand decides. -/
def whenNull (l : Lowering) (r : Rep) : Expr :=
  match l with
  | .predicate test => (Expr.bool test.answerOnNull).mkConvert r
  | _ => .defaultOf r

/-- The code of a call in the frame of its null policy. -/
def framed (l : Lowering) (site : CallSite) (args : List Flagged) : Emit Flagged :=
  Emit.guarded l.policy l.harmonizes l.stem l.whenNull (l.compute site) site args

def emit (l : Lowering) (site : CallSite) (args : List Flagged) : Emit Flagged :=
  match l with
  | .logicalAnd => Emit.result l.stem (site.connective true args)
  | .logicalOr => Emit.result l.stem (site.connective false args)
  | .cast =>
    match site.isIdentityCast, args with
    | true, [arg] => return arg
    | _, _ => l.framed site args
  | l => l.framed site args

end Lowering

end SqlCode
