import SqlCode.Code.Expr
import SqlCode.Value.Convert

/-!
# Simplifying constructors

The constructors that code is built with. Each computes the representation of its node and folds
what is known already: constant tests, trivial members of boolean chains, double negations,
constant conversions and pairs of boxing and unboxing.
-/

namespace SqlCode

/-- The representation of a truth value that is never null. -/
abbrev Rep.truth : Rep := .prim .bool

/-- The representation of `a + b` and its kin. -/
def Rep.arithmetic (a b : Rep) : Rep :=
  if a = .decimal ∨ b = .decimal then .decimal
  else
    match a.kind?, b.kind? with
    | some p, some q => .prim (p.promote q)
    | _, _ => .object

namespace Expr

def bool (b : Bool) : Expr := .const (.bool b) .truth

def int (n : Int64) : Expr := .const (.int n) (.prim .i32)

def long (n : Int64) : Expr := .const (.int n) (.prim .i64)

def string (s : String) : Expr := .const (.str s) .string

/-- Null, in a representation that has room for it. -/
def null (r : Rep) : Expr := .const .null r.box

/-- What a slot holds before its first write: zero or false if unboxed, else null. -/
def defaultOf : Rep → Expr
  | .prim p => .const p.default (.prim p)
  | r => null r

/-- An operator on two operands; a constant that decides or does not matter is folded away. -/
def mkBinary (op : BinaryOp) (left right : Expr) : Expr :=
  let plain := .binary op left right
    (if op.isComparison || op.isLogical then .truth else left.rep.arithmetic right.rep)
  match op with
  | .andAlso =>
    if left.isConstBool false || right.isConstBool true then left
    else if left.isConstBool true || right.isConstBool false then right
    else plain
  | .orElse =>
    if left.isConstBool true || right.isConstBool false then left
    else if left.isConstBool false || right.isConstBool true then right
    else plain
  | _ => plain

/-- Negation of a truth value; a double negation cancels. -/
def mkNot (e : Expr) : Expr :=
  match e with
  | .const (.bool b) _ => bool !b
  | .unary .not inner _ => inner
  | e => .unary .not e .truth

/-- What is known about an operand being null before the code runs. -/
def knownNull? (e : Expr) : Option Bool :=
  if e.rep.isPrim then some false else e.constant?.map Value.isNull

def mkIsNull (e : Expr) : Expr :=
  match e.knownNull? with
  | some b => bool b
  | none => .unary .isNull e .truth

def mkIsNotNull (e : Expr) : Expr :=
  match e.knownNull? with
  | some b => bool !b
  | none => .unary .isNotNull e .truth

/-- The representation of a signed operand: narrow integers are widened. -/
def signedRep (e : Expr) : Rep :=
  match e.rep with
  | .prim p | .boxed p => .prim (p.promote .i32)
  | r => r

def mkUnary (op : UnaryOp) (e : Expr) : Expr :=
  match op with
  | .not => e.mkNot
  | .isNull => e.mkIsNull
  | .isNotNull => e.mkIsNotNull
  | .negate => .unary .negate e e.signedRep
  | .unaryPlus => .unary .unaryPlus e e.signedRep

/-- The representation of a choice between two expressions. -/
def choiceRep (a b : Expr) : Rep :=
  if a.rep = b.rep then a.rep
  else if a.isNullConst then b.rep.box
  else if b.isNullConst then a.rep.box
  else
    match a.rep.kind?, b.rep.kind? with
    | some p, some q => if p = q then .boxed p else .object
    | _, _ => .object

/-- A choice; it disappears when the test is constant, when both branches are the same, or when
it repeats or negates its test. -/
def mkCond (test ifTrue ifFalse : Expr) : Expr :=
  match test with
  | .const (.bool b) _ => if b then ifTrue else ifFalse
  | test =>
    if ifTrue.same ifFalse then ifTrue
    else if ifTrue.rep = .truth ∧ ifFalse.rep = .truth ∧
        ifTrue.isConstBool true ∧ ifFalse.isConstBool false then test
    else if ifTrue.rep = .truth ∧ ifFalse.rep = .truth ∧
        ifTrue.isConstBool false ∧ ifFalse.isConstBool true then test.mkNot
    else .cond test ifTrue ifFalse (choiceRep ifTrue ifFalse)

/-- The conversion as a node of its own, unless it undoes the conversion of its operand. -/
def reconvert (e : Expr) (r : Rep) : Expr :=
  match e with
  | .convert inner middle =>
    if inner.rep = r ∧ middle.unbox = r.unbox then inner else .convert e r
  | e => .convert e r

/-- A change of representation; constants are converted on the spot. -/
def mkConvert (e : Expr) (r : Rep) : Expr :=
  if e.rep = r then e
  else
    match e with
    | .const v _ =>
      match v.convert r with
      | .ok w => .const w r
      | .error _ => .convert e r
    | e => e.reconvert r

def unbox (e : Expr) : Expr :=
  match e.rep with
  | .boxed p => e.mkConvert (.prim p)
  | _ => e

def box (e : Expr) : Expr :=
  match e.rep with
  | .prim p => e.mkConvert (.boxed p)
  | _ => e

/-- Conjunction; of nothing, true. -/
def conj (es : List Expr) : Expr := es.foldl (mkBinary .andAlso) (bool true)

/-- Disjunction; of nothing, false. -/
def disj (es : List Expr) : Expr := es.foldl (mkBinary .orElse) (bool false)

end Expr

end SqlCode
