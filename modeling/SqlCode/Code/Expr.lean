import SqlCode.Code.Operator
import SqlCode.Rep
import SqlCode.Value.Basic

/-!
# Expressions

The expressions of emitted code. Each node carries its representation, so `Expr.rep` never
inspects more than one node. `Expr.same` compares expressions node by node, with constants
compared as values.
-/

namespace SqlCode

/-- A named place for a value: a declared variable, an input field or an accumulator. -/
structure Slot where
  name : String
  rep : Rep
deriving DecidableEq, Repr

inductive Expr
  | const (value : Value) (rep : Rep)
  | slot (s : Slot)
  | call (routine : String) (args : List Expr) (rep : Rep)
  | binary (op : BinaryOp) (left right : Expr) (rep : Rep)
  | unary (op : UnaryOp) (operand : Expr) (rep : Rep)
  | cond (test ifTrue ifFalse : Expr) (rep : Rep)
  | convert (operand : Expr) (rep : Rep)
  | new (container : Container)

instance : Coe Slot Expr := ⟨.slot⟩

def Container.rep : Container → Rep
  | .list => .list
  | .map => .map

namespace Expr

instance : Inhabited Expr := ⟨.const .null .object⟩

def rep : Expr → Rep
  | .const _ r | .call _ _ r | .binary _ _ _ r | .unary _ _ r | .cond _ _ _ r | .convert _ r => r
  | .slot s => s.rep
  | .new c => c.rep

def constant? : Expr → Option Value
  | .const v _ => some v
  | _ => none

def isConstBool (e : Expr) (b : Bool) : Bool :=
  match e with
  | .const (.bool v) _ => v == b
  | _ => false

def isNullConst : Expr → Bool
  | .const .null _ => true
  | _ => false

mutual

def same : Expr → Expr → Bool
  | .const v r, .const v' r' => v.same v' && r == r'
  | .slot s, .slot s' => s == s'
  | .call f as r, .call f' as' r' => f == f' && sameList as as' && r == r'
  | .binary op a b r, .binary op' a' b' r' => op == op' && same a a' && same b b' && r == r'
  | .unary op a r, .unary op' a' r' => op == op' && same a a' && r == r'
  | .cond t a b r, .cond t' a' b' r' => same t t' && same a a' && same b b' && r == r'
  | .convert a r, .convert a' r' => same a a' && r == r'
  | .new c, .new c' => c == c'
  | _, _ => false
termination_by structural e => e

def sameList : List Expr → List Expr → Bool
  | [], [] => true
  | a :: as, b :: bs => same a b && sameList as bs
  | _, _ => false
termination_by structural es => es

end

instance : BEq Expr := ⟨same⟩

mutual

def size : Expr → Nat
  | .const _ _ | .slot _ | .new _ => 1
  | .call _ args _ => 1 + sizeList args
  | .binary _ a b _ => 1 + size a + size b
  | .unary _ a _ | .convert a _ => 1 + size a
  | .cond t a b _ => 1 + size t + size a + size b
termination_by structural e => e

def sizeList : List Expr → Nat
  | [] => 0
  | e :: es => size e + sizeList es
termination_by structural es => es

end

end Expr

end SqlCode
