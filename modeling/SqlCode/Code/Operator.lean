import SqlCode.TimeUnit

/-!
# Operators of expressions

The operators that code applies directly to values, without calling a routine.
-/

namespace SqlCode

inductive BinaryOp
  | add
  | subtract
  | multiply
  | divide
  | modulo
  | equal
  | notEqual
  | lessThan
  | lessThanOrEqual
  | greaterThan
  | greaterThanOrEqual
  | andAlso
  | orElse
deriving DecidableEq, Repr

def BinaryOp.all : List BinaryOp := (List.range (orElse.ctorIdx + 1)).map ofNat

def BinaryOp.label : BinaryOp → String
  | .add => "Add"
  | .subtract => "Subtract"
  | .multiply => "Multiply"
  | .divide => "Divide"
  | .modulo => "Modulo"
  | .equal => "Equal"
  | .notEqual => "NotEqual"
  | .lessThan => "LessThan"
  | .lessThanOrEqual => "LessThanOrEqual"
  | .greaterThan => "GreaterThan"
  | .greaterThanOrEqual => "GreaterThanOrEqual"
  | .andAlso => "AndAlso"
  | .orElse => "OrElse"

instance : Labeled BinaryOp := ⟨BinaryOp.all, BinaryOp.label⟩

namespace BinaryOp

def isEquality : BinaryOp → Bool
  | .equal | .notEqual => true
  | _ => false

def isOrdering : BinaryOp → Bool
  | .lessThan | .lessThanOrEqual | .greaterThan | .greaterThanOrEqual => true
  | _ => false

def isComparison (op : BinaryOp) : Bool := op.isEquality || op.isOrdering

def isLogical : BinaryOp → Bool
  | .andAlso | .orElse => true
  | _ => false

end BinaryOp

inductive UnaryOp
  | negate
  | unaryPlus
  | not
  | isNull
  | isNotNull
deriving DecidableEq, Repr

def UnaryOp.all : List UnaryOp :=
  [.negate, .unaryPlus, .not, .isNull, .isNotNull]

def UnaryOp.label : UnaryOp → String
  | .negate => "Negate"
  | .unaryPlus => "UnaryPlus"
  | .not => "Not"
  | .isNull => "IsNull"
  | .isNotNull => "IsNotNull"

instance : Labeled UnaryOp := ⟨UnaryOp.all, UnaryOp.label⟩

/-- The mutable containers that code creates. -/
inductive Container
  | list
  | map
deriving DecidableEq, Repr

def Container.all : List Container :=
  [.list, .map]

def Container.label : Container → String
  | .list => "List"
  | .map => "Map"

instance : Labeled Container := ⟨Container.all, Container.label⟩

end SqlCode
