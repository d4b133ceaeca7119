import SqlCode.Compile.NullPolicy
import SqlCode.Term.Builtin

/-!
# Lowerings

A lowering says how the calls of an operator become code. Built-in operators have the lowerings of the
catalog; user-defined functions bring their own.
-/

namespace SqlCode

/-- How the calls of an operator become code. -/
inductive Lowering
  | routine (name : String) (policy : NullPolicy) (harmonize : Bool)
  /-- A call of a routine whose result goes to a variable of its own name. -/
  | named (stem : String) (policy : NullPolicy) (routine : String)
  /-- A call of the routine that the number of operands selects. -/
  | byArity (stem : String) (policy : NullPolicy) (least : Nat) (routines : List String)
  | negation (positive : Lowering)
  /-- A call of one routine for dates and of another one for timestamps. -/
  | temporal (stem dateRoutine timestampRoutine : String) (withLocale : Bool)
  /-- An operator on two operands, or a routine where the operator does not apply. -/
  | binary (op : BinaryOp) (policy : NullPolicy) (harmonize : Bool) (backup : Option String)
  | unary (op : UnaryOp) (policy : NullPolicy)
  | logicalAnd
  | logicalOr
  | logicalNot
  /-- A test for null or for a truth value, which is never null itself. -/
  | predicate (test : Builtin)
  | cast
  | reinterpret
  | coalesce
  | extract
  | floor
  | ceil
  /-- Addition and subtraction of dates, times, timestamps and intervals. -/
  | datetime
  /-- An array or a map of its operands. -/
  | constructor
  | item
  /-- A reading of the context. -/
  | system
  | jsonValue
  | trim
  | pi
  | default
  /-- A call of a routine on a named sequence. -/
  | sequence (routine : String)

namespace Lowering

/-- Which null operands decide a call. -/
def policy : Lowering → NullPolicy
  | .routine _ p _ | .named _ p _ | .byArity _ p _ _ | .binary _ p _ _ | .unary _ p => p
  | .negation positive => positive.policy
  | .temporal .. | .predicate _ | .cast | .reinterpret | .extract | .floor | .ceil | .datetime
  | .item | .trim | .sequence _ => .strict
  | .jsonValue => .arg0
  | .logicalAnd | .logicalOr | .logicalNot | .coalesce | .constructor | .system | .pi
  | .default => .none

/-- Whether the operands are first converted to their common type. -/
def harmonizes : Lowering → Bool
  | .routine _ _ h | .binary _ _ h _ => h
  | .negation positive => positive.harmonizes
  | .logicalNot => true
  | _ => false

/-- What the names of the variables of a call start with. -/
def stem : Lowering → String
  | .routine .. => "method_call"
  | .named v _ _ | .byArity v _ _ _ | .temporal v _ _ _ => v
  | .negation _ => "not"
  | .binary .. => "binary_call"
  | .unary .. => "unary_call"
  | .logicalAnd => "logical_and"
  | .logicalOr => "logical_or"
  | .logicalNot => "logical_not"
  | .predicate .isNull => "is_null"
  | .predicate .isNotNull => "is_not_null"
  | .predicate .isTrue => "is_true"
  | .predicate .isNotTrue => "is_not_true"
  | .predicate .isFalse => "is_false"
  | .predicate _ => "is_not_false"
  | .cast => "cast"
  | .reinterpret => "reinterpret"
  | .coalesce => "coalesce"
  | .extract => "extract"
  | .floor => "floor"
  | .ceil => "ceil"
  | .datetime => "datetime_arithmetic"
  | .constructor => "value_constructor"
  | .item => "item"
  | .system => "system_func"
  | .jsonValue => "json_value"
  | .trim => "trim"
  | .pi => "pi"
  | .default => "default"
  | .sequence _ => "sequence"

end Lowering

end SqlCode
