import SqlCode.Fault
import SqlCode.Compile.Settings
import SqlCode.Symbol

/-!
# Aggregate functions

The built-in aggregate and window functions, and aggregates that are given by routines.
-/

namespace SqlCode

/-- A built-in aggregate or window function. -/
inductive Aggregate
  | count
  | regrCount
  | sum
  | sum0
  | min
  | max
  | anyValue
  /-- SOME: a row is true. -/
  | someTrue
  /-- EVERY: all rows are true. -/
  | everyTrue
  | bitAnd
  | bitOr
  | bitXor
  | singleValue
  | collect
  | listAgg
  | fusion
  | intersection
  | grouping
  | groupingId
  | jsonObjectAgg (clause : NullClause)
  | jsonArrayAgg (clause : NullClause)
  | rank
  | denseRank
  | rowNumber
deriving DecidableEq, Repr

namespace Aggregate

def all : List Aggregate :=
  [.count, .regrCount, .sum, .sum0, .min, .max, .anyValue, .someTrue, .everyTrue, .bitAnd, .bitOr, .bitXor,
   .singleValue, .collect, .listAgg, .fusion, .intersection, .grouping, .groupingId,
   .jsonObjectAgg .nullOnNull, .jsonObjectAgg .absentOnNull, .jsonArrayAgg .nullOnNull,
   .jsonArrayAgg .absentOnNull, .rank, .denseRank, .rowNumber]

def label : Aggregate → String
  | .someTrue => "Some"
  | .everyTrue => "Every"
  | .jsonObjectAgg c => "JsonObjectAgg(" ++ Labeled.label c ++ ")"
  | .jsonArrayAgg c => "JsonArrayAgg(" ++ Labeled.label c ++ ")"
  | a => constructorLabel a

/-- A plain aggregate that is also right over a window. -/
def isReusable : Aggregate → Bool
  | .sum | .sum0 | .min | .max | .anyValue | .someTrue | .everyTrue | .bitAnd | .bitOr | .bitXor
  | .singleValue | .collect | .listAgg | .fusion | .intersection => true
  | _ => false

end Aggregate

instance : Labeled Aggregate := ⟨Aggregate.all, Aggregate.label⟩

def WindowReuse.allows (r : WindowReuse) (a : Aggregate) : Bool :=
  match r with
  | .allowList => a.isReusable
  | .never => false

/-- An aggregate that routines compute: `init` makes the state, `add` takes the state and the
arguments of a row to the next state, and `result` reads the state. -/
structure AggregateRoutines where
  init : String
  add : String
  result : String

/-- The function of an aggregate call. A user-defined one without routines cannot be compiled. -/
inductive AggregateFunction
  | builtin (a : Aggregate)
  | user (name : String) (routines : Option AggregateRoutines)

/-- The name in error texts. -/
def AggregateFunction.name : AggregateFunction → String
  | .builtin a => a.label.toUpper
  | .user n _ => n

/-- The name with the kind of the function. -/
def AggregateFunction.description : AggregateFunction → String
  | .builtin a => a.label
  | .user n _ => "UserDefined(" ++ n ++ ")"

end SqlCode
