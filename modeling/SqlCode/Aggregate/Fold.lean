import SqlCode.Aggregate.Basic
import SqlCode.Aggregate.Call
import SqlCode.Number.BitOp

/-!
# Folds

Aggregates that only see rows without nulls. A fold keeps at most one accumulator slot: `initial` starts
it, `step` takes in a row, and `value` reads the result.
-/

namespace SqlCode

/-- An aggregate that only sees rows without nulls. -/
inductive Fold
  | count
  | sum
  /-- The least or the greatest value. -/
  | extreme (least : Bool)
  | bits (op : BitOp)
  /-- The list of all values. -/
  | collect
  /-- The union of multisets. -/
  | fusion
  /-- The multiset of what all multisets contain. -/
  | intersection
  /-- The texts of all values with separators between them. -/
  | listAgg
  | routines (r : AggregateRoutines)
  | rank
  | denseRank
  | rowNumber

namespace Fold

def state? (f : Fold) (c : AggregateCall) : Option Rep :=
  match f with
  | .count | .rank | .denseRank => some (.prim .i64)
  | .sum | .extreme _ | .bits _ => some c.notNullRep
  | .collect | .fusion | .intersection => some .list
  | .listAgg => some .string
  | .routines _ => some .object
  | .rowNumber => none

def slot (f : Fold) (c : AggregateCall) : Slot := ⟨"acc0", (f.state? c).getD .object⟩

/-- What a sum starts from. -/
def zero : Rep → Expr
  | .decimal => .const (.decimal ⟨0, 0⟩) .decimal
  | r => .defaultOf r

/-- What an extreme starts from: the far end of a machine kind, so that the first row wins; else null,
for no value yet. -/
def farEnd (least : Bool) : Rep → Expr
  | .prim p => .const (if least then p.greatest else p.least) (.prim p)
  | r => .null r

def initial (f : Fold) (r : Rep) : Expr :=
  match f with
  | .count | .rowNumber => .defaultOf r
  | .sum => zero r
  | .extreme least => farEnd least r
  | .bits .and => .const (.int (-1)) r
  | .bits _ => .defaultOf r
  | .collect | .fusion => .new .list
  | .intersection => .null .list
  | .listAgg => .null .string
  | .routines rs => .call rs.init [] .object
  | .rank => .long 0
  | .denseRank => .long 1

/-- A text with a separator before the next value; the first value stands alone. -/
def joined (acc separator value : Expr) : Expr :=
  let concat (a b : Expr) : Expr := .call "concat" [a, b] .string
  .mkCond acc.mkIsNull value (concat acc (concat separator value))

/-- Moves the rank where the current row differs from the row before it. -/
def rankStep (acc : Slot) (next : Expr) (frame : Frame) : Block :=
  let previous := Expr.mkBinary .subtract frame.index (.long 1)
  let changed := Expr.mkBinary .lessThan (frame.compareRows previous frame.index) (.int 0)
  [.when (.mkBinary .greaterThan frame.index frame.start) [.when changed [.assign acc next]]]

/-- Takes in a row whose arguments are not null. -/
def step (f : Fold) (c : AggregateCall) (args : List Expr) : Except CompileError Block :=
  let acc := f.slot c
  let argument (i : Nat) : Except CompileError Expr := argumentAt args i
  let assign (e : Expr) : Except CompileError Block := .ok [.assign acc e]
  match f with
  | .count => assign (.mkBinary .add acc (.long 1))
  | .sum => do
    let e := (← argument 0).mkConvert acc.rep
    assign ((Expr.mkBinary .add acc e).mkConvert acc.rep)
  | .extreme least => do
    let e := (← argument 0).mkConvert acc.rep
    assign (.call (if least then "lesser" else "greater") [acc, e] acc.rep)
  | .bits op => do
    let e := (← argument 0).mkConvert acc.rep
    assign (.call op.routine [acc, e] acc.rep)
  | .collect => do
    let e ← argument 0
    return [.invoke acc "collectionAdd" [e.box]]
  | .fusion => do
    let e ← argument 0
    return [.invoke acc "collectionAddAll" [e.box]]
  | .intersection => do
    let e ← argument 0
    return [.ite (Expr.slot acc).mkIsNull
      [.assign acc (.new .list), .invoke acc "collectionAddAll" [e]]
      [.invoke acc "collectionRetainAll" [e]]]
  | .listAgg => do
    let value := (← argument 0).mkConvert .string
    assign (joined acc (args[1]?.getD (.string (c.separator.getD ","))) value)
  | .routines rs => assign (.call rs.add (.slot acc :: args.map (·.box)) .object)
  | .rank => .ok (rankStep acc ({} : Frame).offset {})
  | .denseRank => .ok (rankStep acc (.mkBinary .add acc (.long 1)) {})
  | .rowNumber => .ok []

def value (f : Fold) (c : AggregateCall) : Expr :=
  let acc := f.slot c
  match f with
  | .rank => .mkBinary .add acc (.long 1)
  | .rowNumber => .mkBinary .add ({} : Frame).offset (.long 1)
  | .routines rs => (Expr.call rs.result [acc] .object).mkConvert c.notNullRep
  | _ => acc

/-- The fold reads where the current row stands in its window. -/
def needsWindow : Fold → Bool
  | .rank | .denseRank | .rowNumber => true
  | _ => false

end Fold

end SqlCode
