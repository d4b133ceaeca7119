import SqlCode.Aggregate.Strategy
import SqlCode.Machine.Exec

/-!
# Aggregate programs

The code of an aggregate call: `reset` starts a group, `add` takes in a row, and `result` and `value` give
the result. The accumulator slots keep their values in between.
-/

namespace SqlCode

/-- The code of an aggregate call. -/
structure AggregateProgram where
  accumulator : List Slot
  arguments : List Slot
  /-- The slots of the group keys, then the slots that say which of them are rolled up. -/
  keys : List Slot
  frame : Option Frame
  reset : Block
  add : Block
  /-- What runs before the value is read. -/
  result : Block
  value : Expr

/-- The code of a call. A call without a separator takes the one of the settings. -/
def AggregateFunction.program (f : AggregateFunction) (settings : Settings) (call : AggregateCall) (window : Bool) :
    Except CompileError AggregateProgram := do
  let s ← f.strategy settings window
  let call := { call with separator := some (call.separator.getD settings.separator) }
  let add ← s.add call
  let value ← s.value call
  return {
    accumulator := s.accumulator call
    arguments := call.argumentSlots
    keys := call.keySlots ++ call.rolledUpSlots
    frame := if window then some {} else none
    reset := s.reset call
    add
    result := []
    value }

namespace AggregateProgram

def start (p : AggregateProgram) : Run Unit := Block.exec p.reset

def take (p : AggregateProgram) (row : List Value) : Run Unit := do
  modify (Machine.bindSlots p.arguments row)
  Block.exec p.add

/-- Binds the group keys and which of them are rolled up. -/
def bindKeys (p : AggregateProgram) (values : List Value) : Run Unit :=
  modify (Machine.bindSlots p.keys values)

/-- Places the current row in its window. -/
def bindFrame (p : AggregateProgram) (values : List Value) : Run Unit :=
  match p.frame with
  | some f => modify (Machine.bindSlots f.slots values)
  | none => return ()

def finish (p : AggregateProgram) : Run Value := do
  Block.exec p.result
  p.value.eval

end AggregateProgram

end SqlCode
