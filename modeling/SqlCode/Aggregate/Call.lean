import SqlCode.Code.Simplify
import SqlCode.Code.Flagged
import SqlCode.Fault

/-!
# Aggregate calls

What is known about an aggregate call, and the slots that its code works on. The caller binds the slots of
the arguments, of the group keys and of the frame; the code owns the accumulator.
-/

namespace SqlCode

def Slot.numbered (stem : String) (reps : List Rep) : List Slot :=
  reps.mapIdx fun i r => ⟨stem ++ toString i, r⟩

/-- What is known about an aggregate call. `keys` and `arguments` are positions in the input row: the
group keys in order, and what GROUPING asks about. -/
structure AggregateCall where
  returnType : SqlType
  parameters : List SqlType := []
  /-- What LISTAGG puts between values if a row does not say; if the call does not say either, the
  settings do. -/
  separator : Option String := none
  groupingSets : Nat := 1
  keys : List Nat := []
  arguments : List Nat := []

namespace AggregateCall

def rep (c : AggregateCall) : Rep := c.returnType.rep

def notNullRep (c : AggregateCall) : Rep := (c.returnType.withNullable false).rep

def argumentSlots (c : AggregateCall) : List Slot := Slot.numbered "arg" (c.parameters.map (·.rep))

def keySlots (c : AggregateCall) : List Slot := Slot.numbered "key" (c.keys.map fun _ => .object)

/-- The slots that say which group keys are rolled up. -/
def rolledUpSlots (c : AggregateCall) : List Slot :=
  Slot.numbered "rolled_up" (c.keys.map fun _ => .truth)

def hasNullableArgument (c : AggregateCall) : Bool := c.parameters.any (·.nullable)

end AggregateCall

def argumentAt (args : List Expr) (i : Nat) : Except CompileError Expr :=
  match args[i]? with
  | some e => .ok e
  | none => .error (.invalidCall "aggregate" ("missing argument " ++ toString i))

/-- The slots that place the current row in its window: its index in the partition, and the first and
the last index of its frame. -/
structure Frame where
  index : Slot := ⟨"index", .prim .i64⟩
  start : Slot := ⟨"start_index", .prim .i64⟩
  stop : Slot := ⟨"end_index", .prim .i64⟩
  /-- The routine that compares the ordering keys of two rows. -/
  comparator : String := "compareRows"

namespace Frame

/-- The slots in the order in which they are bound. -/
def slots (f : Frame) : List Slot := [f.index, f.start, f.stop]

/-- The distance of the current row from the start of its frame. -/
def offset (f : Frame) : Expr := .mkBinary .subtract f.index f.start

def rowCount (f : Frame) : Expr :=
  .mkBinary .add (.mkBinary .subtract f.stop f.start) (.long 1)

/-- Negative, zero or positive as row `a` sorts before, with or after row `b`. -/
def compareRows (f : Frame) (a b : Expr) : Expr := .call f.comparator [a, b] (.prim .i32)

end Frame

end SqlCode
