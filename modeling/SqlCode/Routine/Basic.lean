import SqlCode.Fault
import SqlCode.Value.Json

/-!
# Routines

A routine computes a value from its arguments, and a mutator the new content of a container. The
readers of `Args` take an argument of a kind and report what they found instead.
-/

namespace SqlCode

/-- A routine computes a value from argument values. -/
abbrev Routine := List Value → Except Fault Value

/-- A mutator computes the new content of a container from its content and arguments. -/
abbrev Mutator := Value → List Value → Except Fault Value

/-- The fault of an argument that is not what a routine expects. -/
def Fault.expected (routine what : String) (got : Value) : Fault :=
  .invalidArgument routine ("expected " ++ what ++ ", got " ++ got.kindName)

namespace Args

def value (routine : String) (args : List Value) (i : Nat) : Except Fault Value :=
  match args[i]? with
  | some v => .ok v
  | none => .error (.invalidArgument routine ("missing argument " ++ (i + 1).repr))

def str (routine : String) (args : List Value) (i : Nat) : Except Fault String := do
  match ← value routine args i with
  | .str s => .ok s
  | v => .error (.expected routine "a string" v)

def word (routine : String) (args : List Value) (i : Nat) : Except Fault Int64 := do
  let v ← value routine args i
  match v.toWord? with
  | some n => .ok n
  | none => .error (.expected routine "an integer" v)

def float (routine : String) (args : List Value) (i : Nat) : Except Fault Float := do
  let v ← value routine args i
  match v.toFloat? with
  | some x => .ok x
  | none => .error (.expected routine "a number" v)

def bool (routine : String) (args : List Value) (i : Nat) : Except Fault Bool := do
  match ← value routine args i with
  | .bool b => .ok b
  | v => .error (.expected routine "a boolean" v)

def list (routine : String) (args : List Value) (i : Nat) : Except Fault (List Value) := do
  match ← value routine args i with
  | .list items => .ok items
  | v => .error (.expected routine "a collection" v)

def wordOr (routine : String) (args : List Value) (i : Nat) (absent : Int64) :
    Except Fault Int64 :=
  if i < args.length then word routine args i else .ok absent

/-- A count: negative numbers count as zero. -/
def count (routine : String) (args : List Value) (i : Nat) : Except Fault Nat :=
  (word routine args i).map fun n => n.toInt.toNat

end Args

end SqlCode
