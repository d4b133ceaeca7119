import SqlCode.Machine.Context
import SqlCode.Machine.Random
import SqlCode.Machine.Store
import SqlCode.Routine.Library

/-!
# The machine

The state that code runs against, and calls of routines. A name refers to a routine registered with
the machine, else to a routine that reads or advances the state, else to the library.
-/

namespace SqlCode

/-- The state of an evaluation. -/
structure Machine where
  context : Context := {}
  store : Bindings Value := [("root", .null)]
  routines : Bindings Routine := []
  sequences : Bindings Int64 := []
  seeded : List (Int64 × Random) := []
  random : Random := {}

/-- Running code: the state stays as it is at the point of a fault. -/
abbrev Run := ExceptT Fault (StateM Machine)

namespace Machine

def bind (m : Machine) (name : String) (v : Value) : Machine :=
  { m with store := m.store.set name v }

def get? (m : Machine) (name : String) : Option Value := m.store.get? name

def register (m : Machine) (name : String) (r : Routine) : Machine :=
  { m with routines := m.routines.set name r }

end Machine

namespace Run

/-- The result of a computation that does not touch the state. -/
def lift {α : Type} (r : Except Fault α) : Run α := ExceptT.mk (pure r)

def sequenceName (routine : String) (args : List Value) : Except Fault String :=
  match (args[1]? : Option Value) with
  | some (.str s) => .ok s
  | _ => .error (.invalidArgument routine "expected a sequence name")

def seedArg (routine : String) (args : List Value) (i : Nat) : Except Fault Int64 :=
  match args[i]?.bind Value.toWord? with
  | some n => .ok n
  | none => .error (.invalidArgument routine "expected an integer seed")

def boundArg (routine : String) (args : List Value) (i : Nat) : Except Fault Int64 :=
  let refuse : Except Fault Int64 := .error (.invalidArgument routine "bound must be positive")
  match args[i]?.bind Value.toWord? with
  | some n => if 0 < n.toInt then .ok n else refuse
  | none => refuse

/-- The next value of a sequence, which starts at one. -/
def nextValue (routine : String) (args : List Value) : Run Value := do
  let name ← lift (sequenceName routine args)
  let m ← get
  let next := Word.wrap (((m.sequences.get? name).getD 0).toInt + 1)
  set { m with sequences := m.sequences.set name next }
  return .int next

/-- The last value that a sequence gave. -/
def currentValue (routine : String) (args : List Value) : Run Value := do
  let name ← lift (sequenceName routine args)
  match (← get).sequences.get? name with
  | some n => return .int n
  | none =>
    throw (.invalidArgument routine ("sequence " ++ name ++ " has no value yet"))

def draw {α : Type} (f : Random → α × Random) : Run α := do
  let m ← get
  let (a, r) := f m.random
  set { m with random := r }
  return a

def drawSeeded {α : Type} (seed : Int64) (f : Random → α × Random) : Run α := do
  let m ← get
  let (a, r) := f ((m.seeded.lookup seed).getD (Random.ofSeed seed))
  set { m with seeded := (seed, r) :: m.seeded }
  return a

/-- The routines that read or advance the state. The first argument of the readers is the root slot,
which they ignore. -/
def stateful? (name : String) (args : List Value) : Option (Run Value) :=
  let read (f : Context → Value) : Option (Run Value) := some do return f (← get).context
  let word (n : Int) : Value := .int (Word.wrap n)
  match name with
  | "user" => read fun c => .str c.user
  | "systemUser" => read fun c => .str c.systemUser
  | "currentTimestamp" => read fun c => word c.timestamp
  | "currentTime" => read fun c => word c.currentTime
  | "currentDate" => read fun c => word c.currentDate
  | "localTimestamp" => read fun c => word c.localTimestamp
  | "localTime" => read fun c => word c.localTime
  | "locale" => read fun c => .str c.locale
  | "timeZone" => read fun c => word c.offset
  | "sequenceNextValue" => some (nextValue name args)
  | "sequenceCurrentValue" => some (currentValue name args)
  | "rand" => some do return .float (← draw Random.unit)
  | "randSeed" => some do
    let seed ← lift (seedArg name args 0)
    return .float (← drawSeeded seed Random.unit)
  | "randInteger" => some do
    let bound ← lift (boundArg name args 0)
    return word (← draw (·.below bound.toInt))
  | "randIntegerSeed" => some do
    let seed ← lift (seedArg name args 0)
    let bound ← lift (boundArg name args 1)
    return word (← drawSeeded seed (·.below bound.toInt))
  | _ => none

def call (name : String) (args : List Value) : Run Value := do
  match (← get).routines.get? name with
  | some r => lift (r args)
  | none =>
    match stateful? name args with
    | some run => run
    | none =>
      match Routine.find? name with
      | some r => lift (r args)
      | none => throw (.unknownRoutine name)

end Run

end SqlCode
