import SqlCode.Code.Flagged

/-!
# Block builders

A builder collects the statements of a block and hands out variable names. A nested builder knows
the names that its parent has taken, and the parent takes over the names of the child when the
child is finished, so no name is handed out twice.
-/

namespace SqlCode

/-- The statements so far and the names that are taken. -/
structure Builder where
  names : List String := []
  statements : Block := []

namespace Builder

/-- The suggestion if it is free, else the suggestion with the least number that makes it free.
Among one more candidate than there are taken names, one is free. -/
def freshName (b : Builder) (suggestion : String) : String :=
  if b.names.contains suggestion then
    (((List.range (b.names.length + 1)).map fun (i : Nat) => suggestion ++ toString i).find?
      fun name => !b.names.contains name).getD suggestion
  else suggestion

def newName (b : Builder) (suggestion : String) : String × Builder :=
  let name := b.freshName suggestion
  (name, { b with names := name :: b.names })

/-- Takes a fresh slot, whose value the caller stores. -/
def newSlot (b : Builder) (suggestion : String) (rep : Rep) : Slot × Builder :=
  let (name, b) := b.newName suggestion
  (⟨name, rep⟩, b)

def add (b : Builder) (s : Stmt) : Builder := { b with statements := b.statements ++ [s] }

/-- Declares a variable and gives a reference to it. -/
def declare (b : Builder) (suggestion : String) (init : Expr) : Expr × Builder :=
  let (slot, b) := b.newSlot suggestion init.rep
  (.slot slot, b.add (.declare slot init))

/-- Declares a variable, unless the expression is a constant or a variable already. -/
def append (b : Builder) (suggestion : String) (init : Expr) : Expr × Builder :=
  match init with
  | .const .. | .slot _ => (init, b)
  | init => b.declare suggestion init

def assign (b : Builder) (target : Slot) (value : Expr) : Builder := b.add (.assign target value)

def isEmpty (b : Builder) : Bool := b.statements.isEmpty

/-- A builder for the body of a branch. -/
def nest (b : Builder) : Builder := { names := b.names }

/-- Takes over the names of a finished child and gives its statements. -/
def exit (b child : Builder) : Block × Builder :=
  (child.statements, { b with names := child.names ++ b.names })

end Builder

end SqlCode
