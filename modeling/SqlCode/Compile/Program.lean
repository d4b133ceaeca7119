import SqlCode.Compile.Term
import SqlCode.Machine.Exec

/-!
# Programs

A compiled term with its input slots, and running it on a row.
-/

namespace SqlCode

structure Program where
  inputs : List Slot
  block : Block
  result : Flagged

/-- Runs the program on a row of values for its input slots. -/
def Program.run (p : Program) (row : List Value) : Run Value := do
  modify (Machine.bindSlots p.inputs row)
  Block.evaluate p.block p.result

/-- The program of a term over named input fields and shared definitions. -/
def Term.program (t : Term) (settings : Settings := {}) (definitions : List Term := [])
    (fields : List (String × SqlType) := []) : Except CompileError Program :=
  let (slots, c) := ({ settings, definitions } : Compilation).addInputs fields
  match c.add t with
  | (.ok f, c) => .ok ⟨slots, c.builder.statements, f⟩
  | (.error e, _) => .error e

end SqlCode
