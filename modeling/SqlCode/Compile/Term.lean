import SqlCode.Compile.Catalog
import SqlCode.Compile.Lower

/-!
# Compiling terms

A compilation collects the code of terms in one builder. The code of a shared definition is emitted at its
first use, and later uses refer to it. Code that was emitted before an error stays.
-/

namespace SqlCode

/-- The state of a compilation: the code so far, the input fields, and the shared definitions with the
results of those that have been compiled. -/
structure Compilation where
  settings : Settings := {}
  definitions : List Term := []
  inputs : List Flagged := []
  done : List (Nat × Flagged) := []
  builder : Builder := { names := ["root"] }

/-- Compiling: the state is kept when a step fails. -/
abbrev Compile := ExceptT CompileError (StateM Compilation)

namespace Compilation

/-- Adds an input field, which is null where its slot holds null. -/
def addInput (c : Compilation) (name : String) (type : SqlType) : Slot × Compilation :=
  let (slot, b) := c.builder.newSlot name type.rep
  let value : Expr := .slot slot
  (slot, { c with builder := b, inputs := c.inputs ++ [⟨value.mkIsNull, value⟩] })

def addInputs (c : Compilation) : List (String × SqlType) → List Slot × Compilation
  | [] => ([], c)
  | (name, type) :: rest =>
    let (slot, c) := c.addInput name type
    let (slots, c) := c.addInputs rest
    (slot :: slots, c)

/-- What a lowering may know about a call. -/
def site (c : Compilation) (op : Operator) (type : SqlType) (operands : List Term) : CallSite :=
  { settings := c.settings, op, type
    operands := operands.map fun t => ⟨t.type, t.literal? c.definitions⟩ }

end Compilation

def Compile.emit {α : Type} (e : Emit α) : Compile α := do
  let c ← get
  match e.run c.builder with
  | .ok (a, b) =>
    set { c with builder := b }
    return a
  | .error err => throw err

/-- The result of a step that does not touch the state. -/
def Compile.lift {α : Type} (r : Except CompileError α) : Compile α := ExceptT.mk (pure r)

namespace Term

mutual

/-- The code of a term, given the code of the shared definitions. -/
def compileWith (shared : Nat → Compile Flagged) : Term → Compile Flagged
  | .literal v t => return v.literal t
  | .input i _ => do
    match (← get).inputs[i]? with
    | some f => return f
    | none => throw (.invalidCall "input" ("no input field " ++ toString i))
  | .shared i _ => shared i
  | .call op type operands => do
    let args ← compileAllWith shared operands
    let l ← Compile.lift op.lowering
    let site := (← get).site op type operands
    Compile.emit (l.emit site args)
termination_by structural t => t

def compileAllWith (shared : Nat → Compile Flagged) : List Term → Compile (List Flagged)
  | [] => return []
  | t :: ts => do
    let f ← compileWith shared t
    return f :: (← compileAllWith shared ts)
termination_by structural ts => ts

end

/-- The code of a shared definition, through at most `depth` nested definitions. -/
def compileShared : Nat → Nat → Compile Flagged
  | 0, _ => throw (.unsupported "shared expressions that refer to themselves")
  | depth + 1, i => do
    let c ← get
    match c.done.lookup i with
    | some f => return f
    | none =>
      match c.definitions[i]? with
      | none => throw (.invalidCall "local" ("no local expression " ++ toString i))
      | some t =>
        let f ← t.compileWith (compileShared depth)
        modify fun c => { c with done := (i, f) :: c.done }
        return f

/-- The code of a term. A chain of nested definitions that is longer than the table is circular. -/
def compile (t : Term) : Compile Flagged := do
  t.compileWith (compileShared ((← get).definitions.length + 1))

end Term

/-- Compiles a term; the emitted code is kept also when it fails. -/
def Compilation.add (c : Compilation) (t : Term) : Except CompileError Flagged × Compilation :=
  t.compile.run.run c

def Compilation.addAll (c : Compilation) : List Term → List (Except CompileError Flagged) × Compilation
  | [] => ([], c)
  | t :: ts =>
    let (r, c) := c.add t
    let (rs, c) := c.addAll ts
    (r :: rs, c)

end SqlCode
