import SqlCode.Code.Simplify
import SqlCode.Fault

/-!
# Blocks and flagged expressions

The code of a term is a block of statements that is run first, and a pair of expressions: a test that
says whether the result is null, and its value, which means something only while the test is false.
-/

namespace SqlCode

/-- A statement. `declare` introduces a variable that is written once; `invoke` changes the
container that its target holds. -/
inductive Stmt
  | declare (slot : Slot) (init : Expr)
  | assign (target : Slot) (value : Expr)
  | invoke (target : Slot) (routine : String) (args : List Expr)
  | ite (test : Expr) (thenBlock elseBlock : List Stmt)
  | throw (fault : Fault)

/-- Statements that are run one after the other. -/
abbrev Block := List Stmt

namespace Stmt

/-- A block that is run if a test holds. -/
def when (test : Expr) (block : Block) : Stmt := .ite test block []

mutual

/-- The number of nodes of the expressions of a statement or block. -/
def size : Stmt → Nat
  | .declare _ e | .assign _ e => e.size
  | .invoke _ _ args => Expr.sizeList args
  | .ite t a b => t.size + sizeBlock a + sizeBlock b
  | .throw _ => 0
termination_by structural s => s

@[inherit_doc size]
def sizeBlock : List Stmt → Nat
  | [] => 0
  | s :: ss => size s + sizeBlock ss
termination_by structural ss => ss

end

end Stmt

/-- A value with its null test. -/
structure Flagged where
  isNull : Expr
  value : Expr

namespace Flagged

instance : Inhabited Flagged := ⟨⟨Expr.bool true, Expr.null .object⟩⟩

/-- A constant; its null test is known. -/
def constant (v : Value) (r : Rep) : Flagged := ⟨Expr.bool v.isNull, .const v r⟩

/-- The representation of the value. -/
def rep (f : Flagged) : Rep := f.value.rep

end Flagged

end SqlCode
