import SqlCode.Term.Operator

/-!
# Terms

Typed scalar expressions of a query: literals, fields of the input row, references to shared
definitions, and calls.
-/

namespace SqlCode

inductive Term
  | literal (value : Value) (type : SqlType)
  /-- A field of the input row. -/
  | input (index : Nat) (type : SqlType)
  /-- A shared definition. -/
  | shared (index : Nat) (type : SqlType)
  | call (op : Operator) (type : SqlType) (operands : List Term)

namespace Term

instance : Inhabited Term := ⟨.literal .null (.plain .null true)⟩

def type : Term → SqlType
  | .literal _ t | .input _ t | .shared _ t | .call _ t _ => t

def null (t : SqlType) : Term := .literal .null (t.withNullable true)

def symbol (s : Symbol) : Term := .literal (.symbol s) (.plain .symbol false)

/-- The term that a chain of references to shared definitions ends in. Each definition is followed once:
a chain that is longer than the table runs in a circle. -/
def resolve (definitions : List Term) (t : Term) : Term :=
  go definitions.length t
where
  go : Nat → Term → Term
    | 0, t => t
    | n + 1, .shared i type =>
      match definitions[i]? with
      | some t => go n t
      | none => .shared i type
    | _ + 1, t => t

/-- The value of a term that is a literal, directly or through shared definitions. -/
def literal? (definitions : List Term) (t : Term) : Option Value :=
  match t.resolve definitions with
  | .literal v _ => some v
  | _ => none

end Term

end SqlCode
