import SqlCode.Term.Lowering

/-!
# Operators

The operator of a call: a built-in one, a user-defined function, or the constructor of a structured
type.
-/

namespace SqlCode

/-- A function from outside the catalog. Without a lowering its calls cannot be compiled. -/
structure UserFunction where
  name : String
  lowering : Option Lowering := none

inductive Operator
  | builtin (b : Builtin)
  | scalar (f : UserFunction)
  /-- A table function. -/
  | table (f : UserFunction)
  /-- A table function that is expanded in place. -/
  | tableExpansion (f : UserFunction)
  /-- The constructor of a structured type, which makes a row. -/
  | construct (typeName : String)

namespace Operator

def name : Operator → String
  | .builtin b => b.sqlName
  | .scalar f | .table f | .tableExpansion f => f.name
  | .construct n => n

/-- The name with the kind of the operator. -/
def description : Operator → String
  | .builtin b => b.sqlName
  | .scalar f => "UserDefined(" ++ f.name ++ ")"
  | .table f => "TableFunction(" ++ f.name ++ ")"
  | .tableExpansion f => "TableMacro(" ++ f.name ++ ")"
  | .construct n => "TypeConstructor(" ++ n ++ ")"

def builtin? : Operator → Option Builtin
  | .builtin b => some b
  | _ => none

/-- Calls give a table, which already has its shape. -/
def isTable : Operator → Bool
  | .table _ | .tableExpansion _ => true
  | _ => false

end Operator

end SqlCode
