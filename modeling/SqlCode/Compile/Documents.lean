import SqlCode.Compile.Emit

/-!
# JSON_VALUE

The clauses of JSON_VALUE follow the document and the path as a flat list: a behavior, or DEFAULT and a
value, and then the event that it is for.
-/

namespace SqlCode

/-- What to do on an event: a behavior, and the value that goes with DEFAULT. -/
structure EventClause where
  behavior : Expr := .null .object
  default : Expr := .null .object

/-- The clauses for both events. -/
structure EventClauses where
  onEmpty : EventClause := {}
  onError : EventClause := {}

namespace EventClauses

def set (cs : EventClauses) (event : OnClause) (c : EventClause) : EventClauses :=
  match event with
  | .empty => { cs with onEmpty := c }
  | .error => { cs with onError := c }

def isDefault (e : Expr) : Bool :=
  match e.symbol? with
  | some (.jsonValueBehavior .default) => true
  | _ => false

/-- The clause that the operands before an event make, the nearest one first. -/
def clause? (before : List Expr) : Option EventClause :=
  match before with
  | [] => none
  | previous :: second :: _ =>
    if isDefault second then some ⟨second, previous.box⟩ else some { behavior := previous }
  | [previous] => some { behavior := previous }

/-- Reads clauses from left to right; the last clause for an event counts. -/
def read (cs : EventClauses) (before : List Expr) : List Expr → Except CompileError EventClauses
  | [] => .ok cs
  | e :: rest =>
    match e.symbol? with
    | some (.jsonEmptyOrError event) =>
      match clause? before with
      | some c => read (cs.set event c) (e :: before) rest
      | none => .error (.invalidCall "JSON_VALUE" "clause without a behavior")
    | _ => read cs (e :: before) rest

end EventClauses

/-- JSON_VALUE: the scalar that a path selects. -/
def CallSite.jsonValue (site : CallSite) (args : List Expr) : Except CompileError Expr :=
  match args with
  | document :: path :: rest => do
    let cs ← EventClauses.read {} [] rest
    return (Expr.call "jsonValue"
      [document, path, cs.onEmpty.behavior, cs.onEmpty.default, cs.onError.behavior,
        cs.onError.default] .object).mkConvert site.rep
  | _ => .error (.invalidCall "JSON_VALUE" "expected a document and a path")

end SqlCode
