import SqlCode.Json.Parser
import SqlCode.Json.Select
import SqlCode.Routine.Basic

/-!
# JSON routines

Documents travel as texts; a value that is not a text stands for its own document. What happens
on an empty or failed selection is chosen by flags among the arguments.
-/

namespace SqlCode

namespace Document

def parse (routine : String) : Value → Except Fault Json
  | .str s =>
    match Json.parse? s with
    | some j => .ok j
    | none => .error (.invalidJson routine)
  | v => .ok v.toJson

def arg (routine : String) (args : List Value) : Except Fault Json := do
  parse routine (← Args.value routine args 0)

def path (routine : String) (args : List Value) (i : Nat) : Except Fault Json.Path := do
  let text ← Args.str routine args i
  match Json.Path.parse? text with
  | some p => .ok p
  | none => .error (.jsonPath ("illegal jsonpath: " ++ text))

/-- The result of following a path. -/
def orNoResults {α : Type} : Except Json.Step α → Except Fault α
  | .ok a => .ok a
  | .error step => .error (.jsonPath ("no results for path step " ++ step.text))

/-- What a path selects, as one document. -/
def query (p : Json.Path) (j : Json) : Except Fault (Option Json) := orNoResults (p.query j)

/-- What the path of the second argument selects in the document of the first. -/
def selection (routine : String) (args : List Value) : Except Fault (Option Json) := do
  let j ← arg routine args
  let p ← path routine args 1
  query p j

/-- The document, or what the path of the second argument selects if there is one. -/
def target (routine : String) (args : List Value) : Except Fault (Option Json) := do
  let j ← arg routine args
  match args[1]? with
  | none | some .null => .ok (some j)
  | some _ => do
    let p ← path routine args 1
    query p j

/-- The document of the first argument if it is a text that parses. -/
def parsed? (args : List Value) : Option Json :=
  match args.head? with
  | some (.str s) => Json.parse? s
  | _ => none

/-- The null clause that a value carries; nulls are kept if it carries none. -/
def nullClause : Option Value → NullClause
  | some (.symbol (.jsonNullClause c)) => c
  | _ => .nullOnNull

/-- A null value that is to be left out. -/
def isAbsent (clause : NullClause) (v : Value) : Bool := v.isNull && clause == .absentOnNull

/-- A flag argument; null and absence are no flag. -/
def flag (routine : String) (args : List Value) (i : Nat) : Except Fault (Option Symbol) :=
  match args[i]? with
  | none | some .null => .ok none
  | some (.symbol s) => .ok (some s)
  | some v => .error (.expected routine "a flag" v)

def kindName : Json → String
  | .obj _ => "OBJECT"
  | .arr _ => "ARRAY"
  | .int _ => "INTEGER"
  | .float _ => "DOUBLE"
  | .str _ => "STRING"
  | .bool _ => "BOOLEAN"
  | .null => "NULL"

end Document

namespace Routine

/-- A text in canonical form if it is a document, else as it is. -/
def jsonValueExpression : Routine := fun args => do
  let s ← Args.str "jsonValueExpression" args 0
  .ok (.str (((Json.parse? s).map Json.text).getD s))

def valueBehavior (args : List Value) (i : Nat) : Except Fault ValueBehavior := do
  match ← Document.flag "jsonValue" args i with
  | none => .ok .null
  | some (.jsonValueBehavior b) => .ok b
  | some s => .error (.invalidArgument "jsonValue" ("unexpected flag " ++ s.text))

/-- The outcome of an event: the behavior is argument `i` and its default argument `i + 1`. -/
def onValueEvent (args : List Value) (i : Nat) (fault : Fault) : Except Fault Value := do
  match ← valueBehavior args i with
  | .error => .error fault
  | .null => .ok .null
  | .default => .ok (args[i + 1]?.getD .null)

/-- JSON_VALUE of a document and a path, with behavior and default on empty and on error. -/
def jsonValue : Routine := fun args =>
  match Document.selection "jsonValue" args with
  | .error fault => onValueEvent args 4 fault
  | .ok none | .ok (some .null) =>
    onValueEvent args 2 (.jsonPath "empty result of JSON_VALUE is not allowed")
  | .ok (some item) =>
    if item.isScalar then .ok (Value.ofJson item)
    else onValueEvent args 4 (.jsonPath ("JSON_VALUE requires a scalar value, got " ++ item.text))

/-- JSON_EXISTS of a document and a path; errors answer false unless a flag says otherwise. -/
def jsonExists : Routine := fun args =>
  let outcome : Except Fault Bool := do
    let j ← Document.arg "jsonExists" args
    let p ← Document.path "jsonExists" args 1
    let found ← Document.orNoResults (p.select j)
    .ok !found.isEmpty
  match outcome with
  | .ok found => .ok (.bool found)
  | .error fault => do
    match ← Document.flag "jsonExists" args 2 with
    | some (.jsonExistsBehavior .true) => .ok (.bool true)
    | some (.jsonExistsBehavior .unknown) => .ok .null
    | some (.jsonExistsBehavior .error) => .error fault
    | _ => .ok (.bool false)

/-- The outcome of an event in JSON_QUERY. -/
def onQueryEvent (args : List Value) (i : Nat) (fault : Fault) : Except Fault Value :=
  match Document.flag "jsonQuery" args i with
  | .ok (some (.jsonQueryBehavior .error)) => .error fault
  | .ok (some (.jsonQueryBehavior .emptyArray)) => .ok (.str "[]")
  | .ok (some (.jsonQueryBehavior .emptyObject)) => .ok (.str "\x7b\x7d")
  | _ => .ok .null

/-- The selection wrapped as asked; none for a scalar that may not be wrapped. -/
def wrapped? (wrapper : QueryWrapper) (item : Json) : Option Json :=
  match wrapper with
  | .withoutArray => if item.isScalar then none else some item
  | .withConditionalArray => some (if item.isScalar then .arr [item] else item)
  | .withUnconditionalArray => some (.arr [item])

/-- JSON_QUERY of a document and a path, with wrapper and behavior on empty and on error. -/
def jsonQuery : Routine := fun args => do
  let wrapper : QueryWrapper :=
    match ← Document.flag "jsonQuery" args 2 with
    | some (.jsonQueryWrapper w) => w
    | _ => .withoutArray
  match Document.selection "jsonQuery" args with
  | .error fault => onQueryEvent args 4 fault
  | .ok none | .ok (some .null) =>
    onQueryEvent args 3 (.jsonPath "empty result of JSON_QUERY is not allowed")
  | .ok (some item) =>
    match wrapped? wrapper item with
    | some j => .ok (.str j.text)
    | none =>
      onQueryEvent args 4
        (.jsonPath ("JSON_QUERY requires an array or object, got " ++ item.text))

/-- A value computed from the document of the first argument. -/
def ofDocument (routine : String) (f : Json → Value) : Routine := fun args => do
  let j ← Document.arg routine args
  .ok (f j)

/-- A value computed from a document or from what a path selects in it. -/
def ofTarget (routine : String) (f : Option Json → Value) : Routine := fun args => do
  let j ← Document.target routine args
  .ok (f j)

/-- A test of a text that may be a document. -/
def isDocument (p : Json → Bool) : Routine := fun args =>
  .ok (.bool ((Document.parsed? args).any p))

/-- Removes what the paths at the given places select. -/
def removePaths (args : List Value) : List Nat → Json → Except Fault Json
  | [], j => .ok j
  | i :: is, j => do
    let p ← Document.path "jsonRemove" args i
    if p.steps.isEmpty then .error (.jsonPath "cannot remove the root item")
    else removePaths args is (p.remove j)

/-- JSON_REMOVE of one or more paths, one after the other. -/
def jsonRemove : Routine := fun args => do
  let j ← Document.arg "jsonRemove" args
  if args.length < 2 then
    .error (.invalidArgument "jsonRemove" "expected at least one path")
  else do
    let j ← removePaths args (List.range' 1 (args.length - 1)) j
    .ok (.str j.text)

/-- The members of an object from keys and values in turn. -/
def objectMembers (clause : NullClause) :
    List Value → List (String × Json) → Except Fault (List (String × Json))
  | key :: v :: rest, members =>
    if Document.isAbsent clause v then objectMembers clause rest members
    else if key.isNull then .error (.invalidArgument "jsonObject" "null key")
    else objectMembers clause rest (Json.insert members key.text v.toJson)
  | _, members => .ok members

/-- JSON_OBJECT of a null clause, keys and values. -/
def jsonObject : Routine := fun args =>
  let pairs := args.drop 1
  if pairs.length % 2 ≠ 0 then
    .error (.invalidArgument "jsonObject" "keys and values must pair up")
  else do
    let members ← objectMembers (Document.nullClause args.head?) pairs []
    .ok (.str (Json.obj members).text)

/-- JSON_ARRAY of a null clause and values. -/
def jsonArray : Routine := fun args =>
  let clause := Document.nullClause args.head?
  let items := (args.drop 1).filter fun v => !Document.isAbsent clause v
  .ok (.str (Json.arr (items.map Value.toJson)).text)

/-- The document of a value, as a text. -/
def jsonize : Routine := fun args => do
  let v ← Args.value "jsonize" args 0
  .ok (.str v.toJson.text)

def documents : List (String × Routine) :=
  [("jsonValueExpression", jsonValueExpression), ("jsonValue", jsonValue),
   ("jsonExists", jsonExists), ("jsonQuery", jsonQuery),
   ("jsonType", ofDocument "jsonType" fun j => .str (Document.kindName j)),
   ("jsonDepth", ofDocument "jsonDepth" fun
     | .null => .null
     | j => .int (Word.wrap j.depth)),
   ("jsonKeys", ofTarget "jsonKeys" fun
     | some (.obj members) => .str (Json.arr (members.map fun m => .str m.1)).text
     | _ => .null),
   ("jsonPretty", ofDocument "jsonPretty" fun j => .str j.pretty),
   ("jsonLength", ofTarget "jsonLength" fun
     | none => .null
     | some (.obj members) => .int (Word.wrap members.length)
     | some (.arr items) => .int (Word.wrap items.length)
     | some _ => .int 1),
   ("jsonRemove", jsonRemove),
   ("jsonStorageSize",
    ofDocument "jsonStorageSize" fun j => .int (Word.wrap j.text.utf8ByteSize)),
   ("jsonObject", jsonObject), ("jsonArray", jsonArray),
   ("isJsonValue", isDocument fun _ => true),
   ("isJsonObject", isDocument fun
     | .obj _ => true
     | _ => false),
   ("isJsonArray", isDocument fun
     | .arr _ => true
     | _ => false),
   ("isJsonScalar", isDocument Json.isScalar), ("jsonize", jsonize)]

end Routine

namespace Mutator

/-- Binds the key of a member, unless its value is to be left out. -/
def addMember : Mutator := fun target args => do
  let key ← Args.value "jsonObjectAggAdd" args 0
  let v ← Args.value "jsonObjectAggAdd" args 1
  if Document.isAbsent (Document.nullClause args[2]?) v then .ok target
  else if key.isNull then .error (.invalidArgument "jsonObjectAggAdd" "null key")
  else
    match target with
    | .map entries => .ok (.map (Value.insert entries key v))
    | target => .error (.invalidArgument "jsonObjectAggAdd" ("not a map: " ++ target.kindName))

/-- Adds an element, unless it is to be left out. -/
def addElement : Mutator := fun target args => do
  let v ← Args.value "jsonArrayAggAdd" args 0
  if Document.isAbsent (Document.nullClause args[1]?) v then .ok target
  else
    match target with
    | .list items => .ok (.list (items ++ [v]))
    | target => .error (.invalidArgument "jsonArrayAggAdd" ("not a list: " ++ target.kindName))

def documents : List (String × Mutator) :=
  [("jsonObjectAggAdd", addMember), ("jsonArrayAggAdd", addElement)]

end Mutator

end SqlCode
