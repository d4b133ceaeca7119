import SqlCode.SqlType.Name
import SqlCode.TimeUnit

/-!
# Symbols

Flags that travel as operands: time units, the ends TRIM strips, the clauses of the JSON
functions, and type names.
-/

namespace SqlCode

/-- The ends TRIM strips. -/
inductive TrimEnds
  | both
  | leading
  | trailing
deriving DecidableEq, Repr

instance : Labeled TrimEnds := ⟨[.both, .leading, .trailing], constructorLabel⟩

def TrimEnds.stripsLeading : TrimEnds → Bool
  | .both | .leading => true
  | .trailing => false

def TrimEnds.stripsTrailing : TrimEnds → Bool
  | .both | .trailing => true
  | .leading => false

/-- Whether JSON constructors keep null members or drop them. -/
inductive NullClause
  | nullOnNull
  | absentOnNull
deriving DecidableEq, Repr

instance : Labeled NullClause := ⟨[.nullOnNull, .absentOnNull], constructorLabel⟩

/-- The event that an ON clause is about. -/
inductive OnClause
  | empty
  | error
deriving DecidableEq, Repr

instance : Labeled OnClause := ⟨[.empty, .error], constructorLabel⟩

/-- What JSON_VALUE does on an event. -/
inductive ValueBehavior
  | error
  | null
  | default
deriving DecidableEq, Repr

instance : Labeled ValueBehavior := ⟨[.error, .null, .default], constructorLabel⟩

/-- What JSON_QUERY does on an event. -/
inductive QueryBehavior
  | error
  | null
  | emptyArray
  | emptyObject
deriving DecidableEq, Repr

instance : Labeled QueryBehavior := ⟨[.error, .null, .emptyArray, .emptyObject], constructorLabel⟩

/-- Whether JSON_QUERY wraps its result in an array. -/
inductive QueryWrapper
  | withoutArray
  | withConditionalArray
  | withUnconditionalArray
deriving DecidableEq, Repr

instance : Labeled QueryWrapper := ⟨[.withoutArray, .withConditionalArray, .withUnconditionalArray], constructorLabel⟩

/-- What JSON_EXISTS answers on an error. -/
inductive ExistsBehavior
  | true
  | false
  | unknown
  | error
deriving DecidableEq, Repr

instance : Labeled ExistsBehavior := ⟨[.true, .false, .unknown, .error], constructorLabel⟩

/-- Flags that travel as operands. -/
inductive Symbol
  | timeUnit (span : TimeSpan)
  | trim (ends : TrimEnds)
  | jsonNullClause (clause : NullClause)
  | jsonEmptyOrError (event : OnClause)
  | jsonValueBehavior (behavior : ValueBehavior)
  | jsonQueryBehavior (behavior : QueryBehavior)
  | jsonQueryWrapper (wrapper : QueryWrapper)
  | jsonExistsBehavior (behavior : ExistsBehavior)
  | typeName (name : TypeName)
deriving DecidableEq, Repr

namespace Symbol

def parts : Symbol → String × String
  | .timeUnit s => ("TimeUnit", Labeled.label s)
  | .trim e => ("Trim", Labeled.label e)
  | .jsonNullClause c => ("JsonNullClause", Labeled.label c)
  | .jsonEmptyOrError e => ("JsonEmptyOrError", Labeled.label e)
  | .jsonValueBehavior b => ("JsonValueBehavior", Labeled.label b)
  | .jsonQueryBehavior b => ("JsonQueryBehavior", Labeled.label b)
  | .jsonQueryWrapper w => ("JsonQueryWrapper", Labeled.label w)
  | .jsonExistsBehavior b => ("JsonExistsBehavior", Labeled.label b)
  | .typeName t => ("TypeName", Labeled.label t)

def ofParts? (kind label : String) : Option Symbol :=
  match kind with
  | "TimeUnit" => (Labeled.ofLabel? label).map timeUnit
  | "Trim" => (Labeled.ofLabel? label).map trim
  | "JsonNullClause" => (Labeled.ofLabel? label).map jsonNullClause
  | "JsonEmptyOrError" => (Labeled.ofLabel? label).map jsonEmptyOrError
  | "JsonValueBehavior" => (Labeled.ofLabel? label).map jsonValueBehavior
  | "JsonQueryBehavior" => (Labeled.ofLabel? label).map jsonQueryBehavior
  | "JsonQueryWrapper" => (Labeled.ofLabel? label).map jsonQueryWrapper
  | "JsonExistsBehavior" => (Labeled.ofLabel? label).map jsonExistsBehavior
  | "TypeName" => (Labeled.ofLabel? label).map typeName
  | _ => none

/-- The text of a symbol, such as `TimeUnit(Year)`. -/
def text (s : Symbol) : String := s.parts.1 ++ "(" ++ s.parts.2 ++ ")"

end Symbol

end SqlCode
