import SqlCode.SqlType.Basic

/-!
# Common types

`SqlType.common?` is the narrowest type that a list of types converts to without loss. Types of
the name NULL only make the result admit null, and ANY absorbs everything.
-/

namespace SqlCode

/-- The wider of two numeric types; of equally wide ones the second. -/
def TypeName.wider (a b : TypeName) : TypeName := if a.numericRank ≤ b.numericRank then b else a

/-- The family type of names that are not all equal. -/
def TypeName.commonOf? (names : List TypeName) : Option TypeName :=
  match names with
  | [] => none
  | first :: rest =>
    if names.all isNumeric then some (rest.foldl wider first)
    else if names.all isCharacter then
      some (if names.all (· == .char) then .char else .varchar)
    else if names.all isBinary then some .varBinary
    else if names.all isYearMonthInterval then some .intervalYearMonth
    else if names.all isDayTimeInterval then some .intervalDaySecond
    else if names.all fun n => n == .date || n == .timestamp then some .timestamp
    else none

def SqlType.anyNullable (ts : List SqlType) : Bool := ts.any fun t => t.nullable || t.name == .null

/-- The narrowest type every type of the list converts to, if they share a family. -/
def SqlType.common? (ts : List SqlType) : Option SqlType :=
  let nullable := anyNullable ts
  match ts.filter fun t => t.name != .null with
  | [] => ts.head?.map (·.withNullable true)
  | first :: rest =>
    if (first :: rest).any fun t => t.name == .any then some (plain .any nullable)
    else if (first :: rest).all fun t => t.sameUpToNull first then
      some (first.withNullable nullable)
    else
      (TypeName.commonOf? ((first :: rest).map (·.name))).map fun n => plain n nullable

end SqlCode
