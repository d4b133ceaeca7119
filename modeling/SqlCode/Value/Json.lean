import SqlCode.Bytes.Hex
import SqlCode.Bytes.Utf8
import SqlCode.Json.Printer
import SqlCode.Number.DecimalText
import SqlCode.Value.Basic

/-!
# Values as texts and as JSON

`Value.text` is the text SQL shows for a value; collections show as JSON. `Value.toJson` and
`Value.ofJson` convert between values and documents.
-/

namespace SqlCode

namespace Value

/-- A decimal as a number: an integer if it is one and fits a word, else the nearest double. -/
def decimalJson (d : Decimal) : Json :=
  match d.toWord? with
  | some n => if d.isInteger then .int n.toInt else .ofFloat d.toFloat
  | none => .ofFloat d.toFloat

/-- The text of a value that is not a collection. -/
def scalarText : Value → String
  | .null => "NULL"
  | .bool b => if b then "TRUE" else "FALSE"
  | .int n => n.toInt.repr
  | .float x => Double.text x
  | .decimal d => d.text
  | .str s => s
  | .bytes bs => Hex.encode bs
  | .symbol s => s.text
  | .list _ | .map _ => ""

mutual

/-- The document of a value. Decimals become numbers, bytes texts and symbols their texts. -/
def toJson : Value → Json
  | .null => .null
  | .bool b => .bool b
  | .int n => .int n.toInt
  | .float x => .ofFloat x
  | .decimal d => decimalJson d
  | .str s => .str s
  | .bytes bs => .str (Utf8.decode bs)
  | .list items => .arr (toJsonItems items)
  | .map entries => .obj (Json.insertAll [] (toJsonMembers entries))
  | .symbol s => .str s.text
termination_by structural v => v

@[inherit_doc toJson]
def toJsonItems : List Value → List Json
  | [] => []
  | v :: vs => toJson v :: toJsonItems vs
termination_by structural vs => vs

/-- The members of a map, named by the texts of their keys. -/
def toJsonMembers : List (Value × Value) → List (String × Json)
  | [] => []
  | e :: es => toJsonMember e :: toJsonMembers es
termination_by structural es => es

@[inherit_doc toJsonMembers]
def toJsonMember : Value × Value → String × Json
  | (k, v) => (text k, toJson v)
termination_by structural e => e

/-- The text that SQL shows for a value. -/
def text : Value → String
  | .list items => Json.text (.arr (toJsonItems items))
  | .map entries => Json.text (.obj (Json.insertAll [] (toJsonMembers entries)))
  | v => scalarText v
termination_by structural v => v

end

mutual

/-- The value of a document. An integer that does not fit a word becomes a double. -/
def ofJson : Json → Value
  | .null => .null
  | .bool b => .bool b
  | .int n =>
    match Word.ofInt? n with
    | some w => .int w
    | none => .float (Double.ofInt n)
  | .float x => .float x
  | .str s => .str s
  | .arr items => .list (ofJsonItems items)
  | .obj members => mapOf (ofJsonMembers members)
termination_by structural j => j

@[inherit_doc ofJson]
def ofJsonItems : List Json → List Value
  | [] => []
  | j :: js => ofJson j :: ofJsonItems js
termination_by structural js => js

@[inherit_doc ofJson]
def ofJsonMembers : List (String × Json) → List (Value × Value)
  | [] => []
  | m :: ms => ofJsonMember m :: ofJsonMembers ms
termination_by structural ms => ms

@[inherit_doc ofJson]
def ofJsonMember : String × Json → Value × Value
  | (name, j) => (.str name, ofJson j)
termination_by structural m => m

end

end Value

end SqlCode
