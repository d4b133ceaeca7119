import SqlCode.Json.Basic

/-!
# JSON text

`Json.text` writes a document without blanks; `Json.pretty` puts each element and member on a
line of its own, indented by two spaces for each level.
-/

namespace SqlCode

namespace Json

/-- A character inside a JSON string. Only quotes, backslashes and control characters are
escaped. -/
def escapeChar (c : Char) : String :=
  match c with
  | '"' => "\\\""
  | '\\' => "\\\\"
  | '\n' => "\\n"
  | '\r' => "\\r"
  | '\t' => "\\t"
  | c =>
    if c.toNat = 8 then "\\b"
    else if c.toNat = 12 then "\\f"
    else if c.toNat < 32 then "\\u" ++ Numeral.hex 4 c.toNat
    else String.singleton c

def quote (s : String) : String := "\"" ++ String.join (s.toList.map escapeChar) ++ "\""

mutual

/-- The text of a document without blanks. -/
def text : Json → String
  | .null => "null"
  | .bool b => if b then "true" else "false"
  | .int n => n.repr
  | .float x => Double.jsonText x
  | .str s => quote s
  | .arr items => "[" ++ ",".intercalate (texts items) ++ "]"
  | .obj members => "\x7b" ++ ",".intercalate (memberTexts members) ++ "\x7d"
termination_by structural j => j

@[inherit_doc text]
def texts : List Json → List String
  | [] => []
  | j :: js => text j :: texts js
termination_by structural js => js

@[inherit_doc text]
def memberTexts : List (String × Json) → List String
  | [] => []
  | m :: ms => memberText m :: memberTexts ms
termination_by structural ms => ms

@[inherit_doc text]
def memberText : String × Json → String
  | (name, j) => quote name ++ ":" ++ text j
termination_by structural m => m

end

/-- The parts of a non-empty container on lines of their own. -/
def block (open_ close indent : String) (parts : List String) : String :=
  let inner := indent ++ "  "
  open_ ++ "\n" ++ inner ++ (",\n" ++ inner).intercalate parts ++ "\n" ++ indent ++ close

mutual

/-- The text of a document on several lines, the first one not indented. -/
def prettyAt (indent : String) : Json → String
  | .arr [] => "[]"
  | .obj [] => "\x7b\x7d"
  | .arr items => block "[" "]" indent (prettyItems (indent ++ "  ") items)
  | .obj members => block "\x7b" "\x7d" indent (prettyMembers (indent ++ "  ") members)
  | j => text j
termination_by structural j => j

@[inherit_doc prettyAt]
def prettyItems (indent : String) : List Json → List String
  | [] => []
  | j :: js => prettyAt indent j :: prettyItems indent js
termination_by structural js => js

@[inherit_doc prettyAt]
def prettyMembers (indent : String) : List (String × Json) → List String
  | [] => []
  | m :: ms => prettyMember indent m :: prettyMembers indent ms
termination_by structural ms => ms

@[inherit_doc prettyAt]
def prettyMember (indent : String) : String × Json → String
  | (name, j) => quote name ++ ": " ++ prettyAt indent j
termination_by structural m => m

end

def pretty (j : Json) : String := prettyAt "" j

end Json

end SqlCode
