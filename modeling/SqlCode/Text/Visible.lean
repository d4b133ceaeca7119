import SqlCode.Text.CharClass

/-!
# Quoted text with visible characters only

Error texts quote names so that every character can be seen: characters that do not print on
their own are written by their code point.
-/

namespace SqlCode

namespace Visible

/-- Categories of characters that do not print. -/
def hidden : List Category :=
  [.control, .format, .surrogate, .privateUse, .lineSeparator, .paragraphSeparator,
   .spaceSeparator]

/-- The character has a category, prints, and does not combine with the one before. -/
def isVisible (c : Char) : Bool :=
  if CharClass.isAscii c then 32 ≤ c.toNat && c.toNat < 127
  else
    match Category.ranges.find? fun k => k.2.contains c.toNat with
    | none => Recent.characters.contains c.toNat && !Recent.extenders.contains c.toNat
    | some (k, _) => !hidden.contains k && !Trait.extenders.contains c.toNat

/-- A character inside quotes. -/
def escape (c : Char) : String :=
  match c with
  | '"' => "\\\""
  | '\\' => "\\\\"
  | '\n' => "\\n"
  | '\r' => "\\r"
  | '\t' => "\\t"
  | c =>
    if c.toNat = 0 then "\\0"
    else if isVisible c then String.singleton c
    else "\\u\x7b" ++ String.ofList (Nat.toDigits 16 c.toNat) ++ "\x7d"

def quote (s : String) : String := "\"" ++ String.join (s.toList.map escape) ++ "\""

end Visible

end SqlCode
