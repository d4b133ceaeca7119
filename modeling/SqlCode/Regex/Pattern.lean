import SqlCode.Regex.Search

/-!
# LIKE and SIMILAR TO patterns

Both kinds of patterns are regular expressions in which `%` is any run of characters and `_` any one
character. In SIMILAR TO alternation, grouping, repetition and brackets keep their meaning. Every
other character stands for itself.
-/

namespace SqlCode

namespace Regex

/-- A character that stands for itself in a regular expression. -/
def literal (c : Char) : List Char := if Parser.isMeta c then ['\\', c] else [c]

/-- The regular expression of an unescaped character; some characters keep their meaning. -/
def item (keeps : Char → Bool) (c : Char) : List Char :=
  if c = '%' then ['.', '*']
  else if c = '_' then ['.']
  else if keeps c then [c]
  else literal c

/-- The regular expression of a pattern; none if it ends with an escape character that escapes
nothing. -/
def body? (keeps : Char → Bool) (escape : Option Char) : List Char → Option (List Char)
  | [] => some []
  | [c] => if escape = some c then none else some (item keeps c)
  | c :: d :: cs =>
    if escape = some c then (body? keeps escape cs).map (literal d ++ ·)
    else (body? keeps escape (d :: cs)).map (item keeps c ++ ·)

/-- The regular expression that matches the whole of a text that is LIKE the pattern. -/
def ofLike? (escape : Option Char) (pattern : List Char) : Option String :=
  (body? (fun _ => false) escape pattern).map fun cs => "^" ++ String.ofList cs ++ "$"

/-- The characters that keep their meaning in SIMILAR TO. -/
def isOperator (c : Char) : Bool := "|*+?\x7b\x7d()[]".toList.contains c

/-- The regular expression that matches the whole of a text that is SIMILAR TO the pattern. -/
def ofSimilar? (escape : Option Char) (pattern : List Char) : Option String :=
  (body? isOperator escape pattern).map fun cs => "^(?:" ++ String.ofList cs ++ ")$"

end Regex

end SqlCode
