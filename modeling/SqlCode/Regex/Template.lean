import SqlCode.Regex.Search

/-!
# Replacement templates

In a template `$1`, `$name` and `${name}` stand for groups of the match and `$$` for a dollar
sign. A reference to a group that does not exist, or took no part in the match, is empty.
-/

namespace SqlCode

namespace Regex

namespace Template

/-- A character of an unbraced reference. -/
def isNameChar (c : Char) : Bool := c.isAlphanum || c == '_'

/-- The text of the group with a name or number. -/
def reference (m : Matcher) (text : Array Char) (r : Match) (name : List Char) : List Char :=
  let digits :=
    match name with
    | '+' :: cs => cs
    | cs => cs
  let index? :=
    match Numeral.nat? digits with
    | some i => some i
    | none => m.names.lookup (String.ofList name)
  ((index?.bind (r.group? text)).getD [])

/-- The name of the reference at the start of the text after a dollar sign, and the rest. -/
def name? (cs : List Char) : Option (List Char × List Char) :=
  match cs with
  | '\x7b' :: body =>
    match body.span (· ≠ '\x7d') with
    | (name, _ :: rest) => some (name, rest)
    | (_, []) => none
  | cs =>
    match cs.span isNameChar with
    | ([], _) => none
    | r => some r

/-- The template filled in for a match. -/
def expandFrom (m : Matcher) (text : Array Char) (r : Match) : Nat → List Char → List Char
  | 0, cs => cs
  | _ + 1, [] => []
  | fuel + 1, '$' :: cs =>
    match cs with
    | '$' :: rest => '$' :: expandFrom m text r fuel rest
    | cs =>
      match name? cs with
      | some (name, rest) => reference m text r name ++ expandFrom m text r fuel rest
      | none => '$' :: expandFrom m text r fuel cs
  | fuel + 1, c :: cs => c :: expandFrom m text r fuel cs

def expand (template : String) (m : Matcher) (text : Array Char) (r : Match) : List Char :=
  expandFrom m text r template.length template.toList

end Template

namespace Matcher

/-- The text from a position on with the matches replaced. -/
def replaceFrom (m : Matcher) (template : String) (text : Array Char) :
    Nat → List Match → List Char
  | pos, [] => (text.extract pos text.size).toList
  | pos, r :: rs =>
    (text.extract pos r.start).toList ++ Template.expand template m text r ++
      replaceFrom m template text r.stop rs

def replaceAll (m : Matcher) (template s : String) : String :=
  let text := s.toList.toArray
  String.ofList (m.replaceFrom template text 0 (m.findAll text))

/-- The text with the match of the given number, counted from zero, replaced. -/
def replaceNth (m : Matcher) (template s : String) (n : Nat) : String :=
  let text := s.toList.toArray
  String.ofList (m.replaceFrom template text 0 ((m.findAll text).drop n |>.take 1))

end Matcher

end Regex

end SqlCode
