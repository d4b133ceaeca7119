import SqlCode.Regex.CharSet
import SqlCode.Text.Age
import SqlCode.Text.ScriptExtension
import SqlCode.Text.Segment

/-!
# Character properties by name

The properties that patterns refer to by name. A name alone stands for a trait, a general category
or a script; a name with a value stands for a category, a script, a script extension, an age or a
class for cutting text.
-/

namespace SqlCode

namespace Regex

namespace Property

/-- The letters of a name in small form. Blanks, hyphens and underscores do not count. -/
def letters (cs : List Char) : List Char :=
  (cs.filter fun c => CharClass.isAscii c && c ≠ ' ' && c ≠ '_' && c ≠ '-').map Char.toLower

/-- Names are compared without case and separators, and a leading `is` does not count; only of
`isc` it is a part. -/
def normalize (name : String) : String :=
  let cs := name.toList
  if letters (cs.take 2) = ['i', 's'] then
    let rest := letters (cs.drop 2)
    if rest = ['c'] then "isc" else String.ofList rest
  else String.ofList (letters cs)

/-- The categories whose abbreviation starts with a letter. -/
def group (letter : Char) : List Category :=
  (Category.all.filter fun c => c.2.1.toList.head? == some letter).map (·.1)

/-- The groups of categories. -/
def groupSet? (name : String) : Option CodePoints :=
  match name with
  | "c" | "other" => some (CodePoints.union (Trait.ofCategories (group 'c')) Trait.unassigned)
  | "l" | "letter" => some (Trait.ofCategories (group 'l'))
  | "lc" | "casedletter" =>
    some (Trait.ofCategories [.uppercaseLetter, .lowercaseLetter, .titlecaseLetter])
  | "m" | "mark" | "combiningmark" => some (Trait.ofCategories (group 'm'))
  | "n" | "number" => some (Trait.ofCategories (group 'n'))
  | "p" | "punctuation" | "punct" => some (Trait.ofCategories (group 'p'))
  | "s" | "symbol" => some (Trait.ofCategories (group 's'))
  | "z" | "separator" => some (Trait.ofCategories (group 'z'))
  | "cn" | "unassigned" => some Trait.unassigned
  | "assigned" => some (CodePoints.compl Trait.unassigned)
  | "any" => some [(0, CodePoints.last)]
  | "ascii" => some [(0, 0x7f)]
  | "cntrl" => some Category.control.codePoints
  | "digit" => some Category.decimalNumber.codePoints
  | _ => none

/-- The set of a general category. No character is a surrogate, and that category has no set. -/
def category? (name : String) : Option CodePoints :=
  match Category.all.find? fun c => c.2.1 == name || c.2.2 == name with
  | some (.surrogate, _) => none
  | some c => some c.1.codePoints
  | none => groupSet? name

def set? (name : String) : Option CharSet :=
  let name := normalize name
  let found : Option CodePoints :=
    match Trait.ofName? name with
    | some t => some t.codePoints
    | none => category? name <|> Script.codePoints? name
  found.map CharSet.mk

def valueSet? (property value : String) : Option CharSet :=
  let value := normalize value
  let found : Option CodePoints :=
    match normalize property with
    | "generalcategory" | "gc" => category? value
    | "script" | "sc" => Script.codePoints? value
    | "scriptextensions" | "scx" => ScriptExtension.codePoints? value
    | "age" => Age.codePoints? value
    | "graphemeclusterbreak" | "gcb" => Segment.grapheme? value
    | "wordbreak" | "wb" => Segment.word? value
    | "sentencebreak" | "sb" => Segment.sentence? value
    | _ => none
  found.map CharSet.mk

end Property

end Regex

end SqlCode
