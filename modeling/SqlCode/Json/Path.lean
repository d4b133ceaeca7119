import SqlCode.Text.CharClass
import SqlCode.Text.Visible

/-!
# JSON paths

A path starts at the root `$` and takes steps: to the member of a name, to all members, to the
element at an index, to all elements. In strict mode a step that finds nothing fails.

`Path.parse?` reads `[lax|strict] $ (.name | ."name" | .* | [n] | [*] | ['name'] | ["name"])*`, with
white space between steps and inside brackets.
-/

namespace SqlCode

namespace Json

inductive Step
  | member (name : String)
  | anyMember
  | index (i : Nat)
  | anyIndex
deriving DecidableEq, Repr

/-- The step as error texts show it. -/
def Step.text : Step → String
  | .member name => "Member(" ++ Visible.quote name ++ ")"
  | .anyMember => "AnyMember"
  | .index i => "Index(" ++ i.repr ++ ")"
  | .anyIndex => "AnyIndex"

/-- The step selects everything on its level, and may select nothing. -/
def Step.isWildcard : Step → Bool
  | .anyMember | .anyIndex => true
  | _ => false

structure Path where
  strict : Bool
  steps : List Step
deriving DecidableEq, Repr

namespace Path

/-- The characters of a name that needs no quotes. -/
def isNameChar (c : Char) : Bool := CharClass.isAlphanumeric c || c == '_' || c == '$'

/-- The name up to the next `quote`. -/
def quoted? (quote : Char) (cs : List Char) : Option (String × List Char) :=
  match cs.span (· ≠ quote) with
  | (_, []) => none
  | (name, _ :: rest) => some (String.ofList name, rest)

def dotStep? : List Char → Option (Step × List Char)
  | '*' :: cs => some (.anyMember, cs)
  | '"' :: cs => (quoted? '"' cs).map fun r => (.member r.1, r.2)
  | cs =>
    match cs.span isNameChar with
    | ([], _) => none
    | (name, rest) => some (.member (String.ofList name), rest)

def indexLimit : Nat := pow2 64 - 1

/-- The step inside brackets, without the blanks around it. -/
def bracketBody? : List Char → Option (Step × List Char)
  | '*' :: cs => some (.anyIndex, cs)
  | '\'' :: cs => (quoted? '\'' cs).map fun r => (.member r.1, r.2)
  | '"' :: cs => (quoted? '"' cs).map fun r => (.member r.1, r.2)
  | cs =>
    let (digits, rest) := cs.span Char.isDigit
    match Numeral.nat? digits with
    | some n => if n ≤ indexLimit then some (.index n, rest) else none
    | none => none

/-- The step after an opening bracket, through the closing one. -/
def bracketStep? (cs : List Char) : Option (Step × List Char) := do
  let (step, rest) ← bracketBody? (Blank.trimLeft cs)
  match Blank.trimLeft rest with
  | ']' :: rest => some (step, rest)
  | _ => none

/-- The steps of a text; each round consumes a character, so its length is enough `fuel`. -/
def steps? (fuel : Nat) (cs : List Char) : Option (List Step) :=
  match fuel, cs with
  | _, [] => some []
  | 0, _ :: _ => none
  | fuel + 1, c :: cs =>
    if CharClass.isWhiteSpace c then steps? fuel cs
    else
      let step? : Option (Step × List Char) :=
        if c = '.' then dotStep? cs else if c = '[' then bracketStep? cs else none
      match step? with
      | none => none
      | some (step, rest) => (steps? fuel rest).map (step :: ·)

/-- Equality of ASCII words up to case. -/
def isWord (word : String) (cs : List Char) : Bool := cs.map Char.toLower == word.toList

/-- Splits off a mode word. Without one the mode is lax. -/
def splitMode (cs : List Char) : Bool × List Char :=
  match cs.span fun c => !CharClass.isWhiteSpace c with
  | (_, []) => (false, cs)
  | (mode, _ :: rest) =>
    if isWord "strict" mode then (true, Blank.trimLeft rest)
    else if isWord "lax" mode then (false, Blank.trimLeft rest)
    else (false, cs)

def parse? (s : String) : Option Path :=
  match splitMode (Blank.trim s.toList) with
  | (strict, '$' :: cs) => (steps? cs.length cs).map fun steps => ⟨strict, steps⟩
  | _ => none

end Path

end Json

end SqlCode
