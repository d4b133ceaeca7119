import SqlCode.Regex.Pattern
import SqlCode.Regex.Template
import SqlCode.Routine.Basic

/-!
# Pattern routines

LIKE, SIMILAR TO, regular expression tests and replacement.
-/

namespace SqlCode

namespace Routine

/-- The escape character argument: one character, or none if it is absent or null. -/
def escapeChar (routine : String) (args : List Value) : Except Fault (Option Char) :=
  match (args[2]? : Option Value) with
  | none | some .null => .ok none
  | some _ => do
    match (← Args.str routine args 2).toList with
    | [c] => .ok (some c)
    | _ => .error (.invalidArgument routine "escape must be a single character")

/-- The fault of a pattern that ends with its escape character. -/
def danglingEscape (routine : String) : Fault :=
  .invalidArgument routine "pattern ends with the escape character"

/-- A regular expression that is ready for searching. -/
def matcher (routine pattern : String) (ignoreCase : Bool) : Except Fault Regex.Matcher :=
  match Regex.Matcher.compile pattern ignoreCase with
  | .ok m => .ok m
  | .error e => .error (.invalidArgument routine e.message)

/-- A test of a whole text against a pattern, by the regular expression of the pattern. -/
def patternTest (routine : String) (regex? : Option Char → List Char → Option String) : Routine :=
    fun args => do
  let s ← Args.str routine args 0
  let pattern ← Args.str routine args 1
  let escape ← escapeChar routine args
  match regex? escape pattern.toList with
  | some regex => do
    let m ← matcher routine regex false
    .ok (.bool (m.isMatch s))
  | none => .error (danglingEscape routine)

def like : Routine := patternTest "like" Regex.ofLike?

def similar : Routine := patternTest "similar" Regex.ofSimilar?

/-- The text contains a match of a regular expression. -/
def posixRegex (ignoreCase : Bool) : Routine := fun args => do
  let s ← Args.str "posixRegex" args 0
  let pattern ← Args.str "posixRegex" args 1
  let m ← matcher "posixRegex" pattern ignoreCase
  .ok (.bool (m.isMatch s))

/-- REGEXP_REPLACE from a position on: all matches, or the one of a number counted from one. -/
def regexpReplace : Routine := fun args => do
  let routine := "regexpReplace"
  let s ← Args.str routine args 0
  let pattern ← Args.str routine args 1
  let template ← Args.str routine args 2
  let position ← Args.wordOr routine args 3 1
  let occurrence ← Args.wordOr routine args 4 0
  let ignoreCase ← if 5 < args.length then
      (Args.str routine args 5).map fun m => m.toList.contains 'i'
    else .ok false
  if position.toInt < 1 then
    .error (.invalidArgument routine "position must be at least 1")
  else if position.toInt > s.length then .ok (.str s)
  else do
    let start := (position.toInt - 1).toNat
    let m ← matcher routine pattern ignoreCase
    let tail := String.ofList (s.toList.drop start)
    let replaced :=
      if occurrence.toInt ≤ 0 then m.replaceAll template tail
      else m.replaceNth template tail (occurrence.toInt - 1).toNat
    .ok (.str (String.ofList (s.toList.take start) ++ replaced))

def patterns : List (String × Routine) :=
  [("like", like), ("similar", similar), ("posixRegexCaseSensitive", posixRegex false),
   ("posixRegexCaseInsensitive", posixRegex true), ("regexpReplace", regexpReplace)]

end Routine

end SqlCode
