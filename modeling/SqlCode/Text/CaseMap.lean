import SqlCode.Text.CharClass

/-!
# Case mapping and case folding

Full upper and lower case of texts, in which one character may become several and a capital
sigma at the end of a word has its own lower case, and the sets of characters that patterns mean
when they ignore case.
-/

namespace SqlCode

namespace CaseMap

def upperRuns : List CodeRun := CaseTable.upper ++ Recent.upper

def lowerRuns : List CodeRun := CaseTable.lower ++ Recent.lower

def upperChar (c : Char) : List Char :=
  if CharClass.isAscii c then [c.toUpper]
  else (CodeRun.lookup upperRuns c.toNat).map Char.ofNat

def lowerChar (c : Char) : List Char :=
  if CharClass.isAscii c then [c.toLower]
  else (CodeRun.lookup lowerRuns c.toNat).map Char.ofNat

/-- The first character that is not skipped has case. -/
def startsCased (cs : List Char) : Bool :=
  match cs.dropWhile CharClass.isCaseIgnorable with
  | c :: _ => CharClass.isCased c
  | [] => false

/-- Lower case of the characters `cs` that follow the characters `before`, which are given in
reverse. A capital sigma after a cased and not before a cased character ends a word. -/
def lowerAfter (before : List Char) : List Char → List Char
  | [] => []
  | c :: cs =>
    let image :=
      if c = 'Σ' then [if startsCased before && !startsCased cs then 'ς' else 'σ']
      else lowerChar c
    image ++ lowerAfter (c :: before) cs

def upper (s : String) : String := String.ofList (s.toList.flatMap upperChar)

def lower (s : String) : String := String.ofList (lowerAfter [] s.toList)

/-- Capitalizes the first character of each word and lowers the others; words are runs of
letters and numerals. -/
def capitalizeFrom (wordStart : Bool) : List Char → List Char
  | [] => []
  | c :: cs =>
    if CharClass.isAlphanumeric c then
      (if wordStart then upperChar c else lowerChar c) ++ capitalizeFrom false cs
    else c :: capitalizeFrom true cs

@[inherit_doc capitalizeFrom]
def capitalize (s : String) : String := String.ofList (capitalizeFrom true s.toList)

/-- The set closed under case: every code point with the folding of a member is a member. -/
def closeUnderCase (s : CodePoints) : CodePoints :=
  let folded := CodePoints.union s (CodePoints.unions (CaseTable.fold.map (·.imageSet s)))
  CodePoints.union folded (CodePoints.unions (CaseTable.fold.map (·.preimageSet folded)))

end CaseMap

end SqlCode
