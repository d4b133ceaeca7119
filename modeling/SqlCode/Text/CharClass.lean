import SqlCode.Text.Recent

/-!
# Character classes

Properties of characters that text functions and patterns ask for. ASCII characters are decided
by a rule; all others by their traits and general categories. Word characters are the ones of
patterns; the other classes, which text functions use, know the recent characters too.
-/

namespace SqlCode

namespace CharClass

/-- Letters and letter-like signs. -/
def letters : CodePoints := CodePoints.union Trait.letters Recent.letters

/-- Digits and numerals of every kind. -/
def numerals : CodePoints :=
  CodePoints.union (Trait.ofCategories [.decimalNumber, .letterNumber, .otherNumber])
    Recent.numerals

/-- Letters with case. -/
def casedLetters : CodePoints :=
  CodePoints.diff (CodePoints.union Trait.casedLetters Recent.casedLetters) Recent.uncasedLetters

/-- Signs that do not separate a letter from its cased neighbours. -/
def caseIgnorables : CodePoints := CodePoints.union Trait.caseIgnorables Recent.caseIgnorables

/-- Word characters: letters, marks, decimal digits, connectors and joiners. -/
def wordChars : CodePoints :=
  CodePoints.unions [Trait.letters,
    Trait.ofCategories [.nonspacingMark, .spacingMark, .enclosingMark, .decimalNumber,
      .connectorPunctuation],
    Trait.listed .joinControl]

def isAscii (c : Char) : Bool := c.toNat < 128

@[inherit_doc letters]
def isAlphabetic (c : Char) : Bool :=
  if isAscii c then c.isAlpha else letters.contains c.toNat

@[inherit_doc numerals]
def isNumeric (c : Char) : Bool :=
  if isAscii c then c.isDigit else numerals.contains c.toNat

def isAlphanumeric (c : Char) : Bool := isAlphabetic c || isNumeric c

def isWhiteSpace (c : Char) : Bool := Trait.whiteSpaces.contains c.toNat

def isDecimalDigit (c : Char) : Bool :=
  if isAscii c then c.isDigit else Category.decimalNumber.codePoints.contains c.toNat

@[inherit_doc wordChars]
def isWord (c : Char) : Bool :=
  if isAscii c then c.isAlphanum || c == '_' else wordChars.contains c.toNat

@[inherit_doc casedLetters]
def isCased (c : Char) : Bool :=
  if isAscii c then c.isAlpha else casedLetters.contains c.toNat

@[inherit_doc caseIgnorables]
def isCaseIgnorable (c : Char) : Bool := caseIgnorables.contains c.toNat

end CharClass

/-! ### White space around text -/

namespace Blank

/-- The text without white space before, after or on both sides of it. -/
def trimLeft (cs : List Char) : List Char := cs.dropWhile CharClass.isWhiteSpace

@[inherit_doc trimLeft]
def trimRight (cs : List Char) : List Char :=
  (cs.reverse.dropWhile CharClass.isWhiteSpace).reverse

@[inherit_doc trimLeft]
def trim (cs : List Char) : List Char := trimRight (trimLeft cs)

end Blank

end SqlCode
