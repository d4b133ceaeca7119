import SqlCode.Text.CaseMap

/-!
# Character sets of patterns

A set is given by its ranges of code points, in ascending order and apart from each other. The
sets that patterns name, and the operations that they apply to sets, are computed as ranges.
-/

namespace SqlCode

namespace Regex

/-- A set of characters. -/
structure CharSet where
  ranges : CodePoints
deriving DecidableEq, Repr

namespace CharSet

def contains (s : CharSet) (c : Char) : Bool := s.ranges.contains c.toNat

def none : CharSet := ⟨[]⟩

def any : CharSet := ⟨[(0, CodePoints.last)]⟩

def range (lo hi : Char) : CharSet := ⟨[(lo.toNat, hi.toNat)]⟩

def char (c : Char) : CharSet := range c c

def union (a b : CharSet) : CharSet := ⟨CodePoints.union a.ranges b.ranges⟩

def inter (a b : CharSet) : CharSet := ⟨CodePoints.inter a.ranges b.ranges⟩

def diff (a b : CharSet) : CharSet := ⟨CodePoints.diff a.ranges b.ranges⟩

def symDiff (a b : CharSet) : CharSet := ⟨CodePoints.symDiff a.ranges b.ranges⟩

def compl (a : CharSet) : CharSet := ⟨CodePoints.compl a.ranges⟩

def unions (sets : List CharSet) : CharSet := sets.foldl union none

/-- The set of the characters that the listed ranges cover. -/
def ofRanges (rs : List (Char × Char)) : CharSet := unions (rs.map fun r => range r.1 r.2)

def anyCase (s : CharSet) : CharSet := ⟨CaseMap.closeUnderCase s.ranges⟩

/-- The set closed under the case of the letters from A to Z. -/
def anyAsciiCase (s : CharSet) : CharSet :=
  let small := (s.inter (range 'a' 'z')).ranges.map fun r => (r.1 - 32, r.2 - 32)
  let capital := (s.inter (range 'A' 'Z')).ranges.map fun r => (r.1 + 32, r.2 + 32)
  ⟨CodePoints.unions [s.ranges, small, capital]⟩

def isAscii (s : CharSet) : Bool := s.ranges.all fun r => r.2 < 128

def single? (s : CharSet) : Option Char :=
  match s.ranges with
  | [(lo, hi)] => if lo = hi then some (Char.ofNat lo) else Option.none
  | _ => Option.none

/-! ### Named sets -/

/-- Decimal digits, white space and word characters of every script. -/
def digit : CharSet := ⟨Category.decimalNumber.codePoints⟩

@[inherit_doc digit]
def space : CharSet := ⟨Trait.whiteSpaces⟩

@[inherit_doc digit]
def word : CharSet := ⟨CharClass.wordChars⟩

/-- Decimal digits, white space and word characters among the first 128 characters. -/
def asciiDigit : CharSet := range '0' '9'

@[inherit_doc asciiDigit]
def asciiSpace : CharSet := ofRanges [('\t', '\r'), (' ', ' ')]

@[inherit_doc asciiDigit]
def asciiWord : CharSet := ofRanges [('0', '9'), ('A', 'Z'), ('_', '_'), ('a', 'z')]

/-- The named classes that bracket expressions know. -/
def named? (name : String) : Option CharSet :=
  match name with
  | "alnum" => some (ofRanges [('0', '9'), ('A', 'Z'), ('a', 'z')])
  | "alpha" => some (ofRanges [('A', 'Z'), ('a', 'z')])
  | "ascii" => some (range '\x00' '\x7f')
  | "blank" => some (ofRanges [('\t', '\t'), (' ', ' ')])
  | "cntrl" => some (ofRanges [('\x00', '\x1f'), ('\x7f', '\x7f')])
  | "digit" => some asciiDigit
  | "graph" => some (range '!' '~')
  | "lower" => some (range 'a' 'z')
  | "print" => some (range ' ' '~')
  | "punct" => some (ofRanges [('!', '/'), (':', '@'), ('[', '\x60'), ('\x7b', '~')])
  | "space" => some asciiSpace
  | "upper" => some (range 'A' 'Z')
  | "word" => some asciiWord
  | "xdigit" => some (ofRanges [('0', '9'), ('A', 'F'), ('a', 'f')])
  | _ => Option.none

end CharSet

end Regex

end SqlCode
