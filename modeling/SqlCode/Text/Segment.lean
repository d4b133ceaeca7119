import SqlCode.Text.Script
import SqlCode.Text.Trait

/-!
# Classes for cutting text

The classes of characters by which text is cut into user-perceived characters, words and sentences.
A class has a name in small letters without separators, and most have an abbreviation. The class of
all other characters has no name here.
-/

namespace SqlCode

namespace Segment

def point (n : Nat) : CodePoints := [(n, n)]

/-- Signs that stand before the number or word they belong to. -/
def prefixed : CodePoints := Trait.listed .prependedConcatenationMark

/-- The syllables that end in a vowel: the first of every 28. -/
def openSyllables : CodePoints :=
  (List.range 399).map fun i => (0xac00 + 28 * i, 0xac00 + 28 * i)

/-! ### User-perceived characters -/

/-- Characters that extend the one before. -/
def extending : CodePoints := CodePoints.union Trait.extenders (Trait.listed .emojiModifier)

/-- Marks with a width of their own that are not bound to the character before. -/
def free : CodePoints :=
  CodePoints.parse
    "102b-102c 1038 1062-1064 1067-106d 1083 1087-108c 108f 109a-109c 1a61 1a63-1a64 aa7b aa7d
     11720-11721"

/-- Characters that are controls or behave like one. -/
def controls : CodePoints :=
  CodePoints.diff
    (CodePoints.union
      (Trait.ofCategories [.lineSeparator, .paragraphSeparator, .control, .format])
      (CodePoints.inter Trait.unassigned Trait.ignorables))
    (CodePoints.unions [CodePoints.parse "a d 200d", Trait.extenders, prefixed])

/-- The characters of a class of user-perceived characters. -/
def grapheme? (name : String) : Option CodePoints :=
  match name with
  | "control" | "cn" => some controls
  | "cr" => some (point 0xd)
  | "extend" | "ex" => some extending
  | "l" => some (CodePoints.parse "1100-115f a960-a97c")
  | "lf" => some (point 0xa)
  | "lv" => some openSyllables
  | "lvt" => some (CodePoints.diff [(0xac00, 0xd7a3)] openSyllables)
  | "prepend" | "pp" =>
    some (CodePoints.union prefixed
      (CodePoints.parse "d4e 111c2-111c3 113d1 1193f 11941 11a84-11a89 11d46 11f02"))
  | "regionalindicator" | "ri" => some (Trait.listed .regionalIndicator)
  | "spacingmark" | "sm" =>
    some (CodePoints.union (CodePoints.parse "e33 eb3")
      (CodePoints.diff Category.spacingMark.codePoints (CodePoints.union extending free)))
  | "t" => some (CodePoints.parse "11a8-11ff d7cb-d7fb")
  | "v" => some (CodePoints.parse "1160-11a7 d7b0-d7c6 16d63 16d67-16d6a")
  | "zwj" => some (point 0x200d)
  | _ => none

/-! ### Words and sentences -/

/-- Marks, with or without a width of their own. -/
def marks : CodePoints := CodePoints.union Trait.extenders Category.spacingMark.codePoints

/-- Digits and the signs that belong to numbers. -/
def numerals : CodePoints :=
  CodePoints.union Category.decimalNumber.codePoints
    (CodePoints.parse "600-605 66b 6dd 890-891 8e2 19da 110bd 110cd")

/-- Signs that have an effect on the layout only. -/
def formats : CodePoints :=
  CodePoints.diff Category.format.codePoints
    (CodePoints.unions [CodePoints.parse "200c-200d", numerals, marks])

def hebrew : CodePoints :=
  CodePoints.inter ((Script.codePoints? "hebrew").getD []) Category.otherLetter.codePoints

/-- The letters of Katakana and the signs that are used with them. -/
def katakana : CodePoints :=
  CodePoints.union ((Script.codePoints? "katakana").getD [])
    (CodePoints.parse "3031-3035 309b-309c 30a0 30fc ff70")

/-- Letters of scripts that do not divide words. -/
def undivided : CodePoints :=
  CodePoints.parse
    "e01-e30 e32-e33 e40-e46 e81-e82 e84 e86-e8a e8c-ea3 ea5 ea7-eb0 eb2-eb3 ebd ec0-ec4 ec6
     edc-edf 1000-102a 103f 1050-1055 105a-105d 1061 1065-1066 106e-1070 1075-1081 108e
     1780-17b3 17d7 17dc 1950-196d 1970-1974 1980-19ab 19b0-19c9 1a20-1a54 1aa7 a9e0-a9e4
     a9e6-a9ef a9fa-a9fe aa60-aa76 aa7a aa7e-aaaf aab1 aab5-aab6 aab9-aabd aac0 aac2 aadb-aadd
     11700-1171a 11740-11746"

/-- Signs that count as letters of words. -/
def wordSigns : CodePoints :=
  CodePoints.parse
    "b8 2c2-2c5 2d2-2d7 2de-2df 2e5-2eb 2ed 2ef-2ff 55a-55c 55e 58a 5f3 70f a708-a716 a720-a721
     a789-a78a ab5b"

def wordLetters : CodePoints :=
  CodePoints.union wordSigns
    (CodePoints.diff Trait.letters
      (CodePoints.unions [Trait.listed .ideographic, katakana, hebrew, marks, numerals, undivided,
        (Script.codePoints? "hiragana").getD []]))

def word? (name : String) : Option CodePoints :=
  match name with
  | "aletter" | "le" => some wordLetters
  | "cr" => some (point 0xd)
  | "doublequote" | "dq" => some (point 0x22)
  | "extend" =>
    some (CodePoints.union marks (Trait.listed .emojiModifier))
  | "extendnumlet" | "ex" =>
    some (CodePoints.parse "5f 202f 203f-2040 2054 fe33-fe34 fe4d-fe4f ff3f")
  | "format" | "fo" => some (CodePoints.diff formats (CodePoints.parse "70f 200b"))
  | "hebrewletter" | "hl" => some hebrew
  | "katakana" | "ka" => some katakana
  | "lf" => some (point 0xa)
  | "midletter" | "ml" => some (CodePoints.parse "3a b7 387 55f 5f4 2027 fe13 fe55 ff1a")
  | "midnum" | "mn" =>
    some (CodePoints.parse "2c 3b 37e 589 60c-60d 66c 7f8 2044 fe50 fe54 ff0c ff1b")
  | "midnumlet" | "mb" => some (CodePoints.parse "2e 2018-2019 2024 fe52 ff07 ff0e")
  | "newline" | "nl" => some (CodePoints.parse "b-c 85 2028-2029")
  | "numeric" | "nu" => some numerals
  | "regionalindicator" | "ri" => some (Trait.listed .regionalIndicator)
  | "singlequote" | "sq" => some (point 0x27)
  | "wsegspace" => some (CodePoints.parse "20 1680 2000-2006 2008-200a 205f 3000")
  | "zwj" => some (point 0x200d)
  | _ => none

/-- Small letters of sentences: letters of a script in which they also start sentences are left
out. -/
def sentenceLower : CodePoints :=
  CodePoints.diff Trait.smallLetters
    (CodePoints.union marks (CodePoints.parse "10d0-10fa 10fd-10ff"))

/-- Capital letters of sentences: letters of a style in which whole sentences are written are left
out. -/
def sentenceUpper : CodePoints :=
  CodePoints.diff (CodePoints.union Trait.capitalLetters Category.titlecaseLetter.codePoints)
    (CodePoints.union marks [(0x1c90, 0x1cbf)])

/-- Points that can end a sentence or an abbreviation. -/
def points : CodePoints := CodePoints.parse "2e 2024 fe52 ff0e"

def sentence? (name : String) : Option CodePoints :=
  match name with
  | "aterm" | "at" => some points
  | "close" | "cl" =>
    some (CodePoints.parse
      "22 27-29 5b 5d 7b 7d ab bb f3a-f3d 169b-169c 2018-201f 2039-203a 2045-2046 207d-207e
       208d-208e 2308-230b 2329-232a 275b-2760 2768-2775 27c5-27c6 27e6-27ef 2983-2998 29d8-29db
       29fc-29fd 2e00-2e0d 2e1c-2e1d 2e20-2e29 2e42 2e55-2e5c 3008-3011 3014-301b 301d-301f
       fd3e-fd3f fe17-fe18 fe35-fe44 fe47-fe48 fe59-fe5e ff08-ff09 ff3b ff3d ff5b ff5d ff5f-ff60
       ff62-ff63 1f676-1f678")
  | "cr" => some (point 0xd)
  | "extend" | "ex" => some (CodePoints.union marks (point 0x200d))
  | "format" | "fo" => some formats
  | "lf" => some (point 0xa)
  | "lower" | "lo" => some sentenceLower
  | "numeric" | "nu" => some (CodePoints.union numerals (point 0x66c))
  | "oletter" | "le" =>
    some (CodePoints.diff (CodePoints.union Trait.letters (point 0x5f3))
      (CodePoints.unions [marks, sentenceLower, sentenceUpper]))
  | "scontinue" | "sc" =>
    some (CodePoints.parse
      "2c-2d 3a-3b 37e 55d 60c-60d 7f8 1802 1808 2013-2014 3001 fe10-fe11 fe13-fe14 fe31-fe32
       fe50-fe51 fe54-fe55 fe58 fe63 ff0c-ff0d ff1a-ff1b ff64")
  | "sep" | "se" => some (CodePoints.parse "85 2028-2029")
  | "sp" => some (CodePoints.parse "9 b-c 20 a0 1680 2000-200a 202f 205f 3000")
  | "sterm" | "st" => some (CodePoints.diff (Trait.listed .sentenceTerminal) points)
  | "upper" | "up" => some sentenceUpper
  | _ => none

end Segment

end SqlCode
