import SqlCode.Text.Trait

/-!
# Recent characters

Text functions go by version 17.0 of the character standard, patterns by version 16.0. The other
tables hold version 16.0; this module holds what the later version adds to it: characters with
their categories and case mappings, and one letter that no longer has case.
-/

namespace SqlCode

namespace Recent

/-- The added characters of each category. -/
def table : List (Category × String) :=
  [(.uppercaseLetter, "a7ce a7d2 a7d4 16ea0-16eb8"),
   (.lowercaseLetter, "a7cf 16ebb-16ed3"),
   (.modifierLetter, "a7f1 10ec5 11dd9 16ff2-16ff3 1e6ff"),
   (.otherLetter,
    "88f c5c cdc 10940-10959 10ec6-10ec7 11db0-11dd8 11dda-11ddb 187f8-187ff 18d09-18d1e
     18d80-18df2 1e6c0-1e6de 1e6e0-1e6e2 1e6e4-1e6e5 1e6e7-1e6ed 1e6f0-1e6f4 1e6fe 2b73a-2b73f
     2cea2-2cead 323b0-33479"),
   (.nonspacingMark,
    "1acf-1add 1ae0-1aeb 10efa-10efb 11b60 11b62-11b64 11b66 1e6e3 1e6e6 1e6ee-1e6ef 1e6f5"),
   (.spacingMark, "11b61 11b65 11b67"),
   (.decimalNumber, "11de0-11de9"),
   (.letterNumber, "16ff4-16ff6"),
   (.otherPunctuation, "10ed0"),
   (.mathSymbol, "1cef0 1f8d0-1f8d8"),
   (.currencySymbol, "20c1"),
   (.otherSymbol,
    "2b96 fbc3-fbd2 fd90-fd91 fdc8-fdce 10ed1-10ed8 1ccfa-1ccfc 1ceba-1ced0 1cee0-1ceef 1f6d8
     1f777-1f77a 1fa54-1fa57 1fa8a 1fa8e 1fac8 1facd 1faea 1faef 1fbfa")]

def ofCategories (cs : List Category) : CodePoints :=
  CodePoints.unions ((table.filter fun k => cs.contains k.1).map fun k => CodePoints.parse k.2)

/-- All added characters. None of them is a blank or a control character. -/
def characters : CodePoints := CodePoints.unions (table.map fun k => CodePoints.parse k.2)

/-- Letters, and the marks and numerals that count as letters. -/
def letters : CodePoints :=
  CodePoints.union
    (ofCategories [.uppercaseLetter, .lowercaseLetter, .modifierLetter, .otherLetter,
      .letterNumber])
    (CodePoints.parse "10efa-10efb 11b60-11b67 1e6e3 1e6e6 1e6ee-1e6ef 1e6f5")

def numerals : CodePoints := ofCategories [.decimalNumber, .letterNumber]

/-- Letters with case, and a raised letter that counts as a small one. -/
def casedLetters : CodePoints :=
  CodePoints.union (ofCategories [.uppercaseLetter, .lowercaseLetter]) (CodePoints.parse "a7f1")

/-- The letter that had case before. -/
def uncasedLetters : CodePoints := CodePoints.parse "295"

/-- Signs that do not separate a letter from its cased neighbours. -/
def caseIgnorables : CodePoints := ofCategories [.modifierLetter, .nonspacingMark]

/-- Signs that extend the character before them. -/
def extenders : CodePoints := ofCategories [.nonspacingMark]

/-- Upper case. Some small letters are older than their capitals. -/
def upper : List CodeRun := CodeRun.parseAll "a7cf>a7ce a7d3>a7d2 a7d5>a7d4 16ebb-16ed3>16ea0"

def lower : List CodeRun := CodeRun.parseAll "a7ce>a7cf a7d2>a7d3 a7d4>a7d5 16ea0-16eb8>16ebb"

end Recent

end SqlCode
