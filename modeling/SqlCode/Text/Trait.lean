import SqlCode.Text.CaseTable
import SqlCode.Text.Category

/-!
# Traits of characters

Properties that a character has or lacks. Some of them are lists; the others follow from lists, from
general categories and from case mappings.
-/

namespace SqlCode

/-- A property that a character has or lacks. -/
inductive Trait
  | asciiHexDigit | alphabetic | bidiControl | caseIgnorable | cased | changesWhenCasefolded
  | changesWhenCasemapped | changesWhenLowercased | changesWhenTitlecased | changesWhenUppercased
  | dash | defaultIgnorableCodePoint | deprecated | diacritic | emoji | emojiComponent
  | emojiModifier | emojiModifierBase | emojiPresentation | extendedPictographic | extender
  | graphemeBase | graphemeExtend | graphemeLink | hexDigit | hyphen | idsBinaryOperator
  | idsTrinaryOperator | idsUnaryOperator | idCompatMathContinue | idCompatMathStart | idContinue
  | idStart | ideographic | joinControl | logicalOrderException | lowercase | math
  | modifierCombiningMark | noncharacterCodePoint | otherAlphabetic | otherDefaultIgnorableCodePoint
  | otherGraphemeExtend | otherIdContinue | otherIdStart | otherLowercase | otherMath
  | otherUppercase | patternSyntax | patternWhiteSpace | prependedConcatenationMark | quotationMark
  | radical | regionalIndicator | sentenceTerminal | softDotted | terminalPunctuation
  | unifiedIdeograph | uppercase | variationSelector | whiteSpace | xidContinue | xidStart
deriving DecidableEq, Repr

namespace Trait

/-- The traits with their names in small letters without separators, the first one in full. -/
def all : List (Trait × List String) :=
  ((List.range (xidStart.ctorIdx + 1)).map ofNat).zip ((CodePoints.rows
    "asciihexdigit ahex;alphabetic alpha;bidicontrol bidic;caseignorable ci;cased;
       changeswhencasefolded cwcf;changeswhencasemapped cwcm;changeswhenlowercased cwl;
       changeswhentitlecased cwt;changeswhenuppercased cwu;dash;defaultignorablecodepoint di;
       deprecated dep;diacritic dia;emoji;emojicomponent ecomp;emojimodifier emod;emojimodifierbase
       ebase;emojipresentation epres;extendedpictographic extpict;extender ext;graphemebase grbase;
       graphemeextend grext;graphemelink grlink;hexdigit hex;hyphen;idsbinaryoperator idsb;
       idstrinaryoperator idst;idsunaryoperator idsu;idcompatmathcontinue;idcompatmathstart;
       idcontinue idc;idstart ids;ideographic ideo;joincontrol joinc;logicalorderexception loe;
       lowercase lower;math;modifiercombiningmark mcm;noncharactercodepoint nchar;otheralphabetic
       oalpha;otherdefaultignorablecodepoint odi;othergraphemeextend ogrext;otheridcontinue oidc;
       otheridstart oids;otherlowercase olower;othermath omath;otheruppercase oupper;patternsyntax
       patsyn;patternwhitespace patws;prependedconcatenationmark pcm;quotationmark qmark;radical;
       regionalindicator ri;sentenceterminal sterm;softdotted sd;terminalpunctuation term;
       unifiedideograph uideo;uppercase upper;variationselector vs;whitespace wspace space;
       xidcontinue xidc;xidstart xids").map (·.1))

/-- The code points of the traits that are lists, as ranges. -/
def table : Trait → String
  | .asciiHexDigit => "Bp8f4Ah4"
  | .bidiControl => "CHwNDz0Ah3C32"
  | .dash => "BiBX8BuGTqBE6DJb4CeB6uUoFNw4Ar08AkXsA2F6DHKl0B2kIeGVgQo"
  | .deprecated => "RaBUeDX62DL30DTr4ALr0BVQFc"
  | .diacritic =>
    "E82Cyc850AAzDd36b4z08j0N33KmC3A7230302Gb690Gh09071CrpE39C99Ax0G16Bb8xqCew72AkD4wF4wF4wBn1CcweFmF4wF4wF30wFwF6p42E
     yr3D70Ai2290Cp130CgF830B9093Af52l0AM71AZp0AoH99iSb1P8A564Bpd59EsuB57C10C8n0Cp0Cl4Dln8c51BtApBpybaB39Xq31n1r1r1r0G
     B11QmAB54Ev2EaBLFcp02Al0Dl0twEp1F30oB2HeAjgC72B0EaoB0Hb1Cn2BuEl3j1G50AQH8APreO02BmBj0CqAPgBMr43A437AIf18I70AEr4B4
     Ah3V71Cx9Br2JoBaD10Fp0CgD8j1Et0Ix0Dh0wAd573Dz130r0Ea6Fv0Mz0G0Fl0FeNz0Nd08HoDmA0DiWeNc30DiWn0AaKKldXMuEHp3Cb5AEd0A
     DdfDh0AHZ523530PXzA85lAD9174h655Ap2GXdAoJt5TuCf2APl0ANx5F3131"
  | .emoji =>
    "Aycb8F68QFqoL0A8E14v0Tf0oI8Af991K2Lv0kiC9233i450484304670h1a2ban04302A050A1423070a5090n0b04b0230A50b432484542422c
     6cl0u482912n0Bp1issTp0Yr1A30Bu8BQ0oAGe2IIPsK8Hx0p0s58D7o30AaA457A70Ipw5C250315B9513G93Apn43mf056o52490r04h0ib1p1h
     1428c6dBcBpAwb65198630658Lna8OrA9383E3F9b78bAifd59d7"
  | .emojiComponent => "Aycb8QJmKuDPYiECIxoAB73CBx2BLSX1Bm"
  | .emojiModifier => "JMLv3"
  | .emojiModifierBase => "TV2L6x2IQVuCd1451Fj059A7h69131e2AcK708A690Ip173Dmx1imAEy4h6cj851C4Cf0302z13bLr1Bd7"
  | .emojiPresentation =>
    "SE90Kf264ABz0A70BtaBeA2qh0z0b0gaA6f0284e90AkAy2912Cf1AcsAUr0Bu8IMP4K8Jk58D7o2AcA45331A70Ipvp73Aw3kpA593pf67Ax23E5
     5Apr23mA0Ah0qDtBbBpAwc715192n0f7Lna8OrA9383E3F9b78bAifd59d7"
  | .extendedPictographic =>
    "Ie8QFqoL0A8E14v0Tf0oEaCwAf991K2Lv0kiC92343a3C4lC85922c6cl0u482912n3Bj1issTp0Yr1A30Bu8BQ0oAGe2IIPlG2r1AqCd4p0s58A1
     AjAjdkA45732jL0bHshGcBpCiFhaDrA5p2C56l4B96ApB8pA9383L7N9ABc"
  | .extender =>
    "J6ACt0AVsXiAI0GmDyAOsG2EAqC4AGyV4CsJQuBf3Er0E71BHSwCFsBAgA8GmF0A70ATEiDJp0CDeAi8BOyPaFh0AAp1BPeARC70BMl02BIZ10BNq
     AUd1"
  | .graphemeLink =>
    "EBaG2G2G2G2G2G2G2F30wFwF6G2K6J10CSf0AoHqAJaLmEn0Cx0IOiBNZkB2HeGwF0Q6MoAYOeCGoBasC6Fr0GqFgJ0EgG51FaG2N0G2FkFgNyNf0
     HyDmA0DiWeNh0DiWn0AJAk"
  | .hexDigit => "Bp8f4Ah4EIGv8f4Ah4"
  | .hyphen => "BiG2BQ4JBuDJb0GQeAO2DHIaIeDu"
  | .idsBinaryOperator => "ZEt058AAm"
  | .idsTrinaryOperator => "ZEx0"
  | .idsUnaryOperator => "ZFl0"
  | .idCompatMathContinue => "Ix0aQI0793dTm8A8IDUwAeAqAeAqAeAqAeAqAe"
  | .idCompatMathStart => "ROo8A8IDUwAeAqAeAqAeAqAeAqAe"
  | .ideographic => "ZG10Af7t1BAnGA2ClVK2AVQtJ45BwBKZkAjFNehAHcBb8SWrJyAPCdASPmAtDKcdF45FD0tGYjvQ8EG1O0CEpEG5bDLe"
  | .joinControl => "QMt0"
  | .logicalOrderException => "GTp3Fv3EYl14CAGx0430"
  | .modifierCombiningMark => "CL104Gac70Zr0316Aq"
  | .noncharacterCodePoint =>
    "EHUtuAC90EIZt0EIZt0EIZt0EIZt0EIZt0EIZt0EIZt0EIZt0EIZt0EIZt0EIZt0EIZt0EIZt0EIZt0EIZt0EIZt0"
  | .patternSyntax => "Avdl5Ah22Ah2Ax5230230886AaAqPZ9mhd5h38PzSyHxQgApAEeABhCiUf19nuDHDb0Nj0"
  | .patternWhiteSpace => "j3A0EkQFh0Ad0"
  | .prependedConcatenationMark => "CGd4KyBqUd0DgENHku"
  | .quotationMark => "Aw8GauQD16Af0GQiYf2r1DHSn2Ji8E10"
  | .radical => "YKdo3BfpEw"
  | .regionalIndicator => "JLI9o"
  | .sentenceTerminal =>
    "AuowBW6H71J0Bf1MoCe270Pb0CT10AQw90APyK10Hr0BiaQh0Sp2I10l050An1Jf0Cn0AYsAb0j1FXf1Q0qA90WuBKYsO10Lm6U90Dt0EaHh0H71H
     10MuARXc50Ca70IeowCmEYt0BRz3Bh2Jj0Fj2G31G70cx0Dx030F0Pl0Fj0Tr0bdEv0Mv1ABq2Mz0Dv0Wd0ALh0D50AOBz0GeCn0mADr0PgAPQoPI
     c"
  | .softDotted => "Ev0JwOmAoBwA4QsEg2MR2Buq6GcHqWeKx0FC8HWS70Bt0Bt0Bt0Bt0Bt0Bt0Bt0Bt0Bt0Bt0Bt0Bt0DQ8Pz0Ag"
  | .terminalPunctuation =>
    "Auk2n06AT4gABiC6D0s31J0Bf92M30C1436AqNj0BRh0Ik94Qb0AQv6APyFx1Cz0Hr16B7250Qh0Sp2I10l031An1Jf3Ch0AYsAb0j1FXf1Q0q8k3
     070Wt0BKYr0Nz1Ln3U90Dt0EaHf1H71G2x0MuARXc50C7132Iek2n06Cm4BH4BoBLcK2Q90Hh4Ct4Dz2AZx3Bh2Jj5F92G31G70cx0Dx3F0Pl0Fj1
     p0Sx27dEv0Mv1ABq2Mz0Dv090W11BiAIv0D50BUj3ALG70GeCn1kADr0Pf0APQoPIb2"
  | .unifiedIdeograph => "ABKlGA2ClVK2AWFt0230k23051EMExASPmAtDKcdF45FD0tGYjvQ8IPtEG5bDLe"
  | .variationSelector => "MCz12DUT9eBRBAdFm"
  | .otherAlphabetic =>
    "ATiAnbAF1c230302D19Bpb35wEn592508AyApeEp9En0773132EwCda75diC105d30b1l0An1C955050kl0An1C9390508Ap06n1C963130A70A91
     91C955050j0l0AoCb37131kB93C753131h0n0An1C953131h0n0up2C953131kl0An1D74236A10Ce55A0Ei5430wI3hj93yF5a252Ab291315572
     ra2l2CMt0Ap0Ap0Ap0CphJh0AwFla97Ld3C785iD50n1Br3BpdCd1Ap750C79BthVxwCR3AeDWhuBMW56Ax0SogAb3Dx0Bte2C6B53AlaBj2BpaB2
     Crcoh0Bj1Bs3150aBh3aM76AQHeDNn3CNt130b2AQt2CmQv0DeNf1BzcBj0n1Bj7iCf1B1aA10C71Bpbt0E574c4Hr8Ab2C955050kl0Dp7243230
     Erb31ExgM7555An0Dld2Ex9ErcNbbMr4305062Gx5548Al8Bd332A19BlcVn635Dnk3cFt46303126Cp33032Sd2j02Bp571AIZrfGRw3Ahf2E70A
     OXgSI753f553033EkDSyDHhododo"
  | .otherDefaultIgnorableCodePoint => "AU2GQz0CKz0DSiIGoDHU2Df7BQZKy3sEdCiMdCUy"
  | .otherGraphemeExtend =>
    "EHkAcSwAcEoAcLw29030j0EqAcFmuDZyAoBDwa2b0EmCz0BF8HUf0BNFuF0ATY70IWsFgNosiEci431aLgoMeNkAI6oCGiARCh0BAGz0d4BMOXjBm"
  | .otherIdContinue => "J6AMyHQv7CM4CJ30IFqDHWm"
  | .otherIdStart => "MJr0DQuA6HKd0"
  | .otherLowercase => "IguAAv7f0Ap3EcBwGJ2FQbApqAxzALaqxbKreAU5oDCp0BNTt0KoG7170AV52iAXIo513A437DNJjAo"
  | .otherMath =>
    "E8AVz14Ah050OJ0Aj1mAt2Ad0t0Cnb87093A0858273c7050313472b3D7352303023350909g502352d0P52Id02AcyXr0p7b3b05073s254Ad0C
     62An2j0S10Ar8VfkCj2At0DLDm28Kq2DLIvBb3Ax30450523a2353Ar3256353q32332753Ie5n3n3t3n3t3n3t3n3t3n365AcKZx23p302438322
     2c8223130242222302523532322383fb1333f"
  | .otherUppercase => "RFpeATloIQUlododo"
  | _ => ""

/-- The code points of a trait that is a list. -/
def listed (t : Trait) : CodePoints := CodePoints.parseGaps t.table

def whiteSpaces : CodePoints :=
  [(0x9, 0xd), (0x20, 0x20), (0x85, 0x85), (0xa0, 0xa0), (0x1680, 0x1680), (0x2000, 0x200a),
   (0x2028, 0x2029), (0x202f, 0x202f), (0x205f, 0x205f), (0x3000, 0x3000)]

def ofCategories (cs : List Category) : CodePoints :=
  CodePoints.unions (cs.map Category.codePoints)

def smallLetters : CodePoints :=
  CodePoints.union Category.lowercaseLetter.codePoints (listed .otherLowercase)

def capitalLetters : CodePoints :=
  CodePoints.union Category.uppercaseLetter.codePoints (listed .otherUppercase)

def letters : CodePoints :=
  CodePoints.unions [smallLetters, capitalLetters,
    ofCategories [.titlecaseLetter, .modifierLetter, .otherLetter, .letterNumber],
    listed .otherAlphabetic]

def casedLetters : CodePoints :=
  CodePoints.unions [smallLetters, capitalLetters, Category.titlecaseLetter.codePoints]

/-- Colons, points and apostrophes, which can stand inside a word. -/
def wordMiddle : CodePoints :=
  CodePoints.parse
    "27 2e 3a b7 387 55f 5f4 2018-2019 2024 2027 fe13 fe52 fe55 ff07 ff0e ff1a"

/-- Signs that do not separate a letter from its cased neighbours. -/
def caseIgnorables : CodePoints :=
  CodePoints.union wordMiddle
    (ofCategories [.nonspacingMark, .enclosingMark, .format, .modifierLetter, .modifierSymbol])

/-- Marks and other signs that belong to the character before. -/
def extenders : CodePoints :=
  CodePoints.union (ofCategories [.nonspacingMark, .enclosingMark]) (listed .otherGraphemeExtend)

/-- Signs of patterns, which are no part of identifiers. -/
def patternSigns : CodePoints :=
  CodePoints.union (listed .patternSyntax) (listed .patternWhiteSpace)

/-- The characters that identifiers can start with. -/
def starts : CodePoints :=
  CodePoints.diff
    (CodePoints.union
      (ofCategories [.uppercaseLetter, .lowercaseLetter, .titlecaseLetter, .modifierLetter,
        .otherLetter, .letterNumber])
      (listed .otherIdStart))
    patternSigns

/-- The characters that identifiers can go on with. -/
def continuations : CodePoints :=
  CodePoints.diff
    (CodePoints.unions [starts,
      ofCategories [.nonspacingMark, .spacingMark, .decimalNumber, .connectorPunctuation],
      listed .otherIdContinue])
    patternSigns

/-- Characters that can go on with an identifier, but whose normal form cannot. -/
def unstable : CodePoints :=
  CodePoints.parse
    "37a 309b-309c fc5e-fc63 fdfa-fdfb fe70 fe72 fe74 fe76 fe78 fe7a fe7c fe7e"

/-- Characters that can start an identifier, and whose normal form can only go on with one. -/
def unstableStarts : CodePoints := CodePoints.parse "e33 eb3 ff9e-ff9f"

def changedByLower : CodePoints := CodeRun.sources CaseTable.lower

def changedByUpper : CodePoints := CodeRun.sources CaseTable.upper

/-- Small letters that start words as they are, and capitals of two letters that do not. -/
def changedByTitle : CodePoints :=
  CodePoints.union
    (CodePoints.diff changedByUpper
      (CodePoints.union Category.titlecaseLetter.codePoints
        (CodePoints.parse "10d0-10fa 10fd-10ff")))
    (CodePoints.parse "1c4 1c7 1ca 1f1")

/-- Characters whose full folding has several characters, with the folded ones that are equal to
their own folding once they are taken apart left out. -/
def changedByFold : CodePoints :=
  CodePoints.union
    (CodePoints.diff (CodeRun.sources CaseTable.fold) (CodePoints.parse "1fbe 1fd3 1fe3"))
    (CodePoints.parse
      "df 130 149 587 1e9a 1f80-1f87 1f90-1f97 1fa0-1fa7 1fb2-1fb4 1fb7 1fc2-1fc4 1fc7 1ff2-1ff4
       1ff7 fb00-fb04 fb06 fb13-fb17")

/-- Characters that are not shown unless something supports them. -/
def ignorables : CodePoints :=
  CodePoints.diff
    (CodePoints.unions [listed .otherDefaultIgnorableCodePoint, Category.format.codePoints,
      listed .variationSelector])
    (CodePoints.unions [whiteSpaces, listed .prependedConcatenationMark,
      CodePoints.parse "fff9-fffb 13430-13440"])

def unassigned : CodePoints :=
  CodePoints.diff [(0, CodePoints.last)] (ofCategories (Category.all.map (·.1)))

/-- Characters that are shown on their own. -/
def bases : CodePoints :=
  CodePoints.diff [(0, CodePoints.last)]
    (CodePoints.unions [extenders, unassigned,
      ofCategories [.control, .format, .surrogate, .privateUse, .lineSeparator,
        .paragraphSeparator]])

def codePoints : Trait → CodePoints
  | .alphabetic => letters
  | .caseIgnorable => caseIgnorables
  | .cased => casedLetters
  | .changesWhenCasefolded => changedByFold
  | .changesWhenCasemapped => CodePoints.unions [changedByLower, changedByUpper, changedByTitle]
  | .changesWhenLowercased => changedByLower
  | .changesWhenTitlecased => changedByTitle
  | .changesWhenUppercased => changedByUpper
  | .defaultIgnorableCodePoint => ignorables
  | .graphemeBase => bases
  | .graphemeExtend => extenders
  | .idContinue => continuations
  | .idStart => starts
  | .lowercase => smallLetters
  | .math => CodePoints.union Category.mathSymbol.codePoints (listed .otherMath)
  | .uppercase => capitalLetters
  | .whiteSpace => whiteSpaces
  | .xidContinue => CodePoints.diff continuations unstable
  | .xidStart => CodePoints.diff starts (CodePoints.union unstable unstableStarts)
  | t => t.listed

def ofName? (name : String) : Option Trait :=
  (all.find? fun t => t.2.contains name).map (·.1)

end Trait

end SqlCode
