import SqlCode.Bytes.Base64
import SqlCode.Bytes.Digest
import SqlCode.Routine.Basic
import SqlCode.Text.CaseMap

/-!
# Text routines

Texts are sequences of characters, and positions count from one.
-/

namespace SqlCode

namespace Strings

/-- The number of characters before a position. A position before the first character counts as the
first. -/
def place (position : Int64) : Int64 := max position 1 - 1

/-- The characters from a position up to but excluding another one. -/
def slice (cs : List Char) (first stop : Int64) : List Char :=
  let size := Word.wrap cs.length
  let lo := min (place first) size
  let hi := min (place stop) size
  if hi ≤ lo then [] else (cs.take hi.toInt.toNat).drop lo.toInt.toNat

/-- Replaces occurrences of a non-empty text from left to right; `skip` characters belong to an
occurrence that was replaced. -/
def replaceFrom (search replacement : List Char) : Nat → List Char → List Char
  | _, [] => []
  | skip + 1, _ :: cs => replaceFrom search replacement skip cs
  | 0, c :: cs =>
    if search.isPrefixOf (c :: cs) then
      replacement ++ replaceFrom search replacement (search.length - 1) cs
    else c :: replaceFrom search replacement 0 cs

/-- The text with every occurrence replaced; an empty text occurs nowhere. -/
def replace (search replacement cs : List Char) : List Char :=
  if search = [] then cs else replaceFrom search replacement 0 cs

/-- The characters of `source` become those at the same place of `target`; those without one are
deleted. -/
def substitute (source target cs : List Char) : List Char :=
  cs.filterMap fun c =>
    match source.idxOf? c with
    | some i => target[i]?
    | none => some c

/-- The place of the first occurrence, counted from `start`. -/
def indexFrom? (needle : List Char) (start : Nat) : List Char → Option Nat
  | [] => none
  | c :: cs => if needle.isPrefixOf (c :: cs) then some start else indexFrom? needle (start + 1) cs

/-- The position of a text at or after the place `start`; zero if there is none. -/
def position (needle cs : List Char) (start : Nat) : Nat :=
  if needle = [] then min start cs.length + 1
  else
    match indexFrom? needle start (cs.drop start) with
    | some i => i + 1
    | none => 0

/-- The digit of a consonant in the phonetic code. -/
def soundDigit? (c : Char) : Option Char :=
  if "BFPV".toList.contains c then some '1'
  else if "CGJKQSXZ".toList.contains c then some '2'
  else if "DT".toList.contains c then some '3'
  else if c = 'L' then some '4'
  else if "MN".toList.contains c then some '5'
  else if c = 'R' then some '6'
  else none

/-- The digits of the letters after one whose digit is `last`. Equal neighbours count once; H and W
do not separate neighbours, vowels do. -/
def soundDigits (last : Option Char) : List Char → List Char
  | [] => []
  | c :: cs =>
    let current := soundDigit? c
    let rest := soundDigits (if c = 'H' ∨ c = 'W' then last else current) cs
    match current with
    | some d => if current ≠ last then d :: rest else rest
    | none => rest

/-- The phonetic code: the first letter and three digits; empty for texts without letters. -/
def soundex (s : String) : List Char :=
  match (s.toList.filter fun c => CharClass.isAscii c && c.isAlpha).map Char.toUpper with
  | [] => []
  | c :: cs => ((c :: soundDigits (soundDigit? c) cs) ++ ['0', '0', '0']).take 4

/-- Strips the characters that satisfy `p` from the chosen ends. -/
def strip (p : Char → Bool) (leading trailing : Bool) (cs : List Char) : List Char :=
  let cs := if leading then cs.dropWhile p else cs
  if trailing then (cs.reverse.dropWhile p).reverse else cs

end Strings

namespace Routine

def text (cs : List Char) : Value := .str (String.ofList cs)

def ofString (routine : String) (f : String → Value) : Routine := fun args => do
  let s ← Args.str routine args 0
  return f s

def bytesOf (routine : String) (args : List Value) : Except Fault (List UInt8) := do
  match ← Args.value routine args 0 with
  | .str s => .ok (Utf8.encode s)
  | .bytes bs => .ok bs
  | v => .error (.expected routine "text or binary" v)

def ofBytes (routine : String) (f : List UInt8 → String) : Routine := fun args => do
  let bs ← bytesOf routine args
  return .str (f bs)

/-- The character with a number; the empty text if there is none. -/
def chr : Routine := fun args => do
  let n ← Args.word "chr" args 0
  return .str (if 0 ≤ n.toInt ∧ n.toInt.toNat.isValidChar then
    String.ofList [Char.ofNat n.toInt.toNat] else "")

def copies (s : String) (n : Nat) : Value := text ((List.replicate n s.toList).flatten)

def space : Routine := fun args => do
  let n ← Args.count "space" args 0
  return copies " " n

def repeated : Routine := fun args => do
  let s ← Args.str "repeat" args 0
  let n ← Args.count "repeat" args 1
  return copies s n

/-- The bytes of a base 64 text, with blanks ignored; null if it is malformed. -/
def fromBase64 : Routine := fun args => do
  let s ← Args.str "fromBase64" args 0
  match Base64.decode? (s.toList.filter fun c => !CharClass.isWhiteSpace c) with
  | some bs => .ok (.bytes bs)
  | none => .ok .null

/-- SUBSTRING: a start before the first character eats into the length. -/
def substring : Routine := fun args => do
  let s ← Args.str "substring" args 0
  let first ← Args.word "substring" args 1
  let stop ←
    if 2 < args.length then do
      let length ← Args.word "substring" args 2
      if length < 0 then .error (.invalidArgument "substring" "negative substring length")
      else .ok (Word.saturatingAdd first length)
    else .ok Int64.maxValue
  return text (Strings.slice s.toList first stop)

/-- The first or last characters; null if an argument is null. -/
def side (routine : String) (left : Bool) : Routine := fun args =>
  if args.any Value.isNull then .ok .null
  else do
    let s ← Args.str routine args 0
    let n ← Args.count routine args 1
    let cs := s.toList
    return text (if left then cs.take n else cs.drop (cs.length - n))

def replace : Routine := fun args => do
  let s ← Args.str "replace" args 0
  let search ← Args.str "replace" args 1
  let replacement ← Args.str "replace" args 2
  return text (Strings.replace search.toList replacement.toList s.toList)

/-- TRANSLATE, character by character. -/
def substitute : Routine := fun args => do
  let s ← Args.str "translate3" args 0
  let source ← Args.str "translate3" args 1
  let target ← Args.str "translate3" args 2
  return text (Strings.substitute source.toList target.toList s.toList)

/-- The concatenation of two binaries, or of the texts of two values. -/
def concat : Routine := fun args => do
  match ← Args.value "concat" args 0, ← Args.value "concat" args 1 with
  | .bytes a, .bytes b => .ok (.bytes (a ++ b))
  | a, b => .ok (.str (a.text ++ b.text))

/-- The concatenation of the texts of the values that are not null. -/
def concatMulti : Routine := fun args =>
  .ok (.str (String.join ((args.filter fun v => !v.isNull).map Value.text)))

/-- The concatenation of two texts; null counts as empty unless both are null. -/
def concatWithNull : Routine := fun args => do
  match ← Args.value "concatWithNull" args 0, ← Args.value "concatWithNull" args 1 with
  | .null, .null => .ok .null
  | .null, v | v, .null => .ok (.str v.text)
  | a, b => .ok (.str (a.text ++ b.text))

/-- OVERLAY: a part of the text replaced by another text. -/
def overlay : Routine := fun args => do
  let s ← Args.str "overlay" args 0
  let placing ← Args.str "overlay" args 1
  let start ← Args.word "overlay" args 2
  let length ← if 3 < args.length then Args.count "overlay" args 3 else .ok placing.length
  let start := (Strings.place start).toInt.toNat
  return text (s.toList.take start ++ placing.toList ++ s.toList.drop (start + length))

/-- POSITION of a text in another, at or after a start. -/
def position : Routine := fun args => do
  let seek ← Args.str "position" args 0
  let s ← Args.str "position" args 1
  let start ← Args.wordOr "position" args 2 1
  return .int (Word.wrap (Strings.position seek.toList s.toList (Strings.place start).toInt.toNat))

/-- The order of two texts as minus one, zero or one. -/
def compareTexts : Routine := fun args => do
  let a ← Args.str "strcmp" args 0
  let b ← Args.str "strcmp" args 1
  return .int (match compare a b with | .lt => -1 | .eq => 0 | .gt => 1)

/-- The number of places where two phonetic codes agree. -/
def difference : Routine := fun args => do
  let a ← Args.str "difference" args 0
  let b ← Args.str "difference" args 1
  let agree := (Strings.soundex a).zip (Strings.soundex b) |>.countP fun p => p.1 = p.2
  return .int (Word.wrap agree)

/-- TRIM: strips any of the given characters; in strict mode exactly one must be given. -/
def trim : Routine := fun args => do
  let leading ← Args.bool "trim" args 0
  let trailing ← Args.bool "trim" args 1
  let seek ← Args.str "trim" args 2
  let s ← Args.str "trim" args 3
  let strict := (Args.bool "trim" args 4).toOption.getD true
  if strict && seek.length != 1 then
    .error (.invalidArgument "trim" "trim character must be exactly 1 character")
  else .ok (text (Strings.strip (seek.toList.contains ·) leading trailing s.toList))

def strings : List (String × Routine) :=
  [("upper", ofString "upper" fun s => .str (CaseMap.upper s)),
   ("lower", ofString "lower" fun s => .str (CaseMap.lower s)),
   ("initcap", ofString "initcap" fun s => .str (CaseMap.capitalize s)),
   ("reverse", ofString "reverse" fun s => text s.toList.reverse),
   ("charLength", ofString "charLength" fun s => .int (Word.wrap s.length)),
   ("ascii", ofString "ascii" fun s => .int (Word.wrap ((s.toList.head?.map Char.toNat).getD 0))),
   ("chr", chr), ("space", space), ("repeat", repeated),
   ("toBase64", ofBytes "toBase64" Base64.encode), ("fromBase64", fromBase64),
   ("md5", ofBytes "md5" fun bs => Hex.encode (Digest.md5 bs)),
   ("sha1", ofBytes "sha1" fun bs => Hex.encode (Digest.sha1 bs)),
   ("substring", substring), ("left", side "left" true), ("right", side "right" false),
   ("replace", replace), ("translate3", substitute), ("concat", concat),
   ("concatMulti", concatMulti), ("concatWithNull", concatWithNull), ("overlay", overlay),
   ("position", position), ("strcmp", compareTexts),
   ("soundex", ofString "soundex" fun s => text (Strings.soundex s)),
   ("difference", difference), ("trim", trim)]

end Routine

end SqlCode
