import SqlCode.Number.Numeral

/-!
# Sets and maps of code points

Character tables are written as text: a set is a list of hexadecimal ranges such as
`41-5a 61-7a aa`, and a map is a list of runs such as `61-7a>41` or `101-12f/2>100`. A long list of
ranges gives distances without separators, `CnodoBm` for these three.

The ranges of a set are in ascending order, and no two of them overlap or touch. The operations on
sets keep that form, so that equal sets that were built in different ways have equal lists.
-/

namespace SqlCode

/-- A set of code points, as inclusive ranges. -/
abbrev CodePoints := List (Nat × Nat)

namespace CodePoints

/-- The number of a hexadecimal numeral of a table. -/
def number (cs : List Char) : Nat := (Numeral.hexNat? cs).getD 0

/-- The range `lo-hi`, or the single code point `lo`. -/
def parseRange (cs : List Char) : Nat × Nat :=
  match cs.span (· ≠ '-') with
  | (lo, []) => (number lo, number lo)
  | (lo, _ :: hi) => (number lo, number hi)

/-- The words of a table, which spaces and line ends divide. -/
def words (s : String) : List (List Char) :=
  ((s.toList.map fun c => if c = '\n' then ' ' else c).splitOn ' ').filter (· ≠ [])

/-- The rows of a table, up to a semicolon each: words, and what stands after an equals sign. -/
def rows (s : String) : List (List String × String) :=
  (s.toList.splitOn ';').map fun row =>
    let (names, points) := row.span (· ≠ '=')
    ((words (String.ofList names)).map String.ofList, String.ofList (points.drop 1))

def parse (s : String) : CodePoints := (words s).map parseRange

/-- The numbers of a list of distances. Capital letters are leading digits, from 1 for A to 26 for Z, and a digit
or a small letter is the last of 36 digits of a number. -/
def numbersFrom (n : Nat) : List Char → List Nat
  | [] => []
  | c :: cs =>
    if c.isUpper then numbersFrom (26 * n + (c.toNat - 64)) cs
    else if c.isLower then (36 * n + (c.toNat - 87)) :: numbersFrom 0 cs
    else if c.isDigit then (36 * n + (c.toNat - 48)) :: numbersFrom 0 cs
    else numbersFrom n cs

/-- The ranges from `start` on. Twice the number of code points in front of a range stands for one code point, and one
more for a range of several, of which the next number counts those between its ends. -/
def rangesFrom (start : Nat) : List Nat → CodePoints
  | [] => []
  | [n] => [(start + n / 2, start + n / 2)]
  | n :: k :: ns =>
    let lo := start + n / 2
    if n % 2 = 0 then (lo, lo) :: rangesFrom (lo + 1) (k :: ns)
    else (lo, lo + k + 1) :: rangesFrom (lo + k + 2) ns

def parseGaps (s : String) : CodePoints := rangesFrom 0 (numbersFrom 0 s.toList)

def contains (ps : CodePoints) (n : Nat) : Bool := ps.any fun p => p.1 ≤ n && n ≤ p.2

/-! ### Union -/

/-- A range joined to the ranges after it that it overlaps or touches, and what follows them. -/
def absorb (r : Nat × Nat) : CodePoints → CodePoints
  | [] => [r]
  | s :: ss => if s.1 ≤ r.2 + 1 then absorb (r.1, max r.2 s.2) ss else r :: absorb s ss

/-- Joins the ranges that overlap or touch, in a list that is ordered by their starts. -/
def coalesce : CodePoints → CodePoints
  | [] => []
  | r :: rs => absorb r rs

/-- The set of code points that are given in ascending order. -/
def ofPoints (ns : List Nat) : CodePoints := coalesce (ns.map fun n => (n, n))

/-- Puts a range in its place in an ordered list; `rest` places what comes after that range. -/
def place (r : Nat × Nat) (rest : CodePoints → CodePoints) : CodePoints → CodePoints
  | [] => r :: rest []
  | s :: ss => if r.1 ≤ s.1 then r :: rest (s :: ss) else s :: place r rest ss

/-- The ranges of two ordered lists, ordered by their starts. -/
def merge : CodePoints → CodePoints → CodePoints
  | [], bs => bs
  | a :: as, bs => place a (merge as) bs

def union (a b : CodePoints) : CodePoints :=
  if b.isEmpty then a else if a.isEmpty then b else coalesce (merge a b)

def unions (sets : List CodePoints) : CodePoints := sets.foldl union []

/-! ### Intersection, difference and complement

The code points from `d800` to `dfff` are not characters, so that `d7ff` and `e000` are neighbours
where a range is cut. -/

def last : Nat := 0x10ffff

/-- The code point of the next character. -/
def next (n : Nat) : Nat := if n = 0xd7ff then 0xe000 else n + 1

def previous (n : Nat) : Nat := if n = 0xe000 then 0xd7ff else n - 1

/-- What two ranges have in common. -/
def overlap? (r s : Nat × Nat) : Option (Nat × Nat) :=
  let lo := max r.1 s.1
  let hi := min r.2 s.2
  if lo ≤ hi then some (lo, hi) else none

def inter (a b : CodePoints) : CodePoints := a.flatMap fun r => b.filterMap (overlap? r)

/-- A range without the code points of a set. -/
def cut (r : Nat × Nat) : CodePoints → CodePoints
  | [] => [r]
  | s :: ss =>
    if s.2 < r.1 then cut r ss
    else if r.2 < s.1 then [r]
    else
      (if r.1 < s.1 then [(r.1, previous s.1)] else []) ++
        (if s.2 < r.2 then cut (next s.2, r.2) ss else [])

/-- The code points of the first set that are not in the second. -/
def diff (a b : CodePoints) : CodePoints := a.flatMap fun r => cut r b

def symDiff (a b : CodePoints) : CodePoints := diff (union a b) (inter a b)

/-- The gaps after a range that ends with `hi`. Ranges that end with `d7ff` and start with `e000`
have no character between them; their gap is given by these two ends. -/
def gapsAfter (hi : Nat) : CodePoints → CodePoints
  | [] => if hi < last then [(next hi, last)] else []
  | s :: ss =>
    let a := next hi
    let b := previous s.1
    (min a b, max a b) :: gapsAfter s.2 ss

def compl : CodePoints → CodePoints
  | [] => [(0, last)]
  | r :: rs => (if 0 < r.1 then [(0, previous r.1)] else []) ++ gapsAfter r.2 rs

end CodePoints

/-- The code points `lo, lo + step, …, hi` and what they map to: the first target moves along with
them, and further targets follow it in every image. -/
structure CodeRun where
  lo : Nat
  hi : Nat
  step : Nat
  target : List Nat
deriving DecidableEq, Repr

namespace CodeRun

/-- Reads a run `lo-hi/step>target`. -/
def parse (cs : List Char) : CodeRun :=
  let (source, image) := cs.span (· ≠ '>')
  let (range, step) := source.span (· ≠ '/')
  let (lo, hi) := CodePoints.parseRange range
  { lo, hi
    step := if step = [] then 1 else CodePoints.number (step.drop 1)
    target := ((image.drop 1).splitOn ',').map CodePoints.number }

def parseAll (s : String) : List CodeRun := (CodePoints.words s).map parse

/-- The image of a code point of the run. -/
def image? (r : CodeRun) (n : Nat) : Option (List Nat) :=
  if r.lo ≤ n ∧ n ≤ r.hi ∧ (n - r.lo) % r.step = 0 then
    match r.target with
    | t :: ts => some ((t + (n - r.lo)) :: ts)
    | [] => some []
  else none

def codes (r : CodeRun) : List Nat :=
  (List.range ((r.hi - r.lo) / r.step + 1)).map fun i => r.lo + i * r.step

/-- The code points that a map has runs for. -/
def sources (rs : List CodeRun) : CodePoints :=
  CodePoints.unions (rs.map fun r => CodePoints.ofPoints r.codes)

/-- The images of the members of a set, for a run with one target. -/
def imageSet (r : CodeRun) (s : CodePoints) : CodePoints :=
  match r.target with
  | [t] => CodePoints.ofPoints ((r.codes.filter s.contains).map fun n => t + (n - r.lo))
  | _ => []

/-- The code points of the run whose images are in a set, for a run with one target. -/
def preimageSet (r : CodeRun) (s : CodePoints) : CodePoints :=
  match r.target with
  | [t] => CodePoints.ofPoints (r.codes.filter fun n => s.contains (t + (n - r.lo)))
  | _ => []

/-- The run back, for a run with one target. -/
def inverse? (r : CodeRun) : Option CodeRun :=
  match r.target with
  | [t] => some { r with lo := t, hi := t + (r.hi - r.lo), target := [r.lo] }
  | _ => none

/-- The image of a code point under a map; code points without a run are fixed. -/
def lookup (rs : List CodeRun) (n : Nat) : List Nat :=
  (rs.findSome? (·.image? n)).getD [n]

end CodeRun

end SqlCode
