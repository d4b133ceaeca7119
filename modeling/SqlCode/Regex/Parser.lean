import SqlCode.Regex.Node
import SqlCode.Regex.Property

/-!
# Reading patterns

`Regex.parse?` reads a pattern: literals, classes with nesting and set operations, groups with
names and modes, alternation, repetition, and tests of positions. Every operation consumes a
character, so the length of the pattern bounds the number of operations. What is read carries how
deep its text is nested, as that is limited.
-/

namespace SqlCode

namespace Regex

/-- Modes that a pattern switches on and off. -/
structure Flags where
  ignoreCase : Bool := false
  multiLine : Bool := false
  dotAll : Bool := true
  swapGreed : Bool := false
  unicode : Bool := true
  crlf : Bool := false
  ignoreSpace : Bool := false
deriving Repr

namespace Flags

/-- Switches the mode of a letter. -/
def set? (f : Flags) (letter : Char) (on : Bool) : Option Flags :=
  match letter with
  | 'i' => some { f with ignoreCase := on }
  | 'm' => some { f with multiLine := on }
  | 's' => some { f with dotAll := on }
  | 'U' => some { f with swapGreed := on }
  | 'u' => some { f with unicode := on }
  | 'R' => some { f with crlf := on }
  | 'x' => some { f with ignoreSpace := on }
  | _ => none

/-- The set closed under case if case is ignored. -/
def close (f : Flags) (s : CharSet) : CharSet :=
  if f.ignoreCase then if f.unicode then s.anyCase else s.anyAsciiCase else s

/-- The complement of a set, already closed; without Unicode it could match part of a
character. -/
def complement? (f : Flags) (s : CharSet) : Option CharSet :=
  if f.unicode then some s.compl else none

def literal (f : Flags) (c : Char) : CharSet := f.close (.char c)

/-- The set that the dot stands for; without Unicode it could match part of a character. -/
def dot? (f : Flags) : Option CharSet :=
  if !f.unicode then none
  else if f.dotAll then some .any
  else if f.crlf then some (CharSet.ofRanges [('\n', '\n'), ('\r', '\r')]).compl
  else some (CharSet.char '\n').compl

end Flags

namespace Parser

/-- Drops a comment up to its line end, blanks and further comments. -/
def skipSpace (comment : Bool) : List Char → List Char
  | [] => []
  | c :: cs =>
    if comment then skipSpace (c ≠ '\n') cs
    else if CharClass.isWhiteSpace c then skipSpace false cs
    else if c = '#' then skipSpace true cs
    else c :: cs

/-- Drops blanks and comments where the pattern ignores them. -/
def skip (f : Flags) (cs : List Char) : List Char :=
  if f.ignoreSpace then skipSpace false cs else cs

/-! ### Escapes -/

/-- The characters that have a meaning in patterns. -/
def isMeta (c : Char) : Bool := "\\.+*?()|[]\x7b\x7d^$#&-~".toList.contains c

/-- A character that stands for itself after a backslash. -/
def isEscapable (c : Char) : Bool :=
  isMeta c || (CharClass.isAscii c && !c.isAlphanum && c ≠ '<' && c ≠ '>')

/-- What an escape or a single character denotes. -/
inductive Atom
  | char (c : Char)
  | set (s : CharSet)
  | look (l : Look)

def charOf? (n : Nat) : Option Char := if n.isValidChar then some (Char.ofNat n) else none

def hexDigits? (f : Flags) : Nat → List Char → Option (List Char × List Char)
  | 0, cs => some ([], cs)
  | _ + 1, [] => none
  | count + 1, c :: cs => do
    let _ ← Numeral.hexDigit? c
    let (more, rest) ← hexDigits? f count (skip f cs)
    return (c :: more, rest)

/-- The characters before a closing brace and those after it. In a pattern that ignores blanks and
comments they are dropped, and `comment` says that one is open. -/
def bracedFrom? (ignoreSpace comment : Bool) : List Char → Option (List Char × List Char)
  | [] => none
  | c :: cs =>
    if comment then bracedFrom? ignoreSpace (c ≠ '\n') cs
    else if ignoreSpace && CharClass.isWhiteSpace c then bracedFrom? ignoreSpace false cs
    else if ignoreSpace && c = '#' then bracedFrom? ignoreSpace true cs
    else if c = '\x7d' then some ([], cs)
    else (bracedFrom? ignoreSpace false cs).map fun r => (c :: r.1, r.2)

/-- The characters before a closing brace and those after it. -/
def braced? (f : Flags) (cs : List Char) : Option (List Char × List Char) :=
  bracedFrom? f.ignoreSpace false cs

def charOfHex? (digits : List Char) : Option Char :=
  if digits = [] then none else (Numeral.hexNat? digits).bind charOf?

/-- The rest of `\x41`, `\u0041`, `\U00000041` or the same with braces. Without Unicode two digits
after `\x` are a byte, which alone is a character only below 128. -/
def hex? (f : Flags) (letter : Char) (cs : List Char) : Option (Char × List Char) :=
  match skip f cs with
  | '\x7b' :: cs => do
    let (digits, rest) ← braced? f cs
    return (← charOfHex? digits, skip f rest)
  | cs => do
    let (digits, rest) ← hexDigits? f (match letter with | 'x' => 2 | 'u' => 4 | _ => 8) cs
    let c ← charOfHex? digits
    if letter = 'x' && !f.unicode && !CharClass.isAscii c then none else some (c, rest)

/-- What stands before and after the first place where a text has a mark. -/
def splitAt? (mark : List Char) : List Char → Option (List Char × List Char)
  | [] => none
  | c :: cs =>
    if mark.isPrefixOf (c :: cs) then some ([], (c :: cs).drop mark.length)
    else (splitAt? mark cs).map fun r => (c :: r.1, r.2)

/-- The set of a property such as `L` or `gc=Lu`. The marks `!=`, `:` and `=` divide a name from its
value, and all of them ask for the characters with the value. -/
def property? (body : List Char) : Option CharSet :=
  match splitAt? ['!', '='] body <|> splitAt? [':'] body <|> splitAt? ['='] body with
  | some (name, value) => Property.valueSet? (String.ofList name) (String.ofList value)
  | none => Property.set? (String.ofList body)

/-- The rest of `\pL` or `\p{name}`. -/
def propertyEscape? (f : Flags) (negated : Bool) (cs : List Char) :
    Option (CharSet × List Char) := do
  let (body, rest) ←
    match skip f cs with
    | '\x7b' :: cs => braced? f cs
    | '\\' :: _ => none
    | c :: cs => some ([c], skip f cs)
    | [] => none
  if !f.unicode then none
  else
    let s ← property? body
    some (if negated then (f.close s).compl else f.close s, rest)

/-- The classes of digits, spaces and word characters. -/
def classEscape? (f : Flags) (letter : Char) : Option CharSet :=
  let base? (letter : Char) : Option CharSet :=
    match letter with
    | 'd' => some (if f.unicode then CharSet.digit else CharSet.asciiDigit)
    | 's' => some (if f.unicode then CharSet.space else CharSet.asciiSpace)
    | 'w' => some (if f.unicode then CharSet.word else CharSet.asciiWord)
    | _ => none
  match base? letter with
  | some s => some s
  | none => (base? letter.toLower).bind f.complement?

/-- The boundary named in braces after `\b`. -/
def boundaryName? (name : List Char) : Option Boundary :=
  match String.ofList name with
  | "start" => some .start
  | "end" => some .stop
  | "start-half" => some .startHalf
  | "end-half" => some .stopHalf
  | _ => none

def isBoundaryChar (c : Char) : Bool := c.isAlpha || c == '-'

/-- The rest of `\b`: a name in braces, unless the braces hold a repetition count. -/
def boundary? (f : Flags) (cs : List Char) : Option (Boundary × List Char) :=
  match cs with
  | '\x7b' :: body =>
    match skip f body with
    | [] => none
    | c :: body =>
      if isBoundaryChar c then do
        let (name, rest) ← braced? f (c :: body)
        return (← boundaryName? name, rest)
      else some (.either, cs)
  | cs => some (.either, cs)

/-- Letters that stand for one character. -/
def control? (letter : Char) : Option Char :=
  match letter with
  | 'a' => some '\x07'
  | 'f' => some '\x0c'
  | 't' => some '\t'
  | 'n' => some '\n'
  | 'r' => some '\r'
  | 'v' => some '\x0b'
  | _ => none

/-- The rest of an escape, after its backslash. -/
def escape? (f : Flags) : List Char → Option (Atom × List Char)
  | [] => none
  | c :: cs =>
    match c with
    | 'x' | 'u' | 'U' => (hex? f c cs).map fun r => (.char r.1, r.2)
    | 'p' => (propertyEscape? f false cs).map fun r => (.set r.1, r.2)
    | 'P' => (propertyEscape? f true cs).map fun r => (.set r.1, r.2)
    | 'd' | 's' | 'w' | 'D' | 'S' | 'W' => (classEscape? f c).map fun s => (.set s, cs)
    | 'A' => some (.look .textStart, cs)
    | 'z' => some (.look .textEnd, cs)
    | 'b' => (boundary? f cs).map fun r => (.look (.boundary r.1 f.unicode), r.2)
    | 'B' => some (.look (.boundary .neither f.unicode), cs)
    | '<' => some (.look (.boundary .start f.unicode), cs)
    | '>' => some (.look (.boundary .stop f.unicode), cs)
    | c =>
      if isEscapable c then some (.char c, cs) else (control? c).map fun d => (.char d, cs)

/-! ### Bracket expressions -/

/-- The operations on sets in brackets. -/
inductive SetOp
  | inter
  | diff
  | symDiff

/-- What brackets hold: a set, and how deep its text is nested. -/
structure Held where
  set : CharSet
  depth : Nat := 0

/-- Members that stand side by side. -/
structure Members where
  set : CharSet := CharSet.none
  count : Nat := 0
  depth : Nat := 0

def Members.add (ms : Members) (h : Held) : Members :=
  { set := ms.set.union h.set, count := ms.count + 1, depth := max ms.depth h.depth }

/-- The members together. Two or more of them are one level deeper than each. -/
def Members.held (ms : Members) : Held := ⟨ms.set, if ms.count < 2 then ms.depth else ms.depth + 1⟩

def SetOp.apply (f : Flags) (op : SetOp) (a b : Held) : Held :=
  let lhs := f.close a.set
  let rhs := f.close b.set
  let set :=
    match op with
    | .inter => lhs.inter rhs
    | .diff => lhs.diff rhs
    | .symDiff => lhs.symDiff rhs
  ⟨set, max a.depth b.depth + 1⟩

/-- The members with a pending operation carried out. -/
def applyOp (f : Flags) (pending : Option (SetOp × Held)) (ms : Members) : Held :=
  match pending with
  | none => ms.held
  | some (op, lhs) => op.apply f lhs ms.held

/-- A named class such as `[:alpha:]`, after its first bracket: its name, and whether it is
negated. -/
def namedClass? (cs : List Char) : Option (CharSet × Bool × List Char) :=
  match cs with
  | ':' :: cs =>
    let (negated, cs) :=
      match cs with
      | '^' :: cs => (true, cs)
      | cs => (false, cs)
    match cs.span (· ≠ ':') with
    | (name, ':' :: ']' :: rest) =>
      (CharSet.named? (String.ofList name)).map fun s => (s, negated, rest)
    | _ => none
  | _ => none

/-- A set closed under the modes, or its complement. -/
def closed? (f : Flags) (negated : Bool) (s : CharSet) : Option CharSet :=
  if negated then f.complement? (f.close s) else some (f.close s)

def member? (f : Flags) : List Char → Option (Atom × List Char)
  | [] => none
  | '\\' :: cs => escape? f cs
  | c :: cs => some (.char c, cs)

/-- A character can be a member; without Unicode, only one of the first 128. -/
def isMemberChar (f : Flags) (c : Char) : Bool := f.unicode || CharClass.isAscii c

/-- The next character that is not blank and does not open a comment. Inside a comment it is the
first character that is not blank. -/
def peekSpace (comment : Bool) : List Char → Option Char
  | [] => none
  | c :: cs =>
    if CharClass.isWhiteSpace c then peekSpace comment cs
    else if !comment && c = '#' then peekSpace true cs
    else some c

/-- The character that decides whether a dash starts a range. -/
def peek (f : Flags) (cs : List Char) : Option Char :=
  if f.ignoreSpace then peekSpace false cs else cs.head?

/-- A member or a range of a bracket expression. -/
def range? (f : Flags) (cs : List Char) : Option (CharSet × List Char) := do
  let (first, rest) ← member? f cs
  let rest := skip f rest
  let alone : Option (CharSet × List Char) :=
    match first with
    | .char c => if isMemberChar f c then some (.char c, rest) else none
    | .set s => some (s, rest)
    | .look _ => none
  match rest with
  | [] => none
  | '-' :: after =>
    if peek f after = some ']' ∨ peek f after = some '-' then alone
    else
      match first, ← member? f (skip f after) with
      | .char lo, (.char hi, rest) =>
        if isMemberChar f lo && isMemberChar f hi && lo ≤ hi then some (.range lo hi, rest)
        else none
      | _, _ => none
  | _ => alone

/-- The dashes, and the bracket, that count as members right after the opening. -/
def leadingMembers? (f : Flags) (fuel : Nat) (ms : Members) (cs : List Char) :
    Option (Members × List Char) :=
  match fuel, cs with
  | fuel + 1, '-' :: cs => leadingMembers? f fuel (ms.add ⟨.char '-', 0⟩) (skip f cs)
  | _, ']' :: cs =>
    if ms.count = 0 then some (ms.add ⟨.char ']', 0⟩, skip f cs) else some (ms, ']' :: cs)
  | _, [] => none
  | _, cs => some (ms, cs)

mutual

/-- A bracket expression, after its opening bracket. -/
def bracket? (fuel : Nat) (f : Flags) (cs : List Char) : Option (Held × List Char) :=
  match fuel with
  | 0 => none
  | fuel + 1 => do
    let (negated, cs) :=
      match skip f cs with
      | '^' :: cs => (true, skip f cs)
      | cs => (false, cs)
    let (first, cs) ← leadingMembers? f cs.length {} cs
    let (held, rest) ← members? fuel f none first cs
    return (⟨← closed? f negated held.set, held.depth + 1⟩, rest)
termination_by structural fuel

/-- The members up to the closing bracket, joined to those already read. -/
def members? (fuel : Nat) (f : Flags) (pending : Option (SetOp × Held)) (ms : Members)
    (cs : List Char) : Option (Held × List Char) :=
  match fuel with
  | 0 => none
  | fuel + 1 =>
    match skip f cs with
    | [] => none
    | ']' :: cs => some (applyOp f pending ms, cs)
    | '[' :: cs =>
      match namedClass? cs with
      | some (s, negated, rest) => do
        members? fuel f pending (ms.add ⟨← closed? f negated s, 0⟩) rest
      | none => do
        let (held, rest) ← bracket? fuel f cs
        members? fuel f pending (ms.add held) rest
    | '&' :: '&' :: cs => members? fuel f (some (.inter, applyOp f pending ms)) {} cs
    | '-' :: '-' :: cs => members? fuel f (some (.diff, applyOp f pending ms)) {} cs
    | '~' :: '~' :: cs => members? fuel f (some (.symDiff, applyOp f pending ms)) {} cs
    | cs => do
      let (s, rest) ← range? f cs
      members? fuel f pending (ms.add ⟨s, 0⟩) rest
termination_by structural fuel

end

/-! ### Repetition -/

def countLimit : Nat := pow2 32 - 1

/-- The digits at the start and what follows them. In a pattern that ignores blanks and comments
they are dropped, and `comment` says that one is open. -/
def digits (ignoreSpace comment : Bool) : List Char → List Char × List Char
  | [] => ([], [])
  | c :: cs =>
    if comment then digits ignoreSpace (c ≠ '\n') cs
    else if ignoreSpace && CharClass.isWhiteSpace c then digits ignoreSpace false cs
    else if ignoreSpace && c = '#' then digits ignoreSpace true cs
    else if c.isDigit then
      let (ds, rest) := digits ignoreSpace false cs
      (c :: ds, rest)
    else ([], c :: cs)

/-- A decimal count, with blanks around it. -/
def count? (f : Flags) (cs : List Char) : Option (Nat × List Char) := do
  let (ds, rest) := digits f.ignoreSpace false (cs.dropWhile CharClass.isWhiteSpace)
  let n ← Numeral.nat? ds
  if n ≤ countLimit then some (n, rest.dropWhile CharClass.isWhiteSpace) else none

/-- The least and the greatest count of `{n}`, `{n,}` or `{n,m}`, after the opening brace. -/
def counts? (f : Flags) (cs : List Char) : Option ((Nat × Option Nat) × List Char) := do
  let (least, cs) ← count? f (skip f cs)
  match cs with
  | '\x7d' :: cs => some ((least, some least), cs)
  | ',' :: cs =>
    match skip f cs with
    | '\x7d' :: cs => some ((least, none), cs)
    | cs =>
      match ← count? f cs with
      | (most, '\x7d' :: cs) => if least ≤ most then some ((least, some most), cs) else none
      | _ => none
  | _ => none

/-! ### Groups -/

/-- The modes before `:` or `)`, and the letters they were switched with, last first. -/
def switches? (f : Flags) (seen : List Char) : List Char → Option (Flags × List Char × List Char)
  | [] => none
  | c :: cs =>
    if c = ')' ∨ c = ':' then
      if seen.head? = some '-' then none else some (f, seen, c :: cs)
    else if seen.contains c then none
    else if c = '-' then switches? f ('-' :: seen) cs
    else
      match f.set? c (!seen.contains '-') with
      | some f => switches? f (c :: seen) cs
      | none => none

/-- How a group opens. -/
inductive Opening
  | capture (name : Option String)
  | plain (f : Flags)
  | switch (f : Flags)

/-- A name of a group: a letter or underscore, then letters, digits, underscores, points and
brackets. -/
def isGroupName : List Char → Bool
  | [] => false
  | c :: cs =>
    (c == '_' || CharClass.isAlphabetic c) &&
      cs.all fun c => c == '_' || c == '.' || c == '[' || c == ']' || CharClass.isAlphanumeric c

/-- The name of a group, up to its closing angle bracket. -/
def groupName? (cs : List Char) : Option (Opening × List Char) :=
  match cs.span (· ≠ '>') with
  | (name, _ :: rest) =>
    if isGroupName name then some (.capture (some (String.ofList name)), rest) else none
  | (_, []) => none

/-- How a group opens, after its parenthesis. -/
def opening? (f : Flags) (cs : List Char) : Option (Opening × List Char) :=
  match skip f cs with
  | '?' :: '=' :: _ | '?' :: '!' :: _ | '?' :: '<' :: '=' :: _ | '?' :: '<' :: '!' :: _ => none
  | '?' :: 'P' :: '<' :: cs | '?' :: '<' :: cs => groupName? cs
  | '?' :: cs =>
    match switches? f [] cs with
    | some (f, seen, ')' :: rest) => if seen = [] then none else some (.switch f, rest)
    | some (f, _, ':' :: rest) => some (.plain f, rest)
    | _ => none
  | cs => some (.capture none, cs)

/-- A part of a pattern: its tree, how deep its text is nested, and whether it can be repeated. -/
structure Part where
  node : Node
  depth : Nat := 0
  repeats : Bool := true

namespace Part

def deepest (ps : List Part) : Nat := ps.foldl (fun d p => max d p.depth) 0

/-- Parts in a row. Two or more of them are one level deeper than each. -/
def seq : List Part → Part
  | [] => ⟨.empty, 0, true⟩
  | [p] => p
  | ps => ⟨Node.seqOf (ps.map (·.node)), deepest ps + 1, true⟩

/-- Parts to choose from. -/
def alt : List Part → Part
  | [] => ⟨.empty, 0, true⟩
  | [p] => p
  | ps => ⟨Node.altOf (ps.map (·.node)), deepest ps + 1, true⟩

/-- A part in parentheses. -/
def group (index : Option Nat) (p : Part) : Part :=
  match index with
  | none => ⟨p.node, p.depth + 1, true⟩
  | some i => ⟨.group i p.node, p.depth + 1, true⟩

end Part

/-- What surrounds an open group: the modes, branches and items to go on with after it. -/
structure Level where
  group : Option Nat
  flags : Flags
  branches : List Part
  items : List Part

/-- A pattern in the course of being read. Branches and items are in reverse. -/
structure State where
  flags : Flags
  branches : List Part := []
  items : List Part := []
  levels : List Level := []
  groups : Nat := 0
  names : List (String × Nat) := []

namespace State

def pushPart (s : State) (p : Part) : State := { s with items := p :: s.items }

def push (s : State) (n : Node) : State := s.pushPart ⟨n, 0, true⟩

/-- The pattern of the innermost open group. -/
def body (s : State) : Part := Part.alt (Part.seq s.items.reverse :: s.branches).reverse

def enter (s : State) (group : Option Nat) (f : Flags) : State :=
  { s with
    flags := f
    branches := []
    items := []
    levels := ⟨group, s.flags, s.branches, s.items⟩ :: s.levels }

def open? (s : State) : Opening → Option State
  | .capture name =>
    let index := s.groups + 1
    let s := { s with groups := index }
    match name with
    | none => some (s.enter (some index) s.flags)
    | some name =>
      if (s.names.lookup name).isSome then none
      else some ({ s with names := (name, index) :: s.names }.enter (some index) s.flags)
  | .plain f => some (s.enter none f)
  | .switch f => some ({ s with flags := f }.pushPart ⟨.empty, 0, false⟩)

def close? (s : State) : Option State :=
  match s.levels with
  | [] => none
  | l :: ls =>
    some { s with
      flags := l.flags
      branches := l.branches
      items := s.body.group l.group :: l.items
      levels := ls }

def branch (s : State) : State :=
  { s with branches := Part.seq s.items.reverse :: s.branches, items := [] }

/-- Repeats the last item, which must be something that can repeat. -/
def repeat? (s : State) (least : Nat) (most : Option Nat) (greedy : Bool) : Option State :=
  match s.items with
  | [] => none
  | p :: ps =>
    if p.repeats then
      let node := Node.repOf least most (greedy != s.flags.swapGreed) p.node
      some { s with items := ⟨node, p.depth + 1, true⟩ :: ps }
    else none

end State

/-- Whether a repetition is greedy, and what follows its mark. -/
def greed (cs : List Char) : Bool × List Char :=
  match cs with
  | '?' :: cs => (false, cs)
  | cs => (true, cs)

/-- The condition that `^` stands for. -/
def lineStart (f : Flags) : Look := if f.multiLine then .lineStart f.crlf else .textStart

/-- The condition that `$` stands for. -/
def lineEnd (f : Flags) : Look := if f.multiLine then .lineEnd f.crlf else .textEnd

def step? (s : State) (c : Char) (cs : List Char) : Option (State × List Char) :=
  let repeated (least : Nat) (most : Option Nat) (cs : List Char) : Option (State × List Char) :=
    let (greedy, rest) := greed cs
    (s.repeat? least most greedy).map fun s => (s, rest)
  match c with
  | '(' => do
    let (o, rest) ← opening? s.flags cs
    return (← s.open? o, rest)
  | ')' => s.close?.map fun s => (s, cs)
  | '|' => some (s.branch, cs)
  | '[' =>
    (bracket? (2 * cs.length + 2) s.flags cs).map fun r =>
      (s.pushPart ⟨Node.ofSet r.1.set, r.1.depth, true⟩, r.2)
  | '?' => repeated 0 (some 1) cs
  | '*' => repeated 0 none cs
  | '+' => repeated 1 none cs
  | '\x7b' => do
    let ((least, most), rest) ← counts? s.flags cs
    repeated least most (skip s.flags rest)
  | '.' => s.flags.dot?.map fun d => (s.push (Node.ofSet d), cs)
  | '^' => some (s.push (.look (lineStart s.flags)), cs)
  | '$' => some (s.push (.look (lineEnd s.flags)), cs)
  | '\\' => do
    let (atom, rest) ← escape? s.flags cs
    match atom with
    | .char c => some (s.push (Node.ofSet (s.flags.literal c)), rest)
    | .set t => some (s.push (Node.ofSet t), rest)
    | .look l => some (s.push (.look l), rest)
  | c => some (s.push (Node.ofSet (s.flags.literal c)), cs)

/-- Reads the elements of a pattern to its end. -/
def steps? : Nat → State → List Char → Option State
  | 0, s, cs => if skip s.flags cs = [] then some s else none
  | fuel + 1, s, cs =>
    match skip s.flags cs with
    | [] => some s
    | c :: cs =>
      match step? s c cs with
      | some (s, rest) => steps? fuel s rest
      | none => none

end Parser

def nestingLimit : Nat := 250

/-- A pattern that was read: its tree, its groups and their names. -/
structure Pattern where
  node : Node
  names : List (String × Nat)

def parse? (text : String) (ignoreCase : Bool) : Option Pattern := do
  let cs := text.toList
  let s ← Parser.steps? cs.length { flags := { ignoreCase } } cs
  let part := s.body
  if s.levels.isEmpty ∧ part.depth ≤ nestingLimit then some ⟨part.node, s.names⟩ else none

end Regex

end SqlCode
