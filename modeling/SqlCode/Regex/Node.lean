import SqlCode.Regex.CharSet

/-!
# Patterns

The tree of a regular expression. Modes such as case insensitivity are resolved while a pattern
is read, so a tree means the same wherever it stands. Trees are built in a simple form: sequences
have no sequences among their items and neighbouring texts are one text, choices between characters
are sets, what choices start with in common stands before them, and what only matches the empty text
is repeated at most once.
-/

namespace SqlCode

namespace Regex

/-- The sides of a word that a boundary test looks at. -/
inductive Boundary
  | either
  | neither
  | start
  | stop
  | startHalf
  | stopHalf
deriving DecidableEq, Repr

/-- Conditions on a position. -/
inductive Look
  | textStart
  | textEnd
  | lineStart (crlf : Bool)
  | lineEnd (crlf : Bool)
  | boundary (kind : Boundary) (unicode : Bool)
deriving DecidableEq, Repr

inductive Node
  | empty
  | literal (cs : List Char)
  | set (s : CharSet)
  | look (l : Look)
  | group (index : Nat) (body : Node)
  | seq (items : List Node)
  | alt (branches : List Node)
  | rep (least : Nat) (most : Option Nat) (greedy : Bool) (body : Node)
deriving Repr

namespace Node

/-! ### Lengths -/

/-- The number of bytes that encode a code point. -/
def encodedLength (n : Nat) : Nat :=
  if n < 0x80 then 1 else if n < 0x800 then 2 else if n < 0x10000 then 3 else 4

def textLength (cs : List Char) : Nat := cs.foldl (fun n c => n + encodedLength c.toNat) 0

mutual

/-- The number of bytes of the shortest match; none where a part of the pattern matches nothing. -/
def shortest? : Node → Option Nat
  | .empty | .look _ => some 0
  | .literal cs => some (textLength cs)
  | .set s => s.ranges.head?.map fun r => encodedLength r.1
  | .group _ body => shortest? body
  | .seq items => shortestSum? items
  | .alt branches => shortestMin? branches
  | .rep least _ _ body => (shortest? body).map (least * ·)
termination_by structural n => n

def shortestSum? : List Node → Option Nat
  | [] => some 0
  | n :: ns =>
    match shortest? n, shortestSum? ns with
    | some a, some b => some (a + b)
    | _, _ => none
termination_by structural ns => ns

def shortestMin? : List Node → Option Nat
  | [] => none
  | [n] => shortest? n
  | n :: ns =>
    match shortest? n, shortestMin? ns with
    | some a, some b => some (min a b)
    | _, _ => none
termination_by structural ns => ns

end

mutual

/-- The pattern matches the empty text only, if it matches. -/
def onlyEmpty : Node → Bool
  | .empty | .look _ => true
  | .literal cs => cs.isEmpty
  | .set _ => false
  | .group _ body => onlyEmpty body
  | .seq items => allOnlyEmpty items
  | .alt branches => allOnlyEmpty branches
  | .rep _ most _ body => most.isSome && onlyEmpty body
termination_by structural n => n

def allOnlyEmpty : List Node → Bool
  | [] => true
  | n :: ns => onlyEmpty n && allOnlyEmpty ns
termination_by structural ns => ns

end

def consumes (n : Node) : Bool := n.shortest?.any (0 < ·)

/-! ### Anchors -/

mutual

/-- Every match starts where a condition is tested, before any character. -/
def startsWith (l : Look) : Node → Bool
  | .look l' => l = l'
  | .group _ body => startsWith l body
  | .seq items => someStartsWith l items
  | .alt branches => allStartWith l branches
  | .rep least _ _ body => 0 < least && startsWith l body
  | _ => false
termination_by structural n => n

/-- The condition is tested by an item of a sequence, before any character. -/
def someStartsWith (l : Look) : List Node → Bool
  | [] => false
  | n :: ns => startsWith l n || (onlyEmpty n && someStartsWith l ns)
termination_by structural ns => ns

def allStartWith (l : Look) : List Node → Bool
  | [] => true
  | n :: ns => startsWith l n && allStartWith l ns
termination_by structural ns => ns

end

mutual

/-- Every match ends where a condition is tested, after all characters. -/
def endsWith (l : Look) : Node → Bool
  | .look l' => l = l'
  | .group _ body => endsWith l body
  | .seq items => someEndsWith l items
  | .alt branches => allEndWith l branches
  | .rep least _ _ body => 0 < least && endsWith l body
  | _ => false
termination_by structural n => n

/-- The condition is tested by an item of a sequence, after all characters. -/
def someEndsWith (l : Look) : List Node → Bool
  | [] => false
  | n :: ns => (endsWith l n && allOnlyEmpty ns) || someEndsWith l ns
termination_by structural ns => ns

def allEndWith (l : Look) : List Node → Bool
  | [] => true
  | n :: ns => endsWith l n && allEndWith l ns
termination_by structural ns => ns

end

/-! ### Equality -/

mutual

def same : Node → Node → Bool
  | .empty, .empty => true
  | .literal a, .literal b => a == b
  | .set a, .set b => a == b
  | .look a, .look b => a == b
  | .group i a, .group j b => i == j && same a b
  | .seq as, .seq bs => sameAll as bs
  | .alt as, .alt bs => sameAll as bs
  | .rep l m g a, .rep l' m' g' b => l == l' && m == m' && g == g' && same a b
  | _, _ => false
termination_by structural n => n

def sameAll : List Node → List Node → Bool
  | [], [] => true
  | a :: as, b :: bs => same a b && sameAll as bs
  | _, _ => false
termination_by structural ns => ns

end

/-! ### Construction -/

/-- A set; of one character, that character. -/
def ofSet (s : CharSet) : Node :=
  match s.single? with
  | some c => .literal [c]
  | none => .set s

/-- The items that a tree contributes to a sequence. -/
def items : Node → List Node
  | .empty => []
  | .seq ns => ns
  | n => [n]

def prepend (n : Node) (ns : List Node) : List Node :=
  match n, ns with
  | .literal a, .literal b :: ns => .literal (a ++ b) :: ns
  | n, ns => n :: ns

/-- A sequence; of one item, that item. -/
def seqOf (ns : List Node) : Node :=
  match (ns.flatMap items).foldr prepend [] with
  | [] => .empty
  | [n] => n
  | ns => .seq ns

/-- The branches that a tree contributes to a choice. -/
def branches : Node → List Node
  | .alt ns => ns
  | n => [n]

/-- The set of the characters that a tree matches, if it is a character. -/
def charSet? : Node → Option CharSet
  | .literal [c] => some (CharSet.char c)
  | _ => none

def set? : Node → Option CharSet
  | .set s => some s
  | _ => none

def seqItems? : Node → Option (List Node)
  | .seq ns => some ns
  | _ => none

def commonItems : List Node → List Node → List Node
  | a :: as, b :: bs => if same a b then a :: commonItems as bs else []
  | _, _ => []

/-- A choice. The number bounds how often a common start is taken out of it; after that nothing more
is in common. -/
def choice : Nat → List Node → Node
  | fuel, ns =>
    match ns.flatMap branches with
    | [] => .set CharSet.none
    | [n] => n
    | n :: ns =>
      match (n :: ns).mapM charSet? with
      | some sets => ofSet (CharSet.unions sets)
      | none =>
        match (n :: ns).mapM set? with
        | some sets => ofSet (CharSet.unions sets)
        | none =>
          match fuel, n.seqItems?, ns.mapM seqItems? with
          | fuel + 1, some first, some rest =>
            let common := rest.foldl commonItems first
            if common.isEmpty then .alt (n :: ns)
            else
              let tails := (first :: rest).map fun is => seqOf (is.drop common.length)
              seqOf (common ++ [choice fuel tails])
          | _, _, _ => .alt (n :: ns)

/-- A choice; of one branch, that branch. -/
def altOf (ns : List Node) : Node := choice ns.length ns

/-- A repetition. What only matches the empty text is repeated at most once. -/
def repOf (least : Nat) (most : Option Nat) (greedy : Bool) (body : Node) : Node :=
  let (least, most) :=
    if onlyEmpty body then (min least 1, some (min (most.getD 1) 1)) else (least, most)
  if most = some 0 then .empty
  else if least = 1 ∧ most = some 1 then body
  else .rep least most greedy body

end Node

end Regex

end SqlCode
