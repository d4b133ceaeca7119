import SqlCode.Regex.Node

/-!
# Programs of patterns

A pattern compiles to a program whose instructions name their successors. A choice lists its
successors in order of preference, so the order in which a search tries them decides which match
is found.
-/

namespace SqlCode

namespace Regex

/-- An instruction. `save` records the position in a numbered place. -/
inductive Inst
  | set (s : CharSet) (next : Nat)
  | look (l : Look) (next : Nat)
  | save (place : Nat) (next : Nat)
  | split (choices : List Nat)
  | done
deriving Repr

abbrev Program := Array Inst

namespace Program

def emit (p : Program) (i : Inst) : Nat × Program := (p.size, p.push i)

/-- The choices of a repetition: to go on with the body or to leave. -/
def loopChoices (greedy : Bool) (body next : Nat) : List Nat :=
  if greedy then [body, next] else [next, body]

/-- Applies a compilation `count` times, each copy before the last one. -/
def copies (compile : Nat → Program → Nat × Program) :
    Nat → Nat → Program → Nat × Program
  | 0, next, p => (next, p)
  | count + 1, next, p =>
    let (entry, p) := compile next p
    copies compile count entry p

/-- Up to `count` copies, each of which can be left for `exit`. -/
def optionalCopies (greedy : Bool) (compile : Nat → Program → Nat × Program) (exit : Nat) :
    Nat → Nat → Program → Nat × Program
  | 0, next, p => (next, p)
  | count + 1, next, p =>
    let (entry, p) := compile next p
    let (choice, p) := p.emit (.split (loopChoices greedy entry exit))
    optionalCopies greedy compile exit count choice p

/-- At least one copy: after the body, either the body again or on to `next`. -/
def onceOrMore (greedy : Bool) (compile : Nat → Program → Nat × Program) (next : Nat)
    (p : Program) : Nat × Program :=
  let (choice, p) := p.emit (.split [])
  let (entry, p) := compile choice p
  (entry, p.setIfInBounds choice (.split (loopChoices greedy entry next)))

/-- Any number of copies. A body that may match the empty text gets a choice of its own before
the loop, so that the preference between an empty pass and leaving is kept. -/
def anyTimes (greedy consumes : Bool) (compile : Nat → Program → Nat × Program) (next : Nat)
    (p : Program) : Nat × Program :=
  if consumes then
    let (choice, p) := p.emit (.split [])
    let (entry, p) := compile choice p
    (choice, p.setIfInBounds choice (.split (loopChoices greedy entry next)))
  else
    let (entry, p) := onceOrMore greedy compile next p
    p.emit (.split (loopChoices greedy entry next))

def text (cs : List Char) (next : Nat) (p : Program) : Nat × Program :=
  cs.foldr (fun c r => r.2.emit (.set (CharSet.char c) r.1)) (next, p)

end Program

mutual

/-- Adds the instructions of a pattern that goes on at `next`, and gives its entry. -/
def Node.compile : Node → Nat → Program → Nat × Program
  | .empty, next, p => (next, p)
  | .literal cs, next, p => Program.text cs next p
  | .set s, next, p => p.emit (.set s next)
  | .look l, next, p => p.emit (.look l next)
  | .group i body, next, p =>
    let (stop, p) := p.emit (.save (2 * i + 1) next)
    let (entry, p) := Node.compile body stop p
    p.emit (.save (2 * i) entry)
  | .seq items, next, p => Node.compileSeq items next p
  | .alt branches, next, p =>
    let (entries, p) := Node.compileAlt branches next p
    p.emit (.split entries)
  | .rep least none greedy body, next, p =>
    match least with
    | 0 => Program.anyTimes greedy (Node.consumes body) (Node.compile body) next p
    | least + 1 =>
      let (entry, p) := Program.onceOrMore greedy (Node.compile body) next p
      Program.copies (Node.compile body) least entry p
  | .rep least (some most) greedy body, next, p =>
    let (entry, p) :=
      Program.optionalCopies greedy (Node.compile body) next (most - least) next p
    Program.copies (Node.compile body) least entry p
termination_by structural n => n

def Node.compileSeq : List Node → Nat → Program → Nat × Program
  | [], next, p => (next, p)
  | n :: ns, next, p =>
    let (entry, p) := Node.compileSeq ns next p
    Node.compile n entry p
termination_by structural ns => ns

def Node.compileAlt : List Node → Nat → Program → List Nat × Program
  | [], _, p => ([], p)
  | n :: ns, next, p =>
    let (entry, p) := Node.compile n next p
    let (entries, p) := Node.compileAlt ns next p
    (entry :: entries, p)
termination_by structural ns => ns

end

end Regex

end SqlCode
