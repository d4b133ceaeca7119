import SqlCode.Regex.Encoding
import SqlCode.Regex.Node

/-!
# The size of an automaton

A pattern is only used if its automaton on bytes is small enough, read forwards and read backwards.
This module counts the states of that automaton and the bytes they take: every state takes 32, an
arrow of a state with several arrows 8, and a successor of a choice 4.

The states of a set share what they have in common. What can be shared is looked up in a table
with a fixed number of places, in which a later entry replaces an earlier one in the same place.
The place of an entry depends on the numbers of states, and so the count follows the order in which
states are made.
-/

namespace SqlCode

namespace Regex

/-- The states of an automaton, counted, and the bytes that they take beyond 32 for each. -/
structure Tally where
  states : Nat := 0
  extra : Nat := 0
deriving DecidableEq, Repr

namespace Tally

/-- The bytes that an automaton may take. -/
def limit : Nat := 10485760

def bytes (t : Tally) : Nat := 32 * t.states + t.extra

/-- Adds states and bytes, as long as the limit is kept. -/
def grow? (t : Tally) (states extra : Nat) : Option Tally :=
  let t : Tally := ⟨t.states + states, t.extra + extra⟩
  if t.bytes ≤ limit then some t else none

end Tally

/-! ### Sharing -/

/-- An arrow of a state: the bytes that it reads and the state that it leads to. -/
structure Arrow where
  lo : Nat
  hi : Nat
  target : Nat
deriving DecidableEq, Repr

/-- A mixture of numbers, for finding the place of an entry. -/
def mix (ns : List Nat) : UInt64 :=
  ns.foldl (fun h n => (h ^^^ n.toUInt64) * 1099511628211) 14695981039346656037

/-- A table with a fixed number of places for entries: what a state is made of, and its number. -/
structure Shared (α : Type) where
  places : Array (Option (α × Nat))

namespace Shared

variable {α : Type} [DecidableEq α]

def empty (size : Nat) : Shared α := ⟨Array.replicate size none⟩

def place (s : Shared α) (key : List Nat) : Nat := (mix key).toNat % s.places.size

def get? (s : Shared α) (place : Nat) (a : α) : Option Nat :=
  match s.places[place]? with
  | some (some (b, id)) => if a = b then some id else none
  | _ => none

def put (s : Shared α) (place : Nat) (a : α) (id : Nat) : Shared α :=
  ⟨s.places.setIfInBounds place (some (a, id))⟩

end Shared

/-! ### Sets read forwards

The sequences of a set come in ascending order. States at the end of a sequence are made as soon as
the next sequence has left them, and equal states are made once. -/

/-- A state that is not made yet: its arrows so far, last one first, and the bytes of the arrow that
is still being followed. -/
structure Unmade where
  arrows : List Arrow := []
  following : Option Encoding.ByteRange := none

/-- The state with the arrow that was followed leading to a state. -/
def Unmade.arrive (u : Unmade) (target : Nat) : Unmade :=
  match u.following with
  | some (lo, hi) => { arrows := ⟨lo, hi, target⟩ :: u.arrows }
  | none => u

/-- A set in the course of being counted. The states that are not made yet are in order from the
last one to the first. -/
structure Forward where
  tally : Tally
  shared : Shared (List Arrow)
  unmade : List Unmade

namespace Forward

/-- Makes a state, unless there is an equal one. -/
def make? (f : Forward) (arrows : List Arrow) : Option (Nat × Forward) :=
  let place := f.shared.place (arrows.reverse.flatMap fun a => [a.lo, a.hi, a.target])
  match f.shared.get? place arrows with
  | some id => some (id, f)
  | none => do
    let id := f.tally.states
    let tally ← f.tally.grow? 1 (8 * arrows.length)
    return (id, { f with tally, shared := f.shared.put place arrows id })

/-- Makes as many of the last states as given, which end at `target`, and lets the one before arrive
there. -/
def leave? (target : Nat) : Nat → Forward → Option Forward
  | 0, f =>
    match f.unmade with
    | u :: us => some { f with unmade := u.arrive target :: us }
    | [] => some f
  | count + 1, f =>
    match f.unmade with
    | u :: us => do
      let (id, f) ← { f with unmade := us }.make? (u.arrive target).arrows
      leave? id count f
    | [] => some f

/-- The number of ranges that are being followed already. -/
def shared? : List Encoding.ByteRange → List Unmade → Nat
  | r :: rs, u :: us => if u.following = some r then shared? rs us + 1 else 0
  | _, _ => 0

def add? (target : Nat) (f : Forward) (sequence : List Encoding.ByteRange) : Option Forward := do
  let common := shared? sequence f.unmade.reverse
  let f ← leave? target (f.unmade.length - (common + 1)) f
  match f.unmade, sequence.drop common with
  | u :: us, r :: rs =>
    let next := rs.map fun r => { following := some r : Unmade }
    return { f with unmade := next.reverse ++ { u with following := some r } :: us }
  | _, _ => return f

end Forward

def forwardSet? (sequences : List (List Encoding.ByteRange)) (t : Tally) : Option Tally := do
  let target := t.states
  let t ← t.grow? 1 0
  let f ← sequences.foldlM (Forward.add? target) ⟨t, Shared.empty 10000, [{}]⟩
  let f ← Forward.leave? target (f.unmade.length - 1) f
  match f.unmade with
  | u :: _ => return (← f.make? u.arrows).2.tally
  | [] => return f.tally

/-! ### Sets read backwards

Read backwards, the sequences of a set end with their first byte. States with the same byte range
and the same successor are made once. -/

/-- A set in the course of being counted: where the sequence has come to. -/
structure Backward where
  tally : Tally
  shared : Shared Arrow
  target : Nat

/-- Adds the state of a byte range, unless there is an equal one. -/
def Backward.step? (b : Backward) (r : Encoding.ByteRange) : Option Backward :=
  let arrow : Arrow := ⟨r.1, r.2, b.target⟩
  let place := b.shared.place [b.target, r.1, r.2]
  match b.shared.get? place arrow with
  | some id => some { b with target := id }
  | none => do
    let id := b.tally.states
    let tally ← b.tally.grow? 1 0
    return { tally, shared := b.shared.put place arrow id, target := id }

def backwardSet? (sequences : List (List Encoding.ByteRange)) (t : Tally) : Option Tally := do
  let target := t.states + 1
  let t ← t.grow? 2 0
  let b ← sequences.foldlM (fun b sequence => do
    let b ← sequence.foldlM Backward.step? { b with target }
    return { b with tally := ← b.tally.grow? 0 4 }) ⟨t, Shared.empty 1000, target⟩
  return b.tally

/-- Counts a set. A set of ASCII characters is one state and its successor. -/
def CharSet.count? (backwards : Bool) (s : CharSet) (t : Tally) : Option Tally :=
  if s.isAscii then t.grow? 2 (8 * s.ranges.length)
  else if backwards then backwardSet? (Encoding.setSequences s) t
  else forwardSet? (Encoding.setSequences s) t

/-! ### Choices between texts -/

/-- Texts in order, divided where one of them ends: what follows before each end, and after the
last. -/
def divide : List (List Nat) → List (List (Nat × List Nat))
  | [] => [[]]
  | [] :: rest => [] :: divide rest
  | (b :: bs) :: rest =>
    match divide rest with
    | part :: parts => ((b, bs) :: part) :: parts
    | [] => [[(b, bs)]]

/-- Texts in order, divided where one of them ends. Ends before anything follows are one. -/
def divisions (texts : List (List Nat)) : List (List (Nat × List Nat)) :=
  match texts with
  | [] :: rest => [] :: divide (rest.dropWhile (·.isEmpty))
  | texts => divide texts

/-- Counts the states for texts that start in the same state. The number bounds their lengths. -/
def countTexts : Nat → List (List Nat) → Tally
  | 0, _ => {}
  | fuel + 1, texts =>
    let parts := divisions texts
    let taken := (parts.filter (!·.isEmpty)).length
    let choice : Tally := ⟨1, 4 * (taken + (parts.length - 1))⟩
    parts.foldl (fun (t : Tally) (part : List (Nat × List Nat)) =>
      let firsts := (part.map (·.1)).eraseDups
      let arrows := if firsts.length < 2 then 0 else 8 * firsts.length
      let here : Tally := if firsts.isEmpty then t else ⟨t.states + 1, t.extra + arrows⟩
      firsts.foldl (fun t b =>
        let rest := (part.filter (·.1 == b)).map (·.2)
        if rest.all (·.isEmpty) then t
        else
          let below := countTexts fuel rest
          ⟨t.states + below.states, t.extra + below.extra⟩) here) choice

def textsTally (texts : List (List Nat)) : Tally :=
  let t := countTexts (texts.foldl (fun n bs => max n bs.length) 0 + 1) texts
  ⟨t.states + 1, t.extra⟩

/-! ### Patterns -/

namespace Node

/-- Adds the successor of a state that takes place for it. -/
def link? (isChoice : Bool) (t : Tally) : Option Tally :=
  if isChoice then t.grow? 0 4 else some t

/-- Counts copies in a row after a first part. -/
def copies? (count? : Tally → Option (Bool × Tally)) :
    Nat → Bool → Tally → Option (Bool × Tally)
  | 0, isChoice, t => some (isChoice, t)
  | n + 1, isChoice, t => do
    let (next, t) ← count? t
    copies? count? n next (← link? isChoice t)

/-- Counts the given number of copies; without any, a state that does nothing. -/
def exactly? (count? : Tally → Option (Bool × Tally)) (n : Nat) (t : Tally) :
    Option (Bool × Tally) :=
  match n with
  | 0 => do return (false, ← t.grow? 1 0)
  | n + 1 => do
    let (isChoice, t) ← count? t
    copies? count? n isChoice t

/-- Counts copies that can be left before each. -/
def optional? (count? : Tally → Option (Bool × Tally)) : Nat → Bool → Tally → Option Tally
  | 0, isChoice, t => link? isChoice t
  | n + 1, isChoice, t => do
    let (next, t) ← count? (← t.grow? 1 0)
    optional? count? n next (← (← link? isChoice t).grow? 0 8)

/-- Counts a repetition whose body is counted by `count?`. -/
def repetition? (count? : Tally → Option (Bool × Tally)) (consumes : Bool) (least : Nat)
    (most : Option Nat) (t : Tally) : Option (Bool × Tally) :=
  match least, most with
  | 0, some 1 => do
    let (isChoice, t) ← count? (← t.grow? 1 0)
    return (false, ← link? isChoice (← t.grow? 1 8))
  | 0, none =>
    if consumes then do
      let (isChoice, t) ← count? (← t.grow? 1 0)
      return (true, ← link? isChoice (← t.grow? 0 4))
    else do
      let (isChoice, t) ← count? t
      return (false, ← link? isChoice (← t.grow? 3 16))
  | 1, none => do
    let (isChoice, t) ← count? t
    return (true, ← link? isChoice (← t.grow? 1 4))
  | least, none => do
    let (isChoice, t) ← exactly? count? least t
    return (true, ← link? isChoice (← t.grow? 1 4))
  | least, some most =>
    if least = most then exactly? count? least t
    else do
      let (isChoice, t) ← exactly? count? least t
      return (false, ← optional? count? (most - least) isChoice (← t.grow? 1 0))

def textBytes? : Node → Option (List Nat)
  | .literal cs => some (Encoding.textBytes cs)
  | _ => none

mutual

/-- Counts the states of a pattern. The result says whether its last state is a choice, which takes
place for its successor. -/
def count? (backwards : Bool) : Node → Tally → Option (Bool × Tally)
  | .empty, t | .look _, t => do return (false, ← t.grow? 1 0)
  | .literal cs, t => do return (false, ← t.grow? (textLength cs) 0)
  | .set s, t => do return (false, ← s.count? backwards t)
  | .group _ body, t =>
    if backwards then count? backwards body t
    else do
      let (isChoice, t) ← count? backwards body (← t.grow? 1 0)
      return (false, ← link? isChoice (← t.grow? 1 0))
  | .seq items, t =>
    if backwards then countBack? backwards items t else countSeq? backwards false items t
  | .alt branches, t =>
    match branches.mapM textBytes? with
    | some texts =>
      let texts := textsTally (if backwards then texts.map List.reverse else texts)
      (t.grow? texts.states texts.extra).map fun t => (false, t)
    | none => (countAlt? backwards 0 branches t).map fun t => (false, t)
  | .rep least most _ body, t => repetition? (count? backwards body) (consumes body) least most t
termination_by structural n => n

/-- Counts the items of a sequence from the first to the last. -/
def countSeq? (backwards isChoice : Bool) : List Node → Tally → Option (Bool × Tally)
  | [], t => some (isChoice, t)
  | n :: ns, t => do
    let (next, t) ← count? backwards n t
    countSeq? backwards next ns (← link? isChoice t)
termination_by structural ns => ns

/-- Counts the items of a sequence from the last to the first. -/
def countBack? (backwards : Bool) : List Node → Tally → Option (Bool × Tally)
  | [], t => some (false, t)
  | n :: ns, t => do
    let (isChoice, t) ← countBack? backwards ns t
    let (next, t) ← count? backwards n t
    return (next, ← link? isChoice t)
termination_by structural ns => ns

/-- Counts the branches of a choice. The choice itself and its end come after two of them. -/
def countAlt? (backwards : Bool) (before : Nat) : List Node → Tally → Option Tally
  | [], t => some t
  | n :: ns, t => do
    let (isChoice, t) ← count? backwards n t
    let t ← t.grow? (if before = 1 then 2 else 0) 4
    countAlt? backwards (before + 1) ns (← link? isChoice t)
termination_by structural ns => ns

end

/-- A choice between so many texts is searched for without an automaton. -/
def isDictionary : Node → Bool
  | .alt branches => 3000 ≤ branches.length && (branches.mapM textBytes?).isSome
  | _ => false

/-- The automaton that is read forwards: it can start anywhere unless the pattern is bound to the
start of the text, and it marks the match and its end. -/
def forwards? (n : Node) : Option Tally := do
  let anchored := n.startsWith .textStart
  let t ← if anchored then ({} : Tally).grow? 1 0 else ({} : Tally).grow? 3 12
  let (isChoice, t) ← count? false n (← t.grow? 1 0)
  let t ← link? isChoice (← t.grow? 2 0)
  if anchored then some t else t.grow? 0 4

def backwards? (n : Node) : Option Tally := do
  let anchored := n.endsWith .textEnd
  let t ← if anchored then ({} : Tally).grow? 1 0 else ({} : Tally).grow? 3 12
  let (isChoice, t) ← count? true n t
  let t ← link? isChoice (← t.grow? 1 0)
  if anchored then some t else t.grow? 0 4

def fits (n : Node) : Bool := n.isDictionary || (n.forwards?.isSome && n.backwards?.isSome)

end Node

end Regex

end SqlCode
