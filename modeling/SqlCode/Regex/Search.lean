import SqlCode.Regex.Automaton
import SqlCode.Regex.Parser
import SqlCode.Regex.Program

/-!
# Searching

A search tries the starts from left to right and, at each start, the choices of the program in
order of preference. An instruction that was reached at a position before cannot succeed there
now, so it is tried only once at each position, and the number of instructions times the number of
positions bounds the search.
-/

namespace SqlCode

namespace Regex

/-- Why a pattern cannot be used. -/
inductive PatternError
  | malformed
  | tooLarge
deriving DecidableEq, Repr

def PatternError.message : PatternError → String
  | .malformed => "regex"
  | .tooLarge => "Compiled regex exceeds size limit of 10485760 bytes."

/-- A pattern that is ready for searching. -/
structure Matcher where
  program : Program
  start : Nat
  names : List (String × Nat)

def Matcher.compile (text : String) (ignoreCase : Bool) : Except PatternError Matcher :=
  match parse? text ignoreCase with
  | none => .error .malformed
  | some pattern =>
    if pattern.node.fits then
      let (start, program) := pattern.node.compile 0 #[.done]
      .ok ⟨program, start, pattern.names⟩
    else .error .tooLarge

namespace Look

def before? (text : Array Char) (pos : Nat) : Option Char :=
  if pos = 0 then none else text[pos - 1]?

/-- A word character stands at this place. -/
def isWordAt (unicode : Bool) (c : Option Char) : Bool :=
  c.any fun c =>
    if unicode then CharClass.isWord c else CharSet.asciiWord.contains c

def holds (l : Look) (text : Array Char) (pos : Nat) : Bool :=
  let before := before? text pos
  let after := text[pos]?
  match l with
  | .textStart => pos == 0
  | .textEnd => pos == text.size
  | .lineStart false => before.all (· == '\n')
  | .lineStart true =>
    before.all fun c => c == '\n' || (c == '\r' && after != some '\n')
  | .lineEnd false => after.all (· == '\n')
  | .lineEnd true =>
    after.all fun c => c == '\r' || (c == '\n' && before != some '\r')
  | .boundary kind unicode =>
    let b := isWordAt unicode before
    let a := isWordAt unicode after
    match kind with
    | .either => b != a
    | .neither => b == a
    | .start => !b && a
    | .stop => b && !a
    | .startHalf => !b
    | .stopHalf => !a

end Look

/-- A way through the program: the next instruction, the position, and the saved positions. -/
structure Thread where
  inst : Nat
  pos : Nat
  saved : List (Nat × Nat)

/-- A match: where it starts and stops, and the saved positions, latest first. -/
structure Match where
  start : Nat
  stop : Nat
  saved : List (Nat × Nat)
deriving Repr

namespace Matcher

/-- Where a search marks that an instruction was tried at a position. -/
def mark (text : Array Char) (t : Thread) : Nat := t.inst * (text.size + 1) + t.pos

theorem count_setIfInBounds_lt {tried : Array Bool} {i : Nat} (h : ¬ tried.getD i true = true) :
    (tried.setIfInBounds i true).count false < tried.count false := by
  rw [Array.getD_eq_getD_getElem?] at h
  cases hi : tried[i]? with
  | none => simp [hi] at h
  | some b =>
    obtain ⟨hlt, hget⟩ := Array.getElem?_eq_some_iff.1 hi
    have hb : tried[i] = false := by simpa [hi, hget] using h
    have hpos : 0 < tried.count false := Array.count_pos_iff.2 (hb ▸ Array.getElem_mem hlt)
    rw [Array.setIfInBounds, dif_pos hlt, Array.count_set, hb]
    exact Nat.sub_lt hpos Nat.one_pos

/-- The threads that go on from a thread, most preferred first; `none` when it has arrived. -/
def advance (m : Matcher) (text : Array Char) (t : Thread) : Option (List Thread) :=
  match m.program[t.inst]? with
  | none => some []
  | some .done => none
  | some (.set s next) =>
    match text[t.pos]? with
    | some c => some (if s.contains c then [{ t with inst := next, pos := t.pos + 1 }] else [])
    | none => some []
  | some (.look l next) => some (if l.holds text t.pos then [{ t with inst := next }] else [])
  | some (.save place next) =>
    some [{ t with inst := next, saved := (place, t.pos) :: t.saved }]
  | some (.split choices) => some (choices.map fun c => { t with inst := c })

/-- Follows threads in order of preference until one arrives. Each of them takes a mark or is
dropped. -/
def follow (m : Matcher) (text : Array Char) (tried : Array Bool) :
    List Thread → Option Thread × Array Bool
  | [] => (none, tried)
  | t :: ts =>
    if _h : tried.getD (mark text t) true then follow m text tried ts
    else
      match m.advance text t with
      | none => (some t, tried)
      | some next => follow m text (tried.setIfInBounds (mark text t) true) (next ++ ts)
termination_by ts => (tried.count false, ts.length)
decreasing_by
  · exact Prod.Lex.right _ (Nat.lt_succ_self _)
  · exact Prod.Lex.left _ _ (count_setIfInBounds_lt _h)

/-- The match at the first of the starts that has one. -/
def searchFrom (m : Matcher) (text : Array Char) : List Nat → Array Bool → Option Match
  | [], _ => none
  | start :: starts, tried =>
    match m.follow text tried [⟨m.start, start, []⟩] with
    | (some t, _) => some ⟨start, t.pos, t.saved⟩
    | (none, tried) => searchFrom m text starts tried

/-- The leftmost match that starts at or after a position. -/
def find? (m : Matcher) (text : Array Char) (pos : Nat) : Option Match :=
  m.searchFrom text (List.range' pos (text.size + 1 - pos))
    (Array.replicate (m.program.size * (text.size + 1)) false)

def isMatch (m : Matcher) (s : String) : Bool := (m.find? s.toList.toArray 0).isSome

/-- The matches from a position on, from left to right. An empty match right after the match
before is passed over. -/
def findAllFrom (m : Matcher) (text : Array Char) :
    Nat → Nat → Option Nat → List Match
  | 0, _, _ => []
  | fuel + 1, pos, last =>
    let found :=
      match m.find? text pos with
      | some r =>
        if r.start = r.stop ∧ some r.stop = last then m.find? text (pos + 1) else some r
      | none => none
    match found with
    | some r => r :: findAllFrom m text fuel r.stop (some r.stop)
    | none => []

def findAll (m : Matcher) (text : Array Char) : List Match :=
  m.findAllFrom text (text.size + 2) 0 none

end Matcher

/-- The text of a group; the match itself is group zero. -/
def Match.group? (r : Match) (text : Array Char) (index : Nat) : Option (List Char) :=
  let slice (start stop : Nat) := (text.extract start stop).toList
  if index = 0 then some (slice r.start r.stop)
  else do
    let start ← r.saved.lookup (2 * index)
    let stop ← r.saved.lookup (2 * index + 1)
    return slice start stop

end Regex

end SqlCode
