import SqlCode.Json.Basic
import SqlCode.Json.Path

/-!
# Selecting and removing

What a path selects in a document, and the document without it.
-/

namespace SqlCode

namespace Json

def member? (members : List (String × Json)) (name : String) : Option Json :=
  (members.find? fun m => m.1 = name).map (·.2)

/-- What a step finds in one document. -/
def Step.found (step : Step) (j : Json) : List Json :=
  match step, j with
  | .member name, .obj members => (member? members name).toList
  | .anyMember, .obj members => members.map (·.2)
  | .index i, .arr items => items[i]?.toList
  | .anyIndex, .arr items => items
  | _, _ => []

/-- What a step finds in several documents. In strict mode a step without a wildcard must find
something in each of them. -/
def Step.foundAll (strict : Bool) (step : Step) : List Json → Except Step (List Json)
  | [] => .ok []
  | j :: js =>
    let found := step.found j
    if found.isEmpty && strict && !step.isWildcard then .error step
    else (step.foundAll strict js).map (found ++ ·)

/-- Follows steps from several documents; fails with the first step that finds nothing in strict
mode. -/
def followAll (strict : Bool) (steps : List Step) (js : List Json) : Except Step (List Json) :=
  match steps with
  | [] => .ok js
  | step :: steps => step.foundAll strict js >>= followAll strict steps

/-- Every document a path selects. -/
def Path.select (p : Path) (j : Json) : Except Step (List Json) := followAll p.strict p.steps [j]

/-- The selection as one document: several are wrapped in an array. -/
def Path.query (p : Path) (j : Json) : Except Step (Option Json) :=
  (p.select j).map fun
    | [] => none
    | [item] => some item
    | items => some (.arr items)

/-- The document with `f` applied to what a step selects. -/
def Step.modify (step : Step) (f : Json → Json) (j : Json) : Json :=
  match step, j with
  | .member name, .obj members =>
    .obj (members.map fun m => if m.1 = name then (m.1, f m.2) else m)
  | .anyMember, .obj members => .obj (members.map fun m => (m.1, f m.2))
  | .index i, .arr items => .arr (items.modify i f)
  | .anyIndex, .arr items => .arr (items.map f)
  | _, j => j

def Step.erase (step : Step) (j : Json) : Json :=
  match step, j with
  | .member name, .obj members => .obj (members.filter fun m => m.1 ≠ name)
  | .anyMember, .obj _ => .obj []
  | .index i, .arr items => .arr (items.eraseIdx i)
  | .anyIndex, .arr _ => .arr []
  | _, j => j

/-- The document without what steps select. Without a step nothing is removed. -/
def removeAt : List Step → Json → Json
  | [], j => j
  | [step], j => step.erase j
  | step :: steps, j => step.modify (removeAt steps) j

def Path.remove (p : Path) (j : Json) : Json := removeAt p.steps j

mutual

/-- How deep a document is nested; a scalar and an empty container have depth one. -/
def depth : Json → Nat
  | .arr items => max 1 (depthItems items)
  | .obj members => max 1 (depthMembers members)
  | _ => 1
termination_by structural j => j

@[inherit_doc depth]
def depthItems : List Json → Nat
  | [] => 0
  | j :: js => max (depth j + 1) (depthItems js)
termination_by structural js => js

@[inherit_doc depth]
def depthMembers : List (String × Json) → Nat
  | [] => 0
  | m :: ms => max (depthMember m + 1) (depthMembers ms)
termination_by structural ms => ms

@[inherit_doc depth]
def depthMember : String × Json → Nat
  | (_, j) => depth j
termination_by structural m => m

end

end Json

end SqlCode
