import SqlCode.Routine.Basic
import SqlCode.Value.Compare

/-!
# Collection routines

Multisets are lists in which the order does not matter to equality of contents but is kept, and
values are told apart by sameness. Mutators add to and filter the container of an aggregate.
-/

namespace SqlCode

namespace Multiset

/-- The list without the element at a place, which the last element takes. -/
def swapRemove (items : List Value) (i : Nat) : List Value :=
  match items.getLast? with
  | some last => (items.set i last).dropLast
  | none => []

/-- The list without the first occurrence of a value, whose place the last element takes; none if
the value does not occur. -/
def remove? (v : Value) (items : List Value) : Option (List Value) :=
  (items.findIdx? (·.same v)).map (swapRemove items)

/-- The occurrences of `x` that pair off with occurrences of `y` if `keep`, else the others. -/
def pairOff (keep : Bool) : List Value → List Value → List Value
  | [], _ => []
  | v :: x, y =>
    match remove? v y with
    | some rest => if keep then v :: pairOff keep x rest else pairOff keep x rest
    | none => if keep then pairOff keep x y else v :: pairOff keep x y

/-- Each value as often as it occurs in both. -/
def intersect (x y : List Value) : List Value := pairOff true x y

/-- Each occurrence in the second cancels one in the first. -/
def except (x y : List Value) : List Value := pairOff false x y

def occurs (v : Value) (items : List Value) : Bool := items.any fun w => w.same v

/-- The first occurrence of each value that is not among those seen. -/
def distinctFrom (seen : List Value) : List Value → List Value
  | [] => []
  | v :: vs => if occurs v seen then distinctFrom seen vs else v :: distinctFrom (v :: seen) vs

/-- The first occurrence of each value. -/
def distinct (items : List Value) : List Value := distinctFrom [] items

end Multiset

/-- The element at a position counted from one; null outside. -/
def Collections.item (items : List Value) (index : Int) : Value :=
  if 1 ≤ index then (items[(index - 1).toNat]?).getD .null else .null

/-- The value of a key: of the key itself, or else of the first key that equals it. -/
def Collections.entry (entries : List (Value × Value)) (key : Value) : Value :=
  match Value.lookup? entries key with
  | some v => v
  | none => ((entries.find? fun e => e.1.equals key).map (·.2)).getD .null

namespace Routine

/-- The fault of a value that is not the container that is needed. -/
def notA (routine what : String) (v : Value) : Fault :=
  .invalidArgument routine ("not a " ++ what ++ ": " ++ v.kindName)

def cardinality : Routine := fun args => do
  match ← Args.value "cardinality" args 0 with
  | .list items => .ok (.int (Word.wrap items.length))
  | .map entries => .ok (.int (Word.wrap entries.length))
  | v => .error (notA "cardinality" "collection" v)

/-- Rows of one field are replaced by their field. -/
def slice : Routine := fun args => do
  let items ← Args.list "slice" args 0
  .ok (.list (items.map fun
    | .list [v] => v
    | v => v))

/-- The only element; null if there is none. -/
def element : Routine := fun args => do
  match ← Args.list "element" args 0 with
  | [] => .ok .null
  | [v] => .ok v
  | _ => .error (.cardinalityViolation "ELEMENT")

/-- The first argument equals an element of the second. -/
def memberOf : Routine := fun args => do
  let v ← Args.value "memberOf" args 0
  let items ← Args.list "memberOf" args 1
  .ok (.bool (items.any fun w => w.equals v))

def isEmpty : Routine := fun args => do
  match ← Args.value "isEmpty" args 0 with
  | .map entries => .ok (.bool entries.isEmpty)
  | _ => do
    let items ← Args.list "isEmpty" args 0
    .ok (.bool items.isEmpty)

def isASet : Routine := fun args => do
  let items ← Args.list "isASet" args 0
  .ok (.bool ((Multiset.distinct items).length == items.length))

/-- No value occurs more often in the first than in the second. -/
def submultisetOf : Routine := fun args => do
  let x ← Args.list "submultisetOf" args 0
  let y ← Args.list "submultisetOf" args 1
  .ok (.bool (Multiset.except x y).isEmpty)

/-- A multiset computed from two. -/
def ofLists (routine : String) (f : List Value → List Value → List Value) : Routine :=
  fun args => do
    let x ← Args.list routine args 0
    let y ← Args.list routine args 1
    .ok (.list (f x y))

/-- A field of a row by its index counted from zero, or of a map by its name. -/
def structAccess : Routine := fun args =>
  if (args.take 2).any Value.isNull then .ok .null
  else do
    match ← Args.value "structAccess" args 0 with
    | .list fields => do
      let index ← Args.word "structAccess" args 1
      match if 0 ≤ index.toInt then fields[index.toInt.toNat]? else none with
      | some v => .ok v
      | none => .error (.invalidArgument "structAccess" ("no field " ++ index.toInt.repr))
    | .map entries => .ok ((Value.lookup? entries (args[2]?.getD .null)).getD .null)
    | v => .error (notA "structAccess" "row" v)

def arrayItem : Routine := fun args => do
  let items ← Args.list "arrayItem" args 0
  let index ← Args.word "arrayItem" args 1
  .ok (Collections.item items index.toInt)

def mapItem : Routine := fun args => do
  match ← Args.value "mapItem" args 0 with
  | .map entries => (Args.value "mapItem" args 1).map (Collections.entry entries)
  | v => .error (notA "mapItem" "map" v)

/-- An element of an array or the value of a key of a map. -/
def anyItem : Routine := fun args => do
  match ← Args.value "anyItem" args 0 with
  | .list items => do
    let index ← Args.word "anyItem" args 1
    .ok (Collections.item items index.toInt)
  | .map entries => (Args.value "anyItem" args 1).map (Collections.entry entries)
  | v => .error (.invalidArgument "anyItem" ("cannot index " ++ v.kindName))

def collections : List (String × Routine) :=
  [("cardinality", cardinality), ("slice", slice), ("element", element), ("memberOf", memberOf),
   ("isEmpty", isEmpty), ("isASet", isASet), ("submultisetOf", submultisetOf),
   ("multisetUnionAll", ofLists "multisetUnionAll" (· ++ ·)),
   ("multisetUnionDistinct",
    ofLists "multisetUnionDistinct" fun x y => Multiset.distinct (x ++ y)),
   ("multisetIntersectAll", ofLists "multisetIntersectAll" Multiset.intersect),
   ("multisetIntersectDistinct",
    ofLists "multisetIntersectDistinct" fun x y => Multiset.distinct (Multiset.intersect x y)),
   ("multisetExceptAll", ofLists "multisetExceptAll" Multiset.except),
   ("multisetExceptDistinct", ofLists "multisetExceptDistinct" fun x y =>
     (Multiset.distinct x).filter fun v => !Multiset.occurs v y),
   ("structAccess", structAccess), ("arrayItem", arrayItem), ("mapItem", mapItem),
   ("anyItem", anyItem), ("array", fun args => .ok (.list args))]

end Routine

namespace Mutator

def items (routine : String) : Value → Except Fault (List Value)
  | .list items => .ok items
  | v => .error (Routine.notA routine "collection" v)

def add : Mutator := fun target args => do
  let v ← Args.value "collectionAdd" args 0
  let items ← items "collectionAdd" target
  .ok (.list (items ++ [v]))

/-- Adds the elements of a collection; null adds nothing. -/
def addAll : Mutator := fun target args => do
  match ← Args.value "collectionAddAll" args 0 with
  | .null => .ok target
  | _ => do
    let more ← Args.list "collectionAddAll" args 0
    let items ← items "collectionAddAll" target
    .ok (.list (items ++ more))

def retainAll : Mutator := fun target args => do
  let keep ← Args.list "collectionRetainAll" args 0
  let items ← items "collectionRetainAll" target
  .ok (.list (items.filter fun v => Multiset.occurs v keep))

def put : Mutator := fun target args => do
  let key ← Args.value "mapPut" args 0
  let v ← Args.value "mapPut" args 1
  match target with
  | .map entries => .ok (.map (Value.insert entries key v))
  | target => .error (Routine.notA "mapPut" "map" target)

def collections : List (String × Mutator) :=
  [("collectionAdd", add), ("collectionAddAll", addAll), ("collectionRetainAll", retainAll),
   ("mapPut", put)]

end Mutator

end SqlCode
