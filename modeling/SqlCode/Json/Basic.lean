import SqlCode.Number.DoubleText

/-!
# JSON documents

Documents with members in the order in which their names first appeared. A number is an integer
when it was written as one and fits in 64 bits, signed or unsigned; all others are doubles.
-/

namespace SqlCode

inductive Json
  | null
  | bool (b : Bool)
  | int (n : Int)
  | float (x : Float)
  | str (s : String)
  | arr (items : List Json)
  | obj (members : List (String × Json))

namespace Json

/-- Binds a name: a name that is present keeps its place and takes the new document. -/
def insert (members : List (String × Json)) (name : String) (j : Json) : List (String × Json) :=
  match members with
  | [] => [(name, j)]
  | m :: ms => if m.1 = name then (m.1, j) :: ms else m :: insert ms name j

/-- Binds names from left to right. -/
def insertAll (members : List (String × Json)) (more : List (String × Json)) :
    List (String × Json) :=
  more.foldl (fun ms m => insert ms m.1 m.2) members

/-- A document that is neither an object nor an array. -/
def isScalar : Json → Bool
  | .arr _ | .obj _ => false
  | _ => true

/-- A finite double as a number; infinities and NaN have no JSON form. -/
def ofFloat (x : Float) : Json := if Double.isFinite x then .float x else .null

end Json

end SqlCode
