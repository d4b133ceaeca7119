import SqlCode.Number.Decimal
import SqlCode.Symbol

/-!
# Values

The values that SQL expressions compute. Integers of every width are words, and the entries of a
map stand in the order in which their keys were first bound.

`Value.same` is the equality that maps, multisets and code use: numbers of one kind are the same
when they are numerically equal, and maps are the same whatever the order of their entries.
-/

namespace SqlCode

inductive Value
  | null
  | bool (b : Bool)
  | int (n : Int64)
  | float (x : Float)
  | decimal (d : Decimal)
  | str (s : String)
  | bytes (bs : List UInt8)
  | list (items : List Value)
  | map (entries : List (Value × Value))
  | symbol (s : Symbol)

namespace Value

instance : Inhabited Value := ⟨.null⟩

def isNull : Value → Bool
  | .null => true
  | _ => false

/-- Integers, doubles and decimals. -/
def isNumeric : Value → Bool
  | .int _ | .float _ | .decimal _ => true
  | _ => false

def kindName : Value → String
  | .null => "NULL"
  | .bool _ => "BOOLEAN"
  | .int _ => "INTEGER"
  | .float _ => "DOUBLE"
  | .decimal _ => "DECIMAL"
  | .str _ => "VARCHAR"
  | .bytes _ => "VARBINARY"
  | .list _ => "ARRAY"
  | .map _ => "MAP"
  | .symbol _ => "SYMBOL"

def toBool? : Value → Option Bool
  | .bool b => some b
  | _ => none

def toString? : Value → Option String
  | .str s => some s
  | _ => none

def toList? : Value → Option (List Value)
  | .list items => some items
  | _ => none

/-- The integer part of a number. -/
def toWord? : Value → Option Int64
  | .int n => some n
  | .float x => some (Double.toWord x)
  | .decimal d => d.toWord?
  | _ => none

def toFloat? : Value → Option Float
  | .int n => some (Double.ofInt n.toInt)
  | .float x => some x
  | .decimal d => some d.toFloat
  | _ => none

/-- The number as a decimal; infinities and NaN have none. -/
def toDecimal? : Value → Option Decimal
  | .int n => some (.ofInt n.toInt)
  | .float x => Decimal.ofFloat? x
  | .decimal d => some d
  | _ => none

mutual

def same : Value → Value → Bool
  | .null, .null => true
  | .bool a, .bool b => a == b
  | .int a, .int b => a == b
  | .float a, .float b => Double.same a b
  | .decimal a, .decimal b => Decimal.same a b
  | .str a, .str b => a == b
  | .bytes a, .bytes b => a == b
  | .list as, .list bs => sameItems as bs
  | .map as, .map bs => as.length == bs.length && sameEntries as bs
  | .symbol a, .symbol b => a == b
  | _, _ => false
termination_by structural v => v

def sameItems : List Value → List Value → Bool
  | [], [] => true
  | a :: as, b :: bs => same a b && sameItems as bs
  | _, _ => false
termination_by structural vs => vs

/-- Every entry of the first list is found in the second. -/
def sameEntries : List (Value × Value) → List (Value × Value) → Bool
  | [], _ => true
  | e :: es, fs => fs.any (sameEntry e) && sameEntries es fs
termination_by structural es => es

def sameEntry : Value × Value → Value × Value → Bool
  | (k, v), f => same k f.1 && same v f.2
termination_by structural e => e

end

instance : BEq Value := ⟨same⟩

def lookup? (entries : List (Value × Value)) (key : Value) : Option Value :=
  (entries.find? fun e => same e.1 key).map (·.2)

/-- Binds a key: a key that is present keeps its place and takes the new value. -/
def insert (entries : List (Value × Value)) (key value : Value) : List (Value × Value) :=
  match entries with
  | [] => [(key, value)]
  | e :: es => if same e.1 key then (e.1, value) :: es else e :: insert es key value

/-- The map of entries that are bound from left to right. -/
def mapOf (entries : List (Value × Value)) : Value :=
  .map (entries.foldl (fun es e => insert es e.1 e.2) [])

end Value

end SqlCode
