import SqlCode.SqlType.Basic

/-!
# Representations

How code holds a value: unboxed in a machine kind, which has no room for null, boxed, or as a
reference. `SqlType.rep` chooses the representation of a SQL type.
-/

namespace SqlCode

inductive Prim
  | bool
  | i8
  | i16
  | i32
  | i64
  | f32
  | f64
deriving DecidableEq, Repr

def Prim.all : List Prim :=
  [.bool, .i8, .i16, .i32, .i64, .f32, .f64]

def Prim.label : Prim → String
  | .bool => "Bool"
  | .i8 => "I8"
  | .i16 => "I16"
  | .i32 => "I32"
  | .i64 => "I64"
  | .f32 => "F32"
  | .f64 => "F64"

instance : Labeled Prim := ⟨Prim.all, Prim.label⟩

namespace Prim

def isNumeric : Prim → Bool
  | .bool => false
  | _ => true

def isIntegral : Prim → Bool
  | .i8 | .i16 | .i32 | .i64 => true
  | _ => false

def isFractional : Prim → Bool
  | .f32 | .f64 => true
  | _ => false

/-- The width class in arithmetic: the narrow integers share one. -/
def rank : Prim → Nat
  | .bool => 0
  | .i8 | .i16 | .i32 => 1
  | .i64 => 2
  | .f32 => 3
  | .f64 => 4

/-- The kind of an arithmetic result: the wider class, with narrow integers widened. -/
def promote (a b : Prim) : Prim :=
  match max a.rank b.rank with
  | 0 => .bool
  | 1 => .i32
  | 2 => .i64
  | 3 => .f32
  | _ => .f64

end Prim

/-- How code holds a value. Only `prim` excludes null. -/
inductive Rep
  | prim (p : Prim)
  | boxed (p : Prim)
  | decimal
  | string
  | bytes
  | list
  | map
  | symbol
  | object
deriving DecidableEq, Repr

namespace Rep

def text : Rep → String
  | .prim p => "Prim(" ++ p.label ++ ")"
  | .boxed p => "Boxed(" ++ p.label ++ ")"
  | .decimal => "Decimal"
  | .string => "String"
  | .bytes => "Bytes"
  | .list => "List"
  | .map => "Map"
  | .symbol => "Symbol"
  | .object => "Object"

def all : List Rep :=
  Prim.all.map prim ++ Prim.all.map boxed ++
    [.decimal, .string, .bytes, .list, .map, .symbol, .object]

instance : Labeled Rep := ⟨all, text⟩

def isPrim : Rep → Bool
  | .prim _ => true
  | _ => false

def isNullable (r : Rep) : Bool := !r.isPrim

/-- The machine kind, boxed or not. -/
def kind? : Rep → Option Prim
  | .prim p | .boxed p => some p
  | _ => none

def boxedKind? : Rep → Option Prim
  | .boxed p => some p
  | _ => none

def unbox : Rep → Rep
  | .boxed p => .prim p
  | r => r

def box : Rep → Rep
  | .prim p => .boxed p
  | r => r

def isNumeric (r : Rep) : Bool := r == .decimal || r.kind?.any Prim.isNumeric

end Rep

/-- The machine kind of a type that has one. -/
def TypeName.prim? (t : TypeName) : Option Prim :=
  match t with
  | .boolean => some .bool
  | .tinyInt => some .i8
  | .smallInt => some .i16
  | .integer | .date | .time => some .i32
  | .bigInt | .timestamp | .timestampWithLocalTimeZone => some .i64
  | .real => some .f32
  | .float | .double => some .f64
  | t =>
    if t.isYearMonthInterval then some .i32
    else if t.isDayTimeInterval then some .i64
    else none

/-- The representation of the other types. -/
def TypeName.reference : TypeName → Rep
  | .decimal => .decimal
  | .char | .varchar => .string
  | .binary | .varBinary => .bytes
  | .array | .multiset | .row => .list
  | .map => .map
  | .symbol => .symbol
  | _ => .object

/-- The representation of the values of a type: unboxed where the type has a machine kind and
excludes null. -/
def SqlType.rep (t : SqlType) : Rep :=
  match t.name.prim? with
  | some p => if t.nullable then .boxed p else .prim p
  | none => t.name.reference

end SqlCode
