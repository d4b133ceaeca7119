import SqlCode.Fault
import SqlCode.Rep
import SqlCode.Value.Json

/-!
# Converting values between representations

Integers narrow by dropping high bits, fractions are cut toward zero, everything has a text, and
null converts to every representation that has room for it.
-/

namespace SqlCode

namespace Prim

/-- What an unboxed slot holds before its first write: zero or false. -/
def default : Prim → Value
  | .bool => .bool false
  | .f32 | .f64 => .float Double.zero
  | _ => .int 0

def greatest : Prim → Value
  | .bool => .bool true
  | .i8 => .int 127
  | .i16 => .int 32767
  | .i32 => .int 2147483647
  | .i64 => .int 9223372036854775807
  | .f32 => .float Double.greatestSingle
  | .f64 => .float Double.greatest

def least : Prim → Value
  | .bool => .bool false
  | .i8 => .int (-128)
  | .i16 => .int (-32768)
  | .i32 => .int (-2147483648)
  | .i64 => .int (-9223372036854775808)
  | .f32 => .float (-Double.greatestSingle)
  | .f64 => .float (-Double.greatest)

/-- The word cut to the width of an integral kind. -/
def narrow (p : Prim) (n : Int64) : Int64 :=
  match p with
  | .i8 => Word.wrapTo 8 n
  | .i16 => Word.wrapTo 16 n
  | .i32 => Word.wrapTo 32 n
  | _ => n

end Prim

namespace Value

/-- The fault of a conversion between kinds that have none. -/
def cannotConvert (v : Value) (target : String) : Fault :=
  .typeMismatch ("cannot convert " ++ v.kindName ++ " to " ++ target)

def toPrim (v : Value) (p : Prim) : Except Fault Value :=
  match p, v with
  | .bool, .bool b => .ok (.bool b)
  | .bool, v => .error (v.cannotConvert p.label)
  | .f32, v =>
    match v.toFloat? with
    | some x => .ok (.float (Double.toSingle x))
    | none => .error (v.cannotConvert p.label)
  | .f64, v =>
    match v.toFloat? with
    | some x => .ok (.float x)
    | none => .error (v.cannotConvert p.label)
  | p, .int n => .ok (.int (p.narrow n))
  | p, .float x => .ok (.int (p.narrow (Double.toWord x)))
  | p, .decimal d =>
    match d.toWord? with
    | some n => .ok (.int (p.narrow n))
    | none => .error (.overflow "conversion")
  | p, v => .error (v.cannotConvert p.label)

def convert (v : Value) (r : Rep) : Except Fault Value :=
  match r, v with
  | .prim p, .null => .error (.nullValue (Rep.prim p).text)
  | _, .null => .ok .null
  | .prim p, v | .boxed p, v => v.toPrim p
  | .decimal, v =>
    match v.toDecimal? with
    | some d => .ok (.decimal d)
    | none => .error (v.cannotConvert "DECIMAL")
  | .string, v => .ok (.str v.text)
  | .bytes, .bytes bs => .ok (.bytes bs)
  | .bytes, .str s => .ok (.bytes (Utf8.encode s))
  | .bytes, v => .error (v.cannotConvert "VARBINARY")
  | _, v => .ok v

end Value

end SqlCode
