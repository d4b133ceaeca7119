import SqlCode.Compile.Emit

/-!
# Literals and casts

A literal is converted to the representation of its type at once. A cast between numeric types is a
change of representation; any other cast that changes the type is left to a routine.
-/

namespace SqlCode

/-- The constant that a literal of a type becomes. A value that does not convert stays as it is, and
the code that uses it reports the mismatch. -/
def Value.literalExpr (v : Value) (t : SqlType) : Expr :=
  if v.isNull then .null t.rep
  else
    match v.convert t.rep with
    | .ok w => .const w t.rep
    | .error _ => .const v t.rep

def Value.literal (v : Value) (t : SqlType) : Flagged := ⟨.bool v.isNull, v.literalExpr t⟩

def Expr.typeName (n : TypeName) : Expr := .const (.symbol (.typeName n)) .symbol

/-- The value of type `source` as a value of type `target`. -/
def Expr.castTo (e : Expr) (source target : SqlType) : Expr :=
  if source.name = target.name ∨ (source.name.isNumeric ∧ target.name.isNumeric) then
    e.mkConvert target.rep
  else
    (Expr.call "cast" [e.box, .typeName source.name, .typeName target.name]
      target.rep.box).mkConvert target.rep

namespace CallSite

/-- A cast to the type that the only operand has already. -/
def isIdentityCast (site : CallSite) : Bool :=
  match site.operands with
  | [operand] => operand.type == site.type
  | _ => false

/-- CAST of an operand that is not null. A literal that only changes whether it admits null is
written again as a literal of the new type. -/
def cast (site : CallSite) (args : List Expr) : Except CompileError Expr :=
  match site.operands, args with
  | operand :: _, e :: _ =>
    let source := operand.type
    if source = site.type then .ok e
    else
      match site.type.sameUpToNull source, operand.literal? with
      | true, some v => .ok (v.literalExpr site.type)
      | _, _ => .ok (e.castTo source (site.type.withNullable false))
  | _, _ => .error (.invalidCall "CAST" "expected 1 operand")

/-- REINTERPRET: the operand, whose representation then changes. -/
def reinterpret (site : CallSite) (args : List Expr) : Except CompileError Expr :=
  match args with
  | [] => site.invalid "expected 1 operand"
  | e :: _ => .ok e

end CallSite

end SqlCode
