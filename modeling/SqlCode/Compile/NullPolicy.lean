import SqlCode.Code.Simplify

/-!
# Null policies

Which null operands make a call null without computing it, and which operands are known not to be
null when it is computed.
-/

namespace SqlCode

/-- Which null operands decide a call. `any` and `semiStrict` decide like `strict`. -/
inductive NullPolicy
  | none
  | strict
  | any
  | arg0
  | semiStrict
deriving DecidableEq, Repr

def NullPolicy.all : List NullPolicy :=
  [.none, .strict, .any, .arg0, .semiStrict]

def NullPolicy.label : NullPolicy → String
  | .none => "None"
  | .strict => "Strict"
  | .any => "Any"
  | .arg0 => "Arg0"
  | .semiStrict => "SemiStrict"

instance : Labeled NullPolicy := ⟨NullPolicy.all, NullPolicy.label⟩

/-- The condition under which the operands decide the call, from their null tests. -/
def NullPolicy.condition (p : NullPolicy) (flags : List Expr) : Expr :=
  match p with
  | .none => Expr.bool false
  | .arg0 => flags.head?.getD (Expr.bool false)
  | .strict | .any | .semiStrict => Expr.disj flags

/-- The operands with those unboxed that cannot be null where the call is computed. -/
def NullPolicy.unbox (p : NullPolicy) (operands : List Expr) : List Expr :=
  match p, operands with
  | .none, es => es
  | .arg0, e :: es => e.unbox :: es
  | .arg0, [] => []
  | .strict, es | .any, es | .semiStrict, es => es.map Expr.unbox

end SqlCode
