import SqlCode.Compile.Emit

/-!
# Three-valued logic

Conjunction and disjunction look at all operands, with nulls replaced by the neutral value; only if no
operand decides does a null make the result null. The tests for null and for truth values are never null.
-/

namespace SqlCode

def Expr.boxedBool (b : Bool) : Expr := .const (.bool b) (.boxed .bool)

namespace CallSite

/-- The value of a conjunction (`neutral = true`) or a disjunction (`neutral = false`). -/
def connective (site : CallSite) (neutral : Bool) (args : List Flagged) : Expr :=
  let substituted := args.map fun a => Expr.mkCond a.isNull (.bool neutral) a.value.unbox
  let decided := if neutral then (Expr.conj substituted).mkNot else Expr.disj substituted
  let hasNull := Expr.disj (args.map (·.isNull))
  let value := Expr.mkCond decided (.boxedBool !neutral)
    (.mkCond hasNull (.null (.boxed .bool)) (.boxedBool neutral))
  if site.type.nullable then value else value.unbox

/-- The first operand that is not null, else the last one. -/
def coalesce (site : CallSite) (args : List Expr) : Except CompileError Expr :=
  match args with
  | [] => site.invalid "needs at least one operand"
  | first :: rest => .ok (fold first rest)
where
  fold (e : Expr) : List Expr → Expr
    | [] => e
    | next :: rest => .mkCond e.mkIsNotNull e (fold next rest)

/-- A test for null or for a truth value, on an operand that is not null. -/
def predicate (site : CallSite) (test : Builtin) (args : List Expr) : Except CompileError Expr :=
  match args with
  | [] => site.invalid "expected 1 operand"
  | e :: _ =>
    match test with
    | .isNull => .ok e.mkIsNull
    | .isNotNull => .ok e.mkIsNotNull
    | .isTrue => .ok (.mkBinary .equal e (.bool true))
    | .isNotTrue => .ok (.mkBinary .notEqual e (.bool true))
    | .isFalse => .ok (.mkBinary .equal e (.bool false))
    | .isNotFalse => .ok (.mkBinary .notEqual e (.bool false))
    | test => unsupported ("not a null test: " ++ test.sqlName)

end CallSite

/-- What a test answers for null. -/
def Builtin.answerOnNull : Builtin → Bool
  | .isNull | .isNotTrue | .isNotFalse => true
  | _ => false

end SqlCode
