import SqlCode.Number.Word

/-!
# Faults

What can go wrong while code runs, and why a term or an aggregate has no code, with the text of each
fault and error in one place.
-/

namespace SqlCode

/-- What can go wrong while code runs. -/
inductive Fault
  | cardinalityViolation (aggregate : String)
  | invalidJson (routine : String)
  | jsonPath (reason : String)
  | divisionByZero
  | nullValue (expected : String)
  | invalidArgument (routine reason : String)
  | unknownRoutine (routine : String)
  | typeMismatch (reason : String)
  | overflow (operation : String)
  | unboundVariable (name : String)
deriving DecidableEq, Repr

/-- The text of a fault. -/
def Fault.message : Fault → String
  | .cardinalityViolation aggregate => "more than one value in agg " ++ aggregate
  | .invalidJson routine => "invalid json: " ++ routine
  | .jsonPath reason => "json path error: " ++ reason
  | .divisionByZero => "division by zero"
  | .nullValue expected => "null value where a non-null value is required: " ++ expected
  | .invalidArgument routine reason => "invalid argument for " ++ routine ++ ": " ++ reason
  | .unknownRoutine routine => "unknown routine " ++ routine
  | .typeMismatch reason => "type mismatch: " ++ reason
  | .overflow operation => "numeric overflow in " ++ operation
  | .unboundVariable name => "unbound variable " ++ name

/-- The word of an integer, or an overflow in the operation that computed it. -/
def checked (operation : String) (n : Int) : Except Fault Int64 :=
  match Word.ofInt? n with
  | some w => .ok w
  | none => .error (.overflow operation)

/-- The quotient, rounded down: one below the quotient that is cut, if the division has a remainder
and the signs differ. -/
def floorDiv (a b : Int64) : Except Fault Int64 :=
  if b = 0 then .error .divisionByZero
  else do
    let q ← checked "floorDiv" (a.toInt.tdiv b.toInt)
    return if a % b ≠ 0 ∧ decide (a < 0) ≠ decide (b < 0) then q - 1 else q

/-- The remainder of floor division, with the sign of the divisor. -/
def floorMod (a b : Int64) : Except Fault Int64 := do
  let q ← floorDiv a b
  return a - q * b

/-- Why something has no code. -/
inductive CompileError
  /-- The settings or the functions supplied do not allow it. -/
  | configuration (detail : String)
  /-- No rule covers it. -/
  | unsupported (detail : String)
  /-- A call does not have the shape that its operator needs. -/
  | invalidCall (operator reason : String)
deriving DecidableEq, Repr

/-- The text of an error. -/
def CompileError.message : CompileError → String
  | .configuration d => "configuration error: " ++ d
  | .unsupported d => "unsupported: " ++ d
  | .invalidCall op reason => "invalid call to " ++ op ++ ": " ++ reason

end SqlCode
