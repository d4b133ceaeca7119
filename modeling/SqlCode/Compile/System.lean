import SqlCode.Compile.Emit

/-!
# Functions of the environment

Readings of the context, sequences, and the functions whose code depends on the settings.
-/

namespace SqlCode

namespace CallSite

/-- A reading of the context. -/
def system (site : CallSite) : Except CompileError Expr :=
  let reading (routine : String) (r : Rep) : Except CompileError Expr :=
    .ok (.call routine [.root] r)
  match site.op.builtin? with
  | some .user | some .currentUser | some .sessionUser => reading "user" .string
  | some .systemUser => reading "systemUser" .string
  | some .currentPath | some .currentRole | some .currentCatalog => .ok (.string "")
  | some .currentTimestamp => reading "currentTimestamp" (.prim .i64)
  | some .currentTime => reading "currentTime" (.prim .i32)
  | some .currentDate => reading "currentDate" (.prim .i32)
  | some .localTimestamp => reading "localTimestamp" (.prim .i64)
  | some .localTime => reading "localTime" (.prim .i32)
  | _ => unsupported ("unknown system function " ++ site.op.name)

/-- A step or a reading of the sequence that the operand names. -/
def sequence (site : CallSite) (routine : String) (args : List Expr) : Except CompileError Expr :=
  match args with
  | [name] => .ok (.call routine [.root, name] (.prim .i64))
  | _ => site.invalid "expected a sequence name"

/-- TRIM: which ends to strip, what to strip, and the text. -/
def trim (site : CallSite) (args : List Expr) : Except CompileError Expr :=
  match args with
  | [flag, seek, text] =>
    match flag.symbol? with
    | some (.trim ends) =>
      .ok (.call "trim" [.bool ends.stripsLeading, .bool ends.stripsTrailing, seek, text,
        .bool !site.settings.extendedTrim] .string)
    | _ => .error (.invalidCall "TRIM" "first operand must be a trim flag")
  | _ => .error (.invalidCall "TRIM" "expected flag, seek and string")

/-- An element of an array, a map, or a value of unknown shape. -/
def item (site : CallSite) (args : List Expr) : Except CompileError Expr :=
  match site.operands with
  | [] => .error (.invalidCall "ITEM" "expected 2 operands")
  | container :: _ =>
    let routine :=
      match container.type.name with
      | .array => "arrayItem"
      | .map => "mapItem"
      | _ => "anyItem"
    .ok (.call routine args site.rep)

end CallSite

end SqlCode
