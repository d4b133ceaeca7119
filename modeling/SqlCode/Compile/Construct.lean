import SqlCode.Compile.Emit

/-!
# Arrays and maps

A constructor declares an empty container and fills it statement by statement.
-/

namespace SqlCode

/-- The consecutive pairs of a list, and a last single element. -/
def pairs {α : Type} : List α → List (List α)
  | a :: b :: rest => [a, b] :: pairs rest
  | [a] => [[a]]
  | [] => []

/-- Declares a container and fills it, one change for each list of arguments. -/
def Emit.fill (container : Container) (suggestion routine : String) (entries : List (List Expr)) :
    Emit Expr := fun b =>
  let (slot, b) := b.newSlot suggestion container.rep
  let b := b.add (.declare slot (.new container))
  .ok (.slot slot, entries.foldl (fun b es => b.add (.invoke slot routine (es.map (·.box)))) b)

/-- An array of the operands, or a map of the operands taken in pairs. -/
def Emit.constructor (site : CallSite) (args : List Expr) : Emit Expr :=
  match site.op.builtin? with
  | some .mapValueConstructor =>
    if args.length % 2 ≠ 0 then lift (site.invalid "expects key/value pairs")
    else fill .map "map" "mapPut" (pairs args)
  | some .arrayValueConstructor => fill .list "list" "collectionAdd" (args.map ([·]))
  | _ => lift (CallSite.unsupported ("not a value constructor: " ++ site.op.name))

end SqlCode
