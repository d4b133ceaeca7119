import SqlCode.Aggregate.Fold

/-!
# Strategies

How an aggregate is computed. A strict strategy skips rows with a null argument, and if the result may be
null it remembers whether a row was taken in, so that an empty group gives null.
-/

namespace SqlCode

/-- How an aggregate is computed. -/
inductive Strategy
  /-- A fold over the rows whose arguments are not null. -/
  | strict (f : Fold)
  /-- The value of the only row. -/
  | singleValue
  /-- The mask of the group keys that are rolled up. -/
  | grouping
  | jsonObject (clause : NullClause)
  | jsonArray (clause : NullClause)
  /-- The number of rows of a frame; with arguments that may be null, of the rows that count. -/
  | windowCount

namespace Strategy

/-! ### Strict strategies -/

/-- The slot that says whether a row was taken in, if the result may be null. -/
def taken? (f : Fold) (c : AggregateCall) : Option Slot :=
  if c.returnType.nullable then
    some ⟨"acc" ++ toString (f.state? c).toList.length, .truth⟩
  else none

def strictState (f : Fold) (c : AggregateCall) : List Rep :=
  (f.state? c).toList ++ (taken? f c).toList.map (·.rep)

def strictReset (f : Fold) (c : AggregateCall) : Block :=
  (taken? f c).toList.map (fun s => .assign s (.bool false)) ++
    (f.state? c).toList.map fun r => .assign (f.slot c) (f.initial r)

def noNull (args : List Slot) : Expr :=
  .conj (args.map fun s => (Expr.slot s).mkIsNull.mkNot)

def strictAdd (f : Fold) (c : AggregateCall) : Except CompileError Block := do
  let test := noNull c.argumentSlots
  let body ← f.step c (c.argumentSlots.map fun s => (Expr.slot s).unbox)
  let block := (taken? f c).toList.map (fun s => Stmt.assign s (.bool true)) ++ body
  return if test.isConstBool true then block else [.when test block]

def strictValue (f : Fold) (c : AggregateCall) : Expr :=
  match taken? f c with
  | some s => .mkCond s (f.value c) (.null c.rep)
  | none => f.value c

/-! ### The only row -/

/-- The slots of a single value: whether a row was seen, and its value. -/
def seenSlot : Slot := ⟨"acc0", .truth⟩

@[inherit_doc seenSlot]
def singleSlot (c : AggregateCall) : Slot := ⟨"acc1", c.rep⟩

/-- Takes in the only row; a second one is a fault. -/
def singleAdd (c : AggregateCall) : Except CompileError Block := do
  let e ← argumentAt (c.argumentSlots.map .slot) 0
  return [.when seenSlot [.throw (.cardinalityViolation "SINGLE_VALUE")],
    .assign seenSlot (.bool true), .assign (singleSlot c) (e.mkConvert c.rep)]

/-! ### Rolled-up group keys -/

/-- The bit of an argument of GROUPING: set where its group key is rolled up. The flags come after the
group keys. -/
def groupingTerm (c : AggregateCall) (argument : Nat) (bit : Int64) : Except CompileError Expr :=
  match c.keys.idxOf? argument with
  | none => .error (.invalidCall "GROUPING" (toString argument ++ " is not a group key"))
  | some position =>
    match (c.keySlots ++ c.rolledUpSlots)[c.keys.length + position]? with
    | none => .error (.invalidCall "GROUPING" ("no indicator for key " ++ toString argument))
    | some s => .ok (.mkCond s (.long bit) (.long 0))

/-- The bits of the arguments, from the first one down. -/
def groupingTerms (c : AggregateCall) (bit : Int64) : List Nat → Except CompileError (List Expr)
  | [] => .ok []
  | a :: as => do
    let e ← groupingTerm c a bit
    return e :: (← groupingTerms c (bit >>> 1) as)

/-- The bit of the first of some arguments, if it is positive. -/
def firstBit? (count : Nat) : Option Int64 :=
  if count - 1 < pow2 32 then (Word.checkedShl 1 (count - 1)).filter (0 < ·) else none

/-- The mask of the arguments of GROUPING that are rolled up. With one grouping set, none is. -/
def groupingValue (c : AggregateCall) : Except CompileError Expr :=
  if c.groupingSets ≤ 1 ∨ c.arguments = [] then .ok ((Expr.long 0).mkConvert c.rep)
  else
    match firstBit? c.arguments.length with
    | none => .error (.invalidCall "GROUPING"
        ("at most 63 arguments, got " ++ toString c.arguments.length))
    | some bit => do
      match ← groupingTerms c bit c.arguments with
      | [] => return (Expr.const (.int 0) c.rep).mkConvert c.rep
      | e :: es => return (es.foldl (Expr.mkBinary .add) e).mkConvert c.rep

/-! ### JSON -/

/-- The null clause as an operand. -/
def clauseExpr (clause : NullClause) : Expr := .const (.symbol (.jsonNullClause clause)) .symbol

def objectAdd (clause : NullClause) (c : AggregateCall) : Except CompileError Block := do
  let args : List Expr := c.argumentSlots.map .slot
  let key ← argumentAt args 0
  let value ← argumentAt args 1
  return [.invoke ⟨"acc0", .map⟩ "jsonObjectAggAdd" [key, value.box, clauseExpr clause]]

def arrayAdd (clause : NullClause) (c : AggregateCall) : Except CompileError Block := do
  let value ← argumentAt (c.argumentSlots.map .slot) 0
  return [.invoke ⟨"acc0", .list⟩ "jsonArrayAggAdd" [value.box, clauseExpr clause]]

def jsonText (s : Slot) : Expr := .call "jsonize" [s] .string

/-! ### All strategies -/

def state (s : Strategy) (c : AggregateCall) : List Rep :=
  match s with
  | .strict f => strictState f c
  | .singleValue => [.truth, c.rep]
  | .grouping => []
  | .jsonObject _ => [.map]
  | .jsonArray _ => [.list]
  | .windowCount => if c.hasNullableArgument then strictState .count c else []

def accumulator (s : Strategy) (c : AggregateCall) : List Slot := Slot.numbered "acc" (s.state c)

def reset (s : Strategy) (c : AggregateCall) : Block :=
  match s with
  | .strict f => strictReset f c
  | .singleValue => [.assign seenSlot (.bool false), .assign (singleSlot c) (.defaultOf c.rep)]
  | .grouping => []
  | .jsonObject _ => [.assign ⟨"acc0", .map⟩ (.new .map)]
  | .jsonArray _ => [.assign ⟨"acc0", .list⟩ (.new .list)]
  | .windowCount => if c.hasNullableArgument then strictReset .count c else []

def add (s : Strategy) (c : AggregateCall) : Except CompileError Block :=
  match s with
  | .strict f => strictAdd f c
  | .singleValue => singleAdd c
  | .grouping => .ok []
  | .jsonObject clause => objectAdd clause c
  | .jsonArray clause => arrayAdd clause c
  | .windowCount => if c.hasNullableArgument then strictAdd .count c else .ok []

def value (s : Strategy) (c : AggregateCall) : Except CompileError Expr :=
  match s with
  | .strict f => .ok (strictValue f c)
  | .singleValue => .ok ((Expr.slot (singleSlot c)).mkConvert c.rep)
  | .grouping => groupingValue c
  | .jsonObject _ => .ok (jsonText ⟨"acc0", .map⟩)
  | .jsonArray _ => .ok (jsonText ⟨"acc0", .list⟩)
  | .windowCount =>
    .ok (if c.hasNullableArgument then strictValue .count c
      else ({} : Frame).rowCount.mkConvert (.prim .i64))

/-- The strategy reads where the current row stands in its window. -/
def needsWindow : Strategy → Bool
  | .strict f => f.needsWindow
  | .windowCount => true
  | _ => false

end Strategy

/-! ### The strategy of a function -/

/-- The strategy over groups. -/
def Aggregate.plain? : Aggregate → Option Strategy
  | .count | .regrCount => some (.strict .count)
  | .sum | .sum0 => some (.strict .sum)
  | .min | .everyTrue => some (.strict (.extreme true))
  | .max | .anyValue | .someTrue => some (.strict (.extreme false))
  | .bitAnd => some (.strict (.bits .and))
  | .bitOr => some (.strict (.bits .or))
  | .bitXor => some (.strict (.bits .xor))
  | .singleValue => some .singleValue
  | .collect => some (.strict .collect)
  | .listAgg => some (.strict .listAgg)
  | .fusion => some (.strict .fusion)
  | .intersection => some (.strict .intersection)
  | .grouping | .groupingId => some .grouping
  | .jsonObjectAgg c => some (.jsonObject c)
  | .jsonArrayAgg c => some (.jsonArray c)
  | .rank | .denseRank | .rowNumber => none

/-- The strategy that is made for windows. -/
def Aggregate.windowed? : Aggregate → Option Strategy
  | .rank => some (.strict .rank)
  | .denseRank => some (.strict .denseRank)
  | .rowNumber => some (.strict .rowNumber)
  | .count => some .windowCount
  | _ => none

/-- The strategy of a function over groups. -/
def AggregateFunction.plain (name : String) (a : Aggregate) : Except CompileError Strategy :=
  match a.plain? with
  | some s => .ok s
  | none => .error (.configuration ("no strategy for aggregate " ++ name))

/-- The strategy of a function, over groups or over windows. -/
def AggregateFunction.strategy (f : AggregateFunction) (settings : Settings) (window : Bool) :
    Except CompileError Strategy :=
  match f with
  | .user _ (some rs) => .ok (.strict (.routines rs))
  | .user n none =>
    .error (.configuration ("user-defined aggregate " ++ n ++ " is not implementable"))
  | .builtin a =>
    if window then
      match a.windowed? with
      | some s => .ok s
      | none =>
        if settings.windowReuse.allows a then plain f.name a
        else .error (.configuration (f.name ++ " cannot be used as a window aggregate"))
    else plain f.name a

end SqlCode
