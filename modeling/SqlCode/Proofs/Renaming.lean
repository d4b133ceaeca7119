import SqlCode.Proofs.NullLaw

/-!
# Renaming slots and routines

The compiler looks at the shape of an expression, at its representation and at its constants, but never at the
names of slots and routines. So whatever it builds from renamed operands is the renaming of what it builds from
the operands themselves, if the root and the routines that it names itself keep their names. This is shown for
the simplifying constructors, for the steps of lowering and for the frame of the null policies.
-/

namespace SqlCode

open Run

namespace Expr

variable {ρ σ : String → String}

section Nodes

@[simp] theorem rename_bool (b : Bool) : (Expr.bool b).rename ρ σ = .bool b := rfl

@[simp] theorem rename_long (n : Int64) : (Expr.long n).rename ρ σ = .long n := rfl

@[simp] theorem rename_whole (n : Int) : (Expr.whole n).rename ρ σ = .whole n := rfl

@[simp] theorem rename_string (s : String) : (Expr.string s).rename ρ σ = .string s := rfl

@[simp] theorem rename_null (r : Rep) : (Expr.null r).rename ρ σ = .null r := rfl

@[simp] theorem rename_boxedBool (b : Bool) : (Expr.boxedBool b).rename ρ σ = .boxedBool b := rfl

@[simp] theorem rename_typeName (n : TypeName) : (Expr.typeName n).rename ρ σ = .typeName n := rfl

theorem exists_literalExpr_eq (v : Value) (t : SqlType) : ∃ w r, v.literalExpr t = .const w r := by
  unfold Value.literalExpr
  split
  · exact ⟨_, _, rfl⟩
  · split <;> exact ⟨_, _, rfl⟩

@[simp] theorem rename_literalExpr (v : Value) (t : SqlType) :
    (v.literalExpr t).rename ρ σ = v.literalExpr t := by
  obtain ⟨w, r, h⟩ := exists_literalExpr_eq v t
  rw [h, rename_const]

end Nodes

/-! ### What does not depend on names -/

@[simp] theorem rep_rename (e : Expr) : (e.rename ρ σ).rep = e.rep := by
  cases e <;> rfl

@[simp] theorem constant?_rename (e : Expr) : (e.rename ρ σ).constant? = e.constant? := by
  cases e <;> rfl

@[simp] theorem isConstBool_rename (e : Expr) (b : Bool) :
    (e.rename ρ σ).isConstBool b = e.isConstBool b := by
  cases e <;> rfl

@[simp] theorem isNullConst_rename (e : Expr) : (e.rename ρ σ).isNullConst = e.isNullConst := by
  cases e <;> rfl

@[simp] theorem symbol?_rename (e : Expr) : (e.rename ρ σ).symbol? = e.symbol? := by
  cases e <;> rfl

@[simp] theorem isAtom_rename (e : Expr) : (e.rename ρ σ).isAtom = e.isAtom := by
  cases e <;> rfl

@[simp] theorem knownNull?_rename (e : Expr) : (e.rename ρ σ).knownNull? = e.knownNull? := by
  simp [knownNull?]

@[simp] theorem signedRep_rename (e : Expr) : (e.rename ρ σ).signedRep = e.signedRep := by
  simp [signedRep]

@[simp] theorem choiceRep_rename (a b : Expr) :
    choiceRep (a.rename ρ σ) (b.rename ρ σ) = choiceRep a b := by
  simp [choiceRep]

@[simp] theorem timeSpan_rename (e : Expr) (operator : String) :
    (e.rename ρ σ).timeSpan operator = e.timeSpan operator := by
  simp [timeSpan]

@[simp] theorem reads_rename (e : Expr) : (e.rename ρ σ).reads = e.reads.map ρ := by
  induction e using inductionOn with
  | call f args r ih =>
    rw [rename_call, reads_call, reads_call, List.map_flatMap, List.flatMap_map]
    exact List.flatMap_congr ih
  | binary op a b r iha ihb => simp [iha, ihb]
  | unary op a r ih => simpa using ih
  | cond t a b r iht iha ihb => simp [iht, iha, ihb]
  | convert a r ih => simpa using ih
  | _ => rfl

@[simp] theorem calls_rename (e : Expr) : (e.rename ρ σ).calls = e.calls.map σ := by
  induction e using inductionOn with
  | call f args r ih =>
    rw [rename_call, calls_call, calls_call, List.map_cons, List.map_flatMap, List.flatMap_map]
    exact congrArg _ (List.flatMap_congr ih)
  | binary op a b r iha ihb => simp [iha, ihb]
  | unary op a r ih => simpa using ih
  | cond t a b r iht iha ihb => simp [iht, iha, ihb]
  | convert a r ih => simpa using ih
  | _ => rfl

theorem rename_rename_of_leftInverse {ρ' : String → String} (h : ∀ x, ρ' (ρ x) = x) (e : Expr) :
    (e.rename ρ).rename ρ' = e := by
  induction e using inductionOn with
  | slot s => simp [h]
  | call f args r ih =>
    rw [rename_call, rename_call, List.map_map]
    exact congrArg (Expr.call f · r) (List.map_congr_left ih |>.trans (List.map_id _))
  | binary op a b r iha ihb => simp [iha, ihb]
  | unary op a r ih => simp [ih]
  | cond t a b r iht iha ihb => simp [iht, iha, ihb]
  | convert a r ih => simp [ih]
  | _ => rfl

/-! ### The simplifying constructors -/

@[simp] theorem rename_mkBinary (op : BinaryOp) (a b : Expr) :
    (mkBinary op a b).rename ρ σ = mkBinary op (a.rename ρ σ) (b.rename ρ σ) := by
  cases op
  case andAlso | orElse =>
    simp only [mkBinary, isConstBool_rename, rep_rename]
    split_ifs <;> rfl
  all_goals simp [mkBinary]

@[simp] theorem rename_mkNot (e : Expr) : e.mkNot.rename ρ σ = (e.rename ρ σ).mkNot := by
  cases e with
  | const v r => cases v <;> rfl
  | unary op a r => cases op <;> rfl
  | call f args r => simp [mkNot]
  | _ => rfl

@[simp] theorem rename_mkIsNull (e : Expr) : e.mkIsNull.rename ρ σ = (e.rename ρ σ).mkIsNull := by
  unfold mkIsNull
  rw [knownNull?_rename]
  cases e.knownNull? <;> rfl

@[simp] theorem rename_mkIsNotNull (e : Expr) :
    e.mkIsNotNull.rename ρ σ = (e.rename ρ σ).mkIsNotNull := by
  unfold mkIsNotNull
  rw [knownNull?_rename]
  cases e.knownNull? <;> rfl

@[simp] theorem rename_mkUnary (op : UnaryOp) (e : Expr) :
    (mkUnary op e).rename ρ σ = mkUnary op (e.rename ρ σ) := by
  cases op <;> simp [mkUnary]

@[simp] theorem rename_reconvert (e : Expr) (r : Rep) :
    (e.reconvert r).rename ρ σ = (e.rename ρ σ).reconvert r := by
  cases e with
  | convert a q =>
    simp only [reconvert, rename_convert, rep_rename]
    split_ifs <;> rfl
  | call f args q => simp [reconvert]
  | _ => rfl

@[simp] theorem rename_mkConvert (e : Expr) (r : Rep) :
    (e.mkConvert r).rename ρ σ = (e.rename ρ σ).mkConvert r := by
  unfold mkConvert
  rw [rep_rename]
  split_ifs
  · rfl
  · cases e with
    | const v q =>
      simp only [rename_const]
      split <;> rfl
    | call f args q => simp
    | _ => exact rename_reconvert _ r

@[simp] theorem rename_unbox (e : Expr) : e.unbox.rename ρ σ = (e.rename ρ σ).unbox := by
  unfold unbox
  rw [rep_rename]
  split
  · exact rename_mkConvert _ _
  · rfl

@[simp] theorem rename_box (e : Expr) : e.box.rename ρ σ = (e.rename ρ σ).box := by
  unfold box
  rw [rep_rename]
  split
  · exact rename_mkConvert _ _
  · rfl

@[simp] theorem rename_toLong (e : Expr) : e.toLong.rename ρ σ = (e.rename ρ σ).toLong :=
  rename_mkConvert _ _

@[simp] theorem rename_toInt (e : Expr) : e.toInt.rename ρ σ = (e.rename ρ σ).toInt :=
  rename_mkConvert _ _

theorem rename_foldl_mkBinary (op : BinaryOp) (acc : Expr) (es : List Expr) :
    (es.foldl (mkBinary op) acc).rename ρ σ = (es.map (rename ρ σ)).foldl (mkBinary op) (acc.rename ρ σ) := by
  induction es generalizing acc with
  | nil => rfl
  | cons e es ih =>
    rw [List.foldl_cons, ih, rename_mkBinary, List.map_cons, List.foldl_cons]

@[simp] theorem rename_conj (es : List Expr) : (conj es).rename ρ σ = conj (es.map (rename ρ σ)) :=
  rename_foldl_mkBinary _ _ _

@[simp] theorem rename_disj (es : List Expr) : (disj es).rename ρ σ = disj (es.map (rename ρ σ)) :=
  rename_foldl_mkBinary _ _ _

/-- A constant, or a constant that the running program converts. -/
def IsFixed (e : Expr) : Prop := ∃ v r, e = .const v r ∨ ∃ q, e = .convert (.const v r) q

theorem isFixed_const (v : Value) (r : Rep) : (Expr.const v r).IsFixed := ⟨v, r, .inl rfl⟩

theorem IsFixed.mkConvert {v : Value} {q : Rep} (r : Rep) : ((Expr.const v q).mkConvert r).IsFixed := by
  unfold Expr.mkConvert
  split_ifs
  · exact isFixed_const v q
  · dsimp only
    split
    · exact isFixed_const _ _
    · exact ⟨v, q, .inr ⟨r, rfl⟩⟩

theorem IsFixed.rename {e : Expr} (h : e.IsFixed) : e.rename ρ σ = e := by
  obtain ⟨v, r, rfl | ⟨q, rfl⟩⟩ := h <;> rfl

/-- An expression without slots is the same as others whatever their slots are called. -/
theorem IsFixed.same_rename {e : Expr} (h : e.IsFixed) (f : Expr) : e.same (f.rename ρ σ) = e.same f := by
  obtain ⟨v, r, rfl | ⟨q, rfl⟩⟩ := h
  · cases f <;> rfl
  · cases f with
    | convert a q' => cases a <;> rfl
    | _ => rfl

/-- A choice whose first branch is fixed. Of two branches with slots a renaming might identify the slots. -/
theorem rename_mkCond {a : Expr} (ha : a.IsFixed) (t b : Expr) :
    (mkCond t a b).rename ρ σ = mkCond (t.rename ρ σ) a (b.rename ρ σ) := by
  have hopen : ∀ t b : Expr, (∀ c r, t ≠ .const (.bool c) r) → mkCond t a b =
      if a.same b then a
      else if a.rep = .truth ∧ b.rep = .truth ∧ a.isConstBool true ∧ b.isConstBool false then t
      else if a.rep = .truth ∧ b.rep = .truth ∧ a.isConstBool false ∧ b.isConstBool true then t.mkNot
      else .cond t a b (choiceRep a b) := by
    intro t b ht
    unfold mkCond
    split
    · exact absurd rfl (ht _ _)
    · rfl
  have hrep : choiceRep a (b.rename ρ σ) = choiceRep a b := by
    nth_rewrite 1 [← ha.rename (ρ := ρ)]
    exact choiceRep_rename a b
  by_cases ht : ∃ c r, t = .const (.bool c) r
  · obtain ⟨c, r, rfl⟩ := ht
    cases c
    · rfl
    · exact ha.rename
  · push Not at ht
    have ht' : ∀ c r, t.rename ρ σ ≠ .const (.bool c) r := by
      intro c r h
      cases t <;> first | exact ht c r h | simp [Expr.rename] at h
    -- the branches are compared, which a renaming does not change since the first one is fixed
    rw [hopen t b ht, hopen _ _ ht', ha.same_rename, rep_rename, isConstBool_rename, isConstBool_rename,
      hrep]
    split_ifs
    · exact ha.rename
    · rfl
    · exact rename_mkNot t
    · rw [rename_cond, ha.rename]

end Expr

/-- The flagged expression with the names of its slots replaced. -/
def Flagged.rename (ρ : String → String) (σ : String → String := id) (f : Flagged) : Flagged := ⟨f.isNull.rename ρ σ, f.value.rename ρ σ⟩

/-! ### Steps of lowering -/

open SqlCode.Expr

variable {ρ σ : String → String} {fs : List String}

/-- The names of the root, of the given routines and of those without a state of their own stay. -/
structure KeepsNames (fs : List String) (ρ σ : String → String) : Prop where
  root : ρ "root" = "root"
  steady : ∀ f, f ∉ volatile → σ f = f
  named : ∀ f ∈ fs, σ f = f

namespace KeepsNames

variable (h : KeepsNames fs ρ σ)
include h

theorem rename_root : Expr.root.rename ρ σ = Expr.root := by simp [Expr.root, h.root]

theorem rename_call {f : String} (hf : f ∉ volatile) (args : List Expr) (r : Rep) :
    (Expr.call f args r).rename ρ σ = .call f (args.map (Expr.rename ρ σ)) r := by
  rw [Expr.rename_call, h.steady f hf]

theorem rename_floorDiv (e : Expr) (n : Int) :
    (e.floorDiv n).rename ρ σ = (e.rename ρ σ).floorDiv n := by
  rw [Expr.floorDiv, h.rename_call (by decide)]
  simp [Expr.floorDiv]

theorem rename_floorMod (e : Expr) (n : Int) :
    (e.floorMod n).rename ρ σ = (e.rename ρ σ).floorMod n := by
  unfold Expr.floorMod
  split
  · rfl
  · rw [h.rename_call (by decide)]
    simp

theorem rename_toLocalTimestamp (e : Expr) :
    e.toLocalTimestamp.rename ρ σ = (e.rename ρ σ).toLocalTimestamp := by
  rw [toLocalTimestamp, h.rename_call (by decide)]
  simp [toLocalTimestamp, h.rename_root, h.steady "timeZone" (by decide)]

theorem rename_castTo (e : Expr) (source target : SqlType) :
    (e.castTo source target).rename ρ σ = (e.rename ρ σ).castTo source target := by
  unfold castTo
  split
  · exact rename_mkConvert _ _
  · rw [rename_mkConvert, h.rename_call (by decide)]
    simp

end KeepsNames

namespace EventClauses

/-- The clauses with the names of slots replaced. -/
def rename (ρ σ : String → String) (cs : EventClauses) : EventClauses :=
  ⟨⟨cs.onEmpty.behavior.rename ρ σ, cs.onEmpty.default.rename ρ σ⟩,
    ⟨cs.onError.behavior.rename ρ σ, cs.onError.default.rename ρ σ⟩⟩

theorem rename_set (cs : EventClauses) (event : OnClause) (c : EventClause) :
    (cs.set event c).rename ρ σ =
      (cs.rename ρ σ).set event ⟨c.behavior.rename ρ σ, c.default.rename ρ σ⟩ := by
  cases event <;> rfl

theorem clause?_rename (before : List Expr) : clause? (before.map (Expr.rename ρ σ)) =
    (clause? before).map fun c => ⟨c.behavior.rename ρ σ, c.default.rename ρ σ⟩ := by
  rcases before with _ | ⟨previous, _ | ⟨second, rest⟩⟩
  · rfl
  · rfl
  · have hd : isDefault (second.rename ρ σ) = isDefault second := by simp [isDefault]
    simp only [clause?, List.map_cons, hd]
    split
    · simp
    · rfl

theorem read_rename (cs : EventClauses) (before rest : List Expr) :
    read (cs.rename ρ σ) (before.map (Expr.rename ρ σ)) (rest.map (Expr.rename ρ σ)) =
      (read cs before rest).map (rename ρ σ) := by
  induction rest generalizing cs before with
  | nil => rfl
  | cons e rest ih =>
    -- an operand that is no keyword is only remembered
    have hskip := ih cs (e :: before)
    rw [List.map_cons] at hskip
    rw [List.map_cons]
    unfold read
    rw [symbol?_rename, clause?_rename]
    split
    · rename_i event _
      cases clause? before with
      | none => rfl
      | some c =>
        have hset := ih (cs.set event c) (e :: before)
        rw [rename_set, List.map_cons] at hset
        exact hset
    · exact hskip

end EventClauses

namespace CallSite

variable (site : CallSite) (args : List Expr)

theorem rename_conform (e : Expr) : (site.conform e).rename ρ σ = site.conform (e.rename ρ σ) := by
  unfold conform
  rw [rep_rename]
  split
  · rfl
  · exact rename_mkConvert _ _

theorem harmonize_rename :
    site.harmonize (args.map (Expr.rename ρ σ)) = (site.harmonize args).map (Expr.rename ρ σ) := by
  unfold harmonize
  simp only
  split
  · rfl
  · split
    · rfl
    · split
      · simp [Function.comp_def]
      · rfl

theorem pair_rename : site.pair (args.map (Expr.rename ρ σ)) =
    (site.pair args).map (Prod.map (Expr.rename ρ σ) (Expr.rename ρ σ)) := by
  rcases args with _ | ⟨a, _ | ⟨b, _ | ⟨c, rest⟩⟩⟩ <;> simp [pair, invalid, Except.map]

theorem unary_rename (op : UnaryOp) :
    site.unary op (args.map (Expr.rename ρ σ)) = (site.unary op args).map (Expr.rename ρ σ) := by
  cases args <;> simp [CallSite.unary, invalid, Except.map]

theorem predicate_rename (test : Builtin) :
    site.predicate test (args.map (Expr.rename ρ σ)) =
      (site.predicate test args).map (Expr.rename ρ σ) := by
  cases args with
  | nil => rfl
  | cons e rest =>
    simp only [predicate, List.map_cons]
    split <;> simp [Except.map, unsupported]

theorem reinterpret_rename :
    site.reinterpret (args.map (Expr.rename ρ σ)) = (site.reinterpret args).map (Expr.rename ρ σ) := by
  cases args <;> rfl

theorem align_rename (typeA typeB : TypeName) (a b : Expr) :
    site.align typeA typeB (a.rename ρ σ) (b.rename ρ σ) =
      Prod.map (Expr.rename ρ σ) (Expr.rename ρ σ) (site.align typeA typeB a b) := by
  unfold align
  split
  · split_ifs <;> simp
  · simp
  · rfl

theorem connective_rename (neutral : Bool) (args : List Flagged) :
    site.connective neutral (args.map (Flagged.rename ρ σ)) =
      (site.connective neutral args).rename ρ σ := by
  have hsub : (args.map (Flagged.rename ρ σ)).map
      (fun a => Expr.mkCond a.isNull (.bool neutral) a.value.unbox) =
      (args.map fun a => Expr.mkCond a.isNull (.bool neutral) a.value.unbox).map (Expr.rename ρ σ) := by
    simp only [List.map_map]
    refine List.map_congr_left fun a _ => ?_
    simp [Flagged.rename, rename_mkCond (isFixed_const (.bool neutral) .truth), Expr.bool]
  have hflags : (args.map (Flagged.rename ρ σ)).map (·.isNull) =
      (args.map (·.isNull)).map (Expr.rename ρ σ) := by
    simp [Flagged.rename]
  have hvalue : ∀ decided hasNull : Expr, (Expr.mkCond decided (.boxedBool !neutral)
      (.mkCond hasNull (.null (.boxed .bool)) (.boxedBool neutral))).rename ρ σ =
      Expr.mkCond (decided.rename ρ σ) (.boxedBool !neutral)
        (.mkCond (hasNull.rename ρ σ) (.null (.boxed .bool)) (.boxedBool neutral)) := by
    intro decided hasNull
    have hfixed : ∀ b, (Expr.boxedBool b).IsFixed := fun b => isFixed_const _ _
    have hnull : (Expr.null (.boxed .bool)).IsFixed := isFixed_const _ _
    rw [rename_mkCond (hfixed _), rename_mkCond hnull, rename_boxedBool]
  unfold connective
  rw [hsub, hflags]
  simp only
  split_ifs <;> simp [hvalue]

theorem binary_rename (op : BinaryOp) {backup : Option String}
    (hb : ∀ f ∈ backup, σ f = f ∧ σ (f ++ "Any") = f ++ "Any") :
    site.binary op backup (args.map (Expr.rename ρ σ)) =
      (site.binary op backup args).map (Expr.rename ρ σ) := by
  rcases args with _ | ⟨a, _ | ⟨b, _ | ⟨c, rest⟩⟩⟩
  case cons.cons.nil =>
    cases backup with
    | none => simp [CallSite.binary, Except.map]
    | some f =>
      simp only [CallSite.binary, List.map_cons, List.map_nil, rep_rename]
      split_ifs <;> simp [Except.map, hb f rfl]
  all_goals simp [CallSite.binary, invalid, Except.map]

variable (h : KeepsNames fs ρ σ)
include h

theorem cast_rename :
    site.cast (args.map (Expr.rename ρ σ)) = (site.cast args).map (Expr.rename ρ σ) := by
  unfold cast
  cases site.operands with
  | nil => rfl
  | cons operand operands =>
    cases args with
    | nil => rfl
    | cons e rest =>
      simp only [List.map_cons]
      split_ifs
      · rfl
      · split <;> simp [Except.map, h.rename_castTo]

theorem system_rename : site.system.map (Expr.rename ρ σ) = site.system := by
  unfold system
  simp only
  split <;> simp [Except.map, h.rename_root, unsupported, h.steady, volatile]

theorem sequence_rename {f : String} (hf : σ f = f) :
    site.sequence f (args.map (Expr.rename ρ σ)) = (site.sequence f args).map (Expr.rename ρ σ) := by
  rcases args with _ | ⟨a, _ | ⟨b, rest⟩⟩ <;>
    simp [sequence, Except.map, invalid, h.rename_root, hf]

theorem trim_rename :
    site.trim (args.map (Expr.rename ρ σ)) = (site.trim args).map (Expr.rename ρ σ) := by
  rcases args with _ | ⟨a, _ | ⟨b, _ | ⟨c, _ | ⟨d, rest⟩⟩⟩⟩
  case cons.cons.cons.nil =>
    simp only [trim, List.map_cons, List.map_nil, symbol?_rename]
    split <;> simp [Except.map, h.steady "trim" (by decide)]
  all_goals rfl

theorem item_rename :
    site.item (args.map (Expr.rename ρ σ)) = (site.item args).map (Expr.rename ρ σ) := by
  unfold item
  cases site.operands with
  | nil => rfl
  | cons container rest =>
    simp only [Except.map]
    rw [h.rename_call (by split <;> decide)]

theorem jsonValue_rename :
    site.jsonValue (args.map (Expr.rename ρ σ)) = (site.jsonValue args).map (Expr.rename ρ σ) := by
  rcases args with _ | ⟨document, _ | ⟨path, rest⟩⟩
  case cons.cons =>
    have hread : EventClauses.read {} [] (rest.map (Expr.rename ρ σ)) = _ :=
      EventClauses.read_rename (ρ := ρ) (σ := σ) {} [] rest
    simp only [jsonValue, List.map_cons, hread]
    cases EventClauses.read {} [] rest with
    | error err => rfl
    | ok cs =>
      show Except.ok _ = Except.ok _
      simp [EventClauses.rename, h.steady "jsonValue" (by decide)]
  all_goals rfl

/-! ### Dates, times and intervals -/

theorem isolate_rename (u : TimeUnit) (e : Expr) :
    isolate u (e.rename ρ σ) = (isolate u e).map (Expr.rename ρ σ) := by
  unfold isolate
  cases u.factor with
  | error err => rfl
  | ok n =>
    show (if u = .quarter then pure _ else pure _) = Except.map _ (if u = .quarter then pure _ else pure _)
    split <;> simp [Except.map, pure, Except.pure, h.rename_floorMod]

theorem calendarPart_rename (u : TimeUnit) (type : TypeName) (unit e : Expr) :
    calendarPart u type (unit.rename ρ σ) (e.rename ρ σ) =
      (calendarPart u type unit e).map (Expr.rename ρ σ) := by
  have hpart := h.steady "unixDateExtract" (by decide)
  unfold calendarPart
  simp only
  split
  · exact isolate_rename h u e
  · split <;> simp [Except.map, unsupported, h.rename_toLocalTimestamp, h.rename_floorDiv, hpart]

theorem epochPart_rename (type : TypeName) (e : Expr) :
    epochPart type (e.rename ρ σ) = (epochPart type e).map (Expr.rename ρ σ) := by
  unfold epochPart
  simp only
  split <;> simp [Except.map, unsupported, h.rename_toLocalTimestamp]

theorem extract_rename :
    site.extract (args.map (Expr.rename ρ σ)) = (site.extract args).map (Expr.rename ρ σ) := by
  unfold extract
  rw [pair_rename]
  cases site.pair args with
  | error err => rfl
  | ok p =>
    obtain ⟨unit, e⟩ := p
    show (unit.rename ρ σ).timeSpan "EXTRACT" >>= _ = Except.map _ (unit.timeSpan "EXTRACT" >>= _)
    rw [timeSpan_rename]
    cases unit.timeSpan "EXTRACT" with
    | error err => rfl
    | ok span =>
      simp only [bind, Except.bind]
      cases site.operands[1]? with
      | none => rfl
      | some operand =>
        simp only
        split
        · exact calendarPart_rename h _ _ unit e
        · split
          case h_4 => exact epochPart_rename h _ e
          case h_5 =>
            split
            · rfl
            · exact isolate_rename h _ e
          all_goals
            split
            · rfl
            · simp [Except.map, pure, Except.pure, h.rename_floorMod]

theorem rename_toUnit {f : String} (hf : f ∉ volatile) (e : Expr) (r : Rep) (u : TimeUnit) :
    (toUnit f e r u).rename ρ σ = toUnit f (e.rename ρ σ) r u := by
  simp [toUnit, h.steady f hf]

theorem boundary_rename (isFloor : Bool) :
    site.boundary isFloor (args.map (Expr.rename ρ σ)) =
      (site.boundary isFloor args).map (Expr.rename ρ σ) := by
  rcases args with _ | ⟨e, _ | ⟨unit, _ | ⟨c, rest⟩⟩⟩
  case cons.nil =>
    simp only [boundary, List.map_cons, List.map_nil]
    split_ifs <;> simp [Except.map, h.steady, volatile]
  case cons.cons.nil =>
    have he : (if site.type.name = .timestampWithLocalTimeZone then (e.rename ρ σ).toLocalTimestamp
        else e.rename ρ σ) = (if site.type.name = .timestampWithLocalTimeZone then e.toLocalTimestamp
          else e).rename ρ σ := by
      split_ifs
      · exact (h.rename_toLocalTimestamp e).symm
      · rfl
    simp only [boundary, List.map_cons, List.map_nil, he, timeSpan_rename]
    cases unit.timeSpan (if isFloor then "floor" else "ceil") with
    | error err => rfl
    | ok span =>
      simp only [bind, Except.bind]
      split
      case h_6 => cases isFloor <;> simp [Except.map, pure, Except.pure, rename_toUnit h, volatile]
      all_goals
        split_ifs <;> simp [Except.map, pure, Except.pure, rename_toUnit h, h.steady, volatile]
  all_goals simp [boundary, invalid, Except.map]

theorem rename_addMonths (minus : Bool) (type : TypeName) (a b : Expr) :
    (site.addMonths minus type a b).rename ρ σ =
      site.addMonths minus type (a.rename ρ σ) (b.rename ρ σ) := by
  have hb : (if minus then Expr.mkUnary .negate (b.rename ρ σ) else b.rename ρ σ) =
      (if minus then Expr.mkUnary .negate b else b).rename ρ σ := by
    split <;> simp
  unfold addMonths
  simp only [hb]
  split
  · rfl
  · split <;> rw [h.rename_call (by decide)] <;> rfl

omit h in
theorem rename_multiplyDivide (e : Expr) (multiplier divider : Int) :
    (multiplyDivide e multiplier divider).rename ρ σ =
      multiplyDivide (e.rename ρ σ) multiplier divider := by
  unfold multiplyDivide divided
  split_ifs <;> simp

theorem rename_difference (typeA typeB : TypeName) (a b : Expr) :
    (site.difference typeA typeB a b).rename ρ σ =
      site.difference typeA typeB (a.rename ρ σ) (b.rename ρ σ) := by
  unfold difference
  split
  · split <;> simp [h.steady, volatile]
  · simp [rename_multiplyDivide]

theorem rename_addInterval (minus : Bool) (a b : Expr) :
    (site.addInterval minus a b).rename ρ σ =
      site.addInterval minus (a.rename ρ σ) (b.rename ρ σ) := by
  unfold addInterval
  simp only
  split_ifs <;> simp [h.rename_floorMod]

theorem datetime_rename :
    site.datetime (args.map (Expr.rename ρ σ)) = (site.datetime args).map (Expr.rename ρ σ) := by
  unfold datetime
  rw [pair_rename]
  cases site.pair args with
  | error err => rfl
  | ok p =>
    obtain ⟨a, b⟩ := p
    simp only [Except.map, bind, Except.bind, Prod.map]
    split
    · rename_i typeA typeB _
      simp only [align_rename, Prod.map]
      split_ifs <;>
        simp [pure, Except.pure, rename_addMonths _ h, rename_addInterval _ h, rename_difference _ h,
          unsupported]
    · rfl

theorem temporal_rename {date timestamp : String} (hd : σ date = date) (ht : σ timestamp = timestamp)
    (withLocale : Bool) : site.temporal date timestamp withLocale (args.map (Expr.rename ρ σ)) =
      (site.temporal date timestamp withLocale args).map (Expr.rename ρ σ) := by
  have hargs : (if withLocale then args.map (Expr.rename ρ σ) ++ [.call "locale" [.root] .string]
      else args.map (Expr.rename ρ σ)) = (if withLocale then args ++ [.call "locale" [.root] .string]
        else args).map (Expr.rename ρ σ) := by
    split_ifs
    · simp [h.rename_root, h.steady "locale" (by decide)]
    · rfl
  unfold temporal
  simp only [hargs]
  cases site.operands with
  | nil => rfl
  | cons operand rest =>
    simp only
    split <;> simp [Except.map, unsupported, hd, ht]

end CallSite

/-! ### Lowerings -/

theorem NullPolicy.condition_rename (p : NullPolicy) (flags : List Expr) :
    p.condition (flags.map (Expr.rename ρ σ)) = (p.condition flags).rename ρ σ := by
  cases p with
  | none => rfl
  | arg0 => cases flags <;> rfl
  | _ => exact (rename_disj flags).symm

theorem NullPolicy.unbox_rename (p : NullPolicy) (operands : List Expr) :
    p.unbox (operands.map (Expr.rename ρ σ)) = (p.unbox operands).map (Expr.rename ρ σ) := by
  cases p with
  | none => rfl
  | arg0 => cases operands <;> simp [NullPolicy.unbox]
  | _ => simp [NullPolicy.unbox]

theorem Emit.operandsFor_rename (policy : NullPolicy) (harmonize : Bool) (site : CallSite)
    (args : List Flagged) : operandsFor policy harmonize site (args.map (Flagged.rename ρ σ)) =
      (operandsFor policy harmonize site args).map (Expr.rename ρ σ) := by
  have hvalues : (args.map (Flagged.rename ρ σ)).map (·.value) =
      (args.map (·.value)).map (Expr.rename ρ σ) := by
    simp [Flagged.rename]
  unfold operandsFor
  rw [hvalues, ← NullPolicy.unbox_rename]
  split_ifs
  · rw [CallSite.harmonize_rename]
  · rfl

theorem Lowering.isFixed_whenNull (l : Lowering) (r : Rep) : (l.whenNull r).IsFixed := by
  unfold whenNull
  split
  · exact .mkConvert r
  · cases r <;> exact isFixed_const _ _

theorem Lowering.choice_rename (l : Lowering) (site : CallSite) (args : List Flagged) (raw : Expr) :
    Emit.choice l.policy (args.map (Flagged.rename ρ σ)) l.whenNull (site.conform (raw.rename ρ σ)) =
      (Emit.choice l.policy args l.whenNull (site.conform raw)).rename ρ σ := by
  have hflags : (args.map (Flagged.rename ρ σ)).map (·.isNull) =
      (args.map (·.isNull)).map (Expr.rename ρ σ) := by
    simp [Flagged.rename]
  unfold Emit.choice
  rw [rename_mkCond (l.isFixed_whenNull _), hflags, NullPolicy.condition_rename,
    ← site.rename_conform, rep_rename]

end SqlCode
