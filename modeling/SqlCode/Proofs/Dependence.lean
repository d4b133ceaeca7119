import SqlCode.Proofs.Evaluation

/-!
# What code depends on

The nodes of an expression, the slots that it reads and the routines that it calls. An expression that
calls no routine with a state of its own (`Run.volatile`) leaves the machine as it is, and its outcome
is determined by the slots that it reads, the context and the registered routines.
-/

namespace SqlCode

variable {es : List Expr} {e : Expr} {S S' : String → Prop} {m m' : Machine}

namespace Expr

/-! ### Nodes -/

mutual

/-- The expression and every expression below it. -/
def nodes : Expr → List Expr
  | .const v r => [.const v r]
  | .slot s => [.slot s]
  | .new c => [.new c]
  | .call f args r => .call f args r :: nodesAll args
  | .binary op a b r => .binary op a b r :: (nodes a ++ nodes b)
  | .unary op a r => .unary op a r :: nodes a
  | .convert a r => .convert a r :: nodes a
  | .cond t a b r => .cond t a b r :: (nodes t ++ nodes a ++ nodes b)
termination_by structural e => e

/-- The nodes of all expressions. -/
def nodesAll : List Expr → List Expr
  | [] => []
  | e :: es => nodes e ++ nodesAll es
termination_by structural es => es

end

theorem nodesAll_eq_flatMap (es : List Expr) : nodesAll es = es.flatMap nodes := by
  induction es with
  | nil => rfl
  | cons e es ih => rw [nodesAll, ih, List.flatMap_cons]

theorem self_mem_nodes (e : Expr) : e ∈ e.nodes := by
  cases e <;> simp [nodes]

@[elab_as_elim]
theorem inductionOn {motive : Expr → Prop} (const : ∀ v r, motive (.const v r))
    (slot : ∀ s, motive (.slot s))
    (call : ∀ f args r, (∀ a ∈ args, motive a) → motive (.call f args r))
    (binary : ∀ op a b r, motive a → motive b → motive (.binary op a b r))
    (unary : ∀ op a r, motive a → motive (.unary op a r))
    (cond : ∀ t a b r, motive t → motive a → motive b → motive (.cond t a b r))
    (convert : ∀ a r, motive a → motive (.convert a r)) (new : ∀ c, motive (.new c)) (e : Expr) :
    motive e :=
  @Expr.rec motive (fun es => ∀ a ∈ es, motive a)
    const slot call binary unary cond convert new (by simp) (by simp; tauto) e

/-- The name of the slot that a node is. -/
def slotName? : Expr → Option String
  | .slot s => some s.name
  | _ => none

/-- The name of the routine that a node calls. -/
def routine? : Expr → Option String
  | .call f _ _ => some f
  | _ => none

/-- The names of the slots that an expression reads. -/
def reads (e : Expr) : List String := e.nodes.filterMap slotName?

/-- The names of the routines that an expression calls. -/
def calls (e : Expr) : List String := e.nodes.filterMap routine?

@[simp] theorem reads_const (v : Value) (r : Rep) : (Expr.const v r).reads = [] := rfl

@[simp] theorem reads_slot (s : Slot) : (Expr.slot s).reads = [s.name] := rfl

@[simp] theorem reads_new (c : Container) : (Expr.new c).reads = [] := rfl

@[simp] theorem reads_call (f : String) (args : List Expr) (r : Rep) :
    (Expr.call f args r).reads = args.flatMap reads := by
  show (nodesAll args).filterMap slotName? = _
  rw [nodesAll_eq_flatMap, List.filterMap_flatMap]
  rfl

@[simp] theorem reads_binary (op : BinaryOp) (a b : Expr) (r : Rep) :
    (Expr.binary op a b r).reads = a.reads ++ b.reads := List.filterMap_append

@[simp] theorem reads_unary (op : UnaryOp) (a : Expr) (r : Rep) :
    (Expr.unary op a r).reads = a.reads := rfl

@[simp] theorem reads_convert (a : Expr) (r : Rep) : (Expr.convert a r).reads = a.reads := rfl

@[simp] theorem reads_cond (t a b : Expr) (r : Rep) :
    (Expr.cond t a b r).reads = t.reads ++ a.reads ++ b.reads := by
  show (nodes t ++ nodes a ++ nodes b).filterMap slotName? = _
  rw [List.filterMap_append, List.filterMap_append]
  rfl

@[simp] theorem calls_const (v : Value) (r : Rep) : (Expr.const v r).calls = [] := rfl

@[simp] theorem calls_slot (s : Slot) : (Expr.slot s).calls = [] := rfl

@[simp] theorem calls_new (c : Container) : (Expr.new c).calls = [] := rfl

@[simp] theorem calls_call (f : String) (args : List Expr) (r : Rep) :
    (Expr.call f args r).calls = f :: args.flatMap calls := by
  show f :: (nodesAll args).filterMap routine? = _
  rw [nodesAll_eq_flatMap, List.filterMap_flatMap]
  rfl

@[simp] theorem calls_binary (op : BinaryOp) (a b : Expr) (r : Rep) :
    (Expr.binary op a b r).calls = a.calls ++ b.calls := List.filterMap_append

@[simp] theorem calls_unary (op : UnaryOp) (a : Expr) (r : Rep) :
    (Expr.unary op a r).calls = a.calls := rfl

@[simp] theorem calls_convert (a : Expr) (r : Rep) : (Expr.convert a r).calls = a.calls := rfl

@[simp] theorem calls_cond (t a b : Expr) (r : Rep) :
    (Expr.cond t a b r).calls = t.calls ++ a.calls ++ b.calls := by
  show (nodes t ++ nodes a ++ nodes b).filterMap routine? = _
  rw [List.filterMap_append, List.filterMap_append]
  rfl

/-- Every slot that the expression reads satisfies `S`, and every routine that it calls `Q`. -/
def Uses (S Q : String → Prop) (e : Expr) : Prop := (∀ x ∈ e.reads, S x) ∧ ∀ f ∈ e.calls, Q f

section Uses

variable {Q Q' : String → Prop}

@[simp] theorem uses_const (v : Value) (r : Rep) : (Expr.const v r).Uses S Q := by simp [Uses]

@[simp] theorem uses_slot (s : Slot) : (Expr.slot s).Uses S Q ↔ S s.name := by simp [Uses]

@[simp] theorem uses_new (c : Container) : (Expr.new c).Uses S Q := by simp [Uses]

@[simp] theorem uses_call (f : String) (args : List Expr) (r : Rep) :
    (Expr.call f args r).Uses S Q ↔ Q f ∧ ∀ a ∈ args, a.Uses S Q := by
  simp only [Uses, reads_call, calls_call, List.mem_flatMap, List.mem_cons]
  grind

@[simp] theorem uses_binary (op : BinaryOp) (a b : Expr) (r : Rep) :
    (Expr.binary op a b r).Uses S Q ↔ a.Uses S Q ∧ b.Uses S Q := by
  simp only [Uses, reads_binary, calls_binary, List.mem_append]
  grind

@[simp] theorem uses_unary (op : UnaryOp) (a : Expr) (r : Rep) :
    (Expr.unary op a r).Uses S Q ↔ a.Uses S Q := Iff.rfl

@[simp] theorem uses_convert (a : Expr) (r : Rep) : (Expr.convert a r).Uses S Q ↔ a.Uses S Q :=
  Iff.rfl

@[simp] theorem uses_cond (t a b : Expr) (r : Rep) :
    (Expr.cond t a b r).Uses S Q ↔ t.Uses S Q ∧ a.Uses S Q ∧ b.Uses S Q := by
  simp only [Uses, reads_cond, calls_cond, List.mem_append]
  grind

theorem Uses.mono (h : e.Uses S Q) (hS : ∀ x, S x → S' x) (hQ : ∀ f, Q f → Q' f := by exact fun _ h => h) :
    e.Uses S' Q' := ⟨fun x hx => hS x (h.1 x hx), fun f hf => hQ f (h.2 f hf)⟩

theorem uses_true (e : Expr) : e.Uses (fun _ => True) fun _ => True := ⟨fun _ _ => trivial, fun _ _ => trivial⟩

/-! ### The simplifying constructors use nothing beyond their operands -/

@[simp] theorem uses_bool (b : Bool) : (Expr.bool b).Uses S Q := uses_const _ _

@[simp] theorem uses_null (r : Rep) : (Expr.null r).Uses S Q := uses_const _ _

@[simp] theorem uses_defaultOf (r : Rep) : (Expr.defaultOf r).Uses S Q := by
  cases r <;> exact uses_const _ _

theorem Uses.mkBinary {a b : Expr} (ha : a.Uses S Q) (hb : b.Uses S Q) (op : BinaryOp) :
    (Expr.mkBinary op a b).Uses S Q := by
  have hnode : ∀ r, (Expr.binary op a b r).Uses S Q := fun r => (uses_binary ..).2 ⟨ha, hb⟩
  cases op
  case andAlso | orElse =>
    simp only [Expr.mkBinary]
    split_ifs <;> first | exact ha | exact hb | exact hnode _
  all_goals exact hnode _

theorem Uses.mkNot (h : e.Uses S Q) : e.mkNot.Uses S Q := by
  unfold Expr.mkNot
  split
  · exact uses_bool _
  · exact h
  · exact h

theorem Uses.mkIsNull (h : e.Uses S Q) : e.mkIsNull.Uses S Q := by
  unfold Expr.mkIsNull
  split
  · exact uses_bool _
  · exact h

theorem Uses.mkIsNotNull (h : e.Uses S Q) : e.mkIsNotNull.Uses S Q := by
  unfold Expr.mkIsNotNull
  split
  · exact uses_bool _
  · exact h

theorem Uses.mkCond {t a b : Expr} (ht : t.Uses S Q) (ha : a.Uses S Q) (hb : b.Uses S Q) :
    (Expr.mkCond t a b).Uses S Q := by
  unfold Expr.mkCond
  split
  · split_ifs
    · exact ha
    · exact hb
  · split_ifs
    · exact ha
    · exact ht
    · exact ht.mkNot
    · exact (uses_cond ..).2 ⟨ht, ha, hb⟩

theorem Uses.mkConvert (h : e.Uses S Q) (r : Rep) : (e.mkConvert r).Uses S Q := by
  unfold Expr.mkConvert
  split_ifs
  · exact h
  · split
    · split <;> simp
    · unfold Expr.reconvert
      split
      · split_ifs
        · exact h
        · exact h
      · exact h

theorem Uses.unbox (h : e.Uses S Q) : e.unbox.Uses S Q := by
  unfold Expr.unbox
  split
  · exact h.mkConvert _
  · exact h

theorem Uses.box (h : e.Uses S Q) : e.box.Uses S Q := by
  unfold Expr.box
  split
  · exact h.mkConvert _
  · exact h

theorem uses_foldl_mkBinary {acc : Expr} (op : BinaryOp) (ha : acc.Uses S Q)
    (hes : ∀ e ∈ es, e.Uses S Q) : (es.foldl (Expr.mkBinary op) acc).Uses S Q := by
  induction es generalizing acc with
  | nil => exact ha
  | cons e es ih =>
    exact ih (ha.mkBinary (hes e (by simp)) op) fun e' he' => hes e' (by simp [he'])

theorem uses_conj (h : ∀ e ∈ es, e.Uses S Q) : (Expr.conj es).Uses S Q :=
  uses_foldl_mkBinary _ (uses_bool _) h

theorem uses_disj (h : ∀ e ∈ es, e.Uses S Q) : (Expr.disj es).Uses S Q :=
  uses_foldl_mkBinary _ (uses_bool _) h

end Uses

/-! ### Renaming -/

mutual

/-- The expression with the names of its slots and of the routines that it calls replaced. -/
def rename (ρ : String → String) (σ : String → String := id) : Expr → Expr
  | .const v r => .const v r
  | .slot s => .slot ⟨ρ s.name, s.rep⟩
  | .call f args r => .call (σ f) (renameAll ρ σ args) r
  | .binary op a b r => .binary op (rename ρ σ a) (rename ρ σ b) r
  | .unary op a r => .unary op (rename ρ σ a) r
  | .cond t a b r => .cond (rename ρ σ t) (rename ρ σ a) (rename ρ σ b) r
  | .convert a r => .convert (rename ρ σ a) r
  | .new c => .new c
termination_by structural e => e

/-- The expressions with their names replaced. -/
def renameAll (ρ σ : String → String) : List Expr → List Expr
  | [] => []
  | e :: es => rename ρ σ e :: renameAll ρ σ es
termination_by structural es => es

end

section Rename

variable {ρ σ : String → String}

theorem renameAll_eq_map (es : List Expr) : renameAll ρ σ es = es.map (rename ρ σ) := by
  induction es with
  | nil => rfl
  | cons e es ih => rw [renameAll, ih, List.map_cons]

@[simp] theorem rename_const (v : Value) (r : Rep) : (Expr.const v r).rename ρ σ = .const v r := rfl

@[simp] theorem rename_slot (s : Slot) : (Expr.slot s).rename ρ σ = .slot ⟨ρ s.name, s.rep⟩ := rfl

@[simp] theorem rename_call (f : String) (args : List Expr) (r : Rep) :
    (Expr.call f args r).rename ρ σ = .call (σ f) (args.map (rename ρ σ)) r := by
  rw [rename, renameAll_eq_map]

@[simp] theorem rename_binary (op : BinaryOp) (a b : Expr) (r : Rep) :
    (Expr.binary op a b r).rename ρ σ = .binary op (a.rename ρ σ) (b.rename ρ σ) r := rfl

@[simp] theorem rename_unary (op : UnaryOp) (a : Expr) (r : Rep) :
    (Expr.unary op a r).rename ρ σ = .unary op (a.rename ρ σ) r := rfl

@[simp] theorem rename_cond (t a b : Expr) (r : Rep) :
    (Expr.cond t a b r).rename ρ σ = .cond (t.rename ρ σ) (a.rename ρ σ) (b.rename ρ σ) r := rfl

@[simp] theorem rename_convert (a : Expr) (r : Rep) :
    (Expr.convert a r).rename ρ σ = .convert (a.rename ρ σ) r := rfl

@[simp] theorem rename_new (c : Container) : (Expr.new c).rename ρ σ = .new c := rfl

theorem Uses.rename_eq {Q : String → Prop} (h : e.Uses S Q) (hρ : ∀ x, S x → ρ x = x)
    (hσ : ∀ f, Q f → σ f = f) : e.rename ρ σ = e := by
  induction e using inductionOn with
  | slot s => simp [hρ _ ((uses_slot s).1 h)]
  | call f args r ih =>
    obtain ⟨hf, hargs⟩ := (uses_call ..).1 h
    rw [rename_call, hσ f hf, List.map_congr_left fun a ha => ih a ha (hargs a ha), List.map_id']
  | binary op a b r iha ihb =>
    obtain ⟨ha, hb⟩ := (uses_binary ..).1 h
    simp [iha ha, ihb hb]
  | unary op a r ih => simp [ih h]
  | cond t a b r iht iha ihb =>
    obtain ⟨ht, ha, hb⟩ := (uses_cond ..).1 h
    simp [iht ht, iha ha, ihb hb]
  | convert a r ih => simp [ih h]
  | _ => rfl

@[simp] theorem rename_id (e : Expr) : e.rename id = e := e.uses_true.rename_eq (fun _ _ => rfl) fun _ _ => rfl

end Rename

end Expr

/-! ### Routines with a state of their own -/

/-- The routines that draw random numbers or use sequences. -/
def Run.volatile : List String :=
  ["sequenceNextValue", "sequenceCurrentValue", "rand", "randSeed", "randInteger",
   "randIntegerSeed"]

/-- The other routines of the machine read the context and change nothing. -/
theorem Run.result_stateful {name : String} {args : List Value} {run : Run Value}
    (hn : name ∉ volatile) (h : stateful? name args = some run) (m : Machine) :
    (run.result m).2 = m ∧
      ∀ m' : Machine, m.context = m'.context → (run.result m).1 = (run.result m').1 := by
  unfold stateful? at h
  split at h <;> first
    | simp [volatile] at hn; done
    | cases h; refine ⟨rfl, fun m' hc => ?_⟩; simp only [result_bind, result_get, andThen_ok, hc]; rfl
    | cases h

namespace Machine

/-- The states have the same context, the same routines and the same values of the slots in `S`. -/
structure Agrees (S : String → Prop) (m m' : Machine) : Prop where
  context : m.context = m'.context
  routines : m.routines = m'.routines
  slots : ∀ x, S x → m.get? x = m'.get? x

namespace Agrees

theorem refl (S : String → Prop) (m : Machine) : m.Agrees S m := ⟨rfl, rfl, fun _ _ => rfl⟩

theorem mono (h : m.Agrees S m') (hS : ∀ x, S' x → S x) : m.Agrees S' m' :=
  ⟨h.context, h.routines, fun x hx => h.slots x (hS x hx)⟩

theorem bind (h : m.Agrees S m') (name : String) (v : Value) :
    (m.bind name v).Agrees (fun x => S x ∨ x = name) (m'.bind name v) := by
  refine ⟨h.context, h.routines, fun x hx => ?_⟩
  by_cases hn : x = name
  · subst hn
    rw [get?_bind_self, get?_bind_self]
  · rw [get?_bind_of_ne _ _ hn, get?_bind_of_ne _ _ hn]
    exact h.slots x (hx.resolve_right hn)

end Agrees

end Machine

namespace Run

variable {α β : Type}

/-- A relation that outcomes have to themselves and that lasts when computations are put one after another. -/
structure Closed (P : ∀ {α : Type}, Run α → Run α → Prop) : Prop where
  lift : ∀ {α : Type} (r : Except Fault α), P (Run.lift r) (Run.lift r)
  bind : ∀ {α β : Type} {x y : Run α} {f g : α → Run β}, P x y → (∀ a, P (f a) (g a)) →
    P (x >>= f) (y >>= g)

namespace Closed

variable {P : ∀ {α : Type}, Run α → Run α → Prop} (hP : Closed @P) {Q : String → Prop} {ρ ρ' : String → String}

theorem of_ite {c : Bool} {x y x' y' : Run α} (hx : P x x') (hy : P y y') :
    P (if c then x else y) (if c then x' else y') := by
  cases c
  · exact hy
  · exact hx

include hP

theorem pure (a : α) : P (Pure.pure a : Run α) (Pure.pure a) := hP.lift (.ok a)

theorem evalAll (h : ∀ e ∈ es, P (e.rename ρ).eval (e.rename ρ').eval) :
    P (Expr.evalAll (es.map (Expr.rename ρ))) (Expr.evalAll (es.map (Expr.rename ρ'))) := by
  induction es with
  | nil => exact hP.pure []
  | cons e es ih =>
    refine hP.bind (h e (by simp)) fun v => ?_
    exact hP.bind (ih fun e' he' => h e' (by simp [he'])) fun vs => hP.pure _

/-- What holds of the slots and calls in an expression, in two views of it, holds of its evaluation. -/
theorem eval (hslot : ∀ s : Slot, S s.name →
      P (Expr.slot ⟨ρ s.name, s.rep⟩).eval (Expr.slot ⟨ρ' s.name, s.rep⟩).eval)
    (hcall : ∀ f, Q f → ∀ vs, P (call f vs) (call f vs)) (h : e.Uses S Q) :
    P (e.rename ρ).eval (e.rename ρ').eval := by
  induction e using Expr.inductionOn with
  | const v r => exact hP.pure v
  | slot s => exact hslot s ((Expr.uses_slot s).1 h)
  | call f args r ih =>
    rw [Expr.uses_call] at h
    rw [Expr.rename_call, Expr.rename_call]
    exact hP.bind (hP.evalAll fun a ha => ih a ha (h.2 a ha)) fun vs => hcall f h.1 vs
  | binary op a b r iha ihb =>
    rw [Expr.uses_binary] at h
    -- the connectives evaluate their second operand only if it matters
    cases op
    case andAlso | orElse =>
      exact hP.bind (iha h.1) fun v => of_ite (hP.pure v) (hP.bind (ihb h.2) fun w => hP.pure _)
    all_goals exact hP.bind (iha h.1) fun v => hP.bind (ihb h.2) fun w => hP.lift _
  | unary op a r ih => exact hP.bind (ih h) fun v => hP.lift _
  | cond t a b r iht iha ihb =>
    rw [Expr.uses_cond] at h
    exact hP.bind (iht h.1) fun v => of_ite (iha h.2.1) (ihb h.2.2)
  | convert a r ih => exact hP.bind (ih h) fun v => hP.lift _
  | new c => cases c <;> exact hP.pure _

theorem eval_self (hslot : ∀ s : Slot, S s.name → P (Expr.slot s).eval (Expr.slot s).eval)
    (hcall : ∀ f, Q f → ∀ vs, P (call f vs) (call f vs)) (h : e.Uses S Q) : P e.eval e.eval := by
  have hviews : P (e.rename id).eval (e.rename id).eval := hP.eval hslot hcall h
  rwa [Expr.rename_id] at hviews

theorem evalAll_self (h : ∀ e ∈ es, P e.eval e.eval) : P (Expr.evalAll es) (Expr.evalAll es) := by
  have hid : Expr.rename id = id := funext Expr.rename_id
  have hviews : P (Expr.evalAll (es.map (Expr.rename id))) (Expr.evalAll (es.map (Expr.rename id))) :=
    hP.evalAll (by simpa using h)
  rwa [hid, List.map_id] at hviews

end Closed

/-- The computations have one outcome, each from its state, and leave the states as they are. -/
def Coincide (m m' : Machine) (x y : Run α) : Prop :=
  ∃ o, x.result m = (o, m) ∧ y.result m' = (o, m')

namespace Coincide

theorem lift (r : Except Fault α) : Coincide m m' (Run.lift r) (Run.lift r) := ⟨r, rfl, rfl⟩

theorem pure (a : α) : Coincide m m' (Pure.pure a) (Pure.pure a) := .lift (.ok a)

theorem bind {x y : Run α} {f g : α → Run β} (hx : Coincide m m' x y)
    (hf : ∀ a, Coincide m m' (f a) (g a)) : Coincide m m' (x >>= f) (y >>= g) := by
  obtain ⟨o, h, h'⟩ := hx
  unfold Coincide
  rw [result_bind, result_bind, h, h']
  cases o with
  | error e => exact ⟨.error e, rfl, rfl⟩
  | ok a => exact hf a

theorem ite {c : Bool} {x y x' y' : Run α} (hx : Coincide m m' x x') (hy : Coincide m m' y y') :
    Coincide m m' (if c then x else y) (if c then x' else y') := Closed.of_ite (P := Coincide m m') hx hy

theorem closed (m m' : Machine) : Closed (Coincide m m') := ⟨.lift, .bind⟩

end Coincide

/-- A routine without a state of its own gives the same in states with the same context and routines. -/
theorem coincide_call_of_agrees {name : String} (hn : name ∉ volatile) (args : List Value)
    (h : m.Agrees S m') : Coincide m m' (call name args) (call name args) := by
  unfold Coincide call
  rw [result_bind, result_get, andThen_ok, result_bind, result_get, andThen_ok, h.routines]
  split
  · exact Coincide.lift _
  · split
    · rename_i run hrun
      have hm := result_stateful hn hrun m
      exact ⟨_, Prod.ext rfl hm.1, Prod.ext (hm.2 m' h.context).symm (result_stateful hn hrun m').1⟩
    · split
      · exact Coincide.lift _
      · exact Coincide.lift (.error _)

end Run

namespace Expr

open Run

/-- The expression calls no routine with a state of its own. -/
abbrev Steady (e : Expr) : Prop := e.Uses (fun _ => True) (· ∉ volatile)

/-- States that agree on the slots that a steady expression reads give it one outcome. -/
theorem coincide_of_agrees (h : e.Uses S (· ∉ volatile)) (hm : m.Agrees S m') :
    Coincide m m' e.eval e.eval :=
  (Coincide.closed m m').eval_self
    (fun s hs => ⟨_, result_slot m s, by rw [result_slot, hm.slots s.name hs]⟩)
    (fun _ hf vs => coincide_call_of_agrees hf vs hm) h

theorem coincide_evalAll_of_agrees (h : ∀ e ∈ es, e.Uses S (· ∉ volatile)) (hm : m.Agrees S m') :
    Coincide m m' (evalAll es) (evalAll es) :=
  (Coincide.closed m m').evalAll_self fun e he => coincide_of_agrees (h e he) hm

theorem Steady.eq_state (h : e.Steady) {o : Except Fault Value} (hr : e.eval.result m = (o, m')) : m' = m := by
  obtain ⟨o', ho, -⟩ := coincide_of_agrees h (Machine.Agrees.refl _ m)
  rw [ho] at hr
  cases hr
  rfl

theorem result_evalAll_of_steady (h : ∀ e ∈ es, e.Steady)
    {o : Except Fault (List Value)} (hr : (evalAll es).result m = (o, m')) : m' = m := by
  obtain ⟨o', ho, -⟩ := coincide_evalAll_of_agrees h (Machine.Agrees.refl _ m)
  rw [ho] at hr
  cases hr
  rfl

/-- The outcome of a steady expression depends on the slots that it reads, the context and the
registered routines alone. -/
theorem outcome_congr (h : e.Uses S (· ∉ volatile)) (hm : m.Agrees S m') :
    (e.eval.result m).1 = (e.eval.result m').1 := by
  obtain ⟨o, ho, ho'⟩ := coincide_of_agrees h hm
  rw [ho, ho']

end Expr

end SqlCode
