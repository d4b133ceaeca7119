import Mathlib.Tactic
import SqlCode.Machine.Exec

/-!
# Outcomes of running code

`Run.result` is the outcome of a computation from a state together with the state that it leaves. The
equations below say what each kind of expression and statement does in these terms; later modules
use them and do not open the evaluator.
-/

namespace SqlCode

/-- A computation with faults and a state: what follows a step starts from the state that the step
leaves, and nothing follows a fault. -/
theorem exceptT_run_bind {ε σ α β : Type} (x : ExceptT ε (StateM σ) α)
    (f : α → ExceptT ε (StateM σ) β) (s : σ) :
    (x >>= f).run.run s =
      match x.run.run s with
      | (.ok a, s') => (f a).run.run s'
      | (.error e, s') => (.error e, s') := by
  show (ExceptT.bind x f).run.run s = _
  unfold ExceptT.bind
  simp only [ExceptT.run, ExceptT.mk, StateT.run, bind, StateT.bind]
  rcases x s with ⟨r, s'⟩
  cases r <;> rfl

namespace Run

variable {α β : Type}

/-- The outcome of a computation from a state, and the state that it leaves. -/
def result (x : Run α) (m : Machine) : Except Fault α × Machine := x.run.run m

/-- What follows a step: nothing more after a fault. -/
def andThen (f : α → Run β) : Except Fault α × Machine → Except Fault β × Machine
  | (.ok a, m) => (f a).result m
  | (.error e, m) => (.error e, m)

@[simp] theorem andThen_ok (f : α → Run β) (a : α) (m : Machine) :
    andThen f (.ok a, m) = (f a).result m := rfl

@[simp] theorem andThen_error (f : α → Run β) (e : Fault) (m : Machine) :
    andThen f (.error e, m) = (.error e, m) := rfl

@[simp] theorem result_pure (a : α) (m : Machine) :
    (pure a : Run α).result m = (.ok a, m) := rfl

@[simp] theorem result_throw (e : Fault) (m : Machine) :
    (throw e : Run α).result m = (.error e, m) := rfl

@[simp] theorem result_lift (r : Except Fault α) (m : Machine) :
    (lift r).result m = (r, m) := rfl

@[simp] theorem result_get (m : Machine) : (get : Run Machine).result m = (.ok m, m) := rfl

@[simp] theorem result_modify (f : Machine → Machine) (m : Machine) :
    (modify f : Run Unit).result m = (.ok (), f m) := rfl

theorem result_bind (x : Run α) (f : α → Run β) (m : Machine) :
    (x >>= f).result m = andThen f (x.result m) := by
  refine (exceptT_run_bind x f m).trans ?_
  unfold result
  rcases x.run.run m with ⟨r, m'⟩
  cases r <;> rfl

/-- A step that ends well is a first part that ends well and the rest of it. -/
theorem andThen_eq_ok {f : α → Run β} {p : Except Fault α × Machine} {b : β} {m : Machine} :
    andThen f p = (.ok b, m) ↔ ∃ a m', p = (.ok a, m') ∧ (f a).result m' = (.ok b, m) := by
  rcases p with ⟨r, m'⟩
  cases r with
  | error | ok => simp

theorem andThen_lift_eq_ok {g : α → Except Fault β} {p : Except Fault α × Machine} {b : β} {m : Machine} :
    andThen (fun a => lift (g a)) p = (.ok b, m) ↔ ∃ a, p = (.ok a, m) ∧ g a = .ok b := by
  rw [andThen_eq_ok]
  simp only [result_lift, Prod.mk.injEq]
  constructor
  · rintro ⟨a, m', ha, hb, rfl⟩
    exact ⟨a, ha, hb⟩
  · rintro ⟨a, ha, hb⟩
    exact ⟨a, m, ha, hb, rfl⟩

@[simp] theorem result_assign (name : String) (v : Value) (m : Machine) :
    (assign name v).result m = (.ok (), m.bind name v) := rfl

/-- A container is changed by its mutator. -/
theorem mutate_eq_ok {x g : String} {vs : List Value} {m m' : Machine} :
    (mutate x g vs).result m = (.ok (), m') ↔ ∃ f v w, Mutator.find? g = some f ∧ m.get? x = some v ∧
      f v vs = .ok w ∧ m' = m.bind x w := by
  unfold mutate
  cases Mutator.find? g with
  | none => simp
  | some f =>
    rw [result_bind, result_get, andThen_ok]
    cases hv : m.get? x with
    | none => simp
    | some v =>
      simp only [result_bind, result_lift]
      cases hw : f v vs with
      | error e => simp [hw]
      | ok w => simp [hw, eq_comm]

end Run

/-! ### Variables -/

namespace Machine

@[simp] theorem get?_bind_self (m : Machine) (name : String) (v : Value) :
    (m.bind name v).get? name = some v := Bindings.get?_set_self _ _ _

theorem get?_bind_of_ne (m : Machine) {name other : String} (v : Value) (h : other ≠ name) :
    (m.bind name v).get? other = m.get? other := Bindings.get?_set_of_ne _ _ h

theorem bind_bind (m : Machine) (name : String) (v v' : Value) :
    (m.bind name v).bind name v' = m.bind name v' := by
  rw [bind, bind, Bindings.set_set]
  rfl

theorem bindSlots_rest (slots : List Slot) (values : List Value) (m : Machine) :
    m.bindSlots slots values = { m with store := (m.bindSlots slots values).store } := by
  induction slots generalizing values m with
  | nil => rfl
  | cons s slots ih =>
    cases values with
    | nil => rfl
    | cons v values => exact ih values (m.bind s.name v)

end Machine

/-! ### Expressions -/

namespace Expr

open Run

variable (m : Machine)

@[simp] theorem result_const (v : Value) (r : Rep) :
    (Expr.const v r).eval.result m = (.ok v, m) := rfl

theorem result_slot (s : Slot) : (Expr.slot s).eval.result m =
    (match m.get? s.name with
      | some v => .ok v
      | none => .error (.unboundVariable s.name), m) := by
  show ((get : Run Machine) >>= _).result m = _
  rw [result_bind, result_get, andThen_ok]
  cases m.get? s.name <;> rfl

theorem result_call (f : String) (args : List Expr) (r : Rep) :
    (Expr.call f args r).eval.result m = andThen (Run.call f) ((evalAll args).result m) :=
  result_bind _ _ _

theorem result_andAlso (a b : Expr) (r : Rep) : (Expr.binary .andAlso a b r).eval.result m =
    andThen (fun v => if v.isBool false then pure v else b.eval >>= fun w => pure (v.conj w))
      (a.eval.result m) := result_bind _ _ _

theorem result_orElse (a b : Expr) (r : Rep) : (Expr.binary .orElse a b r).eval.result m =
    andThen (fun v => if v.isBool true then pure v else b.eval >>= fun w => pure (v.disj w))
      (a.eval.result m) := result_bind _ _ _

theorem result_binary {op : BinaryOp} (h : op.isLogical = false) (a b : Expr) (r : Rep) :
    (Expr.binary op a b r).eval.result m =
      andThen (fun v => b.eval >>= fun w => Run.lift (Value.applyBinary op v w r))
        (a.eval.result m) := by
  cases op <;> first | exact result_bind _ _ _ | exact absurd h (by decide)

theorem result_unary (op : UnaryOp) (a : Expr) (r : Rep) : (Expr.unary op a r).eval.result m =
    andThen (fun v => Run.lift (Value.applyUnary op v r)) (a.eval.result m) := result_bind _ _ _

theorem result_cond (t a b : Expr) (r : Rep) : (Expr.cond t a b r).eval.result m =
    andThen (fun v => if v.isBool true then a.eval else b.eval) (t.eval.result m) :=
  result_bind _ _ _

theorem result_convert (a : Expr) (r : Rep) : (Expr.convert a r).eval.result m =
    andThen (fun v => Run.lift (v.convert r)) (a.eval.result m) := result_bind _ _ _

@[simp] theorem result_evalAll_nil : (evalAll []).result m = (.ok [], m) := rfl

theorem result_evalAll_cons (e : Expr) (es : List Expr) : (evalAll (e :: es)).result m =
    andThen (fun v => evalAll es >>= fun vs => pure (v :: vs)) (e.eval.result m) :=
  result_bind _ _ _

/-- The expression evaluates to the value and leaves the state as it is. -/
abbrev EvalsTo (e : Expr) (v : Value) : Prop := e.eval.result m = (.ok v, m)

end Expr

/-! ### Statements -/

namespace Stmt

open Run

variable (m : Machine)

theorem result_declare (s : Slot) (e : Expr) : (Stmt.declare s e).exec.result m =
    andThen (Run.assign s.name) (e.eval.result m) := result_bind _ _ _

theorem result_assign (s : Slot) (e : Expr) : (Stmt.assign s e).exec.result m =
    andThen (Run.assign s.name) (e.eval.result m) := result_bind _ _ _

theorem result_invoke (s : Slot) (f : String) (args : List Expr) :
    (Stmt.invoke s f args).exec.result m =
      andThen (Run.mutate s.name f) ((Expr.evalAll args).result m) := result_bind _ _ _

theorem result_ite (t : Expr) (a b : Block) : (Stmt.ite t a b).exec.result m =
    andThen (fun v => if v.isBool true then execBlock a else execBlock b) (t.eval.result m) :=
  result_bind _ _ _

@[simp] theorem result_execBlock_nil : (execBlock []).result m = (.ok (), m) := rfl

theorem result_execBlock_cons (s : Stmt) (ss : Block) : (execBlock (s :: ss)).result m =
    andThen (fun _ => execBlock ss) (s.exec.result m) := result_bind _ _ _

theorem result_execBlock_append (ss ts : Block) : (execBlock (ss ++ ts)).result m =
    andThen (fun _ => execBlock ts) ((execBlock ss).result m) := by
  induction ss generalizing m with
  | nil => rfl
  | cons s ss ih =>
    rw [List.cons_append, result_execBlock_cons, result_execBlock_cons]
    rcases s.exec.result m with ⟨r, m'⟩
    cases r with
    | error e => rfl
    | ok u => exact ih m'

variable {m} in
theorem result_execBlock_append_of_ok {ss ts : Block} {m' m'' : Machine}
    (h : (execBlock ss).result m = (.ok (), m')) (h' : (execBlock ts).result m' = (.ok (), m'')) :
    (execBlock (ss ++ ts)).result m = (.ok (), m'') := by
  rw [result_execBlock_append, h, andThen_ok, h']

end Stmt

end SqlCode
