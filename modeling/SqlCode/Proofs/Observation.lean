import SqlCode.Proofs.Emission

/-!
# What code can observe

Two runs, from states that the code cannot tell apart. Unlike the expressions of `Dependence`, the code here
may branch, write, and call routines with a state of their own.

* `Run.Alike R R'`: from states related by `R` two computations have one outcome, and where they end well
  they leave states related by `R'`;
* `Stmt.Uses S Q`, `Stmt.writes`: what a statement reads, calls and writes, its branches included;
* `Machine.Twins S`: states that differ in no more than variables outside of `S`;
* `Machine.Indistinct S Q R`: code that reads slots in `S` and calls routines in `Q` cannot tell apart states
  that `R` relates. `Expr.alike_eval` and `Stmt.alike_execBlock` follow by induction on the code;
* `Run.WritesOnly names`: a run writes the named variables only, also if it ends in a fault;
  `Expr.writesOnly_eval`, `Stmt.writesOnly_execBlock`.
-/

namespace SqlCode

variable {Q S : String → Prop} {R : Machine → Machine → Prop} {ss : Block} {m m' m'' : Machine} {names : List String}
  {s : Stmt}

/-! ### Computations that run alike -/

namespace Run

variable {α β : Type} {R' R'' : Machine → Machine → Prop}

/-- From related states the computations have one outcome, and where they end well they leave related
states. -/
def Alike (R R' : Machine → Machine → Prop) (x y : Run α) : Prop :=
  ∀ ⦃m m' : Machine⦄, R m m' → (x.result m).1 = (y.result m').1 ∧
    ∀ a, (x.result m).1 = .ok a → R' (x.result m).2 (y.result m').2

namespace Alike

theorem pure (a : α) : Alike R R (Pure.pure a : Run α) (Pure.pure a) :=
  fun _ _ hm => ⟨rfl, fun _ _ => hm⟩

theorem lift (r : Except Fault α) : Alike R R (Run.lift r) (Run.lift r) :=
  fun _ _ hm => ⟨rfl, fun _ _ => hm⟩

theorem throw (e : Fault) : Alike R R' (throw e : Run α) (throw e) :=
  fun _ _ _ => ⟨rfl, fun _ h => nomatch h⟩

theorem modify {f g : Machine → Machine} (h : ∀ ⦃m m'⦄, R m m' → R' (f m) (g m')) :
    Alike R R' (modify f : Run Unit) (modify g) := fun _ _ hm => ⟨rfl, fun _ _ => h hm⟩

theorem bind {x y : Run α} {f g : α → Run β} (hx : Alike R R' x y)
    (hf : ∀ a, Alike R' R'' (f a) (g a)) : Alike R R'' (x >>= f) (y >>= g) := by
  intro m m' hm
  obtain ⟨h₁, h₂⟩ := hx hm
  rw [result_bind, result_bind]
  rcases hr : x.result m with ⟨r, n⟩
  rcases hr' : y.result m' with ⟨r', n'⟩
  rw [hr, hr'] at h₁ h₂
  obtain rfl : r = r' := h₁
  cases r with
  | error e => exact ⟨rfl, fun _ h => nomatch h⟩
  | ok a => exact hf a (h₂ a rfl)

theorem assign {x y : String} {v : Value} (h : ∀ ⦃m m'⦄, R m m' → R' (m.bind x v) (m'.bind y v)) :
    Alike R R' (Run.assign x v) (Run.assign y v) := .modify h

theorem mutate {x y : String} (hx : ∀ ⦃m m'⦄, R m m' → m.get? x = m'.get? y ∧ (m.get? x = none → x = y))
    (hbind : ∀ ⦃m m'⦄, R m m' → ∀ v, R' (m.bind x v) (m'.bind y v)) (f : String) (vs : List Value) :
    Alike R R' (Run.mutate x f vs) (Run.mutate y f vs) := by
  unfold Run.mutate
  split
  · exact .throw _
  · rename_i g _
    intro m m' hm
    obtain ⟨hxy, hnone⟩ := hx hm
    rw [result_bind, result_bind, result_get, result_get, andThen_ok, andThen_ok, ← hxy]
    cases hv : m.get? x with
    | none =>
      obtain rfl := hnone hv
      exact (Alike.throw _ : Alike R R' _ _) hm
    | some v => exact Alike.bind (.lift (g v vs)) (fun w => .assign fun _ _ hn => hbind hn w) hm

theorem mono {R₁ R₁' : Machine → Machine → Prop} {x y : Run α} (h : Alike R R' x y)
    (hR : ∀ m m', R₁ m m' → R m m') (hR' : ∀ m m', R' m m' → R₁' m m') : Alike R₁ R₁' x y :=
  fun m m' hm => ⟨(h (hR m m' hm)).1, fun a ha => hR' _ _ ((h (hR m m' hm)).2 a ha)⟩

end Alike

theorem Coincide.alike {x y : Run α} (h : Coincide m m' x y) :
    Alike (fun n n' => n = m ∧ n' = m') (fun n n' => n = m ∧ n' = m') x y := by
  rintro _ _ ⟨rfl, rfl⟩
  obtain ⟨o, ho, ho'⟩ := h
  rw [ho, ho']
  exact ⟨rfl, fun _ _ => ⟨rfl, rfl⟩⟩

theorem Alike.evaluate {code code' : Block} {f g : Flagged} (h : Alike R R' (Stmt.execBlock code) (Stmt.execBlock code'))
    (hR : ∀ n n', R' n n' → Coincide n n' f.eval g.eval) (hm : R m m') :
    ((Block.evaluate code f).result m).1 = ((Block.evaluate code' g).result m').1 := by
  have hresults : ∀ _ : Unit, Alike R' (fun _ _ => True) f.eval g.eval :=
    fun _ n n' hn => ⟨((hR n n' hn).alike ⟨rfl, rfl⟩).1, fun _ _ => trivial⟩
  exact (Alike.bind h hresults hm).1

end Run

/-! ### Statements with their branches -/

namespace Stmt

mutual

/-- The names that a statement writes, in its branches too. -/
def writes : Stmt → List String
  | .declare s _ | .assign s _ | .invoke s _ _ => [s.name]
  | .ite _ a b => writesAll a ++ writesAll b
  | .throw _ => []
termination_by structural s => s

/-- The names that the statements of a block write. -/
def writesAll : List Stmt → List String
  | [] => []
  | s :: ss => writes s ++ writesAll ss
termination_by structural ss => ss

end

mutual

/-- Every slot that the statement reads satisfies `S`, and every routine that it calls `Q`, in its branches
too. A change of a container reads the container. -/
def Uses (S Q : String → Prop) : Stmt → Prop
  | .declare _ e | .assign _ e => e.Uses S Q
  | .invoke s _ args => S s.name ∧ ∀ a ∈ args, a.Uses S Q
  | .ite t a b => t.Uses S Q ∧ UsesAll S Q a ∧ UsesAll S Q b
  | .throw _ => True
termination_by structural s => s

/-- `Uses` for every statement of a block. -/
def UsesAll (S Q : String → Prop) : List Stmt → Prop
  | [] => True
  | s :: ss => Uses S Q s ∧ UsesAll S Q ss
termination_by structural ss => ss

end

section Uses

@[simp] theorem usesAll_nil : UsesAll S Q [] := trivial

@[simp] theorem usesAll_cons :
    UsesAll S Q (s :: ss) ↔ s.Uses S Q ∧ UsesAll S Q ss := Iff.rfl

theorem usesAll_iff : UsesAll S Q ss ↔ ∀ s ∈ ss, s.Uses S Q := by
  induction ss with
  | nil => simp
  | cons s ss ih => rw [usesAll_cons, ih, List.forall_mem_cons]

theorem usesAll_append {ts : Block} :
    UsesAll S Q (ss ++ ts) ↔ UsesAll S Q ss ∧ UsesAll S Q ts := by
  simp only [usesAll_iff, List.forall_mem_append]

theorem writesAll_eq_flatMap (ss : Block) : writesAll ss = ss.flatMap writes := by
  induction ss with
  | nil => rfl
  | cons s ss ih => rw [writesAll, ih, List.flatMap_cons]

@[elab_as_elim]
theorem inductionOn {motive : Stmt → Prop} (declare : ∀ s e, motive (.declare s e))
    (assign : ∀ s e, motive (.assign s e)) (invoke : ∀ s f args, motive (.invoke s f args))
    (ite : ∀ t a b, (∀ s ∈ a, motive s) → (∀ s ∈ b, motive s) → motive (.ite t a b))
    (throw : ∀ f, motive (.throw f)) (s : Stmt) : motive s :=
  @Stmt.rec motive (fun ss => ∀ s ∈ ss, motive s)
    declare assign invoke ite throw (by simp) (by simp; tauto) s

/-- Any code reads some slots and calls some routines. -/
theorem uses_true (s : Stmt) : s.Uses (fun _ => True) fun _ => True := by
  induction s using inductionOn with
  | declare s e | assign s e => exact e.uses_true
  | invoke s f args => exact ⟨trivial, fun a _ => a.uses_true⟩
  | ite t a b iha ihb => exact ⟨t.uses_true, usesAll_iff.2 iha, usesAll_iff.2 ihb⟩
  | throw f => trivial

end Uses

end Stmt

/-! ### States that code cannot tell apart -/

/-- `R` relates states that have the same values of the slots in `S`, in which the routines in `Q` act alike,
and that stay related when the same variable is written in both. -/
structure Machine.Indistinct (S Q : String → Prop) (R : Machine → Machine → Prop) : Prop where
  slots : ∀ ⦃m m'⦄, R m m' → ∀ x, S x → m.get? x = m'.get? x
  bind : ∀ ⦃m m'⦄, R m m' → ∀ x v, R (m.bind x v) (m'.bind x v)
  call : ∀ f, Q f → ∀ vs, Run.Alike R R (Run.call f vs) (Run.call f vs)

open Run

/-! ### Running statements -/

namespace Run.Closed

variable {P : ∀ {α : Type}, Run α → Run α → Prop} (hP : Closed @P)

include hP

theorem execBlock (h : ∀ s ∈ ss, P s.exec s.exec) : P (Stmt.execBlock ss) (Stmt.execBlock ss) := by
  induction ss with
  | nil => exact hP.pure ()
  | cons s ss ih => exact hP.bind (h s (by simp)) fun _ => ih fun s' hs' => h s' (by simp [hs'])

/-- What holds of the expressions and writes in a statement holds of the statement. -/
theorem exec {W : String → Prop} (heval : ∀ e : Expr, e.Uses S Q → P e.eval e.eval)
    (hassign : ∀ x v, W x → P (assign x v) (assign x v))
    (hmutate : ∀ x f vs, S x → W x → P (mutate x f vs) (mutate x f vs))
    (h : s.Uses S Q) (hw : ∀ x ∈ s.writes, W x) : P s.exec s.exec := by
  induction s using Stmt.inductionOn with
  | declare s e | assign s e =>
    exact hP.bind (heval e h) fun v => hassign _ v (hw _ (by simp [Stmt.writes]))
  | invoke s f args =>
    refine hP.bind (hP.evalAll_self fun a ha => heval a (h.2 a ha)) fun vs => ?_
    exact hmutate _ f vs h.1 (hw _ (by simp [Stmt.writes]))
  | ite t a b iha ihb =>
    obtain ⟨ht, ha, hb⟩ := h
    rw [Stmt.usesAll_iff] at ha hb
    simp only [Stmt.writes, Stmt.writesAll_eq_flatMap, List.mem_append, List.mem_flatMap] at hw
    refine hP.bind (heval t ht) fun v => of_ite ?_ ?_
    · exact hP.execBlock fun s hs => iha s hs (ha s hs) fun x hx => hw x (.inl ⟨s, hs, hx⟩)
    · exact hP.execBlock fun s hs => ihb s hs (hb s hs) fun x hx => hw x (.inr ⟨s, hs, hx⟩)
  | throw f => exact hP.lift _

end Run.Closed

theorem Run.closed_alike (R : Machine → Machine → Prop) : Closed (Alike R R) := ⟨.lift, .bind⟩

theorem Expr.alike_eval (hR : Machine.Indistinct S Q R) {e : Expr} (h : e.Uses S Q) : Alike R R e.eval e.eval := by
  refine (closed_alike R).eval_self (fun s hs m m' hm => ?_) hR.call h
  rw [result_slot, result_slot, hR.slots hm s.name hs]
  exact ⟨rfl, fun _ _ => hm⟩

/-- Statements end alike in states that they cannot tell apart, and the states they leave cannot be told
apart. -/
theorem Stmt.alike_execBlock (hR : Machine.Indistinct S Q R) (h : UsesAll S Q ss) :
    Alike R R (execBlock ss) (execBlock ss) :=
  (closed_alike R).execBlock fun s hs => (closed_alike R).exec (fun _ => Expr.alike_eval hR)
    (fun x v _ => .assign fun _ _ hm => hR.bind hm x v)
    (fun x f vs hx _ => .mutate (fun _ _ hm => ⟨hR.slots hm x hx, fun _ => rfl⟩) (fun _ _ hm => hR.bind hm x) f vs)
    (usesAll_iff.1 h s hs)
    fun _ _ => trivial

/-! ### States that agree on some slots -/

namespace Machine

/-- Code without routines that have a state of their own cannot tell agreeing states apart. -/
theorem indistinct_agrees (S : String → Prop) : Indistinct S (· ∉ volatile) (Agrees S) where
  slots := fun _ _ hm => hm.slots
  bind := fun _ _ hm x v => (hm.bind x v).mono fun _ hy => .inl hy
  call := by
    intro f hf vs m m' hm
    refine ((coincide_call_of_agrees hf vs hm).alike.mono (fun _ _ h => h) ?_) ⟨rfl, rfl⟩
    rintro _ _ ⟨rfl, rfl⟩
    exact hm

/-- The states differ in no more than the values of variables outside of `S`. -/
structure Twins (S : String → Prop) (m m' : Machine) : Prop where
  rest : m' = { m with store := m'.store }
  slots : ∀ x, S x → m.get? x = m'.get? x

namespace Twins

variable {S' : String → Prop}

theorem refl (S : String → Prop) (m : Machine) : m.Twins S m := ⟨rfl, fun _ _ => rfl⟩

theorem symm (h : m.Twins S m') : m'.Twins S m := by
  refine ⟨?_, fun x hx => (h.slots x hx).symm⟩
  rw [h.rest]

theorem trans (h : m.Twins S m') (h' : m'.Twins S m'') : m.Twins S m'' := by
  refine ⟨?_, fun x hx => (h.slots x hx).trans (h'.slots x hx)⟩
  rw [h'.rest, h.rest]

theorem mono (h : m.Twins S m') (hS : ∀ x, S' x → S x) : m.Twins S' m' :=
  ⟨h.rest, fun x hx => h.slots x (hS x hx)⟩

theorem bind (h : m.Twins S m') (name : String) (v : Value) :
    (m.bind name v).Twins (fun x => S x ∨ x = name) (m'.bind name v) := by
  refine ⟨?_, fun x hx => ?_⟩
  · rw [h.rest]
    rfl
  · by_cases hn : x = name
    · subst hn
      rw [get?_bind_self, get?_bind_self]
    · rw [get?_bind_of_ne _ _ hn, get?_bind_of_ne _ _ hn]
      exact h.slots x (hx.resolve_right hn)

end Twins

end Machine

namespace Run

variable {α β : Type}

/-- The computation neither reads nor writes variables, and it keeps the context and the routines. -/
def Storeless (x : Run α) : Prop := ∀ (m : Machine) (store : Bindings Value),
  (x.result m).2.context = m.context ∧ (x.result m).2.routines = m.routines ∧
  x.result { m with store := store } = ((x.result m).1, { (x.result m).2 with store := store })

namespace Storeless

theorem pure (a : α) : Storeless (Pure.pure a : Run α) := fun _ _ => ⟨rfl, rfl, rfl⟩

theorem lift (r : Except Fault α) : Storeless (Run.lift r) := fun _ _ => ⟨rfl, rfl, rfl⟩

theorem bind {x : Run α} {f : α → Run β} (hx : Storeless x) (hf : ∀ a, Storeless (f a)) :
    Storeless (x >>= f) := by
  intro m store
  obtain ⟨hcontext, hroutines, hresult⟩ := hx m store
  rw [result_bind, result_bind, hresult]
  rcases hr : x.result m with ⟨r, n⟩
  rw [hr] at hcontext hroutines
  cases r with
  | error e => exact ⟨hcontext, hroutines, rfl⟩
  | ok a =>
    obtain ⟨hcontext', hroutines', hresult'⟩ := hf a n store
    exact ⟨hcontext'.trans hcontext, hroutines'.trans hroutines, hresult'⟩

theorem draw (f : Random → α × Random) : Storeless (Run.draw f) := fun _ _ => ⟨rfl, rfl, rfl⟩

theorem drawSeeded (seed : Int64) (f : Random → α × Random) : Storeless (Run.drawSeeded seed f) :=
  fun _ _ => ⟨rfl, rfl, rfl⟩

theorem nextValue (routine : String) (args : List Value) : Storeless (Run.nextValue routine args) :=
  .bind (.lift _) fun _ _ _ => ⟨rfl, rfl, rfl⟩

theorem currentValue (routine : String) (args : List Value) :
    Storeless (Run.currentValue routine args) := by
  refine .bind (.lift _) fun name m store => ?_
  rw [result_bind, result_bind, result_get, result_get, andThen_ok, andThen_ok]
  dsimp only
  split <;> exact ⟨rfl, rfl, rfl⟩

theorem stateful {name : String} {args : List Value} {run : Run Value}
    (h : stateful? name args = some run) : Storeless run := by
  unfold stateful? at h
  split at h <;> cases h
  case h_10 => exact nextValue _ _
  case h_11 => exact currentValue _ _
  case h_12 => exact .bind (draw _) fun _ => .pure _
  case h_13 => exact .bind (.lift _) fun _ => .bind (drawSeeded _ _) fun _ => .pure _
  case h_14 => exact .bind (.lift _) fun _ => .bind (draw _) fun _ => .pure _
  case h_15 =>
    exact .bind (.lift _) fun _ => .bind (.lift _) fun _ => .bind (drawSeeded _ _) fun _ => .pure _
  all_goals exact fun _ _ => ⟨rfl, rfl, rfl⟩

/-- Calling a routine does not involve the variables. -/
theorem call (name : String) (args : List Value) : Storeless (Run.call name args) := by
  intro m store
  unfold Run.call
  rw [result_bind, result_bind, result_get, result_get, andThen_ok, andThen_ok]
  dsimp only
  split
  · exact lift _ m store
  · split
    · exact stateful ‹_› m store
    · split
      · exact lift _ m store
      · exact lift (.error _) m store

end Storeless

end Run

/-- No code at all can tell apart states that differ in variables it does not read. -/
theorem Machine.indistinct_twins (S : String → Prop) : Indistinct S (fun _ => True) (Twins S) where
  slots := fun _ _ hm => hm.slots
  bind := fun _ _ hm x v => (hm.bind x v).mono fun _ hy => .inl hy
  call := by
    intro f _ vs m m' hm
    obtain ⟨-, -, hleft⟩ := Storeless.call f vs m m.store
    obtain ⟨-, -, hright⟩ := Storeless.call f vs m m'.store
    rw [← hm.rest] at hright
    refine ⟨by rw [hright], fun a _ => ?_⟩
    rw [hright, hleft]
    exact ⟨rfl, hm.slots⟩

/-! ### What a run leaves alone -/

namespace Machine

/-- The second state differs from the first one in the named variables and in what routines keep for
themselves. -/
structure WritesOnly (names : List String) (m m' : Machine) : Prop where
  context : m'.context = m.context
  routines : m'.routines = m.routines
  slots : ∀ x, x ∉ names → m'.get? x = m.get? x

namespace WritesOnly

theorem refl (names : List String) (m : Machine) : m.WritesOnly names m := ⟨rfl, rfl, fun _ _ => rfl⟩

theorem trans (h : m.WritesOnly names m') (h' : m'.WritesOnly names m'') : m.WritesOnly names m'' :=
  ⟨h'.context.trans h.context, h'.routines.trans h.routines,
    fun x hx => (h'.slots x hx).trans (h.slots x hx)⟩

theorem bind {x : String} (hx : x ∈ names) (m : Machine) (v : Value) : m.WritesOnly names (m.bind x v) :=
  ⟨rfl, rfl, fun y hy => get?_bind_of_ne m v fun (h : y = x) => hy (h ▸ hx)⟩

end WritesOnly

end Machine

namespace Run

variable {α β : Type}

/-- However it ends, the computation writes the named variables only. -/
def WritesOnly (names : List String) (x : Run α) : Prop := ∀ m : Machine, m.WritesOnly names (x.result m).2

namespace WritesOnly

theorem lift (r : Except Fault α) : WritesOnly names (Run.lift r) := fun m => .refl _ m

theorem bind {x : Run α} {f : α → Run β} (hx : WritesOnly names x) (hf : ∀ a, WritesOnly names (f a)) :
    WritesOnly names (x >>= f) := by
  intro m
  have hm := hx m
  rw [result_bind]
  rcases hr : x.result m with ⟨r, n⟩
  rw [hr] at hm
  cases r with
  | error e => exact hm
  | ok a => exact hm.trans (hf a n)

theorem closed (names : List String) : Closed fun x _ => WritesOnly names x := ⟨lift, bind⟩

theorem assign {x : String} (hx : x ∈ names) (v : Value) : WritesOnly names (Run.assign x v) :=
  fun m => .bind hx m v

theorem call (name : String) (args : List Value) : WritesOnly names (Run.call name args) := by
  intro m
  obtain ⟨hcontext, hroutines, hresult⟩ := Storeless.call name args m m.store
  have hstore := congrArg (fun p => p.2.store) hresult
  exact ⟨hcontext, hroutines, fun x _ => congrArg (Bindings.get? · x) hstore⟩

end WritesOnly

end Run

/-- Evaluating an expression writes no variable, whatever routines it calls. -/
theorem Expr.writesOnly_eval (e : Expr) : WritesOnly names e.eval := by
  refine (WritesOnly.closed names).eval_self (fun s _ m => ?_) (fun f _ vs => .call f vs) e.uses_true
  rw [result_slot]
  exact .refl _ m

theorem Stmt.writesOnly_mutate {x : String} (hx : x ∈ names) (f : String) (vs : List Value) :
    WritesOnly names (Run.mutate x f vs) := by
  unfold Run.mutate
  split
  · exact .lift (.error _)
  · rename_i g _
    intro m
    rw [result_bind, result_get, andThen_ok]
    cases m.get? x with
    | none => exact .refl _ m
    | some v => exact WritesOnly.bind (.lift (g v vs)) (fun w => .assign hx w) m

/-- Statements change no variable but those that they write, also if they end in a fault. -/
theorem Stmt.writesOnly_execBlock (h : ∀ x ∈ writesAll ss, x ∈ names) :
    WritesOnly names (execBlock ss) := by
  rw [writesAll_eq_flatMap] at h
  refine (WritesOnly.closed names).execBlock fun s hs => ?_
  exact (WritesOnly.closed names).exec (fun e _ => e.writesOnly_eval) (fun _ v hx => .assign hx v)
    (fun _ f vs _ hx => writesOnly_mutate hx f vs) s.uses_true fun x hx => h x (List.mem_flatMap.2 ⟨s, hs, hx⟩)

end SqlCode
