import SqlCode.Proofs.Representation
import SqlCode.Proofs.Scalars

/-!
# Well-typed calls and the frame of null policies

What is known about a well-typed call on truth values and integers before and while its code runs, and what
has to be shown of an operator so that the code of its calls represents its meaning. In the frame of a null
policy (`Builtin.implements_framed`) that is what a null operand decides, and what is computed otherwise.

* `Machine.Unshadowed`: the routines that the code calls are those of the library;
* `CallSite.Calls`, `CallSite.Typed`: what is known before the code of the call runs;
* `CallSite.Given`: what is known about the values of the operands when it runs;
* `Builtin.Stores`: what the code of the call stores;
* `Builtin.Implements`, `Builtin.Compiles`: the code of the call represents the meaning of the operator.
-/

namespace SqlCode

open Run SqlCode.Expr

variable {vs : List Value} {nullable : Bool} {k : Kind} {v : Value} {b : Builtin} {sorts : List (Kind × Bool)}
  {site : CallSite} {args : List Flagged} {r : Rep} {m : Machine} {s : Kind × Bool}

/-! ### Calls of the library -/

/-- No routine was registered under the name of one that the code of the fragment calls. -/
def Machine.Unshadowed (m : Machine) : Prop :=
  ∀ f ∈ ["not", "lt", "le", "gt", "ge"], m.routines.get? f = none

theorem Machine.Unshadowed.keeps {names : List String} {m' : Machine} (h : m.Unshadowed)
    (hm : m.Keeps names m') : m'.Unshadowed := by
  rw [hm.rest]
  exact h

theorem Run.result_call_library {f : String} {r : Routine}
    (hm : m.routines.get? f = none) (hs : Run.stateful? f vs = none)
    (hf : Routine.find? f = some r) : (Run.call f vs).result m = (r vs, m) := by
  show ((get : Run Machine) >>= _).result m = _
  rw [result_bind, result_get, andThen_ok]
  simp only [hm, hs, hf, result_lift]

namespace Expr

theorem result_evalAll {es : List Expr}
    (h : List.Forall₂ (fun e v => e.EvalsTo m v) es vs) : (evalAll es).result m = (.ok vs, m) := by
  induction h with
  | nil => rfl
  | cons he _ ih =>
    rw [result_evalAll_cons, he, andThen_ok, result_bind, ih]
    rfl

theorem evalsTo_call {f : String} {es : List Expr} (r : Rep)
    (h : List.Forall₂ (fun e v => e.EvalsTo m v) es vs)
    (hf : (Run.call f vs).result m = (.ok v, m)) : (Expr.call f es r).EvalsTo m v := by
  rw [EvalsTo, result_call, result_evalAll h, andThen_ok, hf]

theorem evalsTo_binary {op : BinaryOp} {a b : Expr} {w u : Value}
    (hop : op.isLogical = false) (ha : a.EvalsTo m v) (hb : b.EvalsTo m w)
    (hu : v.applyBinary op w r = .ok u) : (Expr.binary op a b r).EvalsTo m u := by
  rw [EvalsTo, result_binary m hop, ha, andThen_ok, result_bind, hb, andThen_ok, result_lift, hu]

theorem mkConvert_of_rep_eq {e : Expr} (h : e.rep = r) : e.mkConvert r = e := by
  unfold mkConvert
  exact if_pos h

theorem mkBinary_of_not_isLogical {op : BinaryOp} (h : op.isLogical = false) (a b : Expr) :
    mkBinary op a b =
      .binary op a b (if op.isComparison then .truth else a.rep.arithmetic b.rep) := by
  cases op <;> first | rfl | exact absurd h (by decide)

theorem evalsTo_unary {op : UnaryOp} {a : Expr} {u : Value} (ha : a.EvalsTo m v)
    (hu : v.applyUnary op r = .ok u) : (Expr.unary op a r).EvalsTo m u :=
  result_unary_eq_ok.2 ⟨v, ha, hu⟩

end Expr

/-! ### Calls and their operands -/

section Calls

variable {types : List SqlType} {type : SqlType}

/-- A call of the operator, with flagged expressions that are shaped as the types of the operands. -/
structure CallSite.Calls (b : Builtin) (types : List SqlType) (type : SqlType) (args : List Flagged)
    (site : CallSite) : Prop where
  op : site.op = .builtin b
  type : site.type = type
  operands : site.operands.map (·.type) = types
  args : List.Forall₂ (fun type a => a.Shaped type) types args

theorem CallSite.Calls.isFlag (h : site.Calls b types type args) : ∀ a ∈ args, a.isNull.IsFlag :=
  forall_mem_of_forall₂ h.args fun _ _ ha => ha.isFlag

theorem CallSite.Calls.fits (h : site.Calls b types type args) {vs : List Value}
    (hm : List.Forall₂ (fun a v => a.Represents m v) args vs) :
    List.Forall₂ (fun type v => v.Fits type.rep) types vs := by
  have hargs := h.args
  clear h
  induction hargs generalizing vs with
  | nil =>
    cases hm
    exact .nil
  | cons ha _ ih =>
    cases hm with
    | cons hv hvs => exact .cons (ha.rep ▸ hv.fits) (ih hvs)

/-- No operand is of the type ANY, if none of the types is. -/
theorem CallSite.Calls.any_operands (h : site.Calls b types type args)
    (htypes : types.any (·.name == .any) = false) : (site.operands.any fun p => p.type.name == .any) = false := by
  rw [← h.operands, List.any_map] at htypes
  exact htypes

end Calls

namespace CallSite

/-- A call of a built-in operator on operands of the given kinds. -/
abbrev Typed (b : Builtin) (sorts : List (Kind × Bool)) (k : Kind) (nullable : Bool) (site : CallSite)
    (args : List Flagged) : Prop := site.Calls b (sorts.map fun s => s.1.type s.2) (k.type nullable) args

/-- In the state, the arguments represent the values, and operands that are literals are the values. -/
structure Given (m : Machine) (site : CallSite) (args : List Flagged) (vs : List Value) : Prop where
  unshadowed : m.Unshadowed
  represents : List.Forall₂ (fun f v => f.Represents m v) args vs
  literals : List.Forall₂ (fun o v => ∀ u, o.literal? = some u → u = v) site.operands vs

theorem Typed.shaped (h : site.Typed b sorts k nullable args) :
    ∀ a ∈ args, ∃ s ∈ sorts, a.Shaped (s.1.type s.2) := by
  have hargs := List.forall₂_map_left_iff.1 h.args
  clear h
  induction hargs with
  | nil => simp
  | @cons s a ss as ha _ ih =>
    refine List.forall_mem_cons.2 ⟨⟨s, by simp, ha⟩, fun a' ha' => ?_⟩
    obtain ⟨s', hs', h'⟩ := ih a' ha'
    exact ⟨s', by simp [hs'], h'⟩

theorem Typed.shaped_of_kind (h : site.Typed b sorts k nullable args) {k' : Kind}
    (hk : ∀ s ∈ sorts.map (·.1), s = k') : ∀ a ∈ args, ∃ n, a.Shaped (k'.type n) := by
  intro a ha
  obtain ⟨s, hs, ha⟩ := h.shaped a ha
  exact ⟨s.2, hk s.1 (List.mem_map_of_mem hs) ▸ ha⟩

theorem Typed.rep (h : site.Typed b sorts k nullable args) :
    site.rep = if nullable then .boxed k.prim else .prim k.prim := by
  rw [CallSite.rep, h.type, Kind.rep_type]

theorem conform_of_builtin (h : site.op = .builtin b) (e : Expr) : site.conform e = e.mkConvert site.rep := by
  unfold CallSite.conform
  simp only [h, Operator.isTable, Bool.false_eq_true, or_false]
  split_ifs with hr
  · exact (mkConvert_of_rep_eq hr).symm
  · rfl

theorem Typed.single (h : site.Typed b [s] k nullable args) :
    ∃ x, args = [x] ∧ x.Shaped (s.1.type s.2) := by
  obtain - | ⟨hx, - | -⟩ := h.args
  exact ⟨_, rfl, hx⟩

theorem Typed.pair {s' : Kind × Bool} (h : site.Typed b [s, s'] k nullable args) :
    ∃ x y, args = [x, y] ∧ x.Shaped (s.1.type s.2) ∧ y.Shaped (s'.1.type s'.2) := by
  obtain - | ⟨hx, - | ⟨hy, - | -⟩⟩ := h.args
  exact ⟨_, _, rfl, hx, hy⟩

theorem Given.fits (h : site.Given m args vs) (ht : site.Typed b sorts k nullable args) :
    List.Forall₂ (fun k v => v.Fits (.boxed k.prim)) (sorts.map (·.1)) vs :=
  List.forall₂_map_left_iff.2
    ((List.forall₂_map_left_iff.1 (ht.fits h.represents)).imp fun _ _ => Value.fits_boxed_of_fits_type)

end CallSite

namespace Flagged

variable {f : Flagged}

theorem Shaped.rep_unbox (h : f.Shaped (k.type nullable)) : f.value.unbox.rep = .prim k.prim := by
  rw [Expr.rep_unbox, h.rep, Kind.rep_type]
  cases nullable <;> rfl

theorem Represents.carries_unbox (h : f.Represents m v) (hf : f.Shaped (k.type nullable))
    (hv : v ≠ .null) : f.value.unbox.Carries m v := (h.carries hf.isAtom).unbox hv

end Flagged

/-! ### The frame of null policies -/

theorem Value.true_mem_map_isNull : true ∈ vs.map isNull ↔ .null ∈ vs := by
  simp [isNull_iff]

namespace NullPolicy

@[simp] theorem deciding_strict {α : Type} (flags : List α) : strict.deciding flags = flags := rfl

theorem true_mem_deciding (policy : NullPolicy) :
    true ∈ policy.deciding (vs.map Value.isNull) ↔ .null ∈ policy.deciding vs := by
  cases policy with
  | none => simp [deciding]
  | arg0 => rw [deciding, ← List.map_take, Value.true_mem_map_isNull, deciding]
  | _ => exact Value.true_mem_map_isNull

/-- The null tests that decide a call say which of the deciding operands are null. -/
theorem forall₂_deciding (policy : NullPolicy)
    (h : List.Forall₂ (fun f v => f.Represents m v) args vs) :
    List.Forall₂ (fun e c => e.EvalsTo m (.bool c)) (policy.deciding (args.map (·.isNull)))
      (policy.deciding (vs.map Value.isNull)) := by
  have hflags := Flagged.forall₂_isNull h
  cases policy with
  | none => exact .nil
  | arg0 => exact List.forall₂_take 1 hflags
  | _ => exact hflags

end NullPolicy

theorem Expr.plain_const (h : v.isPlain) (r : Rep) : (Expr.const v r).Plain := by
  intro w q hw
  simp only [nodes, List.mem_singleton, Expr.const.injEq] at hw
  exact hw.1 ▸ h

/-- The initial value where there is room for null. -/
theorem Expr.evalsTo_defaultOf_null (m : Machine) (h : Value.null.Fits r) :
    (defaultOf r).EvalsTo m .null := by
  cases r with
  | prim p => exact absurd rfl (Value.ne_null_of_fits_prim h)
  | _ => rfl

theorem Lowering.rep_whenNull (l : Lowering) (r : Rep) : (l.whenNull r).rep = r := by
  unfold whenNull
  split
  · exact rep_mkConvert _ _
  · exact rep_defaultOf _

namespace Builtin

open CallSite Emit

/-- The code of a call stores the expression, which has the representation of the call. -/
structure Stores (b : Builtin) (site : CallSite) (args : List Flagged) (value : Expr) : Prop where
  run : ∀ bd, (b.lowering.emit site args).run bd = (Emit.result b.lowering.stem value).run bd
  rep : value.rep = site.rep
  uses : (∀ f ∈ b.lowering.routines, f ∉ volatile) → ∀ {bd : Builder}, "root" ∈ bd.names →
    (∀ a ∈ args, a.Uses (· ∈ bd.names) (· ∉ volatile)) → value.Uses (· ∈ bd.names) (· ∉ volatile)

/-- What is stored evaluates to the meaning of the operator. -/
structure Implements (b : Builtin) (site : CallSite) (args : List Flagged) (value : Expr) : Prop
    extends b.Stores site args value where
  evalsTo : ∀ {m : Machine} {vs : List Value}, site.Given m args vs →
    (b.meaning vs).Fits site.rep → value.EvalsTo m (b.meaning vs)

variable {raw value : Expr} {bd : Builder}

theorem Stores.delivers (h : b.Stores site args value) (hroutines : ∀ f ∈ b.lowering.routines, f ∉ volatile)
    (hroot : "root" ∈ bd.names) (hargs : ∀ a ∈ args, a.Uses (· ∈ bd.names) (· ∉ volatile)) :
    ∃ f bd' code, (b.lowering.emit site args).run bd = .ok (f, bd') ∧ bd.Extends bd' code ∧ f.Shaped site.type ∧
      ∀ {m : Machine} {o : Except Fault Value}, value.eval.result m = (o, m) → (∀ v, o = .ok v → v.Fits site.rep) →
        (∀ x, o ≠ .error (.unboundVariable x)) → Block.Delivers code bd.names m f.Represents o := by
  obtain ⟨f, bd', code, hrun, hcode⟩ := result_delivers b.lowering.stem (h.uses hroutines hroot hargs) h.rep
  exact ⟨f, bd', code, (h.run bd).trans hrun, hcode⟩

/-- The frame of a null policy: a choice between what a null operand decides and what is computed otherwise. -/
theorem stores_framed {types : List SqlType} {type : SqlType} (hcalls : site.Calls b types type args)
    (hemit : b.lowering.emit site args = b.lowering.framed site args)
    (hcompute : b.lowering.compute site
      (operandsFor b.lowering.policy b.lowering.harmonizes site args) = pure raw) :
    b.Stores site args (choice b.lowering.policy args b.lowering.whenNull (raw.mkConvert site.rep)) := by
  have hconform := conform_of_builtin hcalls.op raw
  rw [← hconform]
  refine ⟨fun bd => ?_, ?_, fun hroutines {bd} hroot hargs => ?_⟩
  · rw [hemit]
    exact run_guarded _ _ (by rw [hcompute]; rfl)
  · rw [rep_choice_of_isFlag hcalls.isFlag (Lowering.rep_whenNull _ _), hconform, rep_mkConvert]
  · have hscoped : Emit.Scoped (· ∉ volatile) bd (b.lowering.compute site
        (operandsFor b.lowering.policy b.lowering.harmonizes site args))
        fun e bd' => e.Uses (· ∈ bd'.names) (· ∉ volatile) :=
      Lowering.scoped_compute hroot (fun _ hf => hf) hroutines (uses_operandsFor hroot (fun _ hf => hf) hargs)
    obtain ⟨-, -, huses⟩ := hscoped raw bd (by rw [hcompute]; rfl)
    exact uses_choice (fun r => b.lowering.uses_whenNull r) hargs huses

/-- In the frame of a null policy, there is to show what a null operand decides and what is computed otherwise. -/
theorem implements_framed (ht : site.Typed b sorts k nullable args)
    (hemit : b.lowering.emit site args = b.lowering.framed site args)
    (hcompute : b.lowering.compute site
      (operandsFor b.lowering.policy b.lowering.harmonizes site args) = pure raw)
    (hplain : (b.lowering.whenNull site.rep).Plain)
    (hnull : ∀ {m vs}, site.Given m args vs → (b.meaning vs).Fits site.rep →
      true ∈ b.lowering.policy.deciding (vs.map Value.isNull) →
      (b.lowering.whenNull site.rep).EvalsTo m (b.meaning vs))
    (hraw : ∀ {m vs}, site.Given m args vs → (b.meaning vs).Fits site.rep →
      true ∉ b.lowering.policy.deciding (vs.map Value.isNull) → raw.Carries m (b.meaning vs)) :
    b.Implements site args
      (choice b.lowering.policy args b.lowering.whenNull (raw.mkConvert site.rep)) := by
  refine ⟨stores_framed ht hemit hcompute, fun {m vs} hgiven hfits => ?_⟩
  refine result_choice (NullPolicy.forall₂_deciding _ hgiven.represents) (by rwa [rep_mkConvert]) (fun h => ?_)
    fun h => ?_
  · rw [rep_mkConvert]
    exact hnull hgiven hfits h
  · -- the computed value fits the call, so that converting it to the representation of the call keeps it
    exact ((hraw hgiven hfits h).mkConvert hfits).evalsTo

/-- A call that every null operand makes null. -/
theorem implements_strict (ht : site.Typed b sorts k nullable args)
    (hpolicy : b.lowering.policy = .strict) (hwhen : b.lowering.whenNull = defaultOf)
    (hemit : b.lowering.emit site args = b.lowering.framed site args)
    (hcompute : b.lowering.compute site (operandsFor .strict b.lowering.harmonizes site args) =
      pure raw)
    (hnull : ∀ {vs : List Value}, vs.length = args.length → .null ∈ vs → b.meaning vs = .null)
    (hraw : ∀ {m vs}, site.Given m args vs → .null ∉ vs → raw.Carries m (b.meaning vs)) :
    ∃ value, b.Implements site args value := by
  refine ⟨_, implements_framed ht hemit (hpolicy ▸ hcompute) ?_ ?_ ?_⟩
  · rw [hwhen, ht.rep]
    cases k <;> cases nullable <;> exact plain_const rfl _
  · intro m vs hgiven hfits h
    rw [hpolicy] at h
    -- null fits the call, so that the initial value is null and not zero or false
    rw [hnull hgiven.represents.length_eq.symm (Value.true_mem_map_isNull.1 h)] at hfits ⊢
    rw [hwhen]
    exact evalsTo_defaultOf_null m hfits
  · intro m vs hgiven _ h
    rw [hpolicy] at h
    exact hraw hgiven fun hn => h (Value.true_mem_map_isNull.2 hn)

/-- The code of a call, appended to a builder, represents the meaning of the operator once it has run. -/
def Compiles (b : Builtin) (site : CallSite) (args : List Flagged) (bd : Builder) : Prop :=
  ∃ f bd' code, (b.lowering.emit site args).run bd = .ok (f, bd') ∧ bd.Extends bd' code ∧
    f.Shaped site.type ∧ ∀ m vs, site.Given m args vs → (b.meaning vs).Fits site.rep →
      Block.Delivers code bd.names m f.Represents (.ok (b.meaning vs))

theorem Implements.compiles (h : b.Implements site args value)
    (hroutines : ∀ f ∈ b.lowering.routines, f ∉ volatile) (hroot : "root" ∈ bd.names)
    (hargs : ∀ a ∈ args, a.Uses (· ∈ bd.names) (· ∉ volatile)) :
    b.Compiles site args bd := by
  obtain ⟨f, bd', code, hrun, hext, hshaped, hcode⟩ := h.delivers hroutines hroot hargs
  exact ⟨f, bd', code, hrun, hext, hshaped,
    fun m vs hgiven hfits => hcode (h.evalsTo hgiven hfits) (by rintro _ ⟨⟩; exact hfits) (by simp)⟩

end Builtin

end SqlCode
