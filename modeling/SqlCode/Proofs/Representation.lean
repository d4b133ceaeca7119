import SqlCode.Proofs.NullLaw

/-!
# Code that represents a value

What it means that a flagged expression represents a value in a state: its value evaluates to it, and its null
test says whether it is null. `Emit.result` gives such an expression for a value that has been computed
(`Emit.result_delivers`), and a call in the frame of a null policy computes one from operands that
represent values.
-/

namespace SqlCode

open Run SqlCode.Expr

variable {a b safe : Expr} {v : Value} {whenNull : Rep → Expr} {args : List Flagged} {r : Rep} {m : Machine}
  {policy : NullPolicy}

/-! ### Expressions that carry a value -/

namespace Expr

/-- The expression evaluates to the value, which fits its representation, and so does what it converts. -/
inductive Carries (m : Machine) (v : Value) : Expr → Prop
  | plain {e : Expr} : e.EvalsTo m v → v.Fits e.rep → (∀ a r, e ≠ .convert a r) → Carries m v e
  | convert {a : Expr} {r : Rep} : Carries m v a → v.Fits r → Carries m v (.convert a r)

variable {e : Expr}

theorem Carries.evalsTo (h : e.Carries m v) : e.EvalsTo m v := by
  induction h with
  | plain h _ _ => exact h
  | convert _ hr ih => exact result_convert_eq_ok.2 ⟨v, ih, hr⟩

theorem Carries.fits (h : e.Carries m v) : v.Fits e.rep := by
  cases h with
  | plain _ hf _ => exact hf
  | convert _ hr => exact hr

theorem carries_const (h : v.Fits r) : (Expr.const v r).Carries m v :=
  .plain rfl h (by simp)

theorem carries_slot {s : Slot} (h : m.get? s.name = some v) (hv : v.Fits s.rep) : (Expr.slot s).Carries m v :=
  .plain (evalsTo_slot h) hv (by simp)

theorem Carries.reconvert (h : e.Carries m v) (hr : v.Fits r) :
    (e.reconvert r).Carries m v := by
  unfold Expr.reconvert
  split
  · split_ifs
    · cases h with
      | plain _ _ hne => exact absurd rfl (hne _ _)
      | convert ha _ => exact ha
    · exact .convert h hr
  · exact .convert h hr

theorem Carries.mkConvert (h : e.Carries m v) (hr : v.Fits r) :
    (e.mkConvert r).Carries m v := by
  unfold Expr.mkConvert
  split_ifs
  · exact h
  · split
    · rename_i u q _
      have hu := h.evalsTo
      cases hu
      rw [hr]
      exact carries_const hr
    · exact h.reconvert hr

theorem rep_unbox (e : Expr) : e.unbox.rep = e.rep.unbox := by
  unfold Expr.unbox
  split
  · rename_i p hp
    rw [rep_mkConvert, hp, Rep.unbox]
  · rename_i hne
    cases hr : e.rep <;> first | rfl | exact absurd hr (hne _)

theorem Carries.unbox (h : e.Carries m v) (hv : v ≠ .null) : e.unbox.Carries m v := by
  unfold Expr.unbox
  split
  · rename_i p hp
    have hf := h.fits
    rw [hp] at hf
    exact h.mkConvert ((Value.fits_boxed_iff.1 hf).resolve_left hv)
  · exact h

/-- A choice between a boxed expression and another one of its machine kind, which may be folded away. -/
theorem Carries.mkCond {t : Expr} {c : Bool} {p : Prim} (ht : t.EvalsTo m (.bool c))
    (ha : a.rep = .boxed p) (hb : b.rep.unbox = .prim p)
    (hs : c = false → a.same b → a = b) (h : (bif c then a else b).Carries m v) :
    (mkCond t a b).Carries m v ∧ (mkCond t a b).rep.unbox = .prim p := by
  have hb' : b.rep = .prim p ∨ b.rep = .boxed p := by
    cases hr : b.rep <;> simp_all [Rep.unbox]
  have hne : a.rep ≠ .truth := by rw [ha]; simp
  have hfits : v.Fits (.boxed p) := by
    have hv := h.fits
    cases c with
    | true => exact ha ▸ hv
    | false =>
      rcases hb' with hr | hr
      · exact Value.fits_boxed_iff.2 (.inr (hr ▸ hv))
      · exact hr ▸ hv
  have hrep : choiceRep a b = .boxed p := by
    rcases hb' with hr | hr <;> simp [choiceRep, ha, hr, Rep.box, Rep.kind?]
  unfold Expr.mkCond
  split
  · cases ht
    cases c
    · exact ⟨h, hb⟩
    · exact ⟨h, by rw [if_pos rfl, ha, Rep.unbox]⟩
  · split_ifs with h₁ h₂ h₃
    · cases c with
      | true => exact ⟨h, by rw [ha, Rep.unbox]⟩
      | false => exact ⟨hs rfl h₁ ▸ h, by rw [ha, Rep.unbox]⟩
    · exact absurd h₂.1 hne
    · exact absurd h₃.1 hne
    · refine ⟨.plain ?_ (hrep.symm ▸ hfits) (by simp), hrep.symm ▸ rfl⟩
      rw [EvalsTo, result_cond, ht, andThen_ok]
      cases c <;> exact h.evalsTo

end Expr

/-! ### Null tests -/

namespace Expr

/-- A truth value that is not written as a negation. -/
def IsFlag (e : Expr) : Prop := e.rep = .truth ∧ ∀ a r, e ≠ .unary .not a r

theorem isFlag_bool (b : Bool) : (bool b).IsFlag := ⟨rfl, by simp [bool]⟩

theorem isFlag_of_isAtom {e : Expr} (h : e.isAtom) (hr : e.rep = .truth) : e.IsFlag :=
  ⟨hr, fun _ _ he => by rw [he] at h; cases h⟩

theorem isFlag_mkIsNull (e : Expr) : e.mkIsNull.IsFlag := by
  refine ⟨rep_mkIsNull e, fun a r => ?_⟩
  unfold mkIsNull
  split <;> simp [bool]

theorem IsFlag.mkConnective (ha : a.IsFlag) (hb : b.IsFlag) (d : Bool) :
    (mkBinary (connective d) a b).IsFlag := by
  rw [mkBinary_connective]
  split_ifs
  · exact ha
  · exact hb
  · exact ⟨rfl, by simp⟩

theorem isFlag_disj {es : List Expr} (h : ∀ e ∈ es, e.IsFlag) : (disj es).IsFlag := by
  have hfold : ∀ {acc : Expr}, acc.IsFlag → (es.foldl (mkBinary (connective true)) acc).IsFlag := by
    induction es with
    | nil => exact fun hacc => hacc
    | cons e es ih =>
      exact fun hacc => ih (fun e' he' => h e' (by simp [he']))
        (hacc.mkConnective (h e (by simp)) true)
  exact hfold (isFlag_bool false)

theorem rep_mkCond_of_isFlag {t : Expr} (ht : t.IsFlag) (h : a.rep = b.rep) :
    (mkCond t a b).rep = a.rep := by
  by_cases hr : a.rep = .truth
  · unfold mkCond
    split
    · split_ifs
      · rfl
      · exact h.symm
    · split_ifs
      · rfl
      · rw [ht.1, hr]
      · rw [hr]
        unfold mkNot
        split
        · rfl
        · exact absurd rfl (ht.2 _ _)
        · rfl
      · exact if_pos h
  · exact rep_mkCond h hr

end Expr

theorem Value.isNull_iff : v.isNull ↔ v = .null := by
  cases v <;> simp [isNull]

theorem Value.isNull_of_fits_prim {p : Prim} (h : v.Fits (.prim p)) : v.isNull = false :=
  Bool.eq_false_of_not_eq_true fun hn => ne_null_of_fits_prim h (isNull_iff.1 hn)

/-- Only a value that is not null fits an unboxed representation. -/
theorem Value.isNull_of_fits (h : v.Fits r) :
    (!r.isPrim && v.isNull) = v.isNull := by
  cases r with
  | prim p =>
    rw [isNull_of_fits_prim h, Bool.and_false]
  | _ => rfl

/-! ### Flagged expressions that represent a value -/

namespace Flagged

/-- The value is a constant or a variable in the representation of the type, and the null test is a flag. -/
structure Shaped (type : SqlType) (f : Flagged) : Prop where
  rep : f.value.rep = type.rep
  isAtom : f.value.isAtom
  isFlag : f.isNull.IsFlag

/-- In the state, the value evaluates to `v`, which fits its representation, and the null test says whether
`v` is null. -/
structure Represents (m : Machine) (f : Flagged) (v : Value) : Prop where
  value : f.value.EvalsTo m v
  isNull : f.isNull.EvalsTo m (.bool v.isNull)
  fits : v.Fits f.value.rep

variable {m' : Machine} {f : Flagged}

theorem Represents.keeps {names : List String} (h : f.Represents m v) (hm : m.Keeps names m')
    (hf : f.Uses (· ∈ names) (· ∉ volatile)) : f.Represents m' v :=
  ⟨h.value.keeps hm hf.2, h.isNull.keeps hm hf.1, h.fits⟩

theorem Represents.carries (h : f.Represents m v) (ha : f.value.isAtom) :
    f.value.Carries m v :=
  .plain h.value h.fits fun _ _ he => by rw [he] at ha; cases ha

/-- Block and result evaluate to the value that the result represents after the block. -/
theorem Represents.eval (h : f.Represents m v) : (f.eval.result m) = (.ok v, m) := by
  unfold Flagged.eval
  rw [result_bind, h.isNull, andThen_ok]
  cases v with
  | null => rfl
  | _ => exact h.value

theorem represents_slot {s : Slot} (m : Machine) (h : v.Fits s.rep) :
    (⟨(Expr.slot s).mkIsNull, .slot s⟩ : Flagged).Represents (m.bind s.name v) v := by
  have hv : (Expr.slot s).EvalsTo (m.bind s.name v) v := evalsTo_slot (Machine.get?_bind_self ..)
  refine ⟨hv, ?_, h⟩
  have hn := evalsTo_mkIsNull hv
  rwa [show (Expr.slot s).rep = s.rep from rfl, Value.isNull_of_fits h] at hn

theorem forall₂_isNull {vs : List Value}
    (h : List.Forall₂ (fun f v => f.Represents m v) args vs) :
    List.Forall₂ (fun e c => e.EvalsTo m (.bool c)) (args.map (·.isNull)) (vs.map Value.isNull) := by
  induction h with
  | nil => exact .nil
  | cons h _ ih => exact .cons h.isNull ih

theorem forall₂_keeps {names : List String} {vs : List Value}
    (h : List.Forall₂ (fun f v => f.Represents m v) args vs) (hm : m.Keeps names m')
    (hargs : ∀ a ∈ args, a.Uses (· ∈ names) (· ∉ volatile)) :
    List.Forall₂ (fun f v => f.Represents m' v) args vs := by
  induction h with
  | nil => exact .nil
  | cons h _ ih =>
    obtain ⟨ha, has⟩ := List.forall_mem_cons.1 hargs
    exact .cons (h.keeps hm ha) (ih has)

end Flagged

/-! ### Code with an outcome -/

namespace Block

variable {α β : Type} {code code' : Block} {names names' : List String} {after : Machine → α → Prop}
  {after' : Machine → β → Prop} {o : Except Fault α}

/-- From the state, the statements have the outcome: they stop with the fault; or they run without fault, change no
variable of the names, and afterwards the state is as it is said of the value. -/
def Delivers (code : Block) (names : List String) (m : Machine) (after : Machine → α → Prop) : Except Fault α → Prop
  | .ok a => ∃ m', (Stmt.execBlock code).result m = (.ok (), m') ∧ m.Keeps names m' ∧ after m' a
  | .error fault => ∃ m', (Stmt.execBlock code).result m = (.error fault, m')

theorem Delivers.map (h : Delivers code names m after o) {f : α → β}
    (hf : ∀ {m' a}, m.Keeps names m' → after m' a → after' m' (f a)) :
    Delivers code names m after' (do return f (← o)) := by
  cases o with
  | error fault => exact h
  | ok a =>
    obtain ⟨m', hm', hk, ha⟩ := h
    exact ⟨m', hm', hk, hf hk ha⟩

/-- Code that runs after other code has the outcome that it has from the value of the other. -/
theorem Delivers.append (h : Delivers code names m after o) {f : α → Except Fault β}
    (hsub : ∀ x ∈ names, x ∈ names')
    (hnext : ∀ {m' a}, o = .ok a → m.Keeps names m' → after m' a → Delivers code' names' m' after' (f a)) :
    Delivers (code ++ code') names m after' (o >>= f) := by
  cases o with
  | error fault =>
    obtain ⟨m', hm'⟩ := h
    exact ⟨m', by rw [Stmt.result_execBlock_append, hm']; rfl⟩
  | ok a =>
    obtain ⟨m₁, hm₁, hk₁, ha⟩ := h
    have hcode := hnext rfl hk₁ ha
    have happend : (Stmt.execBlock (code ++ code')).result m = (Stmt.execBlock code').result m₁ := by
      rw [Stmt.result_execBlock_append, hm₁, andThen_ok]
    show Delivers (code ++ code') names m after' (f a)
    cases hf : f a with
    | error fault =>
      rw [hf] at hcode
      obtain ⟨m₂, hm₂⟩ := hcode
      exact ⟨m₂, happend.trans hm₂⟩
    | ok c =>
      rw [hf] at hcode
      obtain ⟨m₂, hm₂, hk₂, hc⟩ := hcode
      exact ⟨m₂, happend.trans hm₂, hk₁.trans (hk₂.mono hsub), hc⟩

/-- Evaluating what is represented has the outcome of the code. -/
theorem Delivers.evaluate {f : Flagged} {o : Except Fault Value} (h : Delivers code names m f.Represents o) :
    ((evaluate code f).result m).1 = o := by
  show ((Stmt.execBlock code >>= fun _ => f.eval).result m).1 = o
  cases o with
  | error fault =>
    obtain ⟨m', hm'⟩ := h
    rw [result_bind, hm']
    rfl
  | ok v =>
    obtain ⟨m', hm', -, hv⟩ := h
    rw [result_bind, hm', andThen_ok, hv.eval]

end Block

namespace Emit

variable {b : Builder}

/-- Storing an expression gives a flagged expression that represents what it evaluates to. The code has the outcome of
the expression, unless that is a variable that is not bound. -/
theorem result_delivers {init : Expr} {type : SqlType} (stem : String)
    (hu : init.Uses (· ∈ b.names) (· ∉ volatile)) (hr : init.rep = type.rep) :
    ∃ f b' code, (Emit.result stem init).run b = .ok (f, b') ∧ b.Extends b' code ∧ f.Shaped type ∧
      ∀ {m : Machine} {o : Except Fault Value}, init.eval.result m = (o, m) → (∀ v, o = .ok v → v.Fits type.rep) →
        (∀ x, o ≠ .error (.unboundVariable x)) → Block.Delivers code b.names m f.Represents o := by
  obtain ⟨f, b', code, hrun, hext, hst, -⟩ := result_spec stem fun _ => hu
  have hrep : f.value.rep = type.rep := hst.rep.trans hr
  refine ⟨f, b', code, hrun, hext,
    ⟨hrep, hst.isAtom.1, isFlag_of_isAtom hst.isAtom.2 hst.isNull_rep⟩, fun {m o} hm hfits hbound => ?_⟩
  cases o with
  | ok v =>
    obtain ⟨m', hm', hk, hv', hn⟩ := hst.value hm
    rw [Value.isNull_of_fits (hr ▸ hfits v rfl)] at hn
    exact ⟨m', hm', hk, hv', hn, hrep ▸ hfits v rfl⟩
  | error fault =>
    have hfault := hst.fault hm
    rw [result_bind] at hfault
    rcases hcode : (Stmt.execBlock code).result m with ⟨_ | u, m'⟩
    · rw [hcode] at hfault
      cases hfault
      exact ⟨m', hcode⟩
    · -- what is stored is a constant or a variable, and only a variable without a value faults
      rw [hcode, andThen_ok] at hfault
      cases hvalue : f.value with
      | const v q =>
        rw [hvalue] at hfault
        cases hfault
      | slot s =>
        rw [hvalue, result_slot] at hfault
        cases hget : m'.get? s.name with
        | some v =>
          rw [hget] at hfault
          cases hfault
        | none =>
          rw [hget] at hfault
          exact absurd hfault.symm (hbound s.name)
      | _ =>
        have hatom := hst.isAtom.1
        rw [hvalue] at hatom
        cases hatom

/-- A choice under a null policy has the outcome of the branch that the null tests select. -/
theorem result_choice
    {o : Except Fault Value} {cs : List Bool}
    (hcs : List.Forall₂ (fun e c => e.EvalsTo m (.bool c)) (policy.deciding (args.map (·.isNull))) cs)
    (hp : (whenNull safe.rep).Plain) (hnull : true ∈ cs → (whenNull safe.rep).eval.result m = (o, m))
    (hsafe : true ∉ cs → safe.eval.result m = (o, m)) :
    (choice policy args whenNull safe).eval.result m = (o, m) := by
  rw [choice, result_mkCond (NullPolicy.evalsTo_condition hcs) fun _ hs => by rw [eq_of_same_of_plain hp hs]]
  cases hc : cs.any id with
  | true =>
    obtain ⟨c, hmem, hid⟩ := List.any_eq_true.1 hc
    exact hnull ((show c = true from hid) ▸ hmem)
  | false =>
    refine hsafe fun hmem => ?_
    exact List.any_eq_false.1 hc true hmem rfl

theorem rep_choice_of_isFlag
    (hargs : ∀ a ∈ args, a.isNull.IsFlag)
    (hr : (whenNull safe.rep).rep = safe.rep) :
    (choice policy args whenNull safe).rep = safe.rep := by
  have hflags : ∀ e ∈ args.map (·.isNull), e.IsFlag := by
    intro e he
    obtain ⟨a, ha, rfl⟩ := List.mem_map.1 he
    exact hargs a ha
  have hcond : (policy.condition (args.map (·.isNull))).IsFlag := by
    cases policy with
    | none => exact isFlag_bool false
    | arg0 =>
      cases hl : args.map (·.isNull) with
      | nil => exact isFlag_bool false
      | cons e es => exact hflags e (by simp [hl])
    | _ => exact isFlag_disj hflags
  exact (rep_mkCond_of_isFlag hcond hr).trans hr

end Emit

end SqlCode
