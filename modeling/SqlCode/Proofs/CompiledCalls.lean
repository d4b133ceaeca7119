import SqlCode.Proofs.Correctness

/-!
# What compiled calls give

What the code of an operator gives is described for one call at a time, as an outcome that depends on the context and
on the values of its operands. Some of the operands may have to be literals.
-/

namespace SqlCode

open Run SqlCode.Expr

variable {u v : Value} {value : List Value → Value} {site : CallSite} {routines : List String} {ts : List Term}
  {b : Builtin} {bd : Builder} {e : Expr} {args : List Flagged} {m : Machine} {good : List Value → Prop}

/-- The value is one of the type: it fits the representation, and it is null only if the type admits null. -/
structure Value.IsOf (v : Value) (type : SqlType) : Prop where
  fits : v.Fits type.rep
  nullable : v = .null → type.nullable

/-- The row has a value of its type for every field. -/
def IsRow (fields : List (String × SqlType)) (row : List Value) : Prop :=
  List.Forall₂ (fun field v => v.IsOf field.2) fields row

theorem IsRow.fits {fields : List (String × SqlType)} {row : List Value} (h : IsRow fields row) :
    List.Forall₂ (fun field v => v.Fits field.2.rep) fields row :=
  h.imp fun _ _ hv => hv.fits

theorem IsRow.getD {fields : List (String × SqlType)} {row : List Value} {i : Nat} {name : String}
    {type : SqlType} (h : IsRow fields row) (hi : fields[i]? = some (name, type)) :
    (row.getD i .null).IsOf type := by
  obtain ⟨v, hv, hof⟩ := forall₂_getElem? h hi
  rwa [List.getD_eq_getElem?_getD, hv, Option.getD_some]

/-! ### States -/

namespace Machine

/-- Calls of the routines are calls of the library. -/
def Unregistered (routines : List String) (m : Machine) : Prop :=
  ∀ g ∈ routines, m.routines.get? g = none

/-- The slot that stands for the context is bound. -/
def Rooted (m : Machine) : Prop := ∃ v, m.get? "root" = some v

theorem Rooted.keeps {names : List String} {m' : Machine} (h : m.Rooted) (hm : m.Keeps names m')
    (hroot : "root" ∈ names) : m'.Rooted := by
  obtain ⟨v, hv⟩ := h
  exact ⟨v, (hm.slots _ hroot).trans hv⟩

theorem Rooted.bindSlots (h : m.Rooted) (slots : List Slot) (values : List Value) :
    (m.bindSlots slots values).Rooted := by
  induction slots generalizing values m with
  | nil => exact h
  | cons s slots ih =>
    cases values with
    | nil => exact h
    | cons v values =>
      refine ih (m := m.bind s.name v) ?_ values
      by_cases hs : "root" = s.name
      · exact ⟨v, hs ▸ get?_bind_self m s.name v⟩
      · obtain ⟨u, hu⟩ := h
        exact ⟨u, (get?_bind_of_ne m v hs).trans hu⟩

/-- A condition on states that lasts while variables are written. -/
def Lasting (ready : Machine → Prop) : Prop :=
  ∀ ⦃m m' : Machine⦄, ready m → m' = { m with store := m'.store } → (m.Rooted → m'.Rooted) → ready m'

theorem lasting_unregistered (routines : List String) : Lasting (·.Unregistered routines) := by
  intro m m' h hrest _
  rw [hrest]
  exact h

theorem Lasting.keeps {ready : Machine → Prop} {names : List String} {m' : Machine} (h : Lasting ready) (hm : ready m)
    (hk : m.Keeps names m') (hroot : "root" ∈ names) : ready m' ∧ m'.context = m.context :=
  ⟨h hm hk.rest fun hrooted => hrooted.keeps hk hroot, by rw [hk.rest]⟩

end Machine

/-! ### Conversions -/

theorem Expr.Carries.evalsTo_mkConvert {r : Rep} (h : e.Carries m v)
    (hu : v.convert r = .ok u) : (e.mkConvert r).EvalsTo m u := by
  have hsame : v.Fits r → u = v := fun hf => Except.ok.inj (hu.symm.trans hf)
  have hplain : (Expr.convert e r).EvalsTo m u := result_convert_eq_ok.2 ⟨v, h.evalsTo, hu⟩
  unfold Expr.mkConvert
  split_ifs with hr
  · rw [hsame (hr ▸ h.fits)]
    exact h.evalsTo
  · split
    · have hv := h.evalsTo
      cases hv
      rw [hu]
      rfl
    · unfold Expr.reconvert
      split
      · split_ifs with hinner
        · -- a conversion back to where the value comes from
          cases h with
          | plain _ _ hne => exact absurd rfl (hne _ _)
          | convert ha _ =>
            rw [hsame (hinner.1 ▸ ha.fits)]
            exact ha.evalsTo
        · exact hplain
      · exact hplain

theorem Flagged.Represents.evalsTo_mkConvert {f : Flagged} {r : Rep}
    (h : f.Represents m v) (hatom : f.value.isAtom) (hu : v.convert r = .ok u) :
    (f.value.mkConvert r).EvalsTo m u :=
  (h.carries hatom).evalsTo_mkConvert hu

/-- A conversion has the outcome of what it converts, if the value fits. -/
theorem Expr.result_mkConvert {e : Expr} {r : Rep} {o : Except Fault Value} (hne : ∀ a q, e ≠ .convert a q)
    (h : e.eval.result m = (o, m)) (hfits : ∀ v, o = .ok v → v.Fits r) : (e.mkConvert r).eval.result m = (o, m) := by
  by_cases hr : e.rep = r
  · rwa [mkConvert_of_rep_eq hr]
  · have hconvert : (Expr.convert e r).eval.result m = (o, m) := by
      rw [result_convert, h]
      cases o with
      | error fault => rfl
      | ok v => exact congrArg (·, m) (hfits v rfl)
    unfold mkConvert
    rw [if_neg hr]
    cases e with
    | const v q =>
      cases h
      simp only [show v.convert r = .ok v from hfits v rfl, result_const]
    | convert a q => exact absurd rfl (hne a q)
    | _ => exact hconvert

theorem Expr.result_mkConvert_call {f : String} {es : List Expr} {r r' : Rep} {o : Except Fault Value}
    (h : (Expr.call f es r).eval.result m = (o, m)) (hfits : ∀ v, o = .ok v → v.Fits r') :
    ((Expr.call f es r).mkConvert r').eval.result m = (o, m) :=
  result_mkConvert (by simp) h hfits

/-! ### Calls -/

/-- Where an operand is a literal, its code is the constant. -/
def Term.Literals (ts : List Term) (args : List Flagged) : Prop :=
  ∀ {i : ℕ} {v : Value} {type : SqlType}, ts[i]? = some (.literal v type) → args[i]? = some (v.literal type)

namespace Builtin

open Emit Lowering

variable {types : List SqlType} {type : SqlType}

/-- Calls of the operator on the operands compile. In a state that is ready, their code yields an outcome from the
context and the values of the operands. -/
structure YieldsIn (b : Builtin) (ts : List Term) (type : SqlType) (ready : Machine → Prop)
    (good : Context → List Value → Prop) (outcome : Context → List Value → Except Fault Value) : Prop where
  steady : ∀ g ∈ b.lowering.routines, g ∉ volatile
  emits : ∀ {site : CallSite} {args : List Flagged} {bd : Builder}, site.Calls b (ts.map Term.type) type args →
    Term.Literals ts args → "root" ∈ bd.names → (∀ a ∈ args, a.Uses (· ∈ bd.names) (· ∉ volatile)) →
    ∃ f bd' code, (b.lowering.emit site args).run bd = .ok (f, bd') ∧ bd.Extends bd' code ∧ f.Shaped type ∧
      ∀ {m vs}, ready m → List.Forall₂ (fun a v => a.Represents m v) args vs → good m.context vs →
        Block.Delivers code bd.names m f.Represents (outcome m.context vs)

/-- The same where the context does not matter, and the library answers for the given routines. -/
abbrev Yields (b : Builtin) (ts : List Term) (type : SqlType) (routines : List String) (good : List Value → Prop)
    (outcome : List Value → Except Fault Value) : Prop :=
  b.YieldsIn ts type (·.Unregistered routines) (fun _ => good) fun _ => outcome

/-- The code of calls on operands of the types gives a function of their values. -/
def Gives (b : Builtin) (types : List SqlType) (type : SqlType) (routines : List String)
    (good : List Value → Prop) (value : List Value → Value) : Prop :=
  ∀ ⦃ts : List Term⦄, ts.map Term.type = types → b.Yields ts type routines good fun vs => .ok (value vs)

theorem YieldsIn.mono {ready ready' : Machine → Prop} {good : Context → List Value → Prop}
    {outcome : Context → List Value → Except Fault Value} (h : b.YieldsIn ts type ready good outcome)
    (hready : ∀ {m}, ready' m → ready m) : b.YieldsIn ts type ready' good outcome := by
  refine ⟨h.steady, fun hsite hliterals hroot hargs => ?_⟩
  obtain ⟨f, bd', code, hrun, hext, hf, hcode⟩ := h.emits hsite hliterals hroot hargs
  exact ⟨f, bd', code, hrun, hext, hf, fun hm => hcode (hready hm)⟩

theorem Gives.mono (h : b.Gives types type routines good value) {routines' : List String}
    (hsub : ∀ g ∈ routines, g ∈ routines') : b.Gives types type routines' good value :=
  fun _ hts => (h hts).mono fun hm g hg => hm g (hsub g hg)

/-- Where an operand that decides is null, the operator gives the initial value. -/
structure Framed (b : Builtin) (policy : NullPolicy) : Prop where
  policy : b.lowering.policy = policy
  whenNull : b.lowering.whenNull = defaultOf
  steady : ∀ g ∈ b.lowering.routines, g ∉ volatile

/-- An operator that null makes null where its policy says so. What is computed otherwise has to have the outcome in the
representation of the call. -/
theorem yieldsIn_framed {policy : NullPolicy} {ready : Machine → Prop} {good : Context → List Value → Prop}
    {outcome : Context → List Value → Except Fault Value} (hb : b.Framed policy) (hplain : (defaultOf type.rep).Plain)
    (hemit : ∀ {site args}, site.Calls b (ts.map Term.type) type args →
      b.lowering.emit site args = b.lowering.framed site args)
    (hfits : ∀ {c vs v}, List.Forall₂ (fun t v => v.Fits t.type.rep) ts vs → good c vs → outcome c vs = .ok v →
      v.Fits type.rep)
    (hbound : ∀ {c vs}, good c vs → ∀ x, outcome c vs ≠ .error (.unboundVariable x))
    (hnull : ∀ {c vs}, vs.length = ts.length → .null ∈ policy.deciding vs → outcome c vs = .ok .null)
    (hcompute : ∀ {site args}, site.Calls b (ts.map Term.type) type args → Term.Literals ts args → ∃ raw,
      b.lowering.compute site (operandsFor policy b.lowering.harmonizes site args) = pure raw ∧
      ∀ {m vs}, ready m → List.Forall₂ (fun a v => a.Represents m v) args vs → good m.context vs → .null ∉ policy.deciding vs →
        (raw.mkConvert type.rep).eval.result m = (outcome m.context vs, m)) :
    b.YieldsIn ts type ready good outcome := by
  refine ⟨hb.steady, fun {site args bd} hcalls hliterals hroot hargs => ?_⟩
  obtain ⟨raw, hraw, heval⟩ := hcompute hcalls hliterals
  have hstores := stores_framed hcalls (hemit hcalls) (hb.policy ▸ hraw)
  rw [hb.policy, hb.whenNull, CallSite.rep, hcalls.type] at hstores
  obtain ⟨f, bd', code, hrun, hext, hshaped, hcode⟩ := hstores.delivers hb.steady hroot hargs
  rw [CallSite.rep, hcalls.type] at hcode
  refine ⟨f, bd', code, hrun, hext, hcalls.type ▸ hshaped, fun {m vs} hm hvs hgood => ?_⟩
  have htypes : List.Forall₂ (fun t v => v.Fits t.type.rep) ts vs := List.forall₂_map_left_iff.1 (hcalls.fits hvs)
  have hvalue : ∀ v, outcome m.context vs = .ok v → v.Fits type.rep := fun v hv => hfits htypes hgood hv
  refine hcode (result_choice (policy.forall₂_deciding hvs) (by rwa [rep_mkConvert]) (fun h => ?_)
    fun h => ?_) hvalue (hbound hgood)
  · -- null fits the call, so that the initial value is null and not zero or false
    have hnone := hnull (c := m.context) htypes.length_eq.symm (policy.true_mem_deciding.1 h)
    rw [hnone, rep_mkConvert]
    exact evalsTo_defaultOf_null m (hvalue .null hnone)
  · exact heval hm hvs hgood fun hn => h (policy.true_mem_deciding.2 hn)

/-- An operator that every null operand makes null. What is computed otherwise has to give the value in the
representation of the call. -/
theorem gives_strict (hb : b.Framed .strict) (hplain : (defaultOf type.rep).Plain)
    (hemit : ∀ {site args}, site.Calls b types type args →
      b.lowering.emit site args = b.lowering.framed site args)
    (hfits : ∀ {vs}, List.Forall₂ (fun type v => v.Fits type.rep) types vs → good vs →
      (value vs).Fits type.rep)
    (hnull : ∀ {vs}, vs.length = types.length → .null ∈ vs → value vs = .null)
    (hcompute : ∀ {site args}, site.Calls b types type args → ∃ raw,
      b.lowering.compute site (operandsFor .strict b.lowering.harmonizes site args) = pure raw ∧
      ∀ {m vs}, m.Unregistered routines → List.Forall₂ (fun a v => a.Represents m v) args vs → good vs → .null ∉ vs →
        (raw.mkConvert type.rep).EvalsTo m (value vs)) :
    b.Gives types type routines good value := by
  rintro ts rfl
  refine yieldsIn_framed hb hplain hemit ?_ (by simp) ?_ fun hcalls _ => hcompute hcalls
  · rintro _ vs _ hvs hgood ⟨⟩
    exact hfits (List.forall₂_map_left_iff.2 hvs) hgood
  · exact fun hlen h => congrArg Except.ok (hnull (by rw [hlen, List.length_map]) h)

/-! ### Casts -/

/-- A value that is not null needs no room for null, and may have it. -/
theorem fits_withNullable (h : v.Fits type.rep) (hv : v ≠ .null) :
    v.Fits (type.withNullable false).rep ∧ v.Fits (type.withNullable false).rep.box := by
  unfold SqlType.rep at h ⊢
  simp only [SqlType.withNullable]
  cases hp : type.name.prim? with
  | some p =>
    rw [hp] at h
    have hprim : v.Fits (.prim p) := by
      cases hn : type.nullable with
      | true => exact (Value.fits_boxed_iff.1 (by simpa [hn] using h)).resolve_left hv
      | false => simpa [hn] using h
    exact ⟨hprim, Value.fits_boxed_iff.2 (.inr hprim)⟩
  | none =>
    rw [hp] at h
    have hbox : type.name.reference.box = type.name.reference := by
      cases type.name <;> rfl
    exact ⟨h, hbox.symm ▸ h⟩

theorem fits_null (h : type.nullable) : Value.null.Fits type.rep := by
  unfold SqlType.rep
  rw [h]
  cases type.name.prim? with
  | some p => rfl
  | none => cases type.name <;> rfl

theorem carries_box (h : e.Carries m v) : e.box.Carries m v := by
  unfold Expr.box
  split
  · rename_i p hp
    have hfits := h.fits
    rw [hp] at hfits
    exact h.mkConvert (Value.fits_boxed_iff.2 (.inr hfits))
  · exact h

section Cast

variable {source target : SqlType} (hname : source.name ≠ target.name)
include hname

theorem cast_eq {x : Flagged} (hsite : site.Calls .cast [source] target [x]) (e : Expr) :
    site.cast [e] = .ok (e.castTo source (target.withNullable false)) ∧ site.isIdentityCast = false := by
  obtain ⟨operand, hoperand, htype⟩ := List.map_eq_singleton_iff.1 hsite.operands
  have hne : source ≠ target := fun h => hname (congrArg SqlType.name h)
  have hsame : target.sameUpToNull source = false := by
    simp [SqlType.sameUpToNull, Ne.symm hname]
  constructor
  · simp only [CallSite.cast, hoperand, htype, hsite.type, if_neg hne, hsame]
  · rw [CallSite.isIdentityCast, hoperand]
    simpa [htype, hsite.type] using hne

/-- Casts between types that are not both numeric are left to the routine. -/
theorem carries_castTo (hnumeric : ¬(source.name.isNumeric ∧ target.name.isNumeric))
    (hm : m.routines.get? "cast" = none) (he : e.Carries m v) (hv : v ≠ .null)
    (hcast : Cast.cast v source.name target.name = .ok u) (hfits : u.Fits target.rep) (hu : u ≠ .null) :
    (e.castTo source (target.withNullable false)).Carries m u := by
  obtain ⟨hprim, hbox⟩ := fits_withNullable hfits hu
  have hcall : (Run.call "cast" [v, .symbol (.typeName source.name), .symbol (.typeName target.name)]).result m =
      (.ok u, m) := by
    have hroutine : Routine.cast [v, .symbol (.typeName source.name), .symbol (.typeName target.name)] =
        Cast.cast v source.name target.name := by
      cases v <;> first | rfl | exact absurd rfl hv
    rw [Run.result_call_library hm rfl rfl, hroutine, hcast]
  have hargs : List.Forall₂ (fun e v => e.EvalsTo m v)
      [e.box, .typeName source.name, .typeName target.name]
      [v, .symbol (.typeName source.name), .symbol (.typeName target.name)] :=
    .cons (carries_box he).evalsTo (.cons rfl (.cons rfl .nil))
  have hcastTo : e.castTo source (target.withNullable false) = (Expr.call "cast"
      [e.box, .typeName source.name, .typeName target.name] (target.withNullable false).rep.box).mkConvert
        (target.withNullable false).rep := if_neg (not_or.2 ⟨hname, hnumeric⟩)
  rw [hcastTo]
  exact (Carries.plain (evalsTo_call _ hargs hcall) hbox (by simp)).mkConvert hprim

theorem gives_cast (hnumeric : ¬(source.name.isNumeric ∧ target.name.isNumeric))
    (hplain : (defaultOf target.rep).Plain) (hnullable : source.nullable → target.nullable)
    {cast : Value → Value} (hnull : cast .null = .null)
    (hcast : ∀ {v}, v.Fits source.rep → v ≠ .null → Cast.cast v source.name target.name = .ok (cast v) ∧
      (cast v).Fits target.rep ∧ cast v ≠ .null) :
    Builtin.cast.Gives [source] target ["cast"] (fun vs => (vs.getD 0 .null).IsOf source)
      fun vs => cast (vs.getD 0 .null) := by
  refine gives_strict ⟨rfl, rfl, by decide⟩ hplain ?_ ?_ ?_ ?_
  · intro site args hsite
    have hargs := hsite.args
    obtain - | ⟨-, - | -⟩ := hargs
    show Lowering.emit .cast site _ = _
    unfold Lowering.emit
    rw [(cast_eq hname hsite .root).2]
    rfl
  · intro vs _ hv
    by_cases hne : vs.getD 0 .null = .null
    · show (cast (vs.getD 0 .null)).Fits target.rep
      rw [hne, hnull]
      exact fits_null (hnullable (hv.nullable hne))
    · exact (hcast hv.fits hne).2.1
  · rintro (_ | ⟨v, _ | ⟨w, vs⟩⟩) hlen hmem <;> simp at hlen hmem
    rw [← hmem]
    exact hnull
  · intro site args hsite
    have hargs := hsite.args
    obtain - | ⟨hx, - | -⟩ := hargs
    refine ⟨_, congrArg Emit.lift (cast_eq hname hsite _).1, fun {m vs} hm hvs hgood hnot => ?_⟩
    obtain - | ⟨hv, - | -⟩ := hvs
    rename_i v
    have hne : v ≠ .null := fun h => hnot (by simp [h])
    obtain ⟨hroutine, hfits, hvalue⟩ := hcast hgood.fits hne
    have hlibrary := hm "cast" (List.mem_singleton_self _)
    have hcarries := carries_castTo hname hnumeric hlibrary ((hv.carries hx.isAtom).unbox hne) hne hroutine
      hfits hvalue
    exact (hcarries.mkConvert hfits).evalsTo

end Cast

end Builtin

end SqlCode
