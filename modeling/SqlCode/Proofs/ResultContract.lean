import SqlCode.Proofs.Correctness

/-!
# The contract of results

What code may rely on that uses the result of a term. Its value has the representation of the type of the
term; where that has no room for null, the null test is the constant false; and after the block has run, the
null test says whether the value is null.

The operators may be any but table functions, and the routines that they call may do what they like. Neither
do other requests of the session matter: their code comes before or after the code of the term, and does not
write what the result reads.

* `Term.WellFormed`: what is required of a term, and of the definitions that it refers to;
* `Builder.Reaches`: the states that a block leaves when it runs without a fault;
* `Flagged.Meets`: the contract;
* `Term.invariant_fulfills`: compiling upholds it;
* `Session.result_contract`: every result of a session meets it.
-/

namespace SqlCode

open Run SqlCode.Expr Code

variable {f : Flagged} {Q : String → Prop} {site : CallSite} {m m' : Machine} {c : Compilation} {outer : List String}
  {v : Value} {code : Block} {b b' : Builder} {args : List Flagged} {defs : List Term}

/-! ### Terms -/

namespace Term

/-- The type of the term is in order: null has a type that admits it, a reference has the type of what it
refers to, and conjunctions and disjunctions are BOOLEAN. -/
def Fitting (defs : List Term) (fields : List SqlType) : Term → Prop
  | .literal v type => v.isNull → type.nullable
  | .input i type => ∀ u, fields[i]? = some u → u = type
  | .shared i type => ∀ t, defs[i]? = some t → t.type = type
  | .call op type _ => op.isTable = false ∧
      ∀ l, op.lowering = .ok l → l = .logicalAnd ∨ l = .logicalOr → type.name = .boolean

/-- All parts of the term, and of the definitions that it refers to, have types that are in order. -/
def WellFormed (defs : List Term) (fields : List SqlType) (t : Term) : Prop :=
  ∀ s, Occurs defs s t → s.Fitting defs fields

variable {fields : List SqlType}

theorem wellFormed_shared {i : Nat} {type : SqlType} : (Term.shared i type).WellFormed defs fields ↔
    ∀ t, defs[i]? = some t → t.type = type ∧ t.WellFormed defs fields := by
  refine forall_occurs_shared.trans ⟨fun h t ht => ⟨h.1 t ht, h.2 t ht⟩, fun h => ?_⟩
  exact ⟨fun t ht => (h t ht).1, fun t ht => (h t ht).2⟩

/-- Input fields that are added later do not matter. -/
theorem WellFormed.of_append {more : List SqlType} {t : Term}
    (h : t.WellFormed defs (fields ++ more)) : t.WellFormed defs fields := by
  intro s hs
  have hfit := h s hs
  cases s with
  | input i type =>
    intro u hu
    have hi : i < fields.length := (List.getElem?_eq_some_iff.1 hu).1
    exact hfit u (by rwa [List.getElem?_append_left hi])
  | literal | shared | call => exact hfit

end Term

/-! ### Variables that have values -/

/-- The names are bound. -/
def Machine.Binds (m : Machine) (names : List String) : Prop := ∀ x ∈ names, ∃ v, m.get? x = some v

theorem Machine.Binds.mono {names names' : List String} (h : m.Binds names')
    (hn : ∀ x ∈ names, x ∈ names') : m.Binds names := fun x hx => h x (hn x hx)

namespace Expr

variable {e : Expr}

theorem exists_evalsTo_of_isAtom {names : List String} (ha : e.isAtom)
    (hu : e.Uses (· ∈ names) Q) (hm : m.Binds names) : ∃ v, e.EvalsTo m v := by
  cases e with
  | const v r => exact ⟨v, rfl⟩
  | slot s =>
    obtain ⟨v, hv⟩ := hm s.name ((uses_slot s).1 hu)
    exact ⟨v, evalsTo_slot hv⟩
  | _ => cases ha

/-- A constant or a variable evaluates as before where its variable is as before. -/
theorem EvalsTo.of_isAtom {S : String → Prop} (h : e.EvalsTo m v) (ha : e.isAtom)
    (hu : e.Uses S Q) (hm : ∀ x, S x → m'.get? x = m.get? x) : e.EvalsTo m' v := by
  cases e with
  | const w r =>
    cases h
    rfl
  | slot s =>
    rw [EvalsTo, result_slot] at h ⊢
    rw [hm s.name ((uses_slot s).1 hu)]
    cases hs : m.get? s.name with
    | none =>
      rw [hs] at h
      cases h
    | some w =>
      rw [hs] at h
      cases h
      rfl
  | _ => cases ha

end Expr

/-- Evaluation writes no variable, and a write after it binds one more. -/
theorem Machine.WritesOnly.bound_bind {m₁ : Machine} (h : m.WritesOnly [] m₁) {own : Set String}
    (hm : ∀ x ∈ own, ∃ v, m.get? x = some v) (name : String) (v : Value) :
    ∀ x ∈ insert name own, ∃ w, (m₁.bind name v).get? x = some w := by
  intro x hx
  by_cases hxn : x = name
  · exact ⟨v, by rw [hxn, get?_bind_self]⟩
  · rw [get?_bind_of_ne m₁ v hxn, h.slots x (by simp)]
    exact hm x (hx.resolve_left hxn)

namespace Code.Scoped

variable {outer own : Set String}

/-- Scoped code leaves the variables around it as they are. -/
theorem get?_of_mem (h : Scoped Q outer ∅ code) {x : String} (hx : x ∈ outer) :
    ((Stmt.execBlock code).result m).2.get? x = m.get? x := by
  have hwrites : WritesOnly (Stmt.writesAll code) (Stmt.execBlock code) := Stmt.writesOnly_execBlock fun _ h => h
  exact (hwrites m).slots x fun hw => h.writesAll_notMem (by simp) x hw hx

/-- Scoped code that runs without a fault binds the variables that it declares. -/
theorem bound (h : Scoped Q outer own code) (hrun : (Stmt.execBlock code).result m = (.ok (), m'))
    (hm : ∀ x ∈ own, ∃ v, m.get? x = some v) : ∀ x ∈ own ∪ declaredSet code, ∃ v, m'.get? x = some v := by
  induction h generalizing m with
  | nil =>
    cases hrun
    simpa using hm
  | @declare own s e rest _ _ _ _ ih =>
    rw [Stmt.result_execBlock_cons, Stmt.result_declare] at hrun
    obtain ⟨_, m₁, hs, hrun⟩ := andThen_eq_ok.1 hrun
    obtain ⟨v, m₂, hv, hs⟩ := andThen_eq_ok.1 hs
    cases hs
    have hm₂ : m.WritesOnly [] _ := e.writesOnly_eval m
    rw [hv] at hm₂
    rw [declaredSet_declare, Set.union_insert, ← Set.insert_union]
    exact ih hrun (hm₂.bound_bind hm s.name v)
  | @invoke own s f args rest hs _ _ ih =>
    rw [Stmt.result_execBlock_cons, Stmt.result_invoke] at hrun
    obtain ⟨_, m₁, hs, hrun⟩ := andThen_eq_ok.1 hrun
    obtain ⟨vs, m₂, hvs, hs⟩ := andThen_eq_ok.1 hs
    have hm₂ := (WritesOnly.closed []).evalAll_self (fun a (_ : a ∈ args) => a.writesOnly_eval) m
    rw [hvs] at hm₂
    obtain ⟨-, -, v, -, -, -, rfl⟩ := mutate_eq_ok.1 hs
    rw [declaredSet_invoke]
    exact ih hrun fun y hy => hm₂.bound_bind hm s.name v y (.inr hy)

end Code.Scoped

/-! ### States that a block leaves -/

namespace Builder

/-- The state is one that the block of the builder leaves, if it runs without a fault where the names around
it are bound. -/
def Reaches (outer : List String) (b : Builder) (m' : Machine) : Prop :=
  ∃ m : Machine, m.Binds outer ∧ (Stmt.execBlock b.statements).result m = (.ok (), m')

/-- Code that was emitted starts in a state that the block before it leaves. -/
theorem Emits.reaches (h : b.Emits Q b' code) (hm : b'.Reaches outer m') :
    ∃ m, b.Reaches outer m ∧ (Stmt.execBlock code).result m = (.ok (), m') ∧
      ∀ x ∈ b.names, m'.get? x = m.get? x := by
  obtain ⟨m₀, hm₀, hrun⟩ := hm
  rw [h.statements, Stmt.result_execBlock_append] at hrun
  rcases he : (Stmt.execBlock b.statements).result m₀ with ⟨r, m⟩
  rw [he] at hrun
  cases r with
  | error f => cases hrun
  | ok u =>
    refine ⟨m, ⟨m₀, hm₀, he⟩, hrun, fun x hx => ?_⟩
    rw [← h.isScoped.get?_of_mem (m := m) hx, show (Stmt.execBlock code).result m = _ from hrun]

/-- The states that the block leaves bind the names that the builder has taken. -/
def BindsNames (outer : List String) (b : Builder) : Prop := ∀ m, b.Reaches outer m → m.Binds b.names

theorem BindsNames.emits (hb : b.BindsNames outer) (h : b.Emits Q b' code) : b'.BindsNames outer := by
  intro m' hm' x hx
  obtain ⟨m, hm, hrun, hkeep⟩ := h.reaches hm'
  have hmem : x ∈ b.nameSet ∪ declaredSet code := h.names ▸ hx
  rcases hmem with hmem | hmem
  · rw [hkeep x hmem]
    exact hb m hm x hmem
  · exact h.isScoped.bound hrun (by simp) x (.inr hmem)

end Builder

theorem Compilation.Tidy.bindsNames
    (h : c.Tidy Q outer) : c.builder.BindsNames outer := by
  have hempty : (⟨outer, []⟩ : Builder).BindsNames outer := by
    rintro m ⟨m₀, hm, hrun⟩
    cases hrun
    exact hm
  exact hempty.emits ⟨rfl, h.names, h.isScoped⟩

/-! ### The contract -/

namespace Flagged

/-- In the state, the value evaluates, and the null test says whether it is null; where there is no room for
null, it says no. -/
def Marks (m : Machine) (f : Flagged) : Prop :=
  ∃ v, f.value.EvalsTo m v ∧ f.isNull.EvalsTo m (.bool (!f.value.rep.isPrim && v.isNull))

/-- The contract of a result of the given type, in the states that the block leaves. -/
structure Meets (outer : List String) (b : Builder) (type : SqlType) (f : Flagged) : Prop where
  shaped : f.Shaped type
  test : f.isNull.isAtom ∨ f.isNull = f.value.mkIsNull
  unboxed : type.rep.isPrim → f.isNull = .bool false
  uses : f.Uses (· ∈ b.names) fun _ => True
  marks : ∀ m, b.Reaches outer m → f.Marks m

variable {type : SqlType}

/-- A null test that is written out is right wherever the value evaluates. -/
theorem marks_mkIsNull (h : f.value.EvalsTo m v)
    (ht : f.isNull = f.value.mkIsNull) : f.Marks m := ⟨v, h, ht ▸ evalsTo_mkIsNull h⟩

theorem Meets.mono {outer' : List String} (h : f.Meets outer b type) (hn : ∀ x ∈ b.names, x ∈ b'.names)
    (hm : ∀ m, b'.Reaches outer' m → b.Reaches outer m) : f.Meets outer' b' type :=
  ⟨h.shaped, h.test, h.unboxed, h.uses.mono hn, fun m hr => h.marks m (hm m hr)⟩

/-- Later code keeps the contract. -/
theorem Meets.emits (h : f.Meets outer b type) (he : b.Emits Q b' code) : f.Meets outer b' type := by
  refine ⟨h.shaped, h.test, h.unboxed, h.uses.mono (fun _ hx => he.mem_names hx),
    fun m' hm' => ?_⟩
  obtain ⟨m, hm, -, hkeep⟩ := he.reaches hm'
  obtain ⟨v, hv, ht⟩ := h.marks m hm
  have hv' : f.value.EvalsTo m' v := hv.of_isAtom h.shaped.isAtom h.uses.2 hkeep
  rcases h.test with ha | ha
  · exact ⟨v, hv', ht.of_isAtom ha h.uses.1 hkeep⟩
  · exact marks_mkIsNull hv' ha

end Flagged

/-! ### Literals and calls -/

theorem Value.isNull_toPrim {w : Value} {p : Prim} (h : v.toPrim p = .ok w) : w.isNull = false := by
  unfold Value.toPrim at h
  split at h
  all_goals try split at h
  all_goals cases h
  all_goals rfl

/-- A conversion keeps null, and makes nothing else null. -/
theorem Value.isNull_convert {w : Value} {r : Rep} (h : v.convert r = .ok w) : w.isNull = v.isNull := by
  by_cases hv : v = .null
  · subst hv
    cases r <;> cases h <;> rfl
  · have hnull : v.isNull = false := Bool.eq_false_iff.2 fun hn => hv (isNull_iff.1 hn)
    rw [hnull]
    unfold Value.convert at h
    split at h
    · exact absurd rfl hv
    · exact absurd rfl hv
    · exact isNull_toPrim h
    · exact isNull_toPrim h
    · split at h <;> cases h
      rfl
    · cases h
      rfl
    · cases h
      rfl
    · cases h
      rfl
    · cases h
    · cases h
      exact hnull

theorem SqlType.isPrim_rep {type : SqlType} (h : type.nullable) : type.rep.isPrim = false := by
  unfold SqlType.rep
  split
  · rw [if_pos h]
    rfl
  · cases type.name <;> rfl

theorem Rep.box_of_isPrim {r : Rep} (h : r.isPrim = false) : r.box = r := by
  cases r with
  | prim p => cases h
  | _ => rfl

theorem Value.meets_literal {type : SqlType}
    (h : v.isNull → type.nullable) : (v.literal type).Meets outer b type := by
  have hprim : v.isNull → type.rep.isPrim = false := fun hn => SqlType.isPrim_rep (h hn)
  obtain ⟨w, hw, hnull⟩ : ∃ w, v.literalExpr type = .const w type.rep ∧ w.isNull = v.isNull := by
    unfold Value.literalExpr
    split_ifs with hn
    · refine ⟨.null, ?_, hn.symm⟩
      rw [Expr.null, Rep.box_of_isPrim (hprim hn)]
    · split
      · rename_i w hw
        exact ⟨w, rfl, isNull_convert hw⟩
      · exact ⟨v, rfl, rfl⟩
  have htest : (Expr.const w type.rep).mkIsNull = .bool v.isNull := by
    unfold mkIsNull knownNull?
    cases hv : v.isNull with
    | true => simp [Expr.rep, hprim hv, constant?, hnull, hv]
    | false => by_cases hp : type.rep.isPrim = true <;> simp [Expr.rep, hp, constant?, hnull, hv]
  unfold Value.literal
  rw [hw, ← htest]
  refine ⟨⟨rfl, rfl, isFlag_mkIsNull _⟩, .inr rfl, fun h => mkIsNull_of_isPrim h, ⟨?_, uses_const _ _⟩,
    fun m _ => Flagged.marks_mkIsNull rfl rfl⟩
  exact (uses_const _ _).mkIsNull

namespace Emit

variable {type : SqlType}

theorem meets_result {stem : String} {init : Expr} (hrun : (result stem init).run b = .ok (f, b'))
    (hu : init.Uses (· ∈ b.names) fun _ => True) (hb : b.BindsNames outer) (hr : init.rep = type.rep) :
    f.Meets outer b' type := by
  have hp := b.append_spec (stem ++ "_value") init
  have hpu := Builder.uses_append (stem ++ "_value") fun _ => hu
  obtain ⟨code, he⟩ := b.exists_emits_append (stem ++ "_value") hu
  rw [run_result] at hrun
  generalize b.append (stem ++ "_value") init = p at hp hpu he hrun
  obtain ⟨e, b₁⟩ := p
  obtain ⟨_, -, hp⟩ := hp
  have hb₁ : b₁.BindsNames outer := hb.emits he
  have hrep : e.rep = type.rep := hp.rep.trans hr
  by_cases ha : e.mkIsNull.isAtom = true
  · simp only [Builder.append_of_isAtom ha] at hrun
    cases hrun
    refine ⟨⟨hrep, hp.isAtom, isFlag_mkIsNull e⟩, .inl ha, fun h => ?_, ⟨hpu.mkIsNull, hpu⟩, fun m hm => ?_⟩
    · exact mkIsNull_of_isPrim (hrep ▸ h)
    · obtain ⟨v, hv⟩ := exists_evalsTo_of_isAtom hp.isAtom hpu (hb₁ m hm)
      exact Flagged.marks_mkIsNull hv rfl
  · -- the test is declared as the last statement
    have hna : e.mkIsNull.isAtom = false := Bool.eq_false_of_not_eq_true ha
    have hd := b₁.emits_declare (stem ++ "_isNull") hpu.mkIsNull
    simp only [Builder.append_of_not_isAtom hna] at hrun
    cases hrun
    refine ⟨⟨hrep, hp.isAtom, isFlag_of_isAtom rfl (rep_mkIsNull e)⟩, .inl rfl, fun h => ?_,
      ⟨by simp, hpu.mono (fun _ hx => List.mem_cons_of_mem _ hx)⟩, fun m' hm' => ?_⟩
    · rw [mkIsNull_of_isPrim (hrep ▸ h)] at hna
      cases hna
    · obtain ⟨m, hm, hdecl, hkeep⟩ := hd.reaches hm'
      obtain ⟨v, hv⟩ := exists_evalsTo_of_isAtom hp.isAtom hpu (hb₁ m hm)
      have ht := evalsTo_mkIsNull hv
      rw [Stmt.result_execBlock_cons, Stmt.result_declare, ht] at hdecl
      cases hdecl
      exact ⟨v, hv.of_isAtom hp.isAtom hpu hkeep, evalsTo_slot (Machine.get?_bind_self ..)⟩

end Emit

/-- A conjunction or disjunction is boxed or unboxed as its type says. -/
theorem CallSite.rep_connective (h : site.type.name = .boolean) (neutral : Bool) :
    (site.connective neutral args).rep = site.type.rep := by
  have hrep : site.type.rep = if site.type.nullable then .boxed .bool else .prim .bool := by
    unfold SqlType.rep
    rw [h]
    rfl
  have hcond : ∀ {t a b : Expr}, a.rep = .boxed .bool → b.rep = .boxed .bool →
      (mkCond t a b).rep = .boxed .bool := by
    intro t a b ha hb
    exact (rep_mkCond (ha.trans hb.symm) (by rw [ha]; simp)).trans ha
  rw [hrep, connective]
  cases site.type.nullable with
  | true => exact hcond rfl (hcond rfl rfl)
  | false => exact (rep_unbox _).trans (congrArg Rep.unbox (hcond rfl (hcond rfl rfl)))

theorem CallSite.rep_conform (h : site.op.isTable = false) (e : Expr) : (site.conform e).rep = site.rep := by
  unfold conform
  split_ifs with hr
  · simpa [h] using hr
  · exact rep_mkConvert e _

namespace Lowering

variable {l : Lowering}

/-- A call in the frame of its null policy meets the contract. -/
theorem meets_framed (hrun : (l.framed site args).run b = .ok (f, b')) (hroot : "root" ∈ b.names)
    (hb : b.BindsNames outer) (huses : ∀ a ∈ args, a.Uses (· ∈ b.names) fun _ => True)
    (hflags : ∀ a ∈ args, a.isNull.IsFlag) (htable : site.op.isTable = false) : f.Meets outer b' site.type := by
  have hscoped : Emit.Scoped (fun _ => True) b
      (l.compute site (Emit.operandsFor l.policy l.harmonizes site args))
      fun e b' => e.Uses (· ∈ b'.names) fun _ => True :=
    scoped_compute hroot (fun _ _ => trivial) (fun _ _ => trivial) (Emit.uses_operandsFor hroot (fun _ _ => trivial) huses)
  cases hc : (l.compute site (Emit.operandsFor l.policy l.harmonizes site args)).run b with
  | error e =>
    rw [framed, Emit.run_guarded_of_error _ _ hc] at hrun
    cases hrun
  | ok p =>
    obtain ⟨raw, b₁⟩ := p
    obtain ⟨code, he, hraw⟩ := hscoped raw b₁ hc
    rw [framed, Emit.run_guarded _ _ hc] at hrun
    refine Emit.meets_result hrun ?_ (hb.emits he) ?_
    · refine Emit.uses_choice (fun r => l.uses_whenNull r) (fun a ha => ?_) hraw
      exact (huses a ha).mono (fun _ hx => he.mem_names hx)
    · rw [Emit.rep_choice_of_isFlag hflags (rep_whenNull _ _)]
      exact CallSite.rep_conform htable raw

/-- The code of a call meets the contract, for every lowering. -/
theorem meets_emit (hrun : (l.emit site args).run b = .ok (f, b')) (hroot : "root" ∈ b.names)
    (hb : b.BindsNames outer)
    (hargs : List.Forall₂ (fun o a => a.Meets outer b o.type) site.operands args)
    (htable : site.op.isTable = false)
    (hbool : l = .logicalAnd ∨ l = .logicalOr → site.type.name = .boolean) :
    f.Meets outer b' site.type := by
  have huses := forall_mem_of_forall₂ hargs fun _ _ h => h.uses
  have hflags := forall_mem_of_forall₂ hargs fun _ _ h => h.shaped.isFlag
  unfold emit at hrun
  split at hrun
  · exact Emit.meets_result hrun (CallSite.uses_connective hroot (fun _ _ => trivial) huses) hb
      (CallSite.rep_connective (hbool (.inl rfl)) true)
  · exact Emit.meets_result hrun (CallSite.uses_connective hroot (fun _ _ => trivial) huses) hb
      (CallSite.rep_connective (hbool (.inr rfl)) false)
  · split at hrun
    · -- a cast to the type of its operand is the operand
      rename_i arg hid
      cases hrun
      obtain ⟨o, os, ho, hos, hoperands⟩ := List.forall₂_cons_right_iff.1 hargs
      cases hos
      rw [CallSite.isIdentityCast, hoperands] at hid
      rwa [← eq_of_beq hid]
    · exact meets_framed hrun hroot hb huses hflags htable
  · exact meets_framed hrun hroot hb huses hflags htable

end Lowering

/-! ### Compilations -/

namespace Compilation

/-- The inputs meet the contract, and so do the results of definitions that are well formed. -/
structure Fulfills (outer : List String) (fields : List SqlType) (c : Compilation) : Prop where
  tidy : c.Tidy (fun _ => True) outer
  inputs : List.Forall₂ (fun f type => f.Meets outer c.builder type) c.inputs fields
  done : ∀ p ∈ c.done, ∃ t, c.definitions[p.1]? = some t ∧
    (t.WellFormed c.definitions fields → p.2.Meets outer c.builder t.type)

/-- The second compilation has appended code to the first one, and fulfills what is required too. -/
structure Grows (outer : List String) (fields : List SqlType) (c c' : Compilation) : Prop where
  fulfills : c'.Fulfills outer fields
  emits : ∃ code, c.builder.Emits (fun _ => True) c'.builder code
  definitions : c'.definitions = c.definitions

variable {fields : List SqlType} {c' c'' : Compilation}

theorem Fulfills.grows (h : c.Fulfills outer fields) : c.Grows outer fields c :=
  ⟨h, ⟨[], .refl _ _⟩, rfl⟩

theorem Grows.trans (h : c.Grows outer fields c') (h' : c'.Grows outer fields c'') :
    c.Grows outer fields c'' := by
  obtain ⟨code, he⟩ := h.emits
  obtain ⟨code', he'⟩ := h'.emits
  exact ⟨h'.fulfills, ⟨code ++ code', he.trans he'⟩, h'.definitions.trans h.definitions⟩

theorem Fulfills.emits (h : c.Fulfills outer fields)
    (he : c.builder.Emits (fun _ => True) b code) : c.Grows outer fields { c with builder := b } := by
  refine ⟨⟨(h.tidy.emits he).tidy, h.inputs.imp fun _ _ hf => hf.emits he, fun p hp => ?_⟩, ⟨code, he⟩, rfl⟩
  obtain ⟨t, ht, hf⟩ := h.done p hp
  exact ⟨t, ht, fun hwf => (hf hwf).emits he⟩

end Compilation

namespace Term

open Compilation Compile

variable {fields : List SqlType}

/-- The result uses names that are taken, and meets the contract if the term is well formed. -/
def Delivers (outer : List String) (defs : List Term) (fields : List SqlType) (t : Term)
    (f : Flagged) (b : Builder) : Prop :=
  (f.Uses (· ∈ b.names) fun _ => True) ∧ (t.WellFormed defs fields → f.Meets outer b t.type)

theorem Delivers.grows {t : Term} {c' : Compilation}
    (h : t.Delivers outer defs fields f c.builder) (hg : c.Grows outer fields c') :
    t.Delivers outer defs fields f c'.builder := by
  obtain ⟨code, he⟩ := hg.emits
  exact ⟨h.1.mono (fun _ hx => he.mem_names hx), fun hwf => (h.2 hwf).emits he⟩

/-- Compiling upholds the contract, whatever the term is. -/
theorem invariant_fulfills : Invariant (fun _ => True)
    (fun c => c.Fulfills outer fields ∧ c.definitions = defs) (·.Grows outer fields ·)
    fun t f c => t.Delivers outer defs fields f c.builder where
  refl hc := hc.1.grows
  trans := .trans
  after hc hg := ⟨hg.fulfills, hg.definitions.trans hc.2⟩
  mono := .grows
  operands _ _ _ := trivial
  definition _ _ _ := trivial
  literal _ _ _ := ⟨⟨uses_bool _, uses_literalExpr _ _⟩, fun hwf => Value.meets_literal (hwf _ .self)⟩
  input type hc hf := by
    refine ⟨hc.1.tidy.inputs _ (List.mem_of_getElem? hf), fun hwf => ?_⟩
    obtain ⟨u, hu, hmeets⟩ := forall₂_getElem? hc.1.inputs hf
    obtain rfl : u = type := hwf _ .self u hu
    exact hmeets
  call {c op type ts l args f b} hc _ hl hargs hrun := by
    have htidy := hc.1.tidy
    obtain ⟨code, he, hf⟩ := Lowering.scoped_emit htidy.root_mem (fun _ _ => trivial)
      (fun _ _ => trivial) (forall_mem_of_forall₂ hargs fun _ _ hf => hf.1) _ _ hrun
    refine ⟨hc.1.emits he, hf, fun hwf => ?_⟩
    obtain ⟨⟨htable, hbool⟩, hoperands⟩ := forall_occurs_call.1 hwf
    obtain ⟨hlen, hzip⟩ := List.forall₂_iff_zip.1 hargs
    refine Lowering.meets_emit hrun htidy.root_mem htidy.bindsNames ?_ htable (hbool l hl)
    refine List.forall₂_map_left_iff.2 (List.forall₂_iff_zip.2 ⟨hlen, fun {t a} hmem => ?_⟩)
    exact (hzip hmem).2 (hoperands t (List.of_mem_zip hmem).1)
  done {c i f} type hc hf := by
    have hmem : (i, f) ∈ c.done := mem_done_of_lookup hf
    refine ⟨hc.1.tidy.done (i, f) hmem, fun hwf => ?_⟩
    obtain ⟨t, ht, hmeets⟩ := hc.1.done (i, f) hmem
    rw [hc.2] at ht hmeets
    obtain ⟨rfl, htwf⟩ := wellFormed_shared.1 hwf t ht
    exact hmeets htwf
  share {c c' depth i t f} type hc _ _ hdef _ hg hf := by
    have htidy := hg.fulfills.tidy
    have hd : c'.definitions = defs := hg.definitions.trans hc.2
    rw [hc.2] at hdef
    refine ⟨⟨⟨⟨htidy.root, htidy.names, htidy.isScoped, htidy.inputs,
      List.forall_mem_cons.2 ⟨hf.1, htidy.done⟩⟩, hg.fulfills.inputs, List.forall_mem_cons.2
        ⟨⟨t, hd ▸ hdef, fun hwf => hf.2 (hd ▸ hwf)⟩, hg.fulfills.done⟩⟩, ⟨[], .refl _ _⟩, rfl⟩, hf.1, fun hwf => ?_⟩
    obtain ⟨rfl, htwf⟩ := wellFormed_shared.1 hwf t hdef
    exact hf.2 htwf

end Term

/-! ### Sessions -/

/-- The type of the field that is requested. -/
def Request.type? : Request → Option SqlType
  | .field _ type => some type
  | .term _ => none

namespace Session

open Compilation Term

variable {s : Session} {fields : List SqlType}

/-- The session is sound, and its compilation fulfills the contract for the fields so far. -/
structure Honest (fields : List SqlType) (s : Session) : Prop where
  sound : s.Sound fun _ => True
  fulfills : s.compilation.Fulfills s.outer fields

/-- The second session comes after the first one: what met the contract still does. -/
structure Follows (s s' : Session) : Prop where
  meets : ∀ {f : Flagged} {type : SqlType}, f.Meets s.outer s.compilation.builder type →
    f.Meets s'.outer s'.compilation.builder type
  definitions : s'.compilation.definitions = s.compilation.definitions

/-- A new field meets the contract where its slot is bound. -/
theorem Honest.field (h : s.Honest fields) (name : String) (type : SqlType) :
    (s.serve (.field name type)).Honest (fields ++ [type]) ∧ s.Follows (s.serve (.field name type)) := by
  have hsound := h.sound.field name type
  have hmeets : ∀ {f : Flagged} {u : SqlType}, f.Meets s.outer s.compilation.builder u →
      f.Meets (s.serve (.field name type)).outer (s.serve (.field name type)).compilation.builder u := by
    refine fun hf => hf.mono (fun x hx => List.mem_cons_of_mem _ hx) ?_
    rintro m' ⟨m, hm, hrun⟩
    refine ⟨m, hm.mono fun x hx => ?_, hrun⟩
    simp only [outer, serve, List.map_append, List.mem_cons, List.mem_append] at hx ⊢
    tauto
  have hslot : (⟨(Expr.slot ⟨s.compilation.builder.freshName name, type.rep⟩).mkIsNull,
      .slot ⟨s.compilation.builder.freshName name, type.rep⟩⟩ : Flagged).Meets
      (s.serve (.field name type)).outer (s.serve (.field name type)).compilation.builder type := by
    have huses : (Expr.slot ⟨s.compilation.builder.freshName name, type.rep⟩).Uses
        (· ∈ s.compilation.builder.freshName name :: s.compilation.builder.names) fun _ => True := by simp
    refine ⟨⟨rfl, rfl, isFlag_mkIsNull _⟩, .inr rfl, fun hp => mkIsNull_of_isPrim hp,
      ⟨huses.mkIsNull, huses⟩, fun m hm => ?_⟩
    obtain ⟨v, hv⟩ := exists_evalsTo_of_isAtom rfl huses (hsound.tidy.bindsNames m hm)
    exact Flagged.marks_mkIsNull hv rfl
  refine ⟨⟨hsound, hsound.tidy, ?_, fun p hp => ?_⟩, hmeets, rfl⟩
  · exact List.rel_append (h.fulfills.inputs.imp fun _ _ hf => hmeets hf) (.cons hslot .nil)
  · obtain ⟨t, ht, hp⟩ := h.fulfills.done p hp
    exact ⟨t, ht, fun hwf => hmeets (hp hwf.of_append)⟩

/-- A term upholds the contract, whether it compiles or not. -/
theorem Honest.term (h : s.Honest fields) (t : Term) :
    (s.serve (.term t)).Honest fields ∧ s.Follows (s.serve (.term t)) := by
  obtain ⟨hcomp, houter⟩ := s.serve_term t
  obtain ⟨hg, -⟩ : s.compilation.Grows s.outer fields (s.compilation.add t).2 ∧ _ :=
    Term.invariant_fulfills.compile ⟨h.fulfills, rfl⟩ trivial
  obtain ⟨code, he⟩ := hg.emits
  have hnames : t.EveryOperator s.compilation.definitions (·.Names fun _ => True) :=
    fun _ _ _ _ _ _ _ _ => trivial
  refine ⟨⟨(h.sound.term (fun _ _ => trivial) hnames).1, ?_⟩, fun hf => ?_, ?_⟩
  · rw [hcomp, houter]
    exact hg.fulfills
  · rw [hcomp, houter]
    exact hf.emits he
  · rw [hcomp, hg.definitions]

theorem honest_start (settings : Settings) (defs : List Term) :
    (start settings defs).Honest [] :=
  ⟨sound_start _ settings defs, (sound_start _ settings defs).tidy, .nil, by simp [start]⟩

/-- Every sequence of requests upholds the contract. -/
theorem Honest.serveAll (h : s.Honest fields) (requests : List Request) :
    (s.serveAll requests).Honest (fields ++ requests.filterMap Request.type?) ∧
      s.Follows (s.serveAll requests) := by
  induction requests generalizing s fields with
  | nil =>
    rw [List.filterMap_nil, List.append_nil]
    exact ⟨h, fun hf => hf, rfl⟩
  | cons r rest ih =>
    cases r with
    | field name type =>
      obtain ⟨hs, hf⟩ := h.field name type
      obtain ⟨hrest, hf'⟩ := ih hs
      rw [List.append_assoc] at hrest
      exact ⟨hrest, fun hm => hf'.meets (hf.meets hm), hf'.definitions.trans hf.definitions⟩
    | term t =>
      obtain ⟨hs, hf⟩ := h.term t
      obtain ⟨hrest, hf'⟩ := ih hs
      exact ⟨hrest, fun hm => hf'.meets (hf.meets hm), hf'.definitions.trans hf.definitions⟩

/-- The contract of results. A well-formed term that compiles at any point of a session has a result whose
value has the representation of the type, and whose null test is the constant false if that has no room for
null. Whatever else is requested before and after, if the block of the session runs without a fault where the
root and the input slots are bound, then the value evaluates in the state that it leaves, and if there is room
for null, the null test says whether the value is null. -/
theorem result_contract (settings : Settings) {defs : List Term} {before : List Request} {t : Term}
    {f : Flagged} {c : Compilation}
    (ht : t.WellFormed defs (before.filterMap Request.type?))
    (hadd : ((start settings defs).serveAll before).compilation.add t = (.ok f, c))
    (after : List Request) :
    let s := (start settings defs).serveAll (before ++ .term t :: after)
    f.value.rep = t.type.rep ∧ (t.type.rep.isPrim = true → f.isNull = .bool false) ∧
      ∀ m m' : Machine, m.Binds s.outer → (Block.exec s.block).result m = (.ok (), m') →
        ∃ v, f.value.EvalsTo m' v ∧ f.isNull.EvalsTo m' (.bool (!t.type.rep.isPrim && v.isNull)) := by
  intro s
  obtain ⟨hbefore, hfollows⟩ := (honest_start settings defs).serveAll before
  have hd : ((start settings defs).serveAll before).compilation.definitions = defs :=
    hfollows.definitions
  obtain ⟨hcomp, houter⟩ := ((start settings defs).serveAll before).serve_term t
  have hmeets : f.Meets (((start settings defs).serveAll before).serve (.term t)).outer
      (((start settings defs).serveAll before).serve (.term t)).compilation.builder t.type := by
    obtain ⟨-, hresult⟩ := Term.invariant_fulfills.compile (t := t) ⟨hbefore.fulfills, rfl⟩ trivial
    rw [hcomp, houter]
    refine (hresult f (congrArg Prod.fst hadd)).2 ?_
    rwa [hd]
  obtain ⟨-, hfollows'⟩ := (hbefore.term t).1.serveAll after
  have hs : s = (((start settings defs).serveAll before).serve (.term t)).serveAll after :=
    List.foldl_append
  have hfinal : f.Meets s.outer s.compilation.builder t.type := hs ▸ hfollows'.meets hmeets
  refine ⟨hfinal.shaped.rep, hfinal.unboxed, fun m m' hm hrun => ?_⟩
  have hmarks := hfinal.marks m' ⟨m, hm, hrun⟩
  rwa [Flagged.Marks, hfinal.shaped.rep] at hmarks

theorem exists_of_isOk {ε α σ : Type} {p : Except ε α × σ} (h : p.1.isOk) :
    ∃ a s, p = (.ok a, s) := by
  obtain ⟨r, s⟩ := p
  cases r with
  | error e => cases h
  | ok a => exact ⟨a, s, rfl⟩

/-- A null square that is shared by a sum and by a test. The sum is requested after a term that fails, which
leaves the code of the square behind, and before the test. -/
theorem result_contract_square :
    let integer : SqlType := .plain .integer true
    let x : Term := .input 0 integer
    let square : Term := .call (.builtin .multiply) integer [x, x]
    let shared : Term := .shared 0 integer
    let failing : Term := .call (.builtin .plus) integer [shared, .input 1 integer]
    let sum : Term := .call (.builtin .plus) integer [shared, x]
    let test : Term := .call (.builtin .isNull) (.plain .boolean false) [shared]
    let before : List Request := [.field "x" integer, .term failing]
    let s := (start {} [square]).serveAll (before ++ [.term sum, .term test])
    let m := ({} : Machine).bind "x" .null
    sum.WellFormed [square] (before.filterMap Request.type?) ∧
      ∃ f c m', ((start {} [square]).serveAll before).compilation.add sum = (.ok f, c) ∧
        m.Binds s.outer ∧ (Block.exec s.block).result m = (.ok (), m') ∧
        f.value.rep = .boxed .i32 ∧ ∃ v, f.value.EvalsTo m' v ∧ f.isNull.EvalsTo m' (.bool v.isNull) := by
  intro integer x square shared failing sum test before s m
  have hx : x.WellFormed [square] [integer] := forall_occurs_input.2 fun u hu => (Option.some.inj hu).symm
  have hsquare : square.WellFormed [square] [integer] := by
    refine forall_occurs_call.2 ⟨⟨rfl, ?_⟩, by simpa [WellFormed] using hx⟩
    rintro l ⟨rfl⟩ (h | h) <;> cases h
  have hshared : shared.WellFormed [square] [integer] := by
    refine wellFormed_shared.2 fun t ht => ?_
    cases ht
    exact ⟨rfl, hsquare⟩
  have hsum : sum.WellFormed [square] (before.filterMap Request.type?) := by
    refine forall_occurs_call.2 ⟨⟨rfl, ?_⟩, ?_⟩
    · rintro l ⟨rfl⟩ (h | h) <;> cases h
    · exact List.forall_mem_cons.2 ⟨hshared, List.forall_mem_singleton.2 hx⟩
  have hadd : (((start {} [square]).serveAll before).compilation.add sum).1.isOk = true := by
    subst before sum shared square x integer
    decide +kernel
  have hrun : ((Block.exec s.block).result m).1.isOk = true := by
    subst s m before sum test shared square x integer
    decide +kernel
  have hbinds : m.Binds s.outer := by
    have houter : s.outer = ["root", "x"] := by
      subst s before sum test shared square x integer
      decide +kernel
    rw [houter]
    intro y hy
    simp only [List.mem_cons, List.not_mem_nil, or_false] at hy
    rcases hy with rfl | rfl <;> exact ⟨.null, rfl⟩
  obtain ⟨f, c, hadd⟩ := exists_of_isOk hadd
  obtain ⟨u, m', hrun⟩ := exists_of_isOk hrun
  obtain ⟨hrep, -, hmarks⟩ := result_contract {} hsum hadd [.term test]
  exact ⟨hsum, f, c, m', hadd, hbinds, hrun, hrep, hmarks m m' hbinds hrun⟩

end Session

end SqlCode
