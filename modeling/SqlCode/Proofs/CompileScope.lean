import SqlCode.Compile.Program
import SqlCode.Proofs.Scope

/-!
# The scope of compiled code

Every step of a compilation appends scoped code to its block: it declares variables with fresh names and
reads only variables that exist. This holds for every lowering and every term, also where a step fails and
leaves the code of its operands behind.
-/

namespace SqlCode

open Run SqlCode.Expr Code

variable {Q : String → Prop} {init : Expr} {site : CallSite} {policy : NullPolicy} {c : Compilation}
  {outer : List String} {l : Lowering} {b : Builder} {args : List Flagged} {defs : List Term}

/-! ### Scoped code from builders -/

namespace Builder

/-- The names that a builder has taken. -/
def nameSet (b : Builder) : Set String := {x | x ∈ b.names}

/-- The second builder is the first one after emitting scoped code, with the declared names taken. -/
structure Emits (Q : String → Prop) (b b' : Builder) (code : Block) : Prop where
  statements : b'.statements = b.statements ++ code
  names : b'.nameSet = b.nameSet ∪ declaredSet code
  isScoped : Scoped Q b.nameSet ∅ code

variable {b' b'' : Builder} {code code' : Block}

theorem Emits.refl (Q : String → Prop) (b : Builder) : b.Emits Q b [] :=
  ⟨by simp, by simp, .nil⟩

theorem Emits.trans (h : b.Emits Q b' code) (h' : b'.Emits Q b'' code') :
    b.Emits Q b'' (code ++ code') := by
  refine ⟨?_, ?_, h.isScoped.append ?_⟩
  · rw [h'.statements, h.statements, List.append_assoc]
  · rw [h'.names, h.names, declaredSet_append, Set.union_assoc]
  · have := h'.isScoped
    rw [h.names] at this
    have := this.of_outer
    rwa [Set.union_empty, ← Set.empty_union (declaredSet code)] at this

theorem Emits.mem_names (h : b.Emits Q b' code) {x : String} (hx : x ∈ b.names) : x ∈ b'.names := by
  have : x ∈ b'.nameSet := h.names ▸ .inl hx
  exact this

theorem Emits.mem_of_declared (h : b.Emits Q b' code) {x : String} (hx : x ∈ declaredSet code) :
    x ∈ b'.names := by
  have : x ∈ b'.nameSet := h.names ▸ .inr hx
  exact this

theorem emits_declare (b : Builder) (suggestion : String)
    (h : init.Uses (· ∈ b.names) Q) :
    b.Emits Q (b.declare suggestion init).2
      [.declare ⟨b.freshName suggestion, init.rep⟩ init] := by
  refine ⟨rfl, ?_, .declare (b.freshName_notMem suggestion) (by simp) ?_ .nil⟩
  · ext x
    simp [nameSet, declare, newSlot, newName, add, or_comm]
  · simpa [nameSet] using h

theorem exists_emits_append (b : Builder) (suggestion : String)
    (h : init.Uses (· ∈ b.names) Q) :
    ∃ code, b.Emits Q (b.append suggestion init).2 code := by
  by_cases ha : init.isAtom = true
  · rw [append_of_isAtom ha]
    exact ⟨[], .refl Q b⟩
  · rw [append_of_not_isAtom (Bool.eq_false_of_not_eq_true ha)]
    exact ⟨_, b.emits_declare suggestion h⟩

theorem emits_foldl_invoke {slot : Slot} {f : String} {entries : List (List Expr)}
    (h : b.Emits Q b' code) (hs : slot.name ∈ declaredSet code)
    (he : ∀ es ∈ entries, ∀ e ∈ es, e.Uses (· ∈ b.names) Q) :
    ∃ code', b.Emits Q (entries.foldl (fun b es => b.add (.invoke slot f (es.map (·.box)))) b')
      code' ∧ slot.name ∈ declaredSet code' := by
  induction entries generalizing b' code with
  | nil => exact ⟨code, h, hs⟩
  | cons es rest ih =>
    have hstep : b.Emits Q (b'.add (.invoke slot f (es.map (·.box))))
        (code ++ [.invoke slot f (es.map (·.box))]) := by
      refine ⟨?_, ?_, h.isScoped.append (.invoke (.inr hs) ?_ .nil)⟩
      · simp [add, h.statements]
      · simpa [add, nameSet] using h.names
      · intro a ha
        obtain ⟨e, hmem, rfl⟩ := List.mem_map.1 ha
        exact ((he es (by simp) e hmem).mono (fun x hx => .inl hx)).box
    exact ih hstep (by simp [hs]) fun es' hes' => he es' (by simp [hes'])

end Builder

namespace Emit

/-- Where the step succeeds, it has appended scoped code, and what it gives satisfies `P` with the names
taken then. -/
def Scoped {α : Type} (Q : String → Prop) (b : Builder) (x : Emit α) (P : α → Builder → Prop) : Prop :=
  ∀ a b', x.run b = .ok (a, b') → ∃ code, b.Emits Q b' code ∧ P a b'

theorem Scoped.pure {α : Type} {P : α → Builder → Prop} {a : α} (h : P a b) :
    Scoped Q b (Pure.pure a) P := by
  rintro _ _ ⟨rfl⟩
  exact ⟨[], .refl Q b, h⟩

theorem Scoped.bind {α β : Type} {x : Emit α} {f : α → Emit β} {P : α → Builder → Prop}
    {R : β → Builder → Prop} (hx : Scoped Q b x P)
    (hf : ∀ a b₁, P a b₁ → (∀ y ∈ b.names, y ∈ b₁.names) → Scoped Q b₁ (f a) R) :
    Scoped Q b (x >>= f) R := by
  intro c b' h
  rw [StateT.run_bind] at h
  cases hr : x.run b with
  | error e =>
    rw [hr] at h
    exact nomatch h
  | ok p =>
    obtain ⟨a, b₁⟩ := p
    rw [hr] at h
    obtain ⟨code, he, hP⟩ := hx a b₁ hr
    obtain ⟨code', he', hR⟩ := hf a b₁ hP (fun y hy => he.mem_names hy) c b' h
    exact ⟨code ++ code', he.trans he', hR⟩

theorem scoped_error {α : Type} {P : α → Builder → Prop} (err : CompileError) :
    Scoped Q b (lift (.error err)) P := by
  rintro _ _ ⟨⟩

theorem scoped_lift {r : Except CompileError Expr} (h : ∀ e, r = .ok e → e.Uses (· ∈ b.names) Q) :
    Scoped Q b (lift r) fun e b' => e.Uses (· ∈ b'.names) Q := by
  cases r with
  | error err => exact scoped_error err
  | ok e => exact .pure (h e rfl)

theorem scoped_append (suggestion : String) (h : init.Uses (· ∈ b.names) Q) :
    Scoped Q b (modifyGet (·.append suggestion init) : Emit Expr)
      fun e b' => e.Uses (· ∈ b'.names) Q := by
  intro e b' hrun
  have hp : b.append suggestion init = (e, b') := Except.ok.inj hrun
  obtain ⟨code, he⟩ := b.exists_emits_append suggestion h
  have hu := Builder.uses_append suggestion fun _ => h
  rw [hp] at he hu
  exact ⟨code, he, hu⟩

theorem scoped_result (stem : String) (h : init.Uses (· ∈ b.names) Q) :
    Scoped Q b (result stem init) fun f b' => f.Uses (· ∈ b'.names) Q := by
  refine (scoped_append _ h).bind fun e b₁ he _ => ?_
  refine (scoped_append _ he.mkIsNull).bind fun t b₂ ht hn => ?_
  exact .pure ⟨ht, he.mono hn⟩

theorem scoped_fill {container : Container} {suggestion f : String} {entries : List (List Expr)}
    (h : ∀ es ∈ entries, ∀ e ∈ es, e.Uses (· ∈ b.names) Q) :
    Scoped Q b (fill container suggestion f entries) fun e b' => e.Uses (· ∈ b'.names) Q := by
  rintro _ _ ⟨rfl⟩
  have hd := b.emits_declare (Q := Q) suggestion (uses_new container)
  have hs : (⟨b.freshName suggestion, container.rep⟩ : Slot).name ∈ declaredSet
      [.declare ⟨b.freshName suggestion, container.rep⟩ (.new container)] := by simp
  obtain ⟨code, he, hs⟩ := Builder.emits_foldl_invoke (f := f) hd hs h
  exact ⟨code, he, (uses_slot _).2 (he.mem_of_declared hs)⟩

theorem mem_of_mem_pairs {α : Type} {a : α} : ∀ {as p : List α}, p ∈ pairs as → a ∈ p → a ∈ as
  | [], _, hp, _ => by simp [pairs] at hp
  | [_], _, hp, ha => by
    simp only [pairs, List.mem_singleton] at hp
    exact hp ▸ ha
  | x :: y :: rest, p, hp, ha => by
    simp only [pairs, List.mem_cons] at hp
    rcases hp with rfl | hp
    · simp only [List.mem_cons, List.not_mem_nil, or_false] at ha ⊢
      tauto
    · have := mem_of_mem_pairs hp ha
      simp [this]

theorem scoped_constructor {args : List Expr}
    (h : ∀ a ∈ args, a.Uses (· ∈ b.names) Q) :
    Scoped Q b (Emit.constructor site args) fun e b' => e.Uses (· ∈ b'.names) Q := by
  unfold Emit.constructor
  split
  · split
    · exact scoped_error _
    · exact scoped_fill fun es hes e he => h e (mem_of_mem_pairs hes he)
  · refine scoped_fill fun es hes e he => ?_
    obtain ⟨a, ha, rfl⟩ := List.mem_map.1 hes
    exact h e (by simpa using List.mem_singleton.1 he ▸ ha)
  · exact scoped_error _

/-- The operands that a computation is given use what the operands of the call use. -/
theorem uses_operandsFor {S : String → Prop} {harmonize : Bool} (hS : S "root") (hQ : ∀ f, f ∉ volatile → Q f)
    (h : ∀ a ∈ args, a.Uses S Q) : ∀ e ∈ operandsFor policy harmonize site args, e.Uses S Q := by
  intro e he
  refine uses_of_rename_eq hS hQ fun ρ σ hρ hσ => ?_
  have hview := operandsFor_rename (ρ := ρ) (σ := σ) policy harmonize site args
  rw [Flagged.map_rename_eq h hρ hσ] at hview
  exact List.map_inj_left.1 (hview.symm.trans (List.map_id _).symm) e he

theorem uses_choice {S : String → Prop} {whenNull : Rep → Expr}
    {raw : Expr} (hn : ∀ r, (whenNull r).Uses S Q)
    (h : ∀ a ∈ args, a.Uses S Q) (hraw : raw.Uses S Q) :
    (choice policy args whenNull (site.conform raw)).Uses S Q := by
  refine .mkCond (NullPolicy.uses_condition fun e he => ?_) (hn _) (site.uses_conform hraw)
  have hmem : e ∈ args.map (·.isNull) := by
    unfold NullPolicy.deciding at he
    split at he
    · simp at he
    · exact List.mem_of_mem_take he
    all_goals exact he
  obtain ⟨a, ha, rfl⟩ := List.mem_map.1 hmem
  exact (h a ha).1

theorem scoped_guarded {harmonize : Bool} {stem : String}
    {whenNull : Rep → Expr} {compute : List Expr → Emit Expr}
    (hn : ∀ S r, (whenNull r).Uses S Q)
    (h : ∀ a ∈ args, a.Uses (· ∈ b.names) Q)
    (hc : Scoped Q b (compute (operandsFor policy harmonize site args))
      fun e b' => e.Uses (· ∈ b'.names) Q) :
    Scoped Q b (guarded policy harmonize stem whenNull compute site args)
      fun f b' => f.Uses (· ∈ b'.names) Q := by
  refine hc.bind fun raw b₁ hraw hb => scoped_result stem ?_
  exact uses_choice (hn _) (fun a ha => (h a ha).mono hb) hraw

end Emit

namespace Lowering

theorem scoped_compute {args : List Expr} (hroot : "root" ∈ b.names)
    (hQ : ∀ f, f ∉ volatile → Q f) (hl : ∀ f ∈ l.routines, Q f)
    (h : ∀ a ∈ args, a.Uses (· ∈ b.names) Q) :
    Emit.Scoped Q b (l.compute site args) fun e b' => e.Uses (· ∈ b'.names) Q := by
  have hquiet : ∀ l : Lowering, l.isQuiet → (∀ f ∈ l.routines, Q f) →
      Emit.Scoped Q b (l.compute site args) fun e b' => e.Uses (· ∈ b'.names) Q := by
    intro l hquiet hl
    have hq := quiet_compute hquiet site args
    obtain ⟨r, hr, -⟩ := id hq
    rw [hr]
    exact Emit.scoped_lift fun e he => hq.uses hroot hQ hl h (hr.trans (congrArg _ he))
  induction l with
  | negation positive ih => exact (ih hl).bind fun e b₁ he _ => .pure he.unbox.mkNot
  | coalesce =>
    cases args with
    | nil => exact Emit.scoped_error _
    | cons a args =>
      exact .pure (CallSite.uses_coalesce_fold (h a (by simp)) fun a ha => h a (by simp [ha]))
  | constructor => exact Emit.scoped_constructor h
  | _ => exact hquiet _ rfl hl

theorem scoped_framed (hroot : "root" ∈ b.names)
    (hQ : ∀ f, f ∉ volatile → Q f) (hl : ∀ f ∈ l.routines, Q f)
    (h : ∀ a ∈ args, a.Uses (· ∈ b.names) Q) :
    Emit.Scoped Q b (l.framed site args) fun f b' => f.Uses (· ∈ b'.names) Q :=
  Emit.scoped_guarded (fun _ r => l.uses_whenNull r) h
    (scoped_compute hroot hQ hl (Emit.uses_operandsFor hroot hQ h))

theorem scoped_emit (hroot : "root" ∈ b.names)
    (hQ : ∀ f, f ∉ volatile → Q f) (hl : ∀ f ∈ l.routines, Q f)
    (h : ∀ a ∈ args, a.Uses (· ∈ b.names) Q) :
    Emit.Scoped Q b (l.emit site args) fun f b' => f.Uses (· ∈ b'.names) Q := by
  unfold emit
  split
  · exact Emit.scoped_result _ (CallSite.uses_connective hroot hQ h)
  · exact Emit.scoped_result _ (CallSite.uses_connective hroot hQ h)
  · split
    · exact .pure (h _ (by simp))
    · exact scoped_framed hroot hQ hl h
  · exact scoped_framed hroot hQ hl h

end Lowering

/-! ### Terms through shared definitions -/

namespace Term

@[elab_as_elim]
theorem inductionOn {motive : Term → Prop} (literal : ∀ v t, motive (.literal v t))
    (input : ∀ i t, motive (.input i t)) (shared : ∀ i t, motive (.shared i t))
    (call : ∀ op t operands, (∀ s ∈ operands, motive s) → motive (.call op t operands)) (t : Term) :
    motive t :=
  @Term.rec motive (fun ts => ∀ s ∈ ts, motive s)
    literal input shared call (by simp) (by simp; tauto) t

/-- The first term is part of the second one, or of a definition that it refers to. -/
inductive Occurs (defs : List Term) (s : Term) : Term → Prop
  | self : Occurs defs s s
  | shared {i : Nat} {type : SqlType} {t : Term} :
      defs[i]? = some t → Occurs defs s t → Occurs defs s (.shared i type)
  | operand {op : Operator} {type : SqlType} {operands : List Term} {t : Term} :
      t ∈ operands → Occurs defs s t → Occurs defs s (.call op type operands)

/-- Every operator in the term and in the definitions that it refers to has a property. -/
def EveryOperator (defs : List Term) (P : Operator → Prop) (t : Term) : Prop :=
  ∀ op type operands, Occurs defs (.call op type operands) t → P op

section Occurs

variable {P : Term → Prop} {Q : Operator → SqlType → List Term → Prop} {i : Nat} {v : Value} {type type' : SqlType}
  {op : Operator} {operands : List Term}

theorem forall_occurs_literal : (∀ s, Occurs defs s (.literal v type) → P s) ↔ P (.literal v type) := by
  refine ⟨fun h => h _ .self, fun h s hs => ?_⟩
  cases hs
  exact h

theorem forall_occurs_input : (∀ s, Occurs defs s (.input i type) → P s) ↔ P (.input i type) := by
  refine ⟨fun h => h _ .self, fun h s hs => ?_⟩
  cases hs
  exact h

theorem forall_occurs_shared : (∀ s, Occurs defs s (.shared i type) → P s) ↔
    P (.shared i type) ∧ ∀ t, defs[i]? = some t → ∀ s, Occurs defs s t → P s := by
  refine ⟨fun h => ⟨h _ .self, fun t ht s hs => h s (.shared ht hs)⟩, fun h s hs => ?_⟩
  cases hs with
  | self => exact h.1
  | shared ht hs => exact h.2 _ ht s hs

theorem forall_occurs_call : (∀ s, Occurs defs s (.call op type operands) → P s) ↔
    P (.call op type operands) ∧ ∀ t ∈ operands, ∀ s, Occurs defs s t → P s := by
  refine ⟨fun h => ⟨h _ .self, fun t ht s hs => h s (.operand ht hs)⟩, fun h s hs => ?_⟩
  cases hs with
  | self => exact h.1
  | operand ht hs => exact h.2 _ ht s hs

@[simp] theorem not_occurs_literal : ¬ Occurs defs (.call op type operands) (.literal v type') := by
  rintro ⟨⟩

@[simp] theorem not_occurs_input : ¬ Occurs defs (.call op type operands) (.input i type') := by
  rintro ⟨⟩

theorem forall_calls_shared :
    (∀ op type' operands, Occurs defs (.call op type' operands) (.shared i type) → Q op type' operands) ↔
      ∀ t, defs[i]? = some t →
        ∀ op type operands, Occurs defs (.call op type operands) t → Q op type operands := by
  refine ⟨fun h t ht op type' operands ho => h op type' operands (.shared ht ho), fun h op type' operands ho => ?_⟩
  cases ho with
  | shared ht ho => exact h _ ht op type' operands ho

theorem forall_calls_call :
    (∀ op' type' operands', Occurs defs (.call op' type' operands') (.call op type operands) →
      Q op' type' operands') ↔ Q op type operands ∧ ∀ t ∈ operands, ∀ op' type' operands',
        Occurs defs (.call op' type' operands') t → Q op' type' operands' := by
  refine ⟨fun h => ⟨h _ _ _ .self, fun t ht _ _ _ ho => h _ _ _ (.operand ht ho)⟩, fun h _ _ _ ho => ?_⟩
  cases ho with
  | self => exact h.1
  | operand ht ho => exact h.2 _ ht _ _ _ ho

end Occurs

end Term

/-- The routines that calls of the operator name satisfy `Q`. -/
def Operator.Names (Q : String → Prop) (op : Operator) : Prop :=
  ∀ l, op.lowering = .ok l → ∀ f ∈ l.routines, Q f

/-! ### The invariant of a compilation -/

namespace Compilation

/-- The block is scoped relative to the names in `outer`, the taken names are these and the declared ones,
and the inputs and the results of definitions use taken names. -/
structure Tidy (Q : String → Prop) (outer : List String) (c : Compilation) : Prop where
  root : "root" ∈ outer
  names : c.builder.nameSet = {x | x ∈ outer} ∪ declaredSet c.builder.statements
  isScoped : Code.Scoped Q {x | x ∈ outer} ∅ c.builder.statements
  inputs : ∀ f ∈ c.inputs, f.Uses (· ∈ c.builder.names) Q
  done : ∀ p ∈ c.done, p.2.Uses (· ∈ c.builder.names) Q

/-- The second compilation is tidy too and has what the first one has. -/
structure Leads (Q : String → Prop) (outer : List String) (c c' : Compilation) : Prop where
  tidy : c'.Tidy Q outer
  names : ∀ x ∈ c.builder.names, x ∈ c'.builder.names
  inputs : c'.inputs = c.inputs
  definitions : c'.definitions = c.definitions

variable {c' c'' : Compilation}

theorem Tidy.leads (h : c.Tidy Q outer) : c.Leads Q outer c := ⟨h, fun _ hx => hx, rfl, rfl⟩

theorem Leads.trans (h : c.Leads Q outer c') (h' : c'.Leads Q outer c'') : c.Leads Q outer c'' :=
  ⟨h'.tidy, fun x hx => h'.names x (h.names x hx), h'.inputs.trans h.inputs,
    h'.definitions.trans h.definitions⟩

theorem Tidy.outer_mem (h : c.Tidy Q outer) : ∀ x ∈ outer, x ∈ c.builder.names := by
  intro x hx
  have : x ∈ c.builder.nameSet := h.names ▸ .inl hx
  exact this

theorem Tidy.root_mem (h : c.Tidy Q outer) : "root" ∈ c.builder.names := h.outer_mem _ h.root

theorem mem_done_of_lookup {i : Nat} {f : Flagged} (h : c.done.lookup i = some f) : (i, f) ∈ c.done := by
  obtain ⟨l₁, l₂, hdone, -⟩ := List.lookup_eq_some_iff.1 h
  simp [hdone]

theorem Tidy.emits (h : c.Tidy Q outer) {code : Block}
    (he : c.builder.Emits Q b code) : c.Leads Q outer { c with builder := b } := by
  have hmono : ∀ {f : Flagged}, f.Uses (· ∈ c.builder.names) Q → f.Uses (· ∈ b.names) Q :=
    fun hf => hf.mono (fun _ hx => he.mem_names hx)
  refine ⟨⟨h.root, ?_, ?_, fun f hf => hmono (h.inputs f hf), fun p hp => hmono (h.done p hp)⟩,
    fun _ hx => he.mem_names hx, rfl, rfl⟩
  · simp only [he.names, h.names, he.statements, declaredSet_append, Set.union_assoc]
  · simp only [he.statements]
    refine h.isScoped.append ?_
    have := he.isScoped
    rw [h.names] at this
    rw [Set.empty_union]
    simpa using this.of_outer

end Compilation

/-! ### What compiling keeps -/

namespace Compile

variable {α β : Type} {G : Compilation → Compilation → Prop} {P : α → Compilation → Prop}
  {R : β → Compilation → Prop}

/-- The compilations before and after the step are related by `G`, also when it fails, and what it gives
satisfies `P`. -/
def Keeps (G : Compilation → Compilation → Prop) (c : Compilation) (x : Compile α)
    (P : α → Compilation → Prop) : Prop :=
  G c (x.run.run c).2 ∧ ∀ a, (x.run.run c).1 = .ok a → P a (x.run.run c).2

theorem keeps_pure {a : α} (hc : G c c) (h : P a c) : Keeps G c (pure a) P := by
  refine ⟨hc, ?_⟩
  rintro _ ⟨rfl⟩
  exact h

theorem keeps_throw (hc : G c c) (e : CompileError) : Keeps G c (throw e) P := by
  refine ⟨hc, ?_⟩
  rintro _ ⟨⟩

theorem keeps_get {f : Compilation → Compile α} (h : Keeps G c (f c) P) : Keeps G c (get >>= f) P := h

theorem keeps_bind {x : Compile α} {f : α → Compile β} (hx : Keeps G c x P)
    (trans : ∀ {c c' c''}, G c c' → G c' c'' → G c c'')
    (hf : ∀ a c₁, G c c₁ → P a c₁ → Keeps G c₁ (f a) R) : Keeps G c (x >>= f) R := by
  obtain ⟨hg, hP⟩ := hx
  unfold Keeps
  rw [exceptT_run_bind]
  rcases hr : x.run.run c with ⟨r, c₁⟩
  rw [hr] at hg hP
  cases r with
  | error e =>
    refine ⟨hg, ?_⟩
    rintro _ ⟨⟩
  | ok a =>
    obtain ⟨hg', hR⟩ := hf a c₁ hg (hP a rfl)
    exact ⟨trans hg hg', hR⟩

/-- What the step gives is what running it gives. -/
theorem Keeps.and_run {x : Compile α} (h : Keeps G c x P) :
    Keeps G c x fun a c' => P a c' ∧ x.run.run c = (.ok a, c') :=
  ⟨h.1, fun a ha => ⟨h.2 a ha, Prod.ext ha rfl⟩⟩

theorem keeps_lift {r : Except CompileError α} (hc : G c c) :
    Keeps G c (Compile.lift r) fun a _ => r = .ok a := ⟨hc, fun _ h => h⟩

theorem keeps_emit {e : Emit α} (hc : G c c)
    (h : ∀ a b, e.run c.builder = .ok (a, b) →
      G c { c with builder := b } ∧ P a { c with builder := b }) :
    Keeps G c (Compile.emit e) P := by
  unfold Compile.emit
  refine keeps_get ?_
  cases hr : e.run c.builder with
  | error err => exact keeps_throw hc err
  | ok p =>
    obtain ⟨hg, hP⟩ := h p.1 p.2 hr
    refine ⟨hg, ?_⟩
    rintro _ ⟨rfl⟩
    exact hP

/-- Compiling terms in `T` keeps `I` and relates the compilations by `G`, and the results are related to the
terms by `D`: what there is to show for one step of the compiler. -/
structure Invariant (T : Term → Prop) (I : Compilation → Prop) (G : Compilation → Compilation → Prop)
    (D : Term → Flagged → Compilation → Prop) : Prop where
  refl : ∀ {c}, I c → G c c
  trans : ∀ {c c' c''}, G c c' → G c' c'' → G c c''
  after : ∀ {c c'}, I c → G c c' → I c'
  mono : ∀ {t f c c'}, D t f c → G c c' → D t f c'
  operands : ∀ {op type ts}, T (.call op type ts) → ∀ t ∈ ts, T t
  definition : ∀ {c i type t}, I c → T (.shared i type) → c.definitions[i]? = some t → T t
  literal : ∀ {c} v type, I c → D (.literal v type) (v.literal type) c
  input : ∀ {c i f} type, I c → c.inputs[i]? = some f → D (.input i type) f c
  call : ∀ {c op type ts l args f b}, I c → T (.call op type ts) → op.lowering = .ok l →
    List.Forall₂ (fun t f => D t f c) ts args →
    (l.emit (c.site op type ts) args).run c.builder = .ok (f, b) →
    G c { c with builder := b } ∧ D (.call op type ts) f { c with builder := b }
  done : ∀ {c i f} type, I c → c.done.lookup i = some f → D (.shared i type) f c
  share : ∀ {c c' depth i t f} type, I c → T (.shared i type) → c.done.lookup i = none →
    c.definitions[i]? = some t → (t.compileWith (Term.compileShared depth)).run.run c = (.ok f, c') → G c c' → D t f c' →
    G c' { c' with done := (i, f) :: c'.done } ∧ D (.shared i type) f { c' with done := (i, f) :: c'.done }

namespace Invariant

open Term

variable {T : Term → Prop} {I : Compilation → Prop} {D : Term → Flagged → Compilation → Prop}
  {shared : Nat → Compile Flagged} {t : Term} (h : Invariant T I G D)
include h

theorem compileAllWith {ts : List Term}
    (hts : ∀ t ∈ ts, ∀ c, I c → Keeps G c (t.compileWith shared) (D t)) (hc : I c) :
    Keeps G c (Term.compileAllWith shared ts) fun fs c' => List.Forall₂ (fun t f => D t f c') ts fs := by
  induction ts generalizing c with
  | nil => exact keeps_pure (h.refl hc) .nil
  | cons t ts ih =>
    rw [Term.compileAllWith]
    refine keeps_bind (hts t (by simp) c hc) h.trans fun f c₁ hg hf => ?_
    have hc₁ := h.after hc hg
    refine keeps_bind (ih (fun s hs => hts s (by simp [hs])) hc₁) h.trans fun fs c₂ hg₂ hfs => ?_
    exact keeps_pure (h.refl (h.after hc₁ hg₂)) (.cons (h.mono hf hg₂) hfs)

theorem compileWith
    (hs : ∀ i type c, I c → T (.shared i type) → Keeps G c (shared i) (D (.shared i type)))
    (hc : I c) (ht : T t) : Keeps G c (t.compileWith shared) (D t) := by
  induction t using Term.inductionOn generalizing c with
  | literal v type =>
    rw [Term.compileWith]
    exact keeps_pure (h.refl hc) (h.literal v type hc)
  | input i type =>
    rw [Term.compileWith]
    refine keeps_get ?_
    split
    · rename_i f hf
      exact keeps_pure (h.refl hc) (h.input type hc hf)
    · exact keeps_throw (h.refl hc) _
  | shared i type =>
    rw [Term.compileWith]
    exact hs i type c hc ht
  | call op type ts ih =>
    rw [Term.compileWith]
    refine keeps_bind (h.compileAllWith (fun t hmem c' hc' => ih t hmem hc' (h.operands ht t hmem)) hc)
      h.trans fun args c₁ hg hargs => ?_
    have hc₁ := h.after hc hg
    refine keeps_bind (keeps_lift (h.refl hc₁)) h.trans fun l c₂ hg₂ hl => ?_
    have hc₂ := h.after hc₁ hg₂
    exact keeps_get (keeps_emit (h.refl hc₂) fun f b hrun =>
      h.call hc₂ ht hl (hargs.imp fun _ _ hf => h.mono hf hg₂) hrun)

theorem compileShared (depth i : Nat) (type : SqlType) (c : Compilation) (hc : I c)
    (ht : T (.shared i type)) : Keeps G c (Term.compileShared depth i) (D (.shared i type)) := by
  induction depth generalizing i type c with
  | zero => exact keeps_throw (h.refl hc) _
  | succ depth ih =>
    rw [Term.compileShared]
    refine keeps_get ?_
    split
    · rename_i f hf
      exact keeps_pure (h.refl hc) (h.done type hc hf)
    · rename_i hnone
      split
      · exact keeps_throw (h.refl hc) _
      · rename_i t hdef
        refine keeps_bind (h.compileWith ih hc (h.definition hc ht hdef)).and_run h.trans fun f c₁ hg hf => ?_
        -- the result of the definition is kept for later references
        obtain ⟨hg', hf'⟩ := h.share type hc ht hnone hdef hf.2 hg hf.1
        refine ⟨hg', ?_⟩
        rintro _ ⟨rfl⟩
        exact hf'

theorem compile (hc : I c) (ht : T t) : Keeps G c t.compile (D t) :=
  keeps_get (h.compileWith (h.compileShared _) hc ht)

end Invariant

end Compile

/-! ### Steps that succeed -/

namespace Compile

variable {α β : Type} {a : α} {c' : Compilation}

theorem run_get_bind (x : Compilation → Compile α) : (get >>= x).run.run c = (x c).run.run c := rfl

theorem run_bind_eq_ok {x : Compile β} {f : β → Compile α} : (x >>= f).run.run c = (.ok a, c') ↔
    ∃ b c₁, x.run.run c = (.ok b, c₁) ∧ (f b).run.run c₁ = (.ok a, c') := by
  rw [exceptT_run_bind]
  rcases hx : x.run.run c with ⟨_ | b, c₁⟩
  · constructor
    · rintro ⟨⟩
    · rintro ⟨_, _, ⟨⟩, _⟩
  · refine ⟨fun h => ⟨b, c₁, rfl, h⟩, ?_⟩
    rintro ⟨_, _, ⟨⟩, h⟩
    exact h

theorem run_lift_eq_ok {r : Except CompileError α} :
    (Compile.lift r).run.run c = (.ok a, c') ↔ r = .ok a ∧ c = c' := Prod.mk_inj

theorem run_emit_eq_ok {e : Emit α} : (Compile.emit e).run.run c = (.ok a, c') ↔
    ∃ b, e.run c.builder = .ok (a, b) ∧ { c with builder := b } = c' := by
  rw [Compile.emit, run_get_bind]
  rcases e.run c.builder with _ | ⟨a', b⟩
  · constructor
    · rintro ⟨⟩
    · rintro ⟨_, ⟨⟩, _⟩
  · constructor
    · rintro ⟨⟩
      exact ⟨b, rfl, rfl⟩
    · rintro ⟨_, ⟨⟩, rfl⟩
      rfl

end Compile

namespace Term

open Compile

variable {shared : Nat → Compile Flagged} {t : Term} {ts : List Term} {op : Operator} {type : SqlType} {f : Flagged}
  {fs : List Flagged} {c' : Compilation}

theorem run_compileWith_input (i : Nat) (type : SqlType) :
    ((Term.input i type).compileWith shared).run.run c =
      match c.inputs[i]? with
      | some f => (.ok f, c)
      | none => (.error (.invalidCall "input" ("no input field " ++ toString i)), c) := by
  rw [compileWith, run_get_bind]
  cases c.inputs[i]? <;> rfl

theorem run_compileAllWith_cons : (compileAllWith shared (t :: ts)).run.run c = (.ok fs, c') ↔
    ∃ f c₁, (t.compileWith shared).run.run c = (.ok f, c₁) ∧
      ∃ gs, (compileAllWith shared ts).run.run c₁ = (.ok gs, c') ∧ f :: gs = fs := by
  rw [compileAllWith, run_bind_eq_ok]
  refine exists₂_congr fun f c₁ => and_congr_right fun _ => run_bind_eq_ok.trans ?_
  constructor
  · rintro ⟨gs, _, hgs, ⟨⟩⟩
    exact ⟨gs, hgs, rfl⟩
  · rintro ⟨gs, hgs, rfl⟩
    exact ⟨gs, c', hgs, rfl⟩

/-- A call is compiled by compiling its operands and emitting its operator. -/
theorem run_compileWith_call : ((Term.call op type ts).compileWith shared).run.run c = (.ok f, c') ↔
    ∃ args c₁, (compileAllWith shared ts).run.run c = (.ok args, c₁) ∧ ∃ l, op.lowering = .ok l ∧
      ∃ b, (l.emit (c₁.site op type ts) args).run c₁.builder = .ok (f, b) ∧ { c₁ with builder := b } = c' := by
  rw [compileWith, run_bind_eq_ok]
  refine exists₂_congr fun args c₁ => and_congr_right fun _ => run_bind_eq_ok.trans ?_
  constructor
  · rintro ⟨l, c₂, hlift, h⟩
    obtain ⟨hl, rfl⟩ := run_lift_eq_ok.1 hlift
    rw [run_get_bind, run_emit_eq_ok] at h
    exact ⟨l, hl, h⟩
  · rintro ⟨l, hl, h⟩
    refine ⟨l, c₁, run_lift_eq_ok.2 ⟨hl, rfl⟩, ?_⟩
    rw [run_get_bind, run_emit_eq_ok]
    exact h

/-- Later references to a definition emit nothing. -/
theorem run_compileShared_of_lookup {i : Nat} (h : c.done.lookup i = some f) (depth : Nat) :
    (compileShared (depth + 1) i).run.run c = (.ok f, c) := by
  rw [compileShared, run_get_bind]
  simp only [h]
  rfl

/-- The first reference to a definition: its code is emitted, and its result is recorded. -/
theorem run_compileShared_of_none {depth i : Nat} (hnone : c.done.lookup i = none) (hdef : c.definitions[i]? = some t) :
    (compileShared (depth + 1) i).run.run c =
      match (t.compileWith (compileShared depth)).run.run c with
      | (.error err, c₁) => (.error err, c₁)
      | (.ok f, c₁) => (.ok f, { c₁ with done := (i, f) :: c₁.done }) := by
  rw [compileShared, run_get_bind]
  simp only [hnone, hdef]
  rw [exceptT_run_bind]
  rcases (t.compileWith (compileShared depth)).run.run c with ⟨r, c₁⟩
  cases r <;> rfl

end Term

/-- Lists that are paired with one list are equal, if what an element is paired with is unique. -/
theorem eq_of_zip_unique {α β : Type} {as : List α} {bs bs' : List β} (hlen : as.length = bs.length)
    (hlen' : as.length = bs'.length) (h : ∀ p ∈ as.zip bs, ∀ b, (p.1, b) ∈ as.zip bs' → b = p.2) : bs' = bs := by
  refine List.ext_getElem (hlen'.symm.trans hlen) fun i hi hi' => h (as[i], bs[i]) ?_ _ ?_
  · rw [← List.getElem_zip (h := by simp; omega)]
    exact List.getElem_mem _
  · rw [← List.getElem_zip (h := by simp; omega)]
    exact List.getElem_mem _

theorem forall_mem_of_forall₂ {α β : Type} {R : α → β → Prop} {P : β → Prop} {as : List α} {bs : List β}
    (h : List.Forall₂ R as bs) (hP : ∀ a b, R a b → P b) : ∀ b ∈ bs, P b := by
  induction h with
  | nil => simp
  | cons hab _ ih => exact List.forall_mem_cons.2 ⟨hP _ _ hab, ih⟩

namespace Term

open Compile

theorem invariant_tidy (defs : List Term) (outer : List String) (hQ : ∀ f, f ∉ volatile → Q f) :
    Invariant (·.EveryOperator defs (·.Names Q))
      (fun c => c.Tidy Q outer ∧ c.definitions = defs) (·.Leads Q outer ·)
      fun _ f c => f.Uses (· ∈ c.builder.names) Q where
  refl hc := hc.1.leads
  trans := .trans
  after hc hl := ⟨hl.tidy, hl.definitions.trans hc.2⟩
  mono hf hl := hf.mono hl.names
  operands ht := (forall_calls_call.1 ht).2
  definition hc ht hdef := forall_calls_shared.1 ht _ (hc.2 ▸ hdef)
  literal _ _ _ := ⟨uses_bool _, uses_literalExpr _ _⟩
  input _ hc hf := hc.1.inputs _ (List.mem_of_getElem? hf)
  call hc ht hl hargs hrun := by
    obtain ⟨code, he, hf⟩ := Lowering.scoped_emit hc.1.root_mem hQ ((forall_calls_call.1 ht).1 _ hl)
      (forall_mem_of_forall₂ hargs fun _ _ hf => hf) _ _ hrun
    exact ⟨hc.1.emits he, hf⟩
  done _ hc hf := hc.1.done _ (Compilation.mem_done_of_lookup hf)
  share _ _ _ _ _ _ hl hf := ⟨⟨⟨hl.tidy.root, hl.tidy.names, hl.tidy.isScoped, hl.tidy.inputs,
    List.forall_mem_cons.2 ⟨hf, hl.tidy.done⟩⟩, fun _ hx => hx, rfl, rfl⟩, hf⟩

end Term

end SqlCode
