import SqlCode.Proofs.CompiledCalls

/-!
# Outcomes of compiled terms

What the code of calls yields composes along a term: a call has the outcome of its operator on the values of its
operands, and the first operand that faults is its fault. So the program of a term has an outcome that is a function of
the row.
-/

namespace SqlCode

open Run SqlCode.Expr

variable {fields : List (String × SqlType)} {routines : List String} {b : Builtin} {type : SqlType} {t : Term}
  {ts : List Term} {values : List (List Value → Value)} {value : List Value → Value} {m : Machine} {c : Compilation}
  {args : List Flagged} {bd : Builder} {ready : Machine → Prop}

/-- The compilation has the inputs of the fields. -/
structure Compilation.Ready (fields : List (String × SqlType)) (c : Compilation) : Prop where
  root : "root" ∈ c.builder.names
  shaped : List.Forall₂ (fun field f => f.Shaped field.2) fields c.inputs
  uses : ∀ f ∈ c.inputs, f.Uses (· ∈ c.builder.names) (· ∉ volatile)

theorem Compilation.Ready.extend {code : Block} (h : c.Ready fields) (hbd : c.builder.Extends bd code) :
    ({ c with builder := bd } : Compilation).Ready fields :=
  ⟨hbd.names _ h.root, h.shaped, fun f hf => (h.uses f hf).mono hbd.names fun _ hg => hg⟩

namespace Term

open Compilation Lowering

section

variable {good : Context → List Value → Prop} {outcome : Context → List Value → Except Fault Value}
  {outcomes : List (Context → List Value → Except Fault Value)}

/-- The term compiles. In a state that is ready, its code yields an outcome from the context and the row. -/
def YieldsIn (fields : List (String × SqlType)) (ready : Machine → Prop) (good : Context → List Value → Prop) (t : Term)
    (outcome : Context → List Value → Except Fault Value) : Prop :=
  ∀ (shared : Nat → Compile Flagged) {c : Compilation}, c.Ready fields →
    ∃ f bd code, (t.compileWith shared).run.run c = (.ok f, { c with builder := bd }) ∧
      c.builder.Extends bd code ∧ f.Shaped t.type ∧ f.Uses (· ∈ bd.names) (· ∉ volatile) ∧
      ∀ {m row}, ready m → List.Forall₂ (fun a v => a.Represents m v) c.inputs row → good m.context row →
        Block.Delivers code c.builder.names m f.Represents (outcome m.context row)

theorem YieldsIn.mono (h : t.YieldsIn fields ready good outcome) {ready' : Machine → Prop}
    {good' : Context → List Value → Prop} (hready : ∀ {m}, ready' m → ready m)
    (hgood : ∀ {c row}, good' c row → good c row) : t.YieldsIn fields ready' good' outcome := by
  intro shared c hc
  obtain ⟨f, bd, code, hrun, hext, hshaped, huses, hcode⟩ := h shared hc
  exact ⟨f, bd, code, hrun, hext, hshaped, huses, fun hm hrow hr => hcode (hready hm) hrow (hgood hr)⟩

/-- Only the outcome from the good rows counts. -/
theorem YieldsIn.congr {outcome' : Context → List Value → Except Fault Value}
    (h : t.YieldsIn fields ready good outcome) (heq : ∀ {c row}, good c row → outcome c row = outcome' c row) :
    t.YieldsIn fields ready good outcome' := by
  intro shared c hc
  obtain ⟨f, bd, code, hrun, hext, hshaped, huses, hcode⟩ := h shared hc
  exact ⟨f, bd, code, hrun, hext, hshaped, huses, fun hm hrow hr => heq hr ▸ hcode hm hrow hr⟩

/-! ### Calls -/

theorem literals_compileAllWith {shared : ℕ → Compile Flagged} {c' : Compilation}
    (h : (compileAllWith shared ts).run.run c = (.ok args, c')) : Literals ts args := by
  induction ts generalizing args c with
  | nil =>
    intro i v type hi
    simp at hi
  | cons t ts ih =>
    obtain ⟨f, c₁, ht, fs, hts, rfl⟩ := run_compileAllWith_cons.1 h
    intro i v type hi
    cases i with
    | zero =>
      rw [List.getElem?_cons_zero, Option.some.injEq] at hi
      subst hi
      cases ht
      rfl
    | succ i => exact ih hts hi

/-- Operands that are compiled one after another, up to the first fault. -/
theorem yieldsIn_compileAllWith (hready : Machine.Lasting ready)
    (h : List.Forall₂ (fun t outcome => t.YieldsIn fields ready good outcome) ts outcomes)
    (shared : Nat → Compile Flagged) (hc : c.Ready fields) :
    ∃ fs bd code, (compileAllWith shared ts).run.run c = (.ok fs, { c with builder := bd }) ∧
      c.builder.Extends bd code ∧ List.Forall₂ (fun t f => f.Shaped t.type) ts fs ∧
      (∀ f ∈ fs, f.Uses (· ∈ bd.names) (· ∉ volatile)) ∧
      ∀ {m row}, ready m → List.Forall₂ (fun a v => a.Represents m v) c.inputs row → good m.context row →
        Block.Delivers code c.builder.names m (fun m' vs => List.Forall₂ (fun f v => f.Represents m' v) fs vs)
          (outcomes.mapM (· m.context row)) := by
  induction h generalizing c with
  | nil => exact ⟨[], c.builder, [], rfl, .refl _, .nil, by simp, fun {m row} _ _ _ => ⟨m, rfl, .refl _ _, .nil⟩⟩
  | @cons t outcome ts outcomes ht _ ih =>
    obtain ⟨f, bd₁, code₁, hrun₁, hext₁, hf, hu₁, hcode₁⟩ := ht shared hc
    obtain ⟨fs, bd₂, code₂, hrun₂, hext₂, hfs, hu₂, hcode₂⟩ := ih (hc.extend hext₁)
    refine ⟨f :: fs, bd₂, code₁ ++ code₂, run_compileAllWith_cons.2 ⟨f, _, hrun₁, fs, hrun₂, rfl⟩,
      hext₁.trans hext₂, .cons hf hfs, List.forall_mem_cons.2 ⟨hu₁.mono hext₂.names fun _ hg => hg, hu₂⟩,
      fun {m row} hm hrow hr => ?_⟩
    rw [List.mapM_cons]
    refine (hcode₁ hm hrow hr).append hext₁.names fun {m₁ v} _ hk₁ hv => ?_
    obtain ⟨hm₁, hcontext⟩ := hready.keeps hm hk₁ hc.root
    have hrest := hcode₂ hm₁ (Flagged.forall₂_keeps hrow hk₁ hc.uses) (hcontext ▸ hr)
    rw [hcontext] at hrest
    -- the code of the later operands does not touch the variables of the first one
    exact hrest.map fun hk₂ hvs => .cons (hv.keeps hk₂ hu₁) hvs

/-- A call has the outcome of its operator on the values of its operands. -/
theorem yieldsIn_call {good' : Context → List Value → Prop} (hready : Machine.Lasting ready)
    (hb : b.YieldsIn ts type ready good' outcome)
    (hts : List.Forall₂ (fun t outcome => t.YieldsIn fields ready good outcome) ts outcomes)
    (hgood : ∀ {c row vs}, good c row → outcomes.mapM (· c row) = .ok vs → good' c vs) :
    (Term.call (.builtin b) type ts).YieldsIn fields ready good fun c row =>
      outcomes.mapM (· c row) >>= outcome c := by
  intro shared c hc
  obtain ⟨args, bd₁, code₁, hrun₁, hext₁, hargs, hu₁, hcode₁⟩ := yieldsIn_compileAllWith hready hts shared hc
  have hcalls := calls_site b type { c with builder := bd₁ } hargs
  have hroot := hext₁.names _ hc.root
  obtain ⟨f, bd₂, code₂, hrun₂, hext₂, hf, hcode₂⟩ := hb.emits hcalls (literals_compileAllWith hrun₁) hroot hu₁
  obtain ⟨-, -, hu₂⟩ := scoped_emit hroot (fun _ hg => hg) hb.steady hu₁ f bd₂ hrun₂
  refine ⟨f, bd₂, code₁ ++ code₂, run_compileWith_call.2 ⟨args, _, hrun₁, _, rfl, bd₂, hrun₂, rfl⟩,
    hext₁.trans hext₂, hf, hu₂,
    fun {m row} hm hrow hr => (hcode₁ hm hrow hr).append hext₁.names fun hvs hk₁ hrep => ?_⟩
  obtain ⟨hm₁, hcontext⟩ := hready.keeps hm hk₁ hc.root
  have hcall := hcode₂ hm₁ hrep (hcontext ▸ hgood hr hvs)
  rwa [hcontext] at hcall

/-! ### Programs -/

theorem ready_ofFields (settings : Settings) (defs : List Term) (fields : List (String × SqlType)) :
    (ofFields settings defs fields).2.Ready fields ∧
      (ofFields settings defs fields).2.builder.statements = [] := by
  have htidy := tidy_ofFields settings defs fields fun _ h => h
  exact ⟨⟨htidy.root_mem, (shaped_ofFields settings defs fields).inputs, htidy.inputs⟩,
    (ofFields_frame settings defs fields).2.2⟩

/-- The program of a term has the outcome of its code, from rows that are good and from states that are ready. -/
theorem YieldsIn.program_run (h : t.YieldsIn fields ready good outcome) (hready : Machine.Lasting ready)
    (settings : Settings) (defs : List Term) :
    ∃ p, t.program settings defs fields = .ok p ∧
      ∀ {row m}, List.Forall₂ (fun field v => v.Fits field.2.rep) fields row → good m.context row → ready m →
        ((p.run row).result m).1 = outcome m.context row := by
  obtain ⟨hinputs, hcode⟩ := ready_ofFields settings defs fields
  obtain ⟨f, bd, code, hrun, hext, -, -, hdelivers⟩ := h _ hinputs
  refine ⟨⟨(ofFields settings defs fields).1, code, f⟩, ?_, fun {row m} hrow hgood hm => ?_⟩
  · have hadd : (ofFields settings defs fields).2.add t =
        (.ok f, { (ofFields settings defs fields).2 with builder := bd }) := by
      rw [Compilation.add, compile, Compile.run_get_bind, hrun]
    rw [program_eq, hadd]
    simp only [hext.statements, hcode, List.nil_append]
  · have hrest := m.bindSlots_rest (ofFields settings defs fields).1 row
    have hcontext : (m.bindSlots (ofFields settings defs fields).1 row).context = m.context := by rw [hrest]
    rw [result_run, ← hcontext]
    rw [← hcontext] at hgood
    -- once the row is bound, the inputs represent it
    exact (hdelivers (hready hm hrest fun hroot => hroot.bindSlots _ _) (forall₂_addInputs [] hrow (by simp) .nil)
      hgood).evaluate

end

/-! ### Terms that give values -/

variable {good : List Value → Prop}

/-- The term compiles, and its code gives a function of the row. -/
def Gives (fields : List (String × SqlType)) (routines : List String) (good : List Value → Prop) (t : Term)
    (value : List Value → Value) : Prop :=
  t.YieldsIn fields (·.Unregistered routines) (fun _ => good) fun _ row => .ok (value row)

theorem gives_input {i : Nat} {name : String} (hi : fields[i]? = some (name, type)) :
    (Term.input i type).Gives fields routines good fun row => row.getD i .null := by
  intro shared c hc
  obtain ⟨f, hf, hshaped⟩ := forall₂_getElem? hc.shaped hi
  refine ⟨f, c.builder, [], ?_, .refl _, hshaped, hc.uses f (List.mem_of_getElem? hf), fun {m row} _ hrow _ => ?_⟩
  · rw [run_compileWith_input, hf]
  · obtain ⟨v, hv, hrep⟩ := forall₂_getElem? hrow hf
    refine ⟨m, rfl, .refl _ _, ?_⟩
    show f.Represents m (row.getD i .null)
    rwa [List.getD_eq_getElem?_getD, hv, Option.getD_some]

theorem gives_literal {v : Value} (hv : v.Fits type.rep) :
    (Term.literal v type).Gives fields routines good fun _ => v := by
  intro shared c _
  refine ⟨v.literal type, c.builder, [], rfl, .refl _, ?_, ⟨uses_bool _, uses_literalExpr _ _⟩,
    fun {m row} _ _ _ => ⟨m, rfl, .refl _ _, ?_⟩⟩
  · rw [Builtin.literal_of_fits hv]
    exact ⟨rfl, rfl, isFlag_bool _⟩
  · rw [Builtin.literal_of_fits hv]
    exact ⟨rfl, rfl, hv⟩

theorem Gives.congr {value' : List Value → Value} (h : t.Gives fields routines good value)
    (heq : ∀ {row}, good row → value row = value' row) : t.Gives fields routines good value' :=
  YieldsIn.congr h fun hrow => congrArg Except.ok (heq hrow)

/-- A call whose operands give values has the outcome of its operator on them. -/
theorem yieldsIn_call_of_gives {rows : Context → List Value → Prop} {good' : Context → List Value → Prop}
    {outcome : Context → List Value → Except Fault Value} (hready : Machine.Lasting ready)
    (hlibrary : ∀ {m}, ready m → m.Unregistered routines) (hb : b.YieldsIn ts type ready good' outcome)
    (hts : List.Forall₂ (fun t value => t.Gives fields routines good value) ts values)
    (hrows : ∀ {c row}, rows c row → good row ∧ good' c (values.map (· row))) :
    (Term.call (.builtin b) type ts).YieldsIn fields ready rows fun c row => outcome c (values.map (· row)) := by
  have hvalues : ∀ (context : Context) row, (values.map fun value (_ : Context) row =>
      (.ok (value row) : Except Fault Value)).mapM (· context row) = .ok (values.map (· row)) := by
    intro context row
    rw [List.mapM_map]
    exact List.mapM_pure
  have houtcomes : List.Forall₂ (fun t outcome => t.YieldsIn fields ready rows outcome) ts
      (values.map fun value _ row => .ok (value row)) :=
    List.forall₂_map_right_iff.2 (hts.imp fun _ _ ht => YieldsIn.mono ht hlibrary fun hrow => (hrows hrow).1)
  refine (yieldsIn_call hready hb houtcomes fun {c row vs} hrow hvs => ?_).congr fun {c row} _ => ?_
  · cases (hvalues c row).symm.trans hvs
    exact (hrows hrow).2
  · rw [hvalues]
    rfl

theorem gives_call {good' : List Value → Prop} (hb : b.Gives (ts.map Term.type) type routines good' value)
    (hts : List.Forall₂ (fun t value => t.Gives fields routines good value) ts values)
    (hgood : ∀ row, good row → good' (values.map (· row))) :
    (Term.call (.builtin b) type ts).Gives fields routines good fun row => value (values.map (· row)) :=
  yieldsIn_call_of_gives (Machine.lasting_unregistered routines) id (hb rfl) hts fun hrow => ⟨hrow, hgood _ hrow⟩

/-- The program of a term gives what its code gives from the good rows, from every state where calls of the routines
are calls of the library. -/
theorem Gives.program_run_of_good
    (h : t.Gives fields routines good value) (settings : Settings) (defs : List Term) :
    ∃ p, t.program settings defs fields = .ok p ∧
      ∀ {row m}, IsRow fields row → good row → m.Unregistered routines →
        ((p.run row).result m).1 = .ok (value row) := by
  obtain ⟨p, hp, hrun⟩ := YieldsIn.program_run h (Machine.lasting_unregistered routines) settings defs
  exact ⟨p, hp, fun hrow => hrun hrow.fits⟩

theorem Gives.program_run
    (h : t.Gives fields routines (IsRow fields) value) (settings : Settings) (defs : List Term) :
    ∃ p, t.program settings defs fields = .ok p ∧
      ∀ {row m}, IsRow fields row → m.Unregistered routines →
        ((p.run row).result m).1 = .ok (value row) := by
  obtain ⟨p, hp, hrun⟩ := h.program_run_of_good settings defs
  exact ⟨p, hp, fun hrow hm => hrun hrow hrow hm⟩

end Term

/-- The program of a call yields the outcome of its operator on the values of its operands, from rows of values that
fit and give good values, and from states that are ready. -/
theorem Builtin.YieldsIn.program_run {good : Context → List Value → Prop}
    {outcome : Context → List Value → Except Fault Value} {rows : List Value → Prop}
    (hb : b.YieldsIn ts type ready good outcome)
    (hready : Machine.Lasting ready) (hlibrary : ∀ {m}, ready m → m.Unregistered routines)
    (hrows : ∀ {row}, rows row → List.Forall₂ (fun field v => v.Fits field.2.rep) fields row)
    (hts : List.Forall₂ (fun t value => t.Gives fields routines rows value) ts values)
    (settings : Settings) (defs : List Term) :
    ∃ p, (Term.call (.builtin b) type ts).program settings defs fields = .ok p ∧
      ∀ {row m}, rows row → good m.context (values.map (· row)) → ready m →
        ((p.run row).result m).1 = outcome m.context (values.map (· row)) := by
  have hcall : (Term.call (.builtin b) type ts).YieldsIn fields ready
      (fun c row => rows row ∧ good c (values.map (· row))) fun c row => outcome c (values.map (· row)) :=
    Term.yieldsIn_call_of_gives hready hlibrary hb hts id
  obtain ⟨p, hp, hrun⟩ := hcall.program_run hready settings defs
  exact ⟨p, hp, fun hrow hgood hm => hrun (hrows hrow) ⟨hrow, hgood⟩ hm⟩

/-- The program of a call yields the outcome of its operator on the values of its operands, from rows that give good
values. -/
theorem Builtin.Yields.program_run {good : List Value → Prop} {outcome : List Value → Except Fault Value}
    (hb : b.Yields ts type routines good outcome)
    (hts : List.Forall₂ (fun t value => t.Gives fields routines (IsRow fields) value) ts values)
    (settings : Settings) (defs : List Term) :
    ∃ p, (Term.call (.builtin b) type ts).program settings defs fields = .ok p ∧
      ∀ {row m}, IsRow fields row → good (values.map (· row)) → m.Unregistered routines →
        ((p.run row).result m).1 = outcome (values.map (· row)) :=
  YieldsIn.program_run hb (Machine.lasting_unregistered routines) id IsRow.fits hts settings defs

end SqlCode
