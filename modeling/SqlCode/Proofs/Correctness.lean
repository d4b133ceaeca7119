import SqlCode.Proofs.Operators
import SqlCode.Proofs.Session

/-!
# The compiler is correct on truth values and integers

A well-typed term of the fragment always compiles, and running its program on a row gives what the term
denotes. The proof is an induction on the typing derivation; a reference is followed into its definition,
with one level of depth less. Three things are carried along:

* `Compilation.Shaped`: inputs and results of definitions are shaped as their types say;
* `Compilation.Holds`: in the state, inputs represent the values of the row, and results of definitions
  represent what the definitions denote;
* the compilation is tidy, so that code that is appended later does not touch what was represented.
-/

namespace SqlCode

open Run SqlCode.Expr Code

variable {row : List Value} {c c' : Compilation} {t : Term} {outer : List String} {operands : List Term} {depth : Nat}
  {m : Machine}

theorem forall₂_getElem? {α β : Type} {R : α → β → Prop} {as : List α} {bs : List β}
    (h : List.Forall₂ R as bs) {i : Nat} {a : α} (ha : as[i]? = some a) :
    ∃ b, bs[i]? = some b ∧ R a b := by
  induction h generalizing i with
  | nil => simp at ha
  | @cons _ b _ _ hab _ ih =>
    cases i with
    | zero =>
      cases ha
      exact ⟨b, rfl, hab⟩
    | succ i => exact ih (by simpa using ha)

namespace Compilation

/-- The inputs and the results of definitions are shaped as their types say. -/
structure Shaped (fields : List (String × SqlType)) (c : Compilation) : Prop where
  inputs : List.Forall₂ (fun field f => f.Shaped field.2) fields c.inputs
  done : ∀ p ∈ c.done, ∃ t, c.definitions[p.1]? = some t ∧ p.2.Shaped t.type

/-- In the state, the inputs represent the row, and the results of definitions represent what these denote. -/
structure Holds (row : List Value) (c : Compilation) (m : Machine) : Prop where
  unshadowed : m.Unshadowed
  inputs : List.Forall₂ (fun f v => f.Represents m v) c.inputs row
  done : ∀ p ∈ c.done, ∃ t v, c.definitions[p.1]? = some t ∧
    t.Denotes c.definitions row v ∧ p.2.Represents m v

variable {m' : Machine}

theorem Holds.keeps (h : c.Holds row m) (hc : c.Tidy (· ∉ volatile) outer)
    (hm : m.Keeps c.builder.names m') : c.Holds row m' := by
  refine ⟨h.unshadowed.keeps hm, Flagged.forall₂_keeps h.inputs hm hc.inputs, fun p hp => ?_⟩
  obtain ⟨t, v, ht, hv, hp'⟩ := h.done p hp
  exact ⟨t, v, ht, hv, hp'.keeps hm (hc.done p hp)⟩

end Compilation

namespace Compile

open Compilation

variable {α : Type}

/-- The step succeeds with a result in `S` and emits code. From a state where the compilation holds, for a
row in `good`, the code runs without fault to a state where the new compilation holds, and there the
result is related to the row by `R`. -/
def Delivers (fields : List (String × SqlType)) (c : Compilation) (x : Compile α) (S : α → Prop)
    (good : List Value → Prop) (R : α → List Value → Machine → Prop) : Prop :=
  ∃ a c' code, x.run.run c = (.ok a, c') ∧ c.builder.Extends c'.builder code ∧ c'.Shaped fields ∧
    S a ∧ ∀ row m, good row → c.Holds row m →
      ∃ m', (Stmt.execBlock code).result m = (.ok (), m') ∧ m.Keeps c.builder.names m' ∧
        c'.Holds row m' ∧ R a row m'

theorem delivers_pure {fields : List (String × SqlType)} {S : α → Prop}
    {good : List Value → Prop} {R : α → List Value → Machine → Prop} {x : Compile α} {a : α}
    (hx : x.run.run c = (.ok a, c)) (hc : c.Shaped fields) (hS : S a)
    (hR : ∀ row m, good row → c.Holds row m → R a row m) : Delivers fields c x S good R :=
  ⟨a, c, [], hx, .refl _, hc, hS, fun row m hgood hm =>
    ⟨m, rfl, .refl _ _, hm, hR row m hgood hm⟩⟩

end Compile

namespace Term

open Compilation Compile Builtin

variable {defs : List Term} {fields : List (String × SqlType)}

/-- The operators of a well-typed term call routines that do not read the state. -/
theorem WellTyped.everyOperator (ht : t.WellTyped defs fields) :
    t.EveryOperator defs (·.Names (· ∉ volatile)) := by
  induction ht with
  | literal | input => simp [EveryOperator]
  | shared hdef _ ih =>
    refine forall_calls_shared.2 fun t' ht' => ?_
    obtain rfl := Option.some.inj (hdef.symm.trans ht')
    exact ih
  | call _ hresult _ ih =>
    refine forall_calls_call.2 ⟨?_, ih⟩
    rintro l ⟨rfl⟩
    exact (takes_of_result? hresult).routines

/-- Compiling a well-typed term leads to a tidy compilation, and the result uses its names. -/
theorem WellTyped.leads (ht : t.WellTyped defs fields)
    (hc : c.Tidy (· ∉ volatile) outer) (hd : c.definitions = defs) {f : Flagged}
    (hrun : (t.compileWith (compileShared depth)).run.run c = (.ok f, c')) :
    c.Leads (· ∉ volatile) outer c' ∧ f.Uses (· ∈ c'.builder.names) (· ∉ volatile) := by
  have hinv := invariant_tidy defs outer fun _ hf => hf
  obtain ⟨hl, huses⟩ := hinv.compileWith (hinv.compileShared depth) ⟨hc, hd⟩ ht.everyOperator
  rw [hrun] at hl huses
  exact ⟨hl, huses f rfl⟩

theorem leads_compileAllWith {ts : List Term} (hts : ∀ t ∈ ts, t.WellTyped defs fields)
    (hc : c.Tidy (· ∉ volatile) outer) (hd : c.definitions = defs)
    {fs : List Flagged}
    (hrun : (compileAllWith (compileShared depth) ts).run.run c = (.ok fs, c')) :
    c.Leads (· ∉ volatile) outer c' ∧ ∀ f ∈ fs, f.Uses (· ∈ c'.builder.names) (· ∉ volatile) := by
  have hinv := invariant_tidy defs outer fun _ hf => hf
  obtain ⟨hl, huses⟩ := hinv.compileAllWith (fun t ht _ hc' =>
    hinv.compileWith (hinv.compileShared depth) hc' (hts t ht).everyOperator) ⟨hc, hd⟩
  rw [hrun] at hl huses
  exact ⟨hl, forall_mem_of_forall₂ (huses fs rfl) fun _ _ hf => hf⟩

/-- Compiling the term is correct: the result represents what the term denotes. -/
def Correct (defs : List Term) (fields : List (String × SqlType)) (c : Compilation)
    (x : Compile Flagged) (t : Term) : Prop :=
  Delivers fields c x (·.Shaped t.type) (t.KeepsNotNull defs)
    fun f row m => ∃ v, t.Denotes defs row v ∧ f.Represents m v

theorem delivers_compileAllWith {ts : List Term}
    (hts : ∀ t ∈ ts, t.WellTyped defs fields)
    (h : ∀ t ∈ ts, ∀ c : Compilation, c.Tidy (· ∉ volatile) outer → c.definitions = defs →
      c.Shaped fields → t.Correct defs fields c (t.compileWith (compileShared depth)))
    (hc : c.Tidy (· ∉ volatile) outer) (hd : c.definitions = defs) (hs : c.Shaped fields) :
    Delivers fields c (compileAllWith (compileShared depth) ts)
      (fun fs => List.Forall₂ (fun t f => f.Shaped t.type) ts fs)
      (fun row => ∀ t ∈ ts, t.KeepsNotNull defs row)
      fun fs row m => ∃ vs, List.Forall₂ (fun t v => t.Denotes defs row v) ts vs ∧
        List.Forall₂ (fun f v => f.Represents m v) fs vs := by
  induction ts generalizing c with
  | nil => exact delivers_pure rfl hs .nil fun row m _ _ => ⟨[], .nil, .nil⟩
  | cons t ts ih =>
    obtain ⟨f, c₁, code₁, hrun₁, hext₁, hs₁, hf, hsem₁⟩ := h t (by simp) c hc hd hs
    obtain ⟨hl₁, hu₁⟩ := (hts t (by simp)).leads hc hd hrun₁
    obtain ⟨fs, c₂, code₂, hrun₂, hext₂, hs₂, hfs, hsem₂⟩ :=
      ih (fun t' ht' => hts t' (by simp [ht'])) (fun t' ht' => h t' (by simp [ht'])) hl₁.tidy
        (hl₁.definitions.trans hd) hs₁
    refine ⟨f :: fs, c₂, code₁ ++ code₂, run_compileAllWith_cons.2 ⟨f, c₁, hrun₁, fs, hrun₂, rfl⟩,
      hext₁.trans hext₂, hs₂, .cons hf hfs, fun row m hgood hm => ?_⟩
    obtain ⟨m₁, hm₁, hk₁, hh₁, v, hv, hr₁⟩ := hsem₁ row m (hgood t (by simp)) hm
    obtain ⟨m₂, hm₂, hk₂, hh₂, vs, hvs, hr₂⟩ :=
      hsem₂ row m₁ (fun t' ht' => hgood t' (by simp [ht'])) hh₁
    -- the code of the later operands does not touch the variables of the first one
    exact ⟨m₂, Stmt.result_execBlock_append_of_ok hm₁ hm₂, hk₁.trans (hk₂.mono hext₁.names), hh₂,
      v :: vs, .cons hv hvs, .cons (hr₁.keeps hk₂ hu₁) hr₂⟩

theorem calls_site (b : Builtin) (type : SqlType) {args : List Flagged} (c : Compilation)
    (hargs : List.Forall₂ (fun t f => f.Shaped t.type) operands args) :
    (c.site (.builtin b) type operands).Calls b (operands.map Term.type) type args :=
  ⟨rfl, rfl, by simp [Compilation.site, Function.comp_def], List.forall₂_map_left_iff.2 hargs⟩

theorem given_site {op : Operator} {type : SqlType} {args : List Flagged}
    {vs : List Value} (hd : c.definitions = defs) (hm : m.Unshadowed)
    (hvs : List.Forall₂ (fun t v => t.Denotes defs row v) operands vs)
    (hargs : List.Forall₂ (fun f v => f.Represents m v) args vs) :
    (c.site op type operands).Given m args vs := by
  refine ⟨hm, hargs, List.forall₂_map_left_iff.2 (hvs.imp fun t v hv u hu => ?_)⟩
  rw [hd] at hu
  exact hv.literal? hu

theorem correct_call {b : Builtin} {sorts : List (Kind × Bool)}
    {k : Kind} {nullable : Bool}
    (htypes : operands.map Term.type = sorts.map fun s => s.1.type s.2)
    (htakes : b.Takes (sorts.map (·.1)) k) (hts : ∀ t ∈ operands, t.WellTyped defs fields)
    (h : ∀ t ∈ operands, ∀ c : Compilation, c.Tidy (· ∉ volatile) outer → c.definitions = defs →
      c.Shaped fields → t.Correct defs fields c (t.compileWith (compileShared depth)))
    (hc : c.Tidy (· ∉ volatile) outer) (hd : c.definitions = defs) (hs : c.Shaped fields) :
    (Term.call (.builtin b) (k.type nullable) operands).Correct defs fields c
      ((Term.call (.builtin b) (k.type nullable) operands).compileWith (compileShared depth)) := by
  obtain ⟨args, c₁, code₁, hrun₁, hext₁, hs₁, hargs, hsem₁⟩ :=
    delivers_compileAllWith hts h hc hd hs
  obtain ⟨hl₁, hu₁⟩ := leads_compileAllWith hts hc hd hrun₁
  have hd₁ : c₁.definitions = defs := hl₁.definitions.trans hd
  have htyped : (c₁.site (.builtin b) (k.type nullable) operands).Typed b sorts k nullable args := by
    rw [CallSite.Typed, ← htypes]
    exact calls_site _ _ c₁ hargs
  obtain ⟨f, bd, code₂, hrun₂, hext₂, hf, hsem₂⟩ := htakes.compiles htyped hl₁.tidy.root_mem hu₁
  refine ⟨f, { c₁ with builder := bd }, code₁ ++ code₂,
    run_compileWith_call.2 ⟨args, c₁, hrun₁, b.lowering, rfl, bd, hrun₂, rfl⟩, hext₁.trans hext₂,
    ⟨hs₁.inputs, hs₁.done⟩, hf, fun row m hgood hm => ?_⟩
  obtain ⟨m₁, hm₁, hk₁, hh₁, vs, hvs, hr₁⟩ := hsem₁ row m (forall_occurs_call.1 hgood).2 hm
  have hgiven : (c₁.site (.builtin b) (k.type nullable) operands).Given m₁ args vs :=
    given_site hd₁ hh₁.unshadowed hvs hr₁
  have hdenotes : (Term.call (.builtin b) (k.type nullable) operands).Denotes defs row
      (b.meaning vs) := by
    obtain ⟨hlen, hzip⟩ := List.forall₂_iff_zip.1 hvs
    exact .call hlen fun p hp => hzip hp
  -- only here it matters that a call declared NOT NULL does not denote null
  have hnull : nullable = false → b.meaning vs ≠ .null := fun hn h =>
    (forall_occurs_call.1 hgood).1 hn (h ▸ hdenotes)
  have hfits : (b.meaning vs).Fits (k.type nullable).rep :=
    Value.fits_type (htakes.fits (hgiven.fits htyped)) hnull
  obtain ⟨m₂, hm₂, hk₂, hr₂⟩ := hsem₂ m₁ vs hgiven hfits
  have hh₂ := hh₁.keeps hl₁.tidy hk₂
  exact ⟨m₂, Stmt.result_execBlock_append_of_ok hm₁ hm₂, hk₁.trans (hk₂.mono hext₁.names),
    ⟨hh₂.unshadowed, hh₂.inputs, hh₂.done⟩, _, hdenotes, hr₂⟩

/-- A reference to a definition that is compiled correctly with one level of depth less. -/
theorem correct_shared {i : Nat} (ht : t.WellTyped defs fields)
    (hdef : defs[i]? = some t)
    (h : t.Correct defs fields c (t.compileWith (compileShared depth)))
    (hc : c.Tidy (· ∉ volatile) outer) (hd : c.definitions = defs) (hs : c.Shaped fields) :
    (Term.shared i t.type).Correct defs fields c (compileShared (depth + 1) i) := by
  cases hlookup : c.done.lookup i with
  | some f =>
    have hmem : (i, f) ∈ c.done := mem_done_of_lookup hlookup
    refine delivers_pure (run_compileShared_of_lookup hlookup depth) hs ?_ fun row m _ hm => ?_
    · -- the type of the reference is that of the definition that was compiled
      obtain ⟨t', ht', hf⟩ := hs.done _ hmem
      obtain rfl := Option.some.inj (hdef.symm.trans (hd ▸ ht'))
      exact hf
    · obtain ⟨t', v, ht', hv, hf⟩ := hm.done _ hmem
      rw [hd] at ht' hv
      exact ⟨v, .shared ht' hv, hf⟩
  | none =>
    obtain ⟨f, c₁, code, hrun, hext, hs₁, hf, hsem⟩ := h
    obtain ⟨hl, hu⟩ := ht.leads hc hd hrun
    have hdef₁ : c₁.definitions[i]? = some t := by rw [hl.definitions, hd, hdef]
    refine ⟨f, { c₁ with done := (i, f) :: c₁.done }, code, ?_, ⟨hext.names, hext.statements⟩,
      ⟨hs₁.inputs, List.forall_mem_cons.2 ⟨⟨t, hdef₁, hf⟩, hs₁.done⟩⟩, hf, fun row m hgood hm => ?_⟩
    · rw [run_compileShared_of_none hlookup (hd ▸ hdef), hrun]
    · obtain ⟨m', hm', hk, hh, v, hv, hr⟩ := hsem row m ((forall_occurs_shared.1 hgood).2 t hdef) hm
      have hv' : t.Denotes c₁.definitions row v := by rwa [hl.definitions, hd]
      exact ⟨m', hm', hk, ⟨hh.unshadowed, hh.inputs,
        List.forall_mem_cons.2 ⟨⟨t, v, hdef₁, hv', hr⟩, hh.done⟩⟩, v, .shared hdef hv, hr⟩

/-- A well-typed term compiles correctly, if the depth exceeds the heights of the definitions it mentions. -/
theorem WellTyped.correct (ht : t.WellTyped defs fields)
    (hdepth : ∀ i, t.Mentions i → height defs i < depth) (hc : c.Tidy (· ∉ volatile) outer)
    (hd : c.definitions = defs) (hs : c.Shaped fields) :
    t.Correct defs fields c (t.compileWith (compileShared depth)) := by
  induction ht generalizing depth c with
  | @literal v k nullable hv =>
    refine delivers_pure rfl hs ?_ fun row m _ _ => ⟨v, .literal, ?_⟩
    · rw [literal_of_fits hv]
      exact ⟨rfl, rfl, isFlag_bool _⟩
    · rw [literal_of_fits hv]
      exact ⟨rfl, rfl, hv⟩
  | @input i name k nullable hi =>
    obtain ⟨f, hf, hshaped⟩ := forall₂_getElem? hs.inputs hi
    have hrun : ((Term.input i (k.type nullable)).compileWith (compileShared depth)).run.run c =
        (.ok f, c) := by
      rw [run_compileWith_input, hf]
    refine delivers_pure hrun hs hshaped fun row m _ hm => ?_
    obtain ⟨v, hv, hr⟩ := forall₂_getElem? hm.inputs hf
    exact ⟨v, .input hv, hr⟩
  | @shared i t hdef ht ih =>
    have hi : height defs i < depth := hdepth i .shared
    obtain ⟨depth, rfl⟩ : ∃ d, depth = d + 1 := ⟨depth - 1, by omega⟩
    refine correct_shared ht hdef (ih (fun j hj => ?_) hc hd hs) hc hd hs
    -- what the definition mentions has a smaller height than the definition
    obtain ⟨hlt, hcycle⟩ := ht.acyclic hj
    have := height_lt ⟨t, hdef, hj⟩ hlt hcycle
    omega
  | call htypes hresult hts ih =>
    exact correct_call htypes (takes_of_result? hresult) hts
      (fun t ht c' hc' hd' hs' => ih t ht (fun i hi => hdepth i (.operand ht hi)) hc' hd' hs') hc hd hs

end Term

/-! ### Input fields -/

namespace Compilation

theorem addInputs_cons (c : Compilation) (field : String × SqlType)
    (rest : List (String × SqlType)) : c.addInputs (field :: rest) =
      ((c.addInput field.1 field.2).1 :: ((c.addInput field.1 field.2).2.addInputs rest).1,
        ((c.addInput field.1 field.2).2.addInputs rest).2) := rfl

theorem addInputs_frame (c : Compilation) (fields : List (String × SqlType)) :
    (c.addInputs fields).2.definitions = c.definitions ∧ (c.addInputs fields).2.done = c.done ∧
      (c.addInputs fields).2.builder.statements = c.builder.statements := by
  induction fields generalizing c with
  | nil => exact ⟨rfl, rfl, rfl⟩
  | cons field rest ih => exact ih (c.addInput field.1 field.2).2

theorem shaped_addInputs (before fields : List (String × SqlType))
    (h : List.Forall₂ (fun field f => f.Shaped field.2) before c.inputs) :
    List.Forall₂ (fun field f => f.Shaped field.2) (before ++ fields)
      (c.addInputs fields).2.inputs := by
  induction fields generalizing c before with
  | nil =>
    rw [List.append_nil]
    exact h
  | cons field rest ih =>
    rw [addInputs_cons, List.append_cons before field rest]
    refine ih _ ?_
    exact List.rel_append h (.cons ⟨rfl, rfl, isFlag_mkIsNull _⟩ .nil)

theorem serveAll_fields (s : Session) (fields : List (String × SqlType)) :
    (s.serveAll (fields.map fun f => .field f.1 f.2)).compilation =
        (s.compilation.addInputs fields).2 ∧
      (s.serveAll (fields.map fun f => .field f.1 f.2)).slots =
        s.slots ++ (s.compilation.addInputs fields).1 := by
  induction fields generalizing s with
  | nil => exact ⟨rfl, (List.append_nil _).symm⟩
  | cons field rest ih =>
    obtain ⟨hc, hslots⟩ := ih (s.serve (.field field.1 field.2))
    refine ⟨hc, hslots.trans ?_⟩
    rw [addInputs_cons, List.append_cons]
    rfl

/-- The slots of the fields, bound to a row, represent the row. -/
theorem forall₂_addInputs {fields : List (String × SqlType)} (before : List Value)
    (hrow : List.Forall₂ (fun field v => v.Fits field.2.rep) fields row)
    (huses : ∀ f ∈ c.inputs, f.Uses (· ∈ c.builder.names) (· ∉ volatile))
    (h : List.Forall₂ (fun f v => f.Represents m v) c.inputs before) :
    List.Forall₂ (fun f v => f.Represents (m.bindSlots (c.addInputs fields).1 row) v)
      (c.addInputs fields).2.inputs (before ++ row) := by
  induction hrow generalizing c m before with
  | nil =>
    rw [List.append_nil]
    exact h
  | @cons field v rest row hv _ ih =>
    have hfresh := c.builder.freshName_notMem field.1
    rw [addInputs_cons, List.append_cons before v row]
    refine ih _ (uses_addInput huses field.1 field.2) ?_
    exact List.rel_append (Flagged.forall₂_keeps h (.bind hfresh m v) huses)
      (.cons (Flagged.represents_slot (s := ⟨_, field.2.rep⟩) m hv) .nil)

/-- A compilation that has only input fields. -/
def ofFields (settings : Settings) (defs : List Term) (fields : List (String × SqlType)) :
    List Slot × Compilation := ({ settings, definitions := defs } : Compilation).addInputs fields

section OfFields

variable (settings : Settings) (defs : List Term) (fields : List (String × SqlType))

theorem ofFields_frame : (ofFields settings defs fields).2.definitions = defs ∧
    (ofFields settings defs fields).2.done = [] ∧
    (ofFields settings defs fields).2.builder.statements = [] := addInputs_frame _ fields

/-- The input fields alone emit no code, and their names are those around the code. -/
theorem tidy_ofFields {Q : String → Prop} (hQ : ∀ f, f ∉ volatile → Q f) :
    (ofFields settings defs fields).2.Tidy Q
      (ofFields settings defs fields).2.builder.names := by
  have hsound : ((Session.start settings defs).serveAll
      (fields.map fun f => .field f.1 f.2)).Sound Q := by
    refine (Session.sound_start _ settings defs).serveAll hQ fun r hr => ?_
    obtain ⟨field, -, rfl⟩ := List.mem_map.1 hr
    trivial
  have htidy := hsound.tidy
  rw [(serveAll_fields _ fields).1] at htidy
  have hcode := (ofFields_frame settings defs fields).2.2
  refine ⟨htidy.root_mem, ?_, ?_, htidy.inputs, htidy.done⟩
  · rw [hcode]
    simp [Builder.nameSet]
  · rw [hcode]
    exact .nil

theorem shaped_ofFields : (ofFields settings defs fields).2.Shaped fields := by
  refine ⟨shaped_addInputs [] fields .nil, fun p hp => ?_⟩
  rw [(ofFields_frame settings defs fields).2.1] at hp
  exact absurd hp List.not_mem_nil

variable {fields} in
/-- Binding the slots to a row makes the compilation hold. -/
theorem holds_ofFields
    (hrow : List.Forall₂ (fun field v => v.Fits field.2.rep) fields row) (hm : m.Unshadowed) :
    (ofFields settings defs fields).2.Holds row
      (m.bindSlots (ofFields settings defs fields).1 row) := by
  refine ⟨?_, forall₂_addInputs [] hrow (by simp) .nil, fun p hp => ?_⟩
  · intro f hf
    rw [Machine.bindSlots_rest]
    exact hm f hf
  · rw [(ofFields_frame settings defs fields).2.1] at hp
    exact absurd hp List.not_mem_nil

end OfFields

end Compilation

/-! ### Programs -/

namespace Term

open Compilation

theorem program_eq (t : Term) (settings : Settings) (defs : List Term)
    (fields : List (String × SqlType)) : t.program settings defs fields =
      match (ofFields settings defs fields).2.add t with
      | (.ok f, c) => .ok ⟨(ofFields settings defs fields).1, c.builder.statements, f⟩
      | (.error err, _) => .error err := rfl

theorem result_run (p : Program) (row : List Value) (m : Machine) :
    (p.run row).result m = (Block.evaluate p.block p.result).result (m.bindSlots p.inputs row) := by
  show (modify _ >>= fun _ => Block.evaluate p.block p.result : Run Value).result m = _
  rw [result_bind, result_modify, andThen_ok]

/-- A well-typed term over truth values and integers compiles, whatever the settings. Its program, run on
values of the fields from any state whose routines are those of the library, gives the value that the term
denotes, if no part that is declared NOT NULL denotes null. -/
theorem program_run_denotes (settings : Settings) {defs : List Term}
    {fields : List (String × SqlType)} {t : Term} (ht : t.WellTyped defs fields) :
    ∃ p, t.program settings defs fields = .ok p ∧
      ∀ (row : List Value) (m : Machine),
        List.Forall₂ (fun field v => v.Fits field.2.rep) fields row → m.Unshadowed →
        t.KeepsNotNull defs row →
        ∃ v, (∀ w, t.Denotes defs row w ↔ w = v) ∧ ((p.run row).result m).1 = .ok v := by
  have htidy := tidy_ofFields settings defs fields fun _ h => h
  obtain ⟨hd, -, hcode⟩ := ofFields_frame settings defs fields
  have hdepth : ∀ i, t.Mentions i → height defs i < defs.length + 1 :=
    fun i _ => Nat.lt_succ_of_le (height_le defs i)
  obtain ⟨f, c, code, hrun, hext, -, -, hsem⟩ :=
    ht.correct hdepth htidy hd (shaped_ofFields settings defs fields)
  refine ⟨⟨(ofFields settings defs fields).1, code, f⟩, ?_, fun row m hrow hm hnull => ?_⟩
  · have hadd : (ofFields settings defs fields).2.add t = (.ok f, c) := by
      rw [← hrun]
      nth_rewrite 2 [← hd]
      rfl
    rw [program_eq, hadd]
    simp only [hext.statements, hcode, List.nil_append]
  · obtain ⟨m', hm', -, -, v, hv, hr⟩ := hsem row _ hnull (holds_ofFields settings defs hrow hm)
    refine ⟨v, fun w => ⟨fun hw => hv.unique hw, fun hw => hw ▸ hv⟩, ?_⟩
    rw [result_run]
    show ((Stmt.execBlock code >>= fun _ => f.eval).result _).1 = _
    rw [result_bind, hm', andThen_ok, hr.eval]

/-- A null factor in a shared comparison, which is used as it is and under IS NULL: the value of the
conjunction is null, and no operand is unboxed. -/
theorem program_run_denotes_null_factor :
    let x : Term := .input 0 (Kind.integer.type true)
    let square : Term := .call (.builtin .multiply) (Kind.integer.type true) [x, x]
    let ten : Term := .literal (.int 10) (Kind.integer.type false)
    let small : Term := .call (.builtin .lessThan) (Kind.truth.type true) [square, ten]
    let shared : Term := .shared 0 (Kind.truth.type true)
    let isNull : Term := .call (.builtin .isNull) (Kind.truth.type false) [shared]
    let t : Term := .call (.builtin .and) (Kind.truth.type true) [shared, isNull]
    let fields := [("x", Kind.integer.type true)]
    t.WellTyped [small] fields ∧ t.KeepsNotNull [small] [.null] ∧
      ∃ p, t.program {} [small] fields = .ok p ∧ ((p.run [.null]).result {}).1 = .ok .null := by
  intro x square ten small shared isNull t fields
  have hx : x.WellTyped [small] fields := .input rfl
  have hsquare : square.WellTyped [small] fields :=
    @WellTyped.call _ _ .multiply _ [(.integer, true), (.integer, true)] _ _ rfl rfl (by simp [hx])
  have hsmall : small.WellTyped [small] fields := by
    refine @WellTyped.call _ _ .lessThan _ [(.integer, true), (.integer, false)] _ _ rfl rfl ?_
    exact List.forall_mem_cons.2 ⟨hsquare, List.forall_mem_cons.2 ⟨.literal rfl, by simp⟩⟩
  have hshared : shared.WellTyped [small] fields := .shared rfl hsmall
  have hisNull : isNull.WellTyped [small] fields :=
    @WellTyped.call _ _ .isNull _ [(.truth, true)] _ _ rfl rfl (by simp [hshared])
  have ht : t.WellTyped [small] fields := by
    refine @WellTyped.call _ _ .and _ [(.truth, true), (.truth, false)] _ _ rfl rfl ?_
    simp [hshared, hisNull]
  have hdx : x.Denotes [small] [.null] .null := .input rfl
  have hdten : ten.Denotes [small] [.null] (.int 10) := .literal
  have hdsquare : square.Denotes [small] [.null] .null :=
    @Denotes.call _ _ .multiply _ _ [.null, .null] rfl (by simp [hdx])
  have hdsmall : small.Denotes [small] [.null] .null :=
    @Denotes.call _ _ .lessThan _ _ [.null, .int 10] rfl (by simp [hdsquare, hdten])
  have hdshared : shared.Denotes [small] [.null] .null := .shared rfl hdsmall
  have hdisNull : isNull.Denotes [small] [.null] (.bool true) :=
    @Denotes.call _ _ .isNull _ _ [.null] rfl (by simp [hdshared])
  have hdt : t.Denotes [small] [.null] .null :=
    @Denotes.call _ _ .and _ _ [.null, .bool true] rfl (by simp [hdshared, hdisNull])
  have hkx : x.KeepsNotNull [small] [.null] := forall_occurs_input.2 (nomatch ·)
  have hkten : ten.KeepsNotNull [small] [.null] :=
    forall_occurs_literal.2 fun _ hd => nomatch hdten.unique hd
  have hksquare : square.KeepsNotNull [small] [.null] :=
    forall_occurs_call.2 ⟨(nomatch ·), by simpa [KeepsNotNull] using hkx⟩
  have hksmall : small.KeepsNotNull [small] [.null] :=
    forall_occurs_call.2 ⟨(nomatch ·), by simpa using ⟨hksquare, hkten⟩⟩
  have hkshared : shared.KeepsNotNull [small] [.null] :=
    forall_occurs_shared.2 ⟨(nomatch ·), by simpa [KeepsNotNull] using hksmall⟩
  have hkisNull : isNull.KeepsNotNull [small] [.null] :=
    forall_occurs_call.2 ⟨fun _ hd => (nomatch hdisNull.unique hd), by simpa [KeepsNotNull] using hkshared⟩
  have hkt : t.KeepsNotNull [small] [.null] :=
    forall_occurs_call.2 ⟨(nomatch ·), by simpa using ⟨hkshared, hkisNull⟩⟩
  obtain ⟨p, hp, hrun⟩ := program_run_denotes {} ht
  obtain ⟨v, hv, hresult⟩ := hrun [.null] {} (.cons rfl .nil) (fun _ _ => rfl) hkt
  exact ⟨ht, hkt, p, hp, hresult.trans (by rw [← (hv .null).1 hdt])⟩

end Term

end SqlCode
