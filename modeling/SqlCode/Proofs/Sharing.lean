import SqlCode.Proofs.Expansion
import SqlCode.Proofs.PairedCalls

/-!
# Sharing definitions is transparent

A term with references to shared definitions compiles to a program with the outcome of the term in which every
reference is replaced by its definition. The two programs declare different variables, and the first one
computes a shared definition once. The proof follows both compilations along the expansion of the term:

* `Setup`: what both compilations have in common; the expansion is compiled from `Setup.bare`, where nothing
  is recorded;
* `Setup.Memo`: recorded results have the values that the code of the expansions would compute;
* `Setup.Mirrors`: two steps of compilation whose code ends alike, with its rules; `Setup.Copies`;
* `Term.Expands.copies`: the induction along the expansion, and `Term.sharing_transparent`: the result.
-/

namespace SqlCode

open Run SqlCode.Expr Pair Compilation

/-! ### Steps of compilation, as equations -/

theorem Builtin.lowering_cases (b : Builtin) : b.lowering.isQuiet ∨ b.lowering = .coalesce ∨
    b.lowering = .constructor := by
  cases b <;> first | exact .inl rfl | exact .inr (.inl rfl) | exact .inr (.inr rfl)

theorem Builtin.notMem_restless_of_mem_routines {b : Builtin} (hb : b ∉ [.nextValue, .rand, .randInteger]) :
    ∀ f ∈ b.lowering.routines, f ∉ restless := by
  cases b <;> first | decide | exact absurd (by decide) hb

theorem Compile.run_bind_of_error {α β : Type} {x : Compile α} {f : α → Compile β} {c : Compilation}
    {err : CompileError} (h : (x.run.run c).1 = .error err) : ((x >>= f).run.run c).1 = .error err := by
  rw [exceptT_run_bind]
  rcases hr : x.run.run c with ⟨r, c₁⟩
  rw [hr] at h
  obtain rfl : r = .error err := h
  rfl

namespace Term

variable {shared : Nat → Compile Flagged} {c : Compilation}

theorem run_lower {op : Operator} {l : Lowering} (hl : op.lowering = .ok l) (type : SqlType)
    (operands : List Term) (args : List Flagged) :
    (show Compile Flagged from do
      let l ← Compile.lift op.lowering
      let site := (← get).site op type operands
      Compile.emit (l.emit site args)).run.run c =
      match (l.emit (c.site op type operands) args).run c.builder with
      | .ok (f, b) => (.ok f, { c with builder := b })
      | .error err => (.error err, c) := by
  have hlift : (Compile.lift op.lowering).run.run c = (.ok l, c) := by
    rw [hl]
    rfl
  rw [exceptT_run_bind, hlift]
  simp only
  rw [Compile.run_get_bind, Compile.emit, Compile.run_get_bind]
  rcases (l.emit (c.site op type operands) args).run c.builder with err | ⟨f, b⟩ <;> rfl

end Term

/-! ### Two compilations side by side -/

/-- Two views of one flagged expression, in two builders with the given names. -/
structure Flagged.Linked (names names' : List String) (H : String → Prop) (f g : Flagged) : Prop where
  left : f.Uses (· ∈ names) (· ∉ restless)
  right : g.Uses (· ∈ names') (· ∉ restless)
  paired : f.Paired H g

theorem Flagged.Linked.keeps {names names' ns ns' : List String} {m m' n n' : Machine} {f g : Flagged}
    (h : f.Linked names names' (m.Same m') g) (hm : m.Keeps names n) (hm' : m'.Keeps names' n')
    (hs : ∀ x ∈ names, x ∈ ns) (hs' : ∀ x ∈ names', x ∈ ns') : f.Linked ns ns' (n.Same n') g :=
  ⟨h.left.mono hs, h.right.mono hs',
    h.paired.keeps h.left h.right hm hm'⟩

/-- What the compilation of a term and that of its expansion have in common: the settings, the input fields
and the names around the code; and the definitions of the term. -/
structure Setup where
  settings : Settings
  defs : List Term
  inputs : List Flagged
  outer : List String
  acyclic : Term.Acyclic defs
  inputs_atom : ∀ f ∈ inputs, f.value.isAtom
  inputs_uses : ∀ f ∈ inputs, f.Uses (· ∈ outer) (· ∉ restless)

namespace Setup

open Term

variable {α β : Type} (σ : Setup)

/-- A compilation of terms without references. -/
def bare (b : Builder) : Compilation := { settings := σ.settings, inputs := σ.inputs, builder := b }

/-- The builder belongs to a tidy compilation. -/
def Neat (b : Builder) : Prop := (σ.bare b).Tidy (· ∉ restless) σ.outer

/-- Compiling a term without references. -/
def compile (e : Term) : Compile Flagged := e.compileWith (compileShared 1)

/-- From the first builder, the term without references compiles to the code and the result. -/
structure Yields (e : Term) (b b' : Builder) (code : Block) (g : Flagged) : Prop where
  neat : σ.Neat b
  run : (compile e).run.run (σ.bare b) = (.ok g, σ.bare b')
  emits : b.Emits (· ∉ restless) b' code
  uses : g.Uses (· ∈ b'.names) (· ∉ restless)

/-- Recorded results are views of what the expansions of their definitions compile to. -/
def Known (c : Compilation) : Prop :=
  ∀ p ∈ c.done, ∀ t e, σ.defs[p.1]? = some t → Expands σ.defs t e →
    ∀ b, σ.Neat b → ∃ b' code g, σ.Yields e b b' code g ∧ p.2.Paired (fun _ => True) g

/-- In the state, recorded results have the values that the code of the expansions would compute. -/
def Memo (c : Compilation) (m : Machine) : Prop :=
  ∀ p ∈ c.done, ∀ t e, σ.defs[p.1]? = some t → Expands σ.defs t e →
    ∀ b b' code g, σ.Yields e b b' code g → ∀ m' : Machine, m.Sync σ.outer m' →
      Code.Matches m m' (fun n n' => n = m ∧ m'.Keeps b.names n' ∧ p.2.Paired (n.Same n') g) [] code

/-- The compilation belongs to the setup. -/
structure Fits (c : Compilation) : Prop where
  settings : c.settings = σ.settings
  definitions : c.definitions = σ.defs
  inputs : c.inputs = σ.inputs
  tidy : c.Tidy (· ∉ restless) σ.outer
  known : σ.Known c

/-- The steps fail with one error, or both succeed and emit code that ends alike from states that run in
step and satisfy `P`. The results satisfy `K` with the names taken and the pairs of slots that have the same
value then, and even if the code does not end well they satisfy it with some pairs of slots. -/
def Mirrors (c : Compilation) (b : Builder) (P : (String → Prop) → Prop) (x y : Compile α)
    (K : List String → List String → (String → Prop) → α → α → Prop) : Prop :=
  (∃ err, (x.run.run c).1 = .error err ∧ (y.run.run (σ.bare b)).1 = .error err) ∨
    ∃ a c' code a' b' code', x.run.run c = (.ok a, c') ∧ y.run.run (σ.bare b) = (.ok a', σ.bare b') ∧
      c.builder.Emits (· ∉ restless) c'.builder code ∧ b.Emits (· ∉ restless) b' code' ∧ σ.Fits c' ∧
      K c'.builder.names b'.names (fun _ => True) a a' ∧
      ∀ m m' : Machine, σ.Memo c m → m.Sync σ.outer m' → P (m.Same m') →
        Code.Matches m m' (fun n n' => m.Keeps c.builder.names n ∧ σ.Memo c' n ∧ m'.Keeps b.names n' ∧
          K c'.builder.names b'.names (n.Same n') a a') code code'

/-- `Mirrors` for every builder and with nothing assumed, for one flagged expression. -/
def Copies (c : Compilation) (x y : Compile Flagged) : Prop :=
  ∀ b, σ.Neat b → σ.Mirrors c b (fun _ => True) x y Flagged.Linked

variable {σ} {c c' : Compilation} {b b' : Builder} {m m' n : Machine} {code : Block}
  {P : (String → Prop) → Prop} {x y : Compile α}
  {K : List String → List String → (String → Prop) → α → α → Prop}

theorem Neat.emits (h : σ.Neat b) (he : b.Emits (· ∉ restless) b' code) : σ.Neat b' :=
  (Compilation.Tidy.emits h he).tidy

theorem eq_of_bare_eq (h : σ.bare b = σ.bare b') : b = b' := congrArg Compilation.builder h

/-- What recorded results stand for does not depend on variables that were declared later. -/
theorem Memo.keeps (hm : σ.Memo c m) (hc : c.Tidy (· ∉ restless) σ.outer)
    (hk : m.Keeps c.builder.names n) : σ.Memo c n := by
  intro p hp t e hdef he b b' code g hy m' hsync
  have h := hm p hp t e hdef he b b' code g hy m' (hsync.of_keeps_left hk hc.outer_mem)
  rintro _ _ ⟨rfl, rfl⟩
  obtain ⟨h₁, h₂⟩ := h ⟨rfl, rfl⟩
  obtain ⟨-, hkeep, hpaired⟩ := h₂ () rfl
  -- the second state is the same as before, so any names will do for it
  have hg : g.Uses (· ∈ g.isNull.reads ++ g.value.reads) fun _ => True :=
    ⟨⟨fun x hx => List.mem_append_left _ hx, fun _ _ => trivial⟩,
      ⟨fun x hx => List.mem_append_right _ hx, fun _ _ => trivial⟩⟩
  exact ⟨h₁, fun _ _ => ⟨rfl, hkeep, hpaired.keeps (hc.done p hp) hg hk (.refl _ _)⟩⟩

/-- Code that is scoped keeps a compilation in the setup. -/
theorem Fits.emits (h : σ.Fits c) (he : c.builder.Emits (· ∉ restless) b code) :
    σ.Fits { c with builder := b } :=
  ⟨h.settings, h.definitions, h.inputs, (h.tidy.emits he).tidy, h.known⟩

/-! ### Rules -/

theorem mirrors_of_run (hc : σ.Fits c) {a a' : α} (hx : x.run.run c = (.ok a, c))
    (hy : y.run.run (σ.bare b) = (.ok a', σ.bare b))
    (hK : K c.builder.names b.names (fun _ => True) a a')
    (hP : ∀ m m' : Machine, m.Sync σ.outer m' → P (m.Same m') →
      K c.builder.names b.names (m.Same m') a a') : σ.Mirrors c b P x y K :=
  .inr ⟨a, c, [], a', b, [], hx, hy, .refl _ _, .refl _ _, hc, hK, fun m m' hm hsync hstart =>
    .nil ⟨.refl _ _, hm, .refl _ _, hP m m' hsync hstart⟩⟩

theorem Mirrors.bind {f g : α → Compile β}
    {L : List String → List String → (String → Prop) → β → β → Prop}
    (h : σ.Mirrors c b P x y K) (hc : σ.Fits c) (hb : σ.Neat b)
    (h' : ∀ a a' c' b', σ.Fits c' → σ.Neat b' → K c'.builder.names b'.names (fun _ => True) a a' →
      σ.Mirrors c' b' (fun H => K c'.builder.names b'.names H a a') (f a) (g a') L) :
    σ.Mirrors c b P (x >>= f) (y >>= g) L := by
  unfold Mirrors
  rcases h with ⟨err, hx, hy⟩ | ⟨a, c₁, code, a', b₁, code', hx, hy, he, he', hc₁, hK, hcode⟩
  · exact .inl ⟨err, Compile.run_bind_of_error hx, Compile.run_bind_of_error hy⟩
  · rw [exceptT_run_bind, exceptT_run_bind, hx, hy]
    rcases h' a a' c₁ b₁ hc₁ (hb.emits he') hK with
      hfail | ⟨d, c₂, rest, d', b₂, rest', hx₂, hy₂, he₂, he₂', hc₂, hL, hrest⟩
    · exact .inl hfail
    · refine .inr ⟨d, c₂, code ++ rest, d', b₂, code' ++ rest', hx₂, hy₂, he.trans he₂,
        he'.trans he₂', hc₂, hL, fun m m' hm hsync hstart => ?_⟩
      refine (hcode m m' hm hsync hstart).append fun n n' ⟨hk, hmemo, hk', hKn⟩ => ?_
      -- neither piece of code writes to the names around it
      have hsync' : n.Sync σ.outer n' := hsync.keeps hk hk' hc.tidy.outer_mem hb.outer_mem
      refine (hrest n n' hmemo hsync' hKn).mono fun o o' ⟨ho, hmemo', ho', hLo⟩ => ?_
      exact ⟨hk.trans (ho.mono fun _ hx => he.mem_names hx), hmemo',
        hk'.trans (ho'.mono fun _ hx => he'.mem_names hx), hLo⟩

/-- The code leaves views of other expressions alone. -/
theorem Mirrors.frame (h : σ.Mirrors c b (fun _ => True) x y K) {f g : Flagged}
    (hfg : f.Linked c.builder.names b.names (fun _ => True) g) :
    σ.Mirrors c b (fun H => f.Linked c.builder.names b.names H g) x y
      fun ns ns' H a a' => f.Linked ns ns' H g ∧ K ns ns' H a a' := by
  rcases h with hfail | ⟨a, c₁, code, a', b₁, code', hx, hy, he, he', hc₁, hK, hcode⟩
  · exact .inl hfail
  · have hnames : ∀ x ∈ c.builder.names, x ∈ c₁.builder.names := fun _ hx => he.mem_names hx
    have hnames' : ∀ x ∈ b.names, x ∈ b₁.names := fun _ hx => he'.mem_names hx
    refine .inr ⟨a, c₁, code, a', b₁, code', hx, hy, he, he', hc₁, ⟨⟨?_, ?_, hfg.paired⟩, hK⟩,
      fun m m' hm hsync hstart => ?_⟩
    · exact hfg.left.mono hnames
    · exact hfg.right.mono hnames'
    · refine (hcode m m' hm hsync trivial).mono fun n n' ⟨hk, hmemo, hk', hKn⟩ => ?_
      exact ⟨hk, hmemo, hk', hstart.keeps hk hk' hnames hnames', hKn⟩

/-! ### The constructors of terms -/

/-- A step that emits nothing and gives the same on both sides. -/
theorem copies_leaf {x y : Compile Flagged} {f : Flagged} (hc : σ.Fits c)
    (hx : x.run.run c = (.ok f, c)) (hy : ∀ b, y.run.run (σ.bare b) = (.ok f, σ.bare b))
    (ha : f.value.isAtom) (hf : f.Uses (· ∈ σ.outer) (· ∉ restless)) : σ.Copies c x y := by
  intro b hb
  have hlinked : ∀ {H : String → Prop}, (∀ z ∈ σ.outer, H (join z z)) →
      f.Linked c.builder.names b.names H f := fun hH =>
    ⟨hf.mono hc.tidy.outer_mem, hf.mono hb.outer_mem,
      Flagged.paired_self ha (hf.mono hH)⟩
  exact mirrors_of_run hc hx (hy b) (hlinked fun _ _ => trivial) fun m m' hsync _ =>
    hlinked fun z hz => hsync.same_join hz

theorem copies_input (hc : σ.Fits c) (shared : Nat → Compile Flagged) (i : Nat) (type : SqlType) :
    σ.Copies c ((Term.input i type).compileWith shared) (compile (.input i type)) := by
  have hbare : ∀ b, (σ.bare b).inputs = σ.inputs := fun _ => rfl
  cases hf : σ.inputs[i]? with
  | some f =>
    have hmem : f ∈ σ.inputs := List.mem_of_getElem? hf
    refine copies_leaf (f := f) hc ?_ (fun b => ?_) (σ.inputs_atom f hmem) (σ.inputs_uses f hmem)
    · rw [run_compileWith_input, hc.inputs, hf]
    · rw [compile, run_compileWith_input, hbare, hf]
  | none =>
    refine fun b _ => .inl ⟨.invalidCall "input" ("no input field " ++ toString i), ?_, ?_⟩
    · rw [run_compileWith_input, hc.inputs, hf]
    · rw [compile, run_compileWith_input, hbare, hf]

theorem mirrors_compileAllWith {shared : Nat → Compile Flagged} {ts es : List Term}
    (h : List.Forall₂ (fun t e => ∀ c, σ.Fits c → σ.Copies c (t.compileWith shared) (compile e)) ts es)
    (hc : σ.Fits c) (hb : σ.Neat b) :
    σ.Mirrors c b (fun _ => True) (compileAllWith shared ts) (compileAllWith (compileShared 1) es)
      fun ns ns' H => List.Forall₂ (Flagged.Linked ns ns' H) := by
  induction h generalizing c b with
  | nil => exact mirrors_of_run hc rfl rfl .nil fun _ _ _ _ => .nil
  | cons h _ ih =>
    rw [compileAllWith, compileAllWith]
    refine (h c hc b hb).bind hc hb fun f g c₁ b₁ hc₁ hb₁ hfg => ?_
    -- the code of the other operands does not touch the first one
    refine ((ih hc₁ hb₁).frame hfg).bind hc₁ hb₁ fun fs gs c₂ b₂ hc₂ _ hall => ?_
    exact mirrors_of_run hc₂ rfl rfl (.cons hall.1 hall.2) fun m m' _ hstart =>
      .cons hstart.1 hstart.2

/-- What a lowering may know about a call is the same for the expanded call. -/
theorem site_eq (hc : σ.Fits c) (b : Builder) (op : Operator) (type : SqlType) {operands es : List Term}
    (h : List.Forall₂ (Expands σ.defs) operands es)
    (ht : ∀ t ∈ operands, t.Shareable σ.defs) :
    (σ.bare b).site op type es = c.site op type operands := by
  unfold Compilation.site
  rw [hc.settings, hc.definitions]
  refine congrArg (CallSite.mk σ.settings op type) ?_
  induction h with
  | nil => rfl
  | cons h _ ih =>
    have hhead := ht _ List.mem_cons_self
    rw [List.map_cons, List.map_cons, ih fun t hmem => ht t (List.mem_cons_of_mem _ hmem),
      h.type_eq hhead, h.literal?_eq σ.acyclic hhead]
    rfl

theorem mirrors_lower (hc : σ.Fits c) (hb : σ.Neat b) {op : Builtin}
    (hop : op ∉ [.nextValue, .rand, .randInteger]) {type : SqlType} {operands es : List Term}
    (hsite : (σ.bare b).site (.builtin op) type es = c.site (.builtin op) type operands)
    {fs gs : List Flagged}
    (hargs : List.Forall₂ (Flagged.Linked c.builder.names b.names fun _ => True) fs gs) :
    σ.Mirrors c b (fun H => List.Forall₂ (Flagged.Linked c.builder.names b.names H) fs gs)
      (do
        let l ← Compile.lift (Operator.builtin op).lowering
        let site := (← get).site (.builtin op) type operands
        Compile.emit (l.emit site fs))
      (do
        let l ← Compile.lift (Operator.builtin op).lowering
        let site := (← get).site (.builtin op) type es
        Compile.emit (l.emit site gs))
      Flagged.Linked := by
  have hQ : ∀ f, f ∉ volatile → f ∉ restless := fun _ => notMem_restless
  have hroutines := Builtin.notMem_restless_of_mem_routines hop
  have hleft := forall_mem_of_forall₂ hargs.flip fun _ _ h => h.left
  have hright := forall_mem_of_forall₂ hargs fun _ _ h => h.right
  unfold Mirrors
  rw [run_lower (l := op.lowering) rfl, run_lower (l := op.lowering) rfl, hsite]
  generalize c.site (.builtin op) type operands = site
  have hmirrors : Emit.Mirrors σ.outer fs gs c.builder b (op.lowering.emit site fs)
      (op.lowering.emit site gs) := Lowering.mirrors_emit op.lowering_cases hroutines
    ⟨hc.tidy.root, hc.tidy.outer_mem, hb.outer_mem, hleft, hright, hargs.imp fun _ _ h => h.paired⟩
  have hbuilder : (σ.bare b).builder = b := rfl
  rw [hbuilder]
  rcases hmirrors with ⟨err, hx, hy⟩ | ⟨f, b₁, code, g, b₁', code', hx, hy, hcode, hcode', hfg, hsem⟩
  · rw [hx, hy]
    exact .inl ⟨err, rfl, rfl⟩
  · obtain ⟨code₁, he, hf⟩ := Lowering.scoped_emit hc.tidy.root_mem hQ hroutines hleft f b₁ hx
    obtain ⟨code₁', he', hg⟩ := Lowering.scoped_emit hb.root_mem hQ hroutines hright g b₁' hy
    -- what is scoped is the code that ends alike
    obtain rfl : code₁ = code := List.append_cancel_left (he.statements.symm.trans hcode)
    obtain rfl : code₁' = code' := List.append_cancel_left (he'.statements.symm.trans hcode')
    rw [hx, hy]
    refine .inr ⟨f, { c with builder := b₁ }, code₁, g, b₁', code₁', rfl, rfl, he, he', hc.emits he,
      ⟨hf, hg, hfg⟩, fun m m' hm hsync hstart => ?_⟩
    refine (hsem m m' hsync (hstart.imp fun _ _ h => h.paired)).mono fun n n' ⟨hk, hk', hp⟩ => ?_
    exact ⟨hk, hm.keeps hc.tidy hk, hk', hf, hg, hp⟩

theorem copies_call (hc : σ.Fits c) {shared : Nat → Compile Flagged} {op : Builtin}
    (hop : op ∉ [.nextValue, .rand, .randInteger]) (type : SqlType) {operands es : List Term}
    (ht : ∀ t ∈ operands, t.Shareable σ.defs)
    (he : List.Forall₂ (Expands σ.defs) operands es)
    (h : List.Forall₂ (fun t e => ∀ c, σ.Fits c → σ.Copies c (t.compileWith shared) (compile e))
      operands es) :
    σ.Copies c ((Term.call (.builtin op) type operands).compileWith shared)
      (compile (.call (.builtin op) type es)) := by
  intro b hb
  unfold compile
  rw [compileWith, compileWith]
  refine (mirrors_compileAllWith h hc hb).bind hc hb fun fs gs c₁ b₁ hc₁ hb₁ hargs => ?_
  exact mirrors_lower hc₁ hb₁ hop (site_eq hc₁ b₁ _ type he ht) hargs

/-- A reference to a recorded definition: nothing is emitted for it, and the expansion computes its value
again. -/
theorem copies_recorded (hc : σ.Fits c) {i : Nat} {f : Flagged} (hf : c.done.lookup i = some f)
    {t e : Term} (hdef : σ.defs[i]? = some t) (he : Expands σ.defs t e) (depth : Nat) :
    σ.Copies c (compileShared (depth + 1) i) (compile e) := by
  have hmem : (i, f) ∈ c.done := mem_done_of_lookup hf
  intro b hb
  obtain ⟨b', code, g, hy, hfg⟩ := hc.known _ hmem t e hdef he b hb
  refine .inr ⟨f, c, [], g, b', code, provides_of_lookup hf depth, hy.run, .refl _ _, hy.emits,
    hc, ⟨hc.tidy.done _ hmem, hy.uses, hfg⟩, fun m m' hm hsync _ => ?_⟩
  refine (hm _ hmem t e hdef he b b' code g hy m' hsync).mono fun n n' ⟨hn, hk', hp⟩ => ?_
  subst hn
  exact ⟨.refl _ _, hm, hk', hc.tidy.done _ hmem, hy.uses, hp⟩

/-- What a successful step and its copy give, for every builder at once. -/
theorem Copies.yields {x : Compile Flagged} {e : Term} (h : σ.Copies c x (compile e)) {f : Flagged}
    (hx : x.run.run c = (.ok f, c')) (he : c.builder.Emits (· ∉ restless) c'.builder code) (hb : σ.Neat b) :
    ∃ b' code' g, σ.Yields e b b' code' g ∧ f.Paired (fun _ => True) g ∧
      ∀ m m' : Machine, σ.Memo c m → m.Sync σ.outer m' →
        Code.Matches m m' (fun n n' => m.Keeps c.builder.names n ∧ σ.Memo c' n ∧ m'.Keeps b.names n' ∧
          f.Linked c'.builder.names b'.names (n.Same n') g) code code' := by
  rcases h b hb with ⟨err, herr, -⟩ |
    ⟨f₁, c₁, code₁, g, b₁, code₁', hx₁, hy₁, he₁, he₁', -, hfg, hcode⟩
  · rw [hx] at herr
    cases herr
  · -- the first step does not depend on the builder of the copy
    obtain ⟨hf, hc'⟩ := Prod.mk.inj (hx₁.symm.trans hx)
    obtain rfl := Except.ok.inj hf
    subst hc'
    obtain rfl : code₁ = code := List.append_cancel_left (he₁.statements.symm.trans he.statements)
    exact ⟨b₁, code₁', g, ⟨hb, hy₁, he₁', hfg.right⟩, hfg.paired, fun m m' hm hsync =>
      hcode m m' hm hsync trivial⟩

theorem Yields.unique {e : Term} {b₁ b₂ : Builder} {code₁ code₂ : Block} {g₁ g₂ : Flagged}
    (h₁ : σ.Yields e b b₁ code₁ g₁) (h₂ : σ.Yields e b b₂ code₂ g₂) :
    b₁ = b₂ ∧ code₁ = code₂ ∧ g₁ = g₂ := by
  obtain ⟨hg, hb⟩ := Prod.mk.inj (h₁.run.symm.trans h₂.run)
  obtain rfl := eq_of_bare_eq hb
  exact ⟨rfl, List.append_cancel_left (h₁.emits.statements.symm.trans h₂.emits.statements),
    Except.ok.inj hg⟩

/-- The first reference to a definition: its result is recorded. -/
theorem copies_unrecorded {i depth : Nat} {t e : Term} (hnone : c.done.lookup i = none)
    (hc : σ.Fits c) (hdef : σ.defs[i]? = some t) (he : Expands σ.defs t e)
    (h : σ.Copies c (t.compileWith (compileShared depth)) (compile e)) :
    σ.Copies c (compileShared (depth + 1) i) (compile e) := by
  intro b hb
  unfold Mirrors
  rw [run_compileShared_of_none hnone (hc.definitions ▸ hdef)]
  rcases h b hb with ⟨err, hx, hy⟩ | ⟨f, c₁, code, g, b', code', hx, hy, hec, heb, hc₁, hfg, hcode⟩
  · refine .inl ⟨err, ?_, hy⟩
    rcases hr : (t.compileWith (compileShared depth)).run.run c with ⟨r, c₁⟩
    rw [hr] at hx
    obtain rfl : r = .error err := hx
    rfl
  rw [hx]
  -- the definition at this place is the one that was compiled, and it has one expansion
  have hentry : ∀ t' e', σ.defs[i]? = some t' → Expands σ.defs t' e' → e' = e := by
    intro t' e' hdef' he'
    obtain rfl := Option.some.inj (hdef.symm.trans hdef')
    exact he.unique he'
  have hfits : σ.Fits { c₁ with done := (i, f) :: c₁.done } := by
    refine ⟨hc₁.settings, hc₁.definitions, hc₁.inputs, ⟨hc₁.tidy.root, hc₁.tidy.names,
      hc₁.tidy.isScoped, hc₁.tidy.inputs, List.forall_mem_cons.2 ⟨hfg.left, hc₁.tidy.done⟩⟩,
      List.forall_mem_cons.2 ⟨fun t' e' hdef' he' b₁ hb₁ => ?_, hc₁.known⟩⟩
    rw [hentry t' e' hdef' he']
    obtain ⟨b₁', code₁, g₁, hy₁, hfg₁, -⟩ := h.yields hx hec hb₁
    exact ⟨b₁', code₁, g₁, hy₁, hfg₁⟩
  refine .inr ⟨f, _, code, g, b', code', rfl, hy, hec, heb, hfits, hfg, fun m m' hm hsync _ => ?_⟩
  refine (hcode m m' hm hsync trivial).and_ran.mono fun n n' ⟨⟨hk, hmemo, hk', hlinked⟩, hran⟩ =>
    ⟨hk, List.forall_mem_cons.2 ⟨fun t' e' hdef' he' b₁ b₁' code₁ g₁ hy₁ o hsync₁ => ?_, hmemo⟩, hk',
      hlinked⟩
  -- the code has been run already: it leads from `m` to `n`, and the expansion follows it
  rw [hentry t' e' hdef' he'] at hy₁
  obtain ⟨b₂, code₂, g₂, hy₂, -, hmatches⟩ := h.yields hx hec hy₁.neat
  obtain ⟨rfl, rfl, rfl⟩ := hy₁.unique hy₂
  have hsync₂ : m.Sync σ.outer o := hsync₁.of_keeps_left hk hc.tidy.outer_mem
  refine ((hmatches m o hm hsync₂).of_ran hran).mono fun n₁ o' ⟨hn₁, _, _, ho, hp⟩ => ?_
  subst hn₁
  exact ⟨rfl, ho, hp.paired⟩

/-- Copies that start without code: they fail with one error, or evaluating their blocks has one outcome. -/
theorem Copies.evaluate {x y : Compile Flagged} (h : σ.Copies c x y) (hc : σ.Fits c) (hb : σ.Neat b)
    (hdone : c.done = []) (hcode : c.builder.statements = []) (hcode' : b.statements = []) :
    (∃ err c₁ c₂, x.run.run c = (.error err, c₁) ∧ y.run.run (σ.bare b) = (.error err, c₂)) ∨
      ∃ f c₁ g c₂, x.run.run c = (.ok f, c₁) ∧ y.run.run (σ.bare b) = (.ok g, c₂) ∧
        ∀ m : Machine, ((Block.evaluate c₁.builder.statements f).result m).1 =
          ((Block.evaluate c₂.builder.statements g).result m).1 := by
  rcases h b hb with ⟨err, hx, hy⟩ | ⟨f, c₁, code, g, b₁, code', hx, hy, he, he', -, -, hsem⟩
  · exact .inl ⟨err, _, _, Prod.ext hx rfl, Prod.ext hy rfl⟩
  · have hleft : c₁.builder.statements = code := by rw [he.statements, hcode, List.nil_append]
    have hright : (σ.bare b₁).builder.statements = code' := by
      rw [bare, he'.statements, hcode', List.nil_append]
    refine .inr ⟨f, c₁, g, σ.bare b₁, hx, hy, fun m => ?_⟩
    have hmemo : σ.Memo c m := fun p hp => absurd (hdone ▸ hp) List.not_mem_nil
    rw [hleft, hright]
    refine (hsem m m hmemo (.refl _ m) trivial).evaluate fun n n' ⟨hk, _, hk', hfg⟩ => ?_
    exact hfg.paired.coincide_eval ((Machine.Sync.refl σ.outer m).keeps hk hk' hc.tidy.outer_mem hb.outer_mem)

end Setup

namespace Term

open Setup

variable {σ : Setup} {c : Compilation}

/-- Compiling a term and compiling its expansion mirror each other. -/
theorem Expands.copies {t e : Term} (h : Expands σ.defs t e) (ht : t.Shareable σ.defs)
    {depth : Nat} (hdepth : ∀ i, t.Mentions i → height σ.defs i < depth) (hc : σ.Fits c) :
    σ.Copies c (t.compileWith (compileShared depth)) (Setup.compile e) := by
  induction h generalizing depth c with
  | @literal v type =>
    refine copies_leaf (f := v.literal type) hc rfl (fun _ => rfl) ?_ ⟨uses_bool _, uses_literalExpr _ _⟩
    obtain ⟨w, r, h⟩ := exists_literalExpr_eq v type
    exact congrArg isAtom h
  | @input i type => exact copies_input hc _ i type
  | @shared i type t e hdef he ih =>
    obtain ⟨u, hu, -, hshare⟩ := shareable_shared.1 ht
    obtain rfl := Option.some.inj (hdef.symm.trans hu)
    have hi := hdepth i .shared
    obtain ⟨depth, rfl⟩ : ∃ k, depth = k + 1 := ⟨depth - 1, by omega⟩
    rw [compileWith]
    cases hlookup : c.done.lookup i with
    | some f => exact copies_recorded hc hlookup hdef he depth
    | none =>
      refine copies_unrecorded hlookup hc hdef he (ih hshare (fun j hj => ?_) hc)
      have := hshare.height_lt_height σ.acyclic hdef hj
      omega
  | @call op type operands es hlen hzip ih =>
    obtain ⟨⟨b, rfl, hb⟩, hshare⟩ := shareable_call.1 ht
    refine copies_call hc hb type hshare (List.forall₂_iff_zip.2 ⟨hlen, fun hp => hzip _ hp⟩)
      (List.forall₂_iff_zip.2 ⟨hlen, fun {t e} hp c hc => ?_⟩)
    have hmem : t ∈ operands := (List.of_mem_zip hp).1
    exact ih _ hp (hshare t hmem) (fun j hj => hdepth j (.operand hmem hj)) hc

end Term

/-! ### Programs -/

namespace Compilation

variable (settings : Settings) (defs : List Term) (fields : List (String × SqlType))

/-- Adding input fields does not look at the definitions. -/
theorem addInputs_with_definitions (c : Compilation) :
    ({ c with definitions := defs } : Compilation).addInputs fields =
      ((c.addInputs fields).1, { (c.addInputs fields).2 with definitions := defs }) := by
  induction fields generalizing c with
  | nil => rfl
  | cons field rest ih =>
    have hinput : ({ c with definitions := defs } : Compilation).addInput field.1 field.2 =
        ((c.addInput field.1 field.2).1, { (c.addInput field.1 field.2).2 with definitions := defs }) := rfl
    rw [addInputs_cons, addInputs_cons, hinput, ih]

theorem settings_addInputs (c : Compilation) : (c.addInputs fields).2.settings = c.settings := by
  induction fields generalizing c with
  | nil => rfl
  | cons field rest ih =>
    rw [addInputs_cons]
    exact ih _

end Compilation

namespace Setup

variable (settings : Settings) {defs : List Term} (hacyclic : Term.Acyclic defs)
  (fields : List (String × SqlType))

/-- The setup of two compilations over the fields. -/
def ofFields : Setup where
  settings := settings
  defs := defs
  inputs := (Compilation.ofFields settings defs fields).2.inputs
  outer := (Compilation.ofFields settings defs fields).2.builder.names
  acyclic := hacyclic
  inputs_atom := forall_mem_of_forall₂ (shaped_ofFields settings defs fields).inputs
    fun _ _ h => h.isAtom
  inputs_uses := (tidy_ofFields settings defs fields
    fun _ => notMem_restless).inputs

theorem fits_ofFields :
    (ofFields settings hacyclic fields).Fits (Compilation.ofFields settings defs fields).2 := by
  obtain ⟨hd, hdone, -⟩ := ofFields_frame settings defs fields
  refine ⟨settings_addInputs fields _, hd, rfl, tidy_ofFields _ _ _
    fun _ => notMem_restless, fun p hp => ?_⟩
  rw [hdone] at hp
  exact absurd hp List.not_mem_nil

theorem ofFields_nil : Compilation.ofFields settings [] fields =
    ((Compilation.ofFields settings defs fields).1,
      (ofFields settings hacyclic fields).bare
        (Compilation.ofFields settings defs fields).2.builder) := by
  have h : Compilation.ofFields settings [] fields = _ :=
    addInputs_with_definitions [] fields { settings, definitions := defs }
  have hdone := (ofFields_frame settings defs fields).2.1
  have hsettings := settings_addInputs fields { settings, definitions := defs }
  refine h.trans (Prod.ext rfl (Compilation.mk.injEq .. ▸ ?_))
  exact ⟨hsettings, rfl, rfl, hdone, rfl⟩

theorem neat_ofFields : (ofFields settings hacyclic fields).Neat
    (Compilation.ofFields settings defs fields).2.builder := by
  have h := tidy_ofFields settings [] fields fun _ => notMem_restless
  rw [ofFields_nil settings hacyclic fields] at h
  exact h

end Setup

namespace Term

open Compilation

variable {defs : List Term} {t e : Term}

/-- The programs of a term and of its expansion: both compilations fail with one error, or the programs have
one outcome on every row. -/
theorem Expands.program (h : Expands defs t e) (hacyclic : Acyclic defs)
    (ht : t.Shareable defs) (settings : Settings) (fields : List (String × SqlType)) :
    (∃ err, t.program settings defs fields = .error err ∧ e.program settings [] fields = .error err) ∨
      ∃ p q, t.program settings defs fields = .ok p ∧ e.program settings [] fields = .ok q ∧
        ∀ (row : List Value) (m : Machine), ((p.run row).result m).1 = ((q.run row).result m).1 := by
  obtain ⟨hd, hdone, hcode⟩ := ofFields_frame settings defs fields
  have hadd : (ofFields settings defs fields).2.add t =
      (t.compileWith (compileShared (defs.length + 1))).run.run
        (ofFields settings defs fields).2 := by
    nth_rewrite 2 [← hd]
    rfl
  have hadd' : (ofFields settings [] fields).2.add e = (Setup.compile e).run.run
      ((Setup.ofFields settings hacyclic fields).bare (ofFields settings defs fields).2.builder) := by
    rw [Setup.ofFields_nil settings hacyclic fields]
    rfl
  have hdepth : ∀ i, t.Mentions i → height defs i < defs.length + 1 :=
    fun i _ => Nat.lt_succ_of_le (height_le defs i)
  have hcopies : (Setup.ofFields settings hacyclic fields).Copies (ofFields settings defs fields).2
      (t.compileWith (compileShared (defs.length + 1))) (Setup.compile e) :=
    h.copies (σ := Setup.ofFields settings hacyclic fields) ht hdepth
      (Setup.fits_ofFields settings hacyclic fields)
  rw [program_eq, program_eq, hadd, hadd', Setup.ofFields_nil settings hacyclic fields]
  rcases hcopies.evaluate (Setup.fits_ofFields settings hacyclic fields)
      (Setup.neat_ofFields settings hacyclic fields) hdone hcode hcode with
    ⟨err, c₁, c₂, hx, hy⟩ | ⟨f, c₁, g, c₂, hx, hy, heval⟩
  · rw [hx, hy]
    exact .inl ⟨err, rfl, rfl⟩
  · rw [hx, hy]
    refine .inr ⟨_, _, rfl, rfl, fun row m => ?_⟩
    rw [result_run, result_run]
    exact heval _

/-- Sharing is transparent. A term whose references have the types of their definitions, over built-in
operators that neither advance a sequence nor draw random numbers, and its expansion fail to compile with
one error, or their programs have one outcome on every row and from every state. Every definition is
compiled at the first reference to it and never again, also by later requests. -/
theorem sharing_transparent (settings : Settings) (fields : List (String × SqlType))
    (hacyclic : Acyclic defs) (ht : t.Shareable defs) :
    Expands defs t (t.expand defs) ∧
    ((∃ err, t.program settings defs fields = .error err ∧
        (t.expand defs).program settings [] fields = .error err) ∨
      ∃ p q, t.program settings defs fields = .ok p ∧
        (t.expand defs).program settings [] fields = .ok q ∧
        ∀ (row : List Value) (m : Machine), ((p.run row).result m).1 = ((q.run row).result m).1) ∧
    (∀ c : Compilation, c.definitions = defs → c.EmitsOnce defs) ∧
    ∀ requests more : List Request,
      let s := (Session.start settings defs).serveAll requests
      s.compilation.recorded.Nodup ∧
        (∀ i f, s.compilation.Provides i f → (s.serveAll more).compilation.Provides i f) ∧
        ∀ u f c, s.compilation.add u = (.ok f, c) → ∀ i, u.Reaches defs i →
          ∃ g, c.Provides i g := by
  have hexpands := expands_expand hacyclic ht
  exact ⟨hexpands, hexpands.program hacyclic ht settings fields, fun c hd => emitsOnce hacyclic hd,
    Session.provides_serveAll settings hacyclic⟩

/-- A square that is used twice by another definition and once more by the term: it is emitted once, so the
block is shorter than that of the expansion. -/
theorem sharing_transparent_square :
    let type := Kind.integer.type true
    let square : Term := .call (.builtin .multiply) type [.input 0 type, .input 0 type]
    let double : Term := .call (.builtin .plus) type [.shared 0 type, .shared 0 type]
    let triple : Term := .call (.builtin .plus) type [.shared 1 type, .shared 0 type]
    let defs := [square, double]
    let fields := [("x", type)]
    Acyclic defs ∧ triple.Shareable defs ∧
      triple.expand defs = .call (.builtin .plus) type
        [.call (.builtin .plus) type [square, square], square] ∧
      ∃ p q, triple.program {} defs fields = .ok p ∧
        (triple.expand defs).program {} [] fields = .ok q ∧ p.block.length < q.block.length ∧
        ∀ (row : List Value) (m : Machine), ((p.run row).result m).1 = ((q.run row).result m).1 := by
  intro type square double triple defs fields
  have hinput : (Term.input 0 type).Shareable defs := by
    rintro s ⟨⟩
    exact ⟨fun _ _ h => (nomatch h), fun _ _ _ h => (nomatch h)⟩
  have hsquare : square.Shareable defs :=
    shareable_call.2 ⟨⟨_, rfl, by decide⟩, by simp [hinput]⟩
  have hshared₀ : (Term.shared 0 type).Shareable defs := shareable_shared.2 ⟨square, rfl, rfl, hsquare⟩
  have hdouble : double.Shareable defs :=
    shareable_call.2 ⟨⟨_, rfl, by decide⟩, by simp [hshared₀]⟩
  have hshared₁ : (Term.shared 1 type).Shareable defs := shareable_shared.2 ⟨double, rfl, rfl, hdouble⟩
  have htriple : triple.Shareable defs :=
    shareable_call.2 ⟨⟨_, rfl, by decide⟩, by simp [hshared₀, hshared₁]⟩
  have hacyclic : Acyclic defs := by
    refine acyclic_of_refers_lt fun i j hij => ?_
    obtain ⟨u, hu, hj⟩ := hij
    match i with
    | 0 =>
      obtain rfl : u = .call (.builtin .multiply) type [.input 0 type, .input 0 type] :=
        (Option.some.inj hu).symm
      cases hj with
      | operand hmem hj =>
        obtain rfl : _ = Term.input 0 type := by simpa using hmem
        cases hj
    | 1 =>
      obtain rfl : u = .call (.builtin .plus) type [.shared 0 type, .shared 0 type] :=
        (Option.some.inj hu).symm
      cases hj with
      | operand hmem hj =>
        obtain rfl : _ = Term.shared 0 type := by simpa using hmem
        cases hj
        exact Nat.zero_lt_one
    | i + 2 => cases hu
  have hblock : (triple.program {} defs fields).map (·.block.length) = .ok 6 := by
    subst triple defs fields double square type
    decide +kernel
  have hblock' : ((triple.expand defs).program {} [] fields).map (·.block.length) = .ok 10 := by
    subst triple defs fields double square type
    decide +kernel
  refine ⟨hacyclic, htriple, rfl, ?_⟩
  obtain ⟨-, ⟨err, herr, -⟩ | ⟨p, q, hp, hq, hrun⟩, -⟩ := sharing_transparent {} fields hacyclic htriple
  · rw [herr] at hblock
    cases hblock
  · rw [hp] at hblock
    rw [hq] at hblock'
    refine ⟨p, q, hp, hq, ?_, hrun⟩
    have hlength : p.block.length = 6 := Except.ok.inj hblock
    have hlength' : q.block.length = 10 := Except.ok.inj hblock'
    omega

end Term

end SqlCode
