import SqlCode.Proofs.Correctness

/-!
# Shared definitions are compiled once

A compilation records the result of every definition that it has compiled. A recorded definition stays
recorded, and a reference to it emits nothing, however deep it stands and whatever was requested in between.
A term that compiles leaves all definitions recorded that it reaches.

* `Term.Reaches`: the definitions that a term refers to, directly or through others;
* `Term.Acyclic`: no definition leads back to itself;
* `Compilation.Records`, `Compilation.Closed`: what a step adds to the record, and that with a definition
  those are recorded that it reaches;
* `Term.invariant_unrecorded`, `Term.invariant_records`: both for the steps of compilation;
* `Compilation.Provides`: references to a definition emit nothing;
* `Session.Logged`, `Session.Logged.serveAll`: sequences of requests.
-/

namespace SqlCode

variable {c c' : Compilation} {defs : List Term} {i j : Nat}

/-! ### Which definitions a term reaches -/

namespace Term

/-- The term refers to the definition, in itself or through other definitions. -/
def Reaches (defs : List Term) (t : Term) (i : Nat) : Prop :=
  ∃ type, Occurs defs (.shared i type) t

/-- No chain of references leads from a definition back to itself. -/
def Acyclic (defs : List Term) : Prop := ∀ i, ¬ Relation.TransGen (Refers defs) i i

theorem acyclic_of_refers_lt (h : ∀ i j, Refers defs i j → j < i) : Acyclic defs := by
  have hlt : ∀ i j, Relation.TransGen (Refers defs) i j → j < i := by
    intro i j hij
    induction hij with
    | single hij => exact h i _ hij
    | tail _ hjk ih => exact (h _ _ hjk).trans ih
  exact fun i hi => lt_irrefl i (hlt i i hi)

theorem reaches_shared {type : SqlType} :
    (Term.shared j type).Reaches defs i ↔
      i = j ∨ ∃ t, defs[j]? = some t ∧ t.Reaches defs i := by
  constructor
  · rintro ⟨type', h⟩
    cases h with
    | self => exact .inl rfl
    | shared ht h => exact .inr ⟨_, ht, type', h⟩
  · rintro (rfl | ⟨t, ht, type', h⟩)
    · exact ⟨type, .self⟩
    · exact ⟨type', .shared ht h⟩

theorem reaches_call {op : Operator} {type : SqlType} {operands : List Term} :
    (Term.call op type operands).Reaches defs i ↔
      ∃ t ∈ operands, t.Reaches defs i := by
  constructor
  · rintro ⟨type', h⟩
    cases h with
    | operand ht h => exact ⟨_, ht, type', h⟩
  · rintro ⟨t, ht, type', h⟩
    exact ⟨type', .operand ht h⟩

/-- What a definition reaches is at the end of a chain of references. -/
theorem Reaches.transGen {t : Term} (h : t.Reaches defs j)
    (ht : defs[i]? = some t) : Relation.TransGen (Refers defs) i j := by
  obtain ⟨type, h⟩ := h
  -- from a part of a definition, the chain starts with what the part mentions
  have hchain : ∀ {u : Term}, Occurs defs (.shared j type) u →
      ∀ {k : Nat}, (∀ l, u.Mentions l → Refers defs k l) →
        Relation.TransGen (Refers defs) k j := by
    intro u hu
    induction hu with
    | self => exact fun hk => .single (hk j .shared)
    | @shared l _ u' hdef _ ih =>
      intro k hk
      exact .head (hk l .shared) (ih fun l' hl' => ⟨u', hdef, hl'⟩)
    | operand hmem _ ih => exact fun hk => ih fun l hl => hk l (.operand hmem hl)
  exact hchain h fun l hl => ⟨t, ht, hl⟩

end Term

/-! ### The record of a compilation -/

namespace Compilation

variable {c'' : Compilation}

/-- The definitions whose results are recorded. -/
def recorded (c : Compilation) : List Nat := c.done.map Prod.fst

/-- The second compilation has recorded some more definitions, once each. -/
structure Records (c c' : Compilation) : Prop where
  definitions : c'.definitions = c.definitions
  done : ∃ new : List (Nat × Flagged), c'.done = new ++ c.done ∧ (new.map Prod.fst).Nodup ∧
    ∀ i ∈ new.map Prod.fst, i ∉ c.recorded

/-- With a definition, those are recorded that it reaches. -/
def Closed (c : Compilation) : Prop :=
  ∀ i ∈ c.recorded, ∀ t, c.definitions[i]? = some t → ∀ j, t.Reaches c.definitions j → j ∈ c.recorded

theorem Records.of_eq (hd : c'.definitions = c.definitions) (h : c'.done = c.done) : c.Records c' :=
  ⟨hd, [], by simp [h]⟩

theorem Records.refl (c : Compilation) : c.Records c := .of_eq rfl rfl

theorem Records.subset (h : c.Records c') : c.recorded ⊆ c'.recorded := by
  obtain ⟨-, new, hnew, -, -⟩ := h
  intro i hi
  simp only [recorded, hnew, List.map_append]
  exact List.mem_append_right _ hi

theorem Records.trans (h : c.Records c') (h' : c'.Records c'') : c.Records c'' := by
  have hsubset := h.subset
  obtain ⟨hd, new, hnew, hnodup, hmem⟩ := h
  obtain ⟨hd', new', hnew', hnodup', hmem'⟩ := h'
  refine ⟨hd'.trans hd, new' ++ new, by rw [hnew', hnew, List.append_assoc], ?_, fun i hi => ?_⟩
  · rw [List.map_append]
    refine hnodup'.append hnodup fun i hi hi' => hmem' i hi ?_
    simp only [recorded, hnew, List.map_append]
    exact List.mem_append_left _ hi'
  · rw [List.map_append] at hi
    exact (List.mem_append.1 hi).elim (fun hi hc => hmem' i hi (hsubset hc)) (hmem i)

theorem Records.nodup (h : c.Records c') (hc : c.recorded.Nodup) : c'.recorded.Nodup := by
  obtain ⟨-, new, hnew, hnodup, hmem⟩ := h
  simp only [recorded, hnew, List.map_append]
  exact hnodup.append hc hmem

theorem mem_recorded_iff : i ∈ c.recorded ↔ ∃ f, c.done.lookup i = some f := by
  constructor
  · intro hi
    obtain ⟨p, hp, rfl⟩ := List.mem_map.1 hi
    cases hl : c.done.lookup p.1 with
    | some f => exact ⟨f, rfl⟩
    | none => exact absurd rfl (List.lookup_eq_none_iff.1 hl p hp |> bne_iff_ne.1 |>.symm)
  · rintro ⟨f, hf⟩
    exact List.mem_map.2 ⟨_, mem_done_of_lookup hf, rfl⟩

theorem Records.lookup (h : c.Records c') {f : Flagged} (hf : c.done.lookup i = some f) :
    c'.done.lookup i = some f := by
  obtain ⟨-, new, hnew, -, hmem⟩ := h
  have hnone : new.lookup i = none := by
    rw [List.lookup_eq_none_iff]
    intro p hp
    rw [bne_iff_ne]
    rintro rfl
    exact hmem p.1 (List.mem_map_of_mem hp) (mem_recorded_iff.2 ⟨f, hf⟩)
  rw [hnew, List.lookup_append, hnone, Option.none_or, hf]

end Compilation

/-! ### Steps of compilation -/

namespace Term

open Compilation Compile

/-- Compiling a term that does not reach a definition does not record it. -/
theorem invariant_unrecorded (defs : List Term) (i : Nat) :
    Invariant (fun t => ¬ t.Reaches defs i) (·.definitions = defs)
      (fun c c' => c'.definitions = c.definitions ∧ (i ∈ c'.recorded → i ∈ c.recorded)) fun _ _ _ => True where
  refl _ := ⟨rfl, id⟩
  trans h h' := ⟨h'.1.trans h.1, fun hi => h.2 (h'.2 hi)⟩
  after hc h := h.1.trans hc
  mono _ _ := trivial
  operands ht t hmem hi := ht (reaches_call.2 ⟨t, hmem, hi⟩)
  definition hc ht hdef hi := ht (reaches_shared.2 (.inr ⟨_, hc ▸ hdef, hi⟩))
  literal _ _ _ := trivial
  input _ _ _ := trivial
  call _ _ _ _ _ := ⟨⟨rfl, id⟩, trivial⟩
  done _ _ _ := trivial
  share _ _ ht _ _ _ _ _ := ⟨⟨rfl, fun hi => (List.mem_cons.1 hi).resolve_left fun h =>
    ht (reaches_shared.2 (.inl h))⟩, trivial⟩

/-- Compiling a term records definitions. If the record was closed it stays closed, and then all definitions are
recorded that the term reaches. -/
theorem invariant_records (hacyclic : Acyclic defs) (closed : Prop) :
    Invariant (fun _ => True) (fun c => c.definitions = defs ∧ (closed → c.Closed))
      (fun c c' => c.Records c' ∧ (closed → c'.Closed))
      fun t _ c => closed → ∀ i, t.Reaches defs i → i ∈ c.recorded where
  refl hc := ⟨.refl _, hc.2⟩
  trans h h' := ⟨h.1.trans h'.1, h'.2⟩
  after hc h := ⟨h.1.definitions.trans hc.1, h.2⟩
  mono ht h hclosed i hi := h.1.subset (ht hclosed i hi)
  operands _ _ _ := trivial
  definition _ _ _ := trivial
  literal _ _ _ _ := fun _ ⟨_, h⟩ => nomatch h
  input _ _ _ _ := fun _ ⟨_, h⟩ => nomatch h
  call hc _ _ hargs _ := by
    refine ⟨⟨.of_eq rfl rfl, hc.2⟩, fun hclosed i hi => ?_⟩
    obtain ⟨t, ht, hi⟩ := reaches_call.1 hi
    exact forall_mem_of_forall₂ hargs.flip (fun _ _ h => h) t ht hclosed i hi
  done {c i f} _ hc hf hclosed j hj := by
    have hi : i ∈ c.recorded := mem_recorded_iff.2 ⟨f, hf⟩
    rcases reaches_shared.1 hj with rfl | ⟨t, ht, hj⟩
    · exact hi
    · exact hc.2 hclosed i hi t (hc.1 ▸ ht) j (hc.1 ▸ hj)
  share {c c' depth i t f} type hc _ hnone hdef hrun hg ht := by
    rw [hc.1] at hdef
    have hd : c'.definitions = defs := hg.1.definitions.trans hc.1
    -- the definition itself is new: it was not recorded before, and it does not reach itself
    have hnew : i ∉ c'.recorded := by
      have hun := invariant_unrecorded defs i
      obtain ⟨⟨-, hold⟩, -⟩ := hun.compileWith (hun.compileShared depth) hc.1 fun hi => hacyclic i (hi.transGen hdef)
      rw [hrun] at hold
      intro hi
      obtain ⟨g, hg⟩ := mem_recorded_iff.1 (hold hi)
      rw [hnone] at hg
      cases hg
    have hall : closed → ∀ j, (Term.shared i type).Reaches defs j →
        j ∈ ({ c' with done := (i, f) :: c'.done } : Compilation).recorded := by
      intro hclosed j hj
      rcases reaches_shared.1 hj with rfl | ⟨t', ht', hj⟩
      · exact List.mem_cons_self
      · obtain rfl := Option.some.inj (hdef.symm.trans ht')
        exact List.mem_cons_of_mem _ (ht hclosed j hj)
    refine ⟨⟨⟨rfl, [(i, f)], by simp [hnew]⟩, fun hclosed j hj u hu k hk => ?_⟩, hall⟩
    rcases List.mem_cons.1 hj with rfl | hj
    · exact hall hclosed k (reaches_shared.2 (.inr ⟨u, hd ▸ hu, hd ▸ hk⟩))
    · exact List.mem_cons_of_mem _ (hg.2 hclosed j hj u hu k hk)

theorem records_compileWith (hacyclic : Acyclic defs) (hd : c.definitions = defs) (depth : Nat)
    (t : Term) : c.Records ((t.compileWith (compileShared depth)).run.run c).2 :=
  have hinv := invariant_records hacyclic False
  (hinv.compileWith (hinv.compileShared depth) ⟨hd, False.elim⟩ trivial).1.1

/-- Compiling a term adds to a closed record what the term reaches. -/
theorem keeps_compile (hacyclic : Acyclic defs) (hd : c.definitions = defs) (hclosed : c.Closed)
    (t : Term) : Keeps (fun c c' => c.Records c' ∧ c'.Closed) c t.compile fun _ c' =>
      ∀ i, t.Reaches defs i → i ∈ c'.recorded := by
  obtain ⟨⟨hr, hclosed⟩, hall⟩ := (invariant_records hacyclic True).compile ⟨hd, fun _ => hclosed⟩ (t := t) trivial
  exact ⟨⟨hr, hclosed trivial⟩, fun f hf => hall f hf trivial⟩

end Term

/-! ### Definitions that are there already -/

namespace Compilation

open Term

variable {f : Flagged}

/-- A reference to the definition gives the result, and the compilation stays as it is: no code is emitted. -/
def Provides (c : Compilation) (i : Nat) (f : Flagged) : Prop :=
  ∀ depth, (compileShared (depth + 1) i).run.run c = (.ok f, c)

theorem provides_of_lookup (h : c.done.lookup i = some f) : c.Provides i f := run_compileShared_of_lookup h

/-- A reference that succeeds finds the definition recorded, or it compiles and records it. -/
theorem cases_of_compileShared {depth : Nat} (h : (compileShared depth i).run.run c = (.ok f, c')) :
    c.done.lookup i = some f ∧ c' = c ∨ ∃ k t c₁, depth = k + 1 ∧ c.done.lookup i = none ∧
      c.definitions[i]? = some t ∧ (t.compileWith (compileShared k)).run.run c = (.ok f, c₁) ∧
      c' = { c₁ with done := (i, f) :: c₁.done } := by
  cases depth with
  | zero => cases (Prod.mk.inj h).1
  | succ k =>
    cases hlookup : c.done.lookup i with
    | some g =>
      rw [provides_of_lookup hlookup k] at h
      cases h
      exact .inl ⟨rfl, rfl⟩
    | none =>
      cases hdef : c.definitions[i]? with
      | none =>
        rw [compileShared, Compile.run_get_bind] at h
        simp only [hlookup, hdef] at h
        cases (Prod.mk.inj h).1
      | some t =>
        rw [run_compileShared_of_none hlookup hdef] at h
        rcases hp : (t.compileWith (compileShared k)).run.run c with ⟨_ | g, c₁⟩ <;> rw [hp] at h <;> cases h
        exact .inr ⟨k, t, c₁, rfl, rfl, rfl, hp, rfl⟩

theorem Provides.lookup (h : c.Provides i f) (hacyclic : Acyclic c.definitions) :
    c.done.lookup i = some f := by
  obtain ⟨hf, -⟩ | ⟨k, t, c₁, -, -, -, hp, hc⟩ := cases_of_compileShared (h 0)
  · exact hf
  · -- the record would have grown
    have hr := records_compileWith hacyclic rfl k t
    rw [hp] at hr
    obtain ⟨-, new, hnew : c₁.done = _, -⟩ := hr
    have hlen := congrArg (·.done.length) hc
    simp only [hnew, List.length_cons, List.length_append] at hlen
    omega

/-- What has been compiled once is provided. -/
theorem provides_of_compileShared {depth : Nat} (h : (compileShared depth i).run.run c = (.ok f, c')) :
    c'.Provides i f := by
  obtain ⟨hf, rfl⟩ | ⟨_, _, _, -, -, -, -, rfl⟩ := cases_of_compileShared h
  · exact provides_of_lookup hf
  · exact provides_of_lookup List.lookup_cons_self

theorem Records.provides (h : c.Records c') (hacyclic : Acyclic c.definitions)
    (hi : c.Provides i f) : c'.Provides i f :=
  provides_of_lookup (h.lookup (hi.lookup hacyclic))

/-- In the compilation, a definition is compiled at the first reference to it and never again. -/
structure EmitsOnce (defs : List Term) (c : Compilation) : Prop where
  /-- The first reference emits the code of the definition. -/
  first : ∀ i t, defs[i]? = some t → (∀ f, ¬ c.Provides i f) → ∀ depth,
    ((compileShared (depth + 1) i).run.run c).2.builder =
      ((t.compileWith (compileShared depth)).run.run c).2.builder
  /-- From the first one that succeeds, references emit nothing. -/
  again : ∀ depth i f c', (compileShared depth i).run.run c = (.ok f, c') → c'.Provides i f
  /-- That stays so whatever is compiled in between, also if it fails. -/
  keeps : ∀ i f, c.Provides i f → ∀ depth (t : Term),
    ((t.compileWith (compileShared depth)).run.run c).2.Provides i f

theorem emitsOnce (hacyclic : Acyclic defs) (hd : c.definitions = defs) :
    c.EmitsOnce defs := by
  refine ⟨fun i t hdef hnone depth => ?_, fun _ _ _ _ => provides_of_compileShared, fun i f hi depth t =>
    (records_compileWith hacyclic hd depth t).provides (hd ▸ hacyclic) hi⟩
  cases hlookup : c.done.lookup i with
  | some f => exact absurd (provides_of_lookup hlookup) (hnone f)
  | none =>
    rw [run_compileShared_of_none hlookup (hd ▸ hdef)]
    rcases (t.compileWith (compileShared depth)).run.run c with ⟨r, c₁⟩
    cases r <;> rfl

end Compilation

/-! ### Sequences of requests -/

namespace Session

open Compilation

variable {s : Session}

/-- The record of the session is closed and has every definition at most once. -/
structure Logged (defs : List Term) (s : Session) : Prop where
  definitions : s.compilation.definitions = defs
  closed : s.compilation.Closed
  nodup : s.compilation.recorded.Nodup

theorem logged_start (settings : Settings) (defs : List Term) :
    (start settings defs).Logged defs :=
  ⟨rfl, fun _ hi => absurd hi List.not_mem_nil, List.nodup_nil⟩

theorem Logged.serve (h : s.Logged defs) (hacyclic : Term.Acyclic defs) (r : Request) :
    (s.serve r).Logged defs ∧
      s.compilation.Records (s.serve r).compilation := by
  cases r with
  | field name type => exact ⟨⟨h.definitions, h.closed, h.nodup⟩, .of_eq rfl rfl⟩
  | term t =>
    obtain ⟨⟨hr, hclosed⟩, -⟩ := Term.keeps_compile hacyclic h.definitions h.closed t
    have hserve : _ = (t.compile.run.run s.compilation).2 := (s.serve_term t).1
    rw [← hserve] at hr hclosed
    exact ⟨⟨hr.definitions.trans h.definitions, hclosed, hr.nodup h.nodup⟩, hr⟩

theorem Logged.serveAll (h : s.Logged defs) (hacyclic : Term.Acyclic defs)
    (requests : List Request) : (s.serveAll requests).Logged defs ∧
      s.compilation.Records (s.serveAll requests).compilation := by
  induction requests generalizing s with
  | nil => exact ⟨h, .refl _⟩
  | cons r rest ih =>
    obtain ⟨h₁, hr₁⟩ := h.serve hacyclic r
    obtain ⟨h₂, hr₂⟩ := ih h₁
    exact ⟨h₂, hr₁.trans hr₂⟩

/-- In every session a definition is recorded at most once, what is provided stays so through further
requests, and a term that compiles leaves all definitions provided that it reaches. -/
theorem provides_serveAll (settings : Settings) (hacyclic : Term.Acyclic defs)
    (requests more : List Request) :
    let s := (start settings defs).serveAll requests
    s.compilation.recorded.Nodup ∧
      (∀ i f, s.compilation.Provides i f → (s.serveAll more).compilation.Provides i f) ∧
      ∀ t f c, s.compilation.add t = (.ok f, c) → ∀ i, t.Reaches defs i → ∃ g, c.Provides i g := by
  intro s
  have hs : s.Logged defs :=
    ((logged_start settings defs).serveAll hacyclic requests).1
  refine ⟨hs.nodup, fun i f hi => ?_, fun t f c hadd i hi => ?_⟩
  · exact (hs.serveAll hacyclic more).2.provides (hs.definitions ▸ hacyclic) hi
  · have hadd' : t.compile.run.run s.compilation = (.ok f, c) := hadd
    have hrecorded := (Term.keeps_compile hacyclic hs.definitions hs.closed t).2
    rw [hadd'] at hrecorded
    obtain ⟨g, hg⟩ := mem_recorded_iff.1 (hrecorded f rfl i hi)
    exact ⟨g, provides_of_lookup hg⟩

end Session

end SqlCode
