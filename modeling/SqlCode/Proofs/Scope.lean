import SqlCode.Proofs.Footprint
import SqlCode.Proofs.Observation

/-!
# Scoped code

Code is scoped if it declares every variable once, before the variable is used, and writes nothing that it
has not declared. `Code.Scoped` says this along the code, relative to the names that exist around it;
`Block.WellScoped` lists what follows for a block as a whole.

Scoped code that calls no routine with a state of its own runs alike from any two states that agree on the
names around it (`Code.Scoped.runs_alike`), whatever else the variables hold.
-/

namespace SqlCode

namespace Stmt

/-- The name that a statement declares. -/
def declared? : Stmt → Option String
  | .declare s _ => some s.name
  | _ => none

/-- The name that a statement writes itself. -/
def written? : Stmt → Option String
  | .declare s _ | .assign s _ | .invoke s _ _ => some s.name
  | .ite .. | .throw _ => none

/-- The names that a statement reads itself. A change of a container reads the container. -/
def reads : Stmt → List String
  | .declare _ e | .assign _ e => e.reads
  | .invoke s _ args => s.name :: args.flatMap Expr.reads
  | .ite t _ _ => t.reads
  | .throw _ => []

/-- The statement holds no other statements. -/
def isSimple : Stmt → Bool
  | .ite .. => false
  | _ => true

theorem mem_writesAll {code : Block} {s : Stmt} {x : String} (hs : s ∈ code) (hx : x ∈ s.written?) :
    x ∈ writesAll code := by
  rw [writesAll_eq_flatMap]
  refine List.mem_flatMap.2 ⟨s, hs, ?_⟩
  cases s <;> simp_all [writes, written?]

end Stmt

/-- The names that the statements of a block declare. -/
def Block.declared (b : Block) : List String := b.filterMap Stmt.declared?

/-- A block without branches that assigns each of its variables once and reads only variables that exist:
those around it (`outer`), and those that it has declared before. -/
structure Block.WellScoped (outer : List String) (b : Block) : Prop where
  simple : ∀ s ∈ b, s.isSimple
  declared_once : (Block.declared b).Nodup
  declared_fresh : ∀ x ∈ Block.declared b, x ∉ outer
  writes : ∀ s ∈ b, ∀ x ∈ s.written?, x ∉ outer
  reads : ∀ before s after, b = before ++ s :: after →
    ∀ x ∈ s.reads, x ∈ outer ∨ x ∈ Block.declared before

namespace Code

open Run

/-- Code that may stand where the names in `outer` exist and the names in `own` have been declared by the
code before it. Its expressions call routines in `Q` only. -/
inductive Scoped (Q : String → Prop) (outer : Set String) : Set String → Block → Prop
  | nil {own : Set String} : Scoped Q outer own []
  | declare {own : Set String} {s : Slot} {e : Expr} {rest : Block} :
      s.name ∉ outer → s.name ∉ own → e.Uses (fun x => x ∈ outer ∪ own) Q →
      Scoped Q outer (insert s.name own) rest → Scoped Q outer own (.declare s e :: rest)
  | invoke {own : Set String} {s : Slot} {f : String} {args : List Expr} {rest : Block} :
      s.name ∈ own → (∀ a ∈ args, a.Uses (fun x => x ∈ outer ∪ own) Q) →
      Scoped Q outer own rest → Scoped Q outer own (.invoke s f args :: rest)

/-- The names that code declares, as a set. -/
def declaredSet (code : Block) : Set String := {x | x ∈ Block.declared code}

@[simp] theorem declaredSet_nil : declaredSet [] = ∅ := by
  simp [declaredSet, Block.declared]

@[simp] theorem declaredSet_declare (s : Slot) (e : Expr) (rest : Block) :
    declaredSet (.declare s e :: rest) = insert s.name (declaredSet rest) := by
  ext x
  simp [declaredSet, Block.declared, Stmt.declared?]

@[simp] theorem declaredSet_invoke (s : Slot) (f : String) (args : List Expr) (rest : Block) :
    declaredSet (.invoke s f args :: rest) = declaredSet rest := by
  ext x
  simp [declaredSet, Block.declared, Stmt.declared?]

@[simp] theorem declaredSet_append (a b : Block) :
    declaredSet (a ++ b) = declaredSet a ∪ declaredSet b := by
  ext x
  simp [declaredSet, Block.declared]

namespace Scoped

variable {Q : String → Prop} {outer own : Set String} {code rest : Block}

theorem append (h : Scoped Q outer own code)
    (hrest : Scoped Q outer (own ∪ declaredSet code) rest) : Scoped Q outer own (code ++ rest) := by
  induction h with
  | nil => simpa using hrest
  | declare ho hn he _ ih =>
    refine .declare ho hn he (ih ?_)
    rwa [declaredSet_declare, Set.union_insert, ← Set.insert_union] at hrest
  | invoke hs ha _ ih =>
    refine .invoke hs ha (ih ?_)
    rwa [declaredSet_invoke] at hrest

/-- Names around the code may have been declared by the code before it. -/
theorem of_outer {names : Set String} (h : Scoped Q (outer ∪ names) own code) :
    Scoped Q outer (names ∪ own) code := by
  induction h with
  | nil => exact .nil
  | @declare own s e rest ho hn he _ ih =>
    refine .declare (fun hx => ho (.inl hx)) ?_ ?_ ?_
    · rintro (hx | hx)
      · exact ho (.inr hx)
      · exact hn hx
    · rwa [← Set.union_assoc]
    · rwa [Set.union_insert] at ih
  | @invoke own s f args rest hs ha _ ih =>
    refine .invoke (.inr hs) ?_ ih
    rwa [← Set.union_assoc]

/-- More names may exist around the code, as long as the code does not declare them. -/
theorem widen {outer' : Set String} (h : Scoped Q outer own code) (ho : outer ⊆ outer')
    (hd : ∀ x ∈ declaredSet code, x ∉ outer') : Scoped Q outer' own code := by
  have hmono : ∀ own : Set String, ∀ x, x ∈ outer ∪ own → x ∈ outer' ∪ own :=
    fun own x hx => Set.union_subset_union_left own ho hx
  induction h with
  | nil => exact .nil
  | declare _ hn he _ ih =>
    refine .declare (hd _ (by simp)) hn (he.mono (hmono _)) (ih fun x hx => hd x ?_)
    simp [hx]
  | invoke hs ha _ ih =>
    refine .invoke hs (fun a haa => (ha a haa).mono (hmono _)) (ih fun x hx => hd x ?_)
    simpa using hx

/-! ### What holds of scoped code as a whole -/

theorem isSimple (h : Scoped Q outer own code) : ∀ s ∈ code, s.isSimple := by
  induction h with
  | nil => simp
  | declare _ _ _ _ ih | invoke _ _ _ ih => exact List.forall_mem_cons.2 ⟨rfl, ih⟩

theorem declared_fresh (h : Scoped Q outer own code) :
    (Block.declared code).Nodup ∧ ∀ x ∈ Block.declared code, x ∉ outer ∧ x ∉ own := by
  induction h with
  | nil => simp [Block.declared]
  | @declare own s e rest ho hn _ _ ih =>
    have hcons : Block.declared (.declare s e :: rest) = s.name :: Block.declared rest := rfl
    rw [hcons]
    refine ⟨List.nodup_cons.2 ⟨fun hx => (ih.2 _ hx).2 (.inl rfl), ih.1⟩, ?_⟩
    intro x hx
    rcases List.mem_cons.1 hx with rfl | hx
    · exact ⟨ho, hn⟩
    · exact ⟨(ih.2 x hx).1, fun hown => (ih.2 x hx).2 (.inr hown)⟩
  | invoke _ _ _ ih => exact ih

theorem writesAll_notMem (h : Scoped Q outer own code) (hown : ∀ x ∈ own, x ∉ outer) :
    ∀ x ∈ Stmt.writesAll code, x ∉ outer := by
  induction h with
  | nil => simp [Stmt.writesAll]
  | declare ho _ _ _ ih =>
    refine List.forall_mem_cons.2 ⟨ho, ih ?_⟩
    rintro x (rfl | hx)
    · exact ho
    · exact hown x hx
  | invoke hs _ _ ih => exact List.forall_mem_cons.2 ⟨hown _ hs, ih hown⟩

/-- What a statement reads exists around the code or was declared before the statement. -/
theorem reads_subset {before after : Block} {s : Stmt}
    (h : Scoped Q outer own (before ++ s :: after)) :
    ∀ x ∈ s.reads, x ∈ outer ∪ own ∪ declaredSet before := by
  induction before generalizing own with
  | nil =>
    intro x hx
    refine .inl ?_
    cases h with
    | declare _ _ he _ => exact he.1 x hx
    | invoke hs ha _ =>
      rcases List.mem_cons.1 hx with rfl | hx
      · exact .inr hs
      · obtain ⟨a, haa, hx⟩ := List.mem_flatMap.1 hx
        exact (ha a haa).1 x hx
  | cons t before ih =>
    intro x hx
    cases h with
    | @declare _ d _ _ _ _ _ hrest =>
      have := ih hrest x hx
      simp only [declaredSet_declare, Set.mem_union, Set.mem_insert_iff] at this ⊢
      tauto
    | invoke _ _ hrest =>
      rw [declaredSet_invoke]
      exact ih hrest x hx

theorem wellScoped {names : List String} (h : Scoped Q {x | x ∈ names} ∅ code) :
    Block.WellScoped names code where
  simple := h.isSimple
  declared_once := h.declared_fresh.1
  declared_fresh := fun x hx => (h.declared_fresh.2 x hx).1
  writes := fun s hs x hx => h.writesAll_notMem (by simp) x (Stmt.mem_writesAll hs hx)
  reads := by
    rintro before s after rfl x hx
    have := h.reads_subset x hx
    rwa [Set.union_empty] at this

/-! ### Runs from two states -/

/-- Scoped code with steady expressions runs alike from states that agree on the names around it: it ends in
the same way, and if it ends well, the states agree on what was declared too. -/
theorem runs_alike (h : Scoped (· ∉ volatile) outer own code) :
    Alike (Machine.Agrees (· ∈ outer ∪ own)) (Machine.Agrees (· ∈ outer ∪ (own ∪ declaredSet code)))
      (Stmt.execBlock code) (Stmt.execBlock code) := by
  have heval : ∀ own : Set String, ∀ e : Expr, e.Uses (· ∈ outer ∪ own) (· ∉ volatile) →
      Alike (Machine.Agrees (· ∈ outer ∪ own)) (Machine.Agrees (· ∈ outer ∪ own)) e.eval e.eval :=
    fun own e he => Expr.alike_eval (Machine.indistinct_agrees _) he
  induction h with
  | nil =>
    rw [declaredSet_nil, Set.union_empty]
    exact .pure ()
  | @declare own s e rest _ _ he _ ih =>
    rw [declaredSet_declare, Set.union_insert, ← Set.insert_union]
    refine .bind (.bind (heval own e he) fun v => .assign fun m m' hm => ?_) fun _ => ih
    refine (hm.bind s.name v).mono fun x hx => ?_
    simp only [Set.mem_union, Set.mem_insert_iff] at hx ⊢
    tauto
  | @invoke own s f args rest hs ha _ ih =>
    rw [declaredSet_invoke]
    refine .bind (.bind ((closed_alike _).evalAll_self fun a haa => heval own a (ha a haa)) fun vs => ?_)
      fun _ => ih
    exact .mutate (fun _ _ hm => ⟨hm.slots _ (.inr hs), fun _ => rfl⟩)
      (fun _ _ hm v => (hm.bind s.name v).mono fun _ hx => .inl hx) f vs

end Scoped

end Code

end SqlCode
