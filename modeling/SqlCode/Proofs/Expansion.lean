import SqlCode.Proofs.SharedOnce

/-!
# Expanding references

A reference to a shared definition stands for the definition. Replacing all references, also those in the
definitions, gives the expansion of a term; an acyclic table has one for every term whose references are in
range.
-/

namespace SqlCode

namespace Term

mutual

/-- The term with its references replaced. -/
def expandWith (shared : Nat → SqlType → Term) : Term → Term
  | .literal v type => .literal v type
  | .input i type => .input i type
  | .shared i type => shared i type
  | .call op type operands => .call op type (expandAllWith shared operands)
termination_by structural t => t

/-- The terms with their references replaced. -/
def expandAllWith (shared : Nat → SqlType → Term) : List Term → List Term
  | [] => []
  | t :: ts => expandWith shared t :: expandAllWith shared ts
termination_by structural ts => ts

end

/-- A reference replaced by its definition, through at most `depth` nested definitions. -/
def expandShared (defs : List Term) : Nat → Nat → SqlType → Term
  | 0, i, type => .shared i type
  | depth + 1, i, type =>
    match defs[i]? with
    | some t => t.expandWith (expandShared defs depth)
    | none => .shared i type

/-- The term with every reference replaced by its definition, and so on in the definitions. -/
def expand (defs : List Term) (t : Term) : Term :=
  t.expandWith (expandShared defs defs.length)

/-- The second term is the first one with every reference replaced by the expansion of its definition. -/
inductive Expands (defs : List Term) : Term → Term → Prop
  | literal {v : Value} {type : SqlType} : Expands defs (.literal v type) (.literal v type)
  | input {i : Nat} {type : SqlType} : Expands defs (.input i type) (.input i type)
  | shared {i : Nat} {type : SqlType} {t e : Term} :
      defs[i]? = some t → Expands defs t e → Expands defs (.shared i type) e
  | call {op : Operator} {type : SqlType} {operands es : List Term} :
      operands.length = es.length → (∀ p ∈ operands.zip es, Expands defs p.1 p.2) →
      Expands defs (.call op type operands) (.call op type es)

/-- Every reference names a definition of its type, and every operator is a built-in one that neither
advances a sequence nor draws random numbers, in the term and in the definitions that it reaches. -/
def Shareable (defs : List Term) (t : Term) : Prop :=
  ∀ s, Occurs defs s t →
    (∀ i type, s = .shared i type → ∃ u, defs[i]? = some u ∧ u.type = type) ∧
    ∀ op type operands, s = .call op type operands →
      ∃ b, op = .builtin b ∧ b ∉ [.nextValue, .rand, .randInteger]

variable {defs : List Term} {t e e' : Term}

theorem shareable_shared {i : Nat} {type : SqlType} :
    (Term.shared i type).Shareable defs ↔
      ∃ u, defs[i]? = some u ∧ u.type = type ∧ u.Shareable defs := by
  refine forall_occurs_shared.trans ⟨fun h => ?_, ?_⟩
  · obtain ⟨u, hu, htype⟩ := h.1.1 i type rfl
    exact ⟨u, hu, htype, h.2 u hu⟩
  · rintro ⟨u, hu, htype, h⟩
    refine ⟨⟨?_, by simp⟩, fun t ht => ?_⟩
    · rintro _ _ ⟨rfl, rfl⟩
      exact ⟨u, hu, htype⟩
    · obtain rfl := Option.some.inj (hu.symm.trans ht)
      exact h

theorem shareable_call {op : Operator} {type : SqlType} {operands : List Term} :
    (Term.call op type operands).Shareable defs ↔
      (∃ b, op = .builtin b ∧ b ∉ [.nextValue, .rand, .randInteger]) ∧
        ∀ t ∈ operands, t.Shareable defs :=
  forall_occurs_call.trans (and_congr_left' (by simp))

theorem expandAllWith_eq_map (shared : Nat → SqlType → Term) (ts : List Term) :
    expandAllWith shared ts = ts.map (expandWith shared) := by
  induction ts with
  | nil => rfl
  | cons t ts ih => rw [expandAllWith, ih, List.map_cons]

theorem Expands.call_of_forall₂ {op : Operator} {type : SqlType} {operands es : List Term}
    (h : List.Forall₂ (Expands defs) operands es) :
    Expands defs (.call op type operands) (.call op type es) := by
  obtain ⟨hlen, hzip⟩ := List.forall₂_iff_zip.1 h
  exact .call hlen fun p hp => hzip hp

/-- A definition of an acyclic table reaches fewer definitions than there are. -/
theorem height_lt_length (hacyclic : Acyclic defs) {i : Nat} (hi : i < defs.length) :
    height defs i < defs.length := by
  classical
  unfold height
  calc ((Finset.range defs.length).filter (Relation.TransGen (Refers defs) i)).card
      < (Finset.range defs.length).card := by
        refine Finset.card_lt_card (Finset.filter_ssubset.2 ⟨i, Finset.mem_range.2 hi, hacyclic i⟩)
    _ = defs.length := Finset.card_range _

theorem Shareable.lt_length (ht : t.Shareable defs) {i : Nat} (hi : t.Mentions i) :
    i < defs.length := by
  induction hi with
  | shared =>
    obtain ⟨u, hu, -⟩ := shareable_shared.1 ht
    exact (List.getElem?_eq_some_iff.1 hu).1
  | operand hmem _ ih => exact ih ((shareable_call.1 ht).2 _ hmem)

theorem Shareable.height_lt_height (ht : t.Shareable defs) (hacyclic : Acyclic defs)
    {i j : Nat} (hdef : defs[i]? = some t) (hj : t.Mentions j) :
    height defs j < height defs i :=
  height_lt ⟨t, hdef, hj⟩ (ht.lt_length hj) (hacyclic j)

theorem expands_expandWith {shared : Nat → SqlType → Term} (ht : t.Shareable defs)
    (hs : ∀ i type, t.Mentions i → (Term.shared i type).Shareable defs →
      Expands defs (.shared i type) (shared i type)) :
    Expands defs t (t.expandWith shared) := by
  induction t using inductionOn with
  | literal v type => exact .literal
  | input i type => exact .input
  | shared i type => exact hs i type .shared ht
  | call op type operands ih =>
    rw [expandWith, expandAllWith_eq_map]
    refine .call_of_forall₂ (List.forall₂_map_right_iff.2 (List.forall₂_same.2 fun t hmem => ?_))
    exact ih t hmem ((shareable_call.1 ht).2 t hmem) fun i type hi => hs i type (.operand hmem hi)

/-- A definition nested less deeply than `depth` is expanded altogether. -/
theorem expands_expandShared (hacyclic : Acyclic defs) {depth i : Nat} {type : SqlType}
    (hi : (Term.shared i type).Shareable defs) (hdepth : height defs i < depth) :
    Expands defs (.shared i type) (expandShared defs depth i type) := by
  induction depth generalizing i type with
  | zero => exact absurd hdepth (Nat.not_lt_zero _)
  | succ depth ih =>
    obtain ⟨u, hu, -, hshare⟩ := shareable_shared.1 hi
    rw [expandShared, hu]
    -- what the definition mentions has a smaller height, so one level less is enough for it
    refine .shared hu (expands_expandWith hshare fun j type' hj hj' => ih hj' ?_)
    have := hshare.height_lt_height hacyclic hu hj
    omega

theorem expands_expand (hacyclic : Acyclic defs) (ht : t.Shareable defs) :
    Expands defs t (t.expand defs) :=
  expands_expandWith ht fun _ _ hi hi' =>
    expands_expandShared hacyclic hi' (height_lt_length hacyclic (ht.lt_length hi))

theorem Expands.unique (h : Expands defs t e) (h' : Expands defs t e') : e' = e := by
  induction h generalizing e' with
  | literal | input =>
    cases h'
    rfl
  | shared hdef _ ih =>
    cases h' with
    | shared hdef' h' =>
      obtain rfl := Option.some.inj (hdef.symm.trans hdef')
      exact ih h'
  | @call op type operands es hlen _ ih =>
    cases h' with
    | @call _ _ _ es' hlen' hzip' =>
      rw [eq_of_zip_unique hlen hlen' fun p hp e he => ih p hp (hzip' _ he)]

theorem Expands.type_eq (h : Expands defs t e) (ht : t.Shareable defs) :
    e.type = t.type := by
  induction h with
  | literal | input | call => rfl
  | shared hdef _ ih =>
    obtain ⟨u, hu, htype, hshare⟩ := shareable_shared.1 ht
    obtain rfl := Option.some.inj (hdef.symm.trans hu)
    exact (ih hshare).trans htype

/-- A term is a literal through definitions if its expansion is a literal. -/
theorem Expands.literal?_eq (h : Expands defs t e) (hacyclic : Acyclic defs)
    (ht : t.Shareable defs) : t.literal? defs = e.literal? [] := by
  -- references are followed through at most as many definitions as there are, which is deep enough
  have hgo : ∀ n, (∀ i, t.Mentions i → height defs i < n) →
      (resolve.go defs n t).literal? [] = e.literal? [] := by
    induction h with
    | literal | input | call => intro n _; cases n <;> rfl
    | @shared i type u e hdef _ ih =>
      intro n hn
      obtain ⟨u', hu', -, hshare⟩ := shareable_shared.1 ht
      obtain rfl := Option.some.inj (hdef.symm.trans hu')
      have hi := hn i .shared
      obtain ⟨n, rfl⟩ : ∃ k, n = k + 1 := ⟨n - 1, by omega⟩
      rw [resolve.go, hdef]
      refine ih hshare n fun j hj => ?_
      have := hshare.height_lt_height hacyclic hdef hj
      omega
  rw [← hgo _ fun i hi => height_lt_length hacyclic (ht.lt_length hi), literal?, resolve]
  cases resolve.go defs defs.length t <;> rfl

end Term

end SqlCode
