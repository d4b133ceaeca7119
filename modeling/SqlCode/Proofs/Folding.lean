import SqlCode.Proofs.Dependence

/-!
# The simplifying constructors keep the meaning of their nodes

Whenever a plain node evaluates to a value, the expression that its simplifying constructor builds from
the same operands evaluates to that value, and from the same state to the same state.

The operands are regular: they do not depend on a state that evaluation changes, their constants are
told apart by `Value.same`, and what they evaluate to fits their representation. Dropping or
reordering operands is only sound under these conditions.

* `Value.Fits`, `Expr.Regular`, `Expr.Refines`;
* one lemma for each constructor (`refines_mkBinary`, `refines_mkUnary`, `refines_mkCond`,
  `refines_mkConvert`) and for chains (`refines_chain`).
-/

namespace SqlCode

variable {d : Bool} {v w : Value} {a b e : Expr} {es : List Expr} {cs : List Bool} {p : Prim} {r : Rep}
  {m m' : Machine}

/-! ### Values that `same` tells apart -/

namespace Value

mutual

/-- No double, decimal or map occurs in the value. -/
def isPlain : Value → Bool
  | .float _ | .decimal _ | .map _ => false
  | .list items => allPlain items
  | _ => true
termination_by structural v => v

/-- No double, decimal or map occurs in the values. -/
def allPlain : List Value → Bool
  | [] => true
  | v :: vs => isPlain v && allPlain vs
termination_by structural vs => vs

end

mutual

theorem eq_of_same_of_isPlain : ∀ {v w : Value}, v.isPlain → v.same w → v = w
  | .null, w, _, h => by cases w <;> simp_all [same]
  | .bool _, w, _, h => by cases w <;> simp_all [same]
  | .int _, w, _, h => by cases w <;> simp_all [same]
  | .float _, _, hp, _ => by simp [isPlain] at hp
  | .decimal _, _, hp, _ => by simp [isPlain] at hp
  | .str _, w, _, h => by cases w <;> simp_all [same]
  | .bytes _, w, _, h => by cases w <;> simp_all [same]
  | .list items, w, hp, h => by
    cases w with
    | list items' => rw [eq_of_sameItems_of_allPlain (by simpa [isPlain] using hp) h]
    | _ => simp [same] at h
  | .map _, _, hp, _ => by simp [isPlain] at hp
  | .symbol _, w, _, h => by cases w <;> simp_all [same]

theorem eq_of_sameItems_of_allPlain :
    ∀ {vs ws : List Value}, allPlain vs → sameItems vs ws → vs = ws
  | [], ws, _, h => by cases ws <;> simp_all [sameItems]
  | v :: vs, ws, hp, h => by
    cases ws with
    | nil => simp [sameItems] at h
    | cons w ws =>
      simp only [allPlain, Bool.and_eq_true] at hp
      simp only [sameItems, Bool.and_eq_true] at h
      rw [eq_of_same_of_isPlain hp.1 h.1, eq_of_sameItems_of_allPlain hp.2 h.2]

end

end Value

namespace Expr

/-- No double, decimal or map occurs in a constant of the expression. -/
def Plain (e : Expr) : Prop := ∀ v r, Expr.const v r ∈ e.nodes → v.isPlain

section Plain

theorem Plain.of_nodes {n : Expr} (h : e.Plain) (hn : ∀ x ∈ n.nodes, x ∈ e.nodes) : n.Plain :=
  fun v r hv => h v r (hn _ hv)

theorem eq_of_sameList {fs : List Expr}
    (ih : ∀ e ∈ es, ∀ f, e.same f → e = f) (h : sameList es fs) : es = fs := by
  induction es generalizing fs with
  | nil => cases fs <;> simp_all [sameList]
  | cons e es ihes =>
    cases fs with
    | nil => simp [sameList] at h
    | cons f fs =>
      simp only [sameList, Bool.and_eq_true] at h
      rw [ih e (by simp) f h.1, ihes (fun e' he' => ih e' (by simp [he'])) h.2]

/-- Expressions with plain constants that are the same are equal. -/
theorem eq_of_same_of_plain (hp : a.Plain) (h : a.same b) : a = b := by
  induction a using inductionOn generalizing b <;> cases b <;>
    simp only [same, Bool.and_eq_true, beq_iff_eq, Bool.false_eq_true] at h
  case const.const v r _ _ => rw [Value.eq_of_same_of_isPlain (hp v r (by simp [nodes])) h.1, h.2]
  case slot.slot => rw [h]
  case call.call f args r ih _ _ _ =>
    have hargs := eq_of_sameList (fun a ha b hb => ih a ha (hp.of_nodes fun x hx => by
      simp only [nodes, nodesAll_eq_flatMap, List.mem_cons, List.mem_flatMap]
      exact Or.inr ⟨a, ha, hx⟩) hb) h.1.2
    rw [h.1.1, h.2, hargs]
  case binary.binary op x y r ihx ihy _ _ _ _ =>
    rw [h.1.1.1, h.2, ihx (hp.of_nodes (by simp +contextual [nodes])) h.1.1.2,
      ihy (hp.of_nodes (by simp +contextual [nodes])) h.1.2]
  case unary.unary op x r ih _ _ _ =>
    rw [h.1.1, h.2, ih (hp.of_nodes (by simp +contextual [nodes])) h.1.2]
  case cond.cond t x y r iht ihx ihy _ _ _ _ =>
    rw [h.2, iht (hp.of_nodes (by simp +contextual [nodes])) h.1.1.1,
      ihx (hp.of_nodes (by simp +contextual [nodes])) h.1.1.2,
      ihy (hp.of_nodes (by simp +contextual [nodes])) h.1.2]
  case convert.convert x r ih _ _ => rw [h.2, ih (hp.of_nodes (by simp +contextual [nodes])) h.1]
  case new.new => rw [h]

end Plain

end Expr

/-! ### Values that fit a representation -/

/-- The representation holds the value as it is: unboxed kinds exclude null, values of another kind and
integers out of range. -/
def Value.Fits (v : Value) (r : Rep) : Prop := v.convert r = .ok v

namespace Value

theorem ne_null_of_fits_prim (h : v.Fits (.prim p)) : v ≠ .null := by
  rintro rfl
  simp [Fits, convert] at h

/-- A box makes room for null and changes nothing else. -/
theorem fits_boxed_iff : v.Fits (.boxed p) ↔ v = .null ∨ v.Fits (.prim p) := by
  cases v <;> simp [Fits, convert]

theorem fits_prim_iff : v.Fits (.prim p) ↔ v.toPrim p = .ok v := by
  cases v with
  | null => cases p <;> simp [Fits, convert, toPrim, toFloat?]
  | _ => rfl

/-- Representations that differ at most in a box convert a value that fits one of them alike. -/
theorem convert_of_fits {q : Rep} (h : v.Fits r) (hq : q.unbox = r.unbox)
    (hc : v.convert q = .ok w) : w = v := by
  have hprim : ∀ p, v.convert (.prim p) = .ok w ∨ v.convert (.boxed p) = .ok w →
      v.Fits (.boxed p) → w = v := by
    intro p hw hv
    cases v with
    | null =>
      rcases hw with hw | hw
      · simp [convert] at hw
      · exact (Except.ok.inj hw).symm
    | _ =>
      rcases fits_boxed_iff.1 hv with hv | hv
      · cases hv
      · rcases hw with hw | hw <;> exact Except.ok.inj (hw.symm.trans hv)
  cases r with
  | prim p =>
    cases q <;> simp only [Rep.unbox, Rep.prim.injEq, reduceCtorEq] at hq <;> subst hq
    · exact hprim _ (.inl hc) (fits_boxed_iff.2 (.inr h))
    · exact hprim _ (.inr hc) (fits_boxed_iff.2 (.inr h))
  | boxed p =>
    cases q <;> simp only [Rep.unbox, Rep.prim.injEq, reduceCtorEq] at hq <;> subst hq
    · exact hprim _ (.inl hc) h
    · exact hprim _ (.inr hc) h
  | _ =>
    cases q <;> simp only [Rep.unbox, reduceCtorEq] at hq
    exact Except.ok.inj (hc.symm.trans h)

end Value

/-! ### Regular operands and refinement -/

/-- The value is true, false or null. -/
def Value.IsLogical (v : Value) : Prop := v = .null ∨ ∃ b, v = .bool b

namespace Expr

/-- The expression does not depend on a state that evaluation changes, its constants are told apart by
`same`, and whatever of it evaluates has a value that fits its representation. -/
structure Regular (m : Machine) (e : Expr) : Prop where
  steady : e.Steady
  plain : e.Plain
  fits : ∀ n ∈ e.nodes, ∀ v m', n.eval.result m = (.ok v, m') → v.Fits n.rep

/-- Where the expression evaluates, it is true, false or null. -/
def Logical (m : Machine) (e : Expr) : Prop :=
  ∀ v m', e.eval.result m = (.ok v, m') → v.IsLogical

/-- Where the expression evaluates, it is true or false. -/
def Boolean (m : Machine) (e : Expr) : Prop :=
  ∀ v m', e.eval.result m = (.ok v, m') → ∃ b, v = .bool b

/-- Whenever the first expression evaluates, the second one does, to the same value and state. -/
def Refines (m : Machine) (node folded : Expr) : Prop :=
  ∀ v m', node.eval.result m = (.ok v, m') → folded.eval.result m = (.ok v, m')

theorem Refines.refl (m : Machine) (e : Expr) : Refines m e e := fun _ _ h => h

theorem regular_slot {s : Slot} (h : ∀ v, m.get? s.name = some v → v.Fits s.rep) :
    (Expr.slot s).Regular m := by
  refine ⟨by simp, fun v r hv => by simp [nodes] at hv, fun n hn v m' hv => ?_⟩
  obtain rfl : n = .slot s := by simpa [nodes] using hn
  rw [result_slot] at hv
  cases hs : m.get? s.name with
  | none => simp [hs] at hv
  | some w =>
    simp only [hs, Prod.mk.injEq, Except.ok.injEq] at hv
    exact hv.1 ▸ h w hs

theorem regular_const (hp : v.isPlain) (hf : v.Fits r) :
    (Expr.const v r).Regular m := by
  refine ⟨by simp, fun w q hw => ?_, fun n hn w m' hw => ?_⟩
  · simp only [nodes, List.mem_singleton, Expr.const.injEq] at hw
    exact hw.1 ▸ hp
  · obtain rfl : n = .const v r := by simpa [nodes] using hn
    cases hw
    exact hf

end Expr

/-! ### Connectives

Conjunction and disjunction are one connective each for a deciding truth value: false decides a
conjunction, true a disjunction. -/

namespace Value

/-- What the connective that `d` decides gives for two operands that it has looked at. -/
def connect (d : Bool) (v w : Value) : Value := if d then v.disj w else v.conj w

theorem connect_deciding (d : Bool) (v : Value) : v.connect d (.bool d) = .bool d := by
  cases d <;> cases v <;> rfl

theorem connect_neutral_right (hv : v.IsLogical) (hd : v.isBool d = false) :
    v.connect d (.bool !d) = v := by
  rcases hv with rfl | ⟨b, rfl⟩
  · cases d <;> rfl
  · cases d <;> cases b <;> first | rfl | cases hd

theorem connect_neutral_left (d : Bool) (hw : w.IsLogical) :
    (Value.bool !d).connect d w = w := by
  rcases hw with rfl | ⟨b, rfl⟩
  · cases d <;> rfl
  · cases d <;> cases b <;> rfl

theorem eq_of_applyUnary_not {u : Value} {r' : Rep} (hu : w.applyUnary .not r = .ok u)
    (hv : u.applyUnary .not r' = .ok v) : v = w := by
  cases w <;> simp only [applyUnary, Except.ok.injEq, reduceCtorEq] at hu <;> subst hu
  · exact (Except.ok.inj hv).symm
  · rw [← Except.ok.inj hv, Bool.not_not]

theorem connect_isLogical : (v.connect d w).IsLogical := by
  unfold connect conj disj IsLogical
  split <;> split <;> simp

end Value

namespace Expr

open Run

/-- The connective that `d` decides. -/
def connective (d : Bool) : BinaryOp := if d then .orElse else .andAlso

/-- The chain of a connective over expressions, nested to the left, as plain nodes. -/
def chainNodes (d : Bool) (es : List Expr) : Expr :=
  es.foldl (fun acc e => .binary (connective d) acc e .truth) (bool !d)

theorem result_connective (d : Bool) (a b : Expr) (r : Rep) (m : Machine) :
    (Expr.binary (connective d) a b r).eval.result m =
      andThen (fun v => if v.isBool d then pure v else b.eval >>= fun w => pure (v.connect d w))
        (a.eval.result m) := by
  cases d
  · exact result_andAlso m a b r
  · exact result_orElse m a b r

theorem mkBinary_connective (d : Bool) (a b : Expr) : mkBinary (connective d) a b =
    if a.isConstBool d || b.isConstBool !d then a
    else if a.isConstBool (!d) || b.isConstBool d then b
    else .binary (connective d) a b .truth := by
  cases d <;> rfl

theorem eq_const_of_isConstBool {b : Bool} (h : e.isConstBool b) :
    ∃ r, e = .const (.bool b) r := by
  cases e with
  | const v r =>
    cases v <;> simp [isConstBool] at h
    exact ⟨r, by rw [h]⟩
  | _ => simp [isConstBool] at h

/-- A connective that evaluates has a first operand that evaluates. It decides, or the second operand
evaluates too. -/
theorem result_connective_eq_ok
    (h : (Expr.binary (connective d) a b r).eval.result m = (.ok v, m')) :
    ∃ u m₁, a.eval.result m = (.ok u, m₁) ∧
      ((u.isBool d ∧ v = u ∧ m' = m₁) ∨
        (u.isBool d = false ∧ ∃ w, b.eval.result m₁ = (.ok w, m') ∧ v = u.connect d w)) := by
  rw [result_connective] at h
  obtain ⟨u, m₁, hu, h⟩ := andThen_eq_ok.1 h
  refine ⟨u, m₁, hu, ?_⟩
  cases hd : u.isBool d with
  | true =>
    simp only [hd, if_true, result_pure, Prod.mk.injEq, Except.ok.injEq] at h
    exact .inl ⟨rfl, h.1.symm, h.2.symm⟩
  | false =>
    simp only [hd, Bool.false_eq_true, if_false, result_bind] at h
    obtain ⟨w, m₂, hw, h⟩ := andThen_eq_ok.1 h
    simp only [result_pure, Prod.mk.injEq, Except.ok.injEq] at h
    exact .inr ⟨rfl, w, h.2 ▸ hw, h.1.symm⟩

theorem refines_mkConnective (hs : a.Steady) (ha : a.Logical m)
    (hb : b.Logical m) :
    Refines m (.binary (connective d) a b .truth) (mkBinary (connective d) a b) := by
  intro v m' h
  rw [mkBinary_connective]
  obtain ⟨u, m₁, hu, hv⟩ := result_connective_eq_ok h
  obtain rfl := hs.eq_state hu
  split_ifs with h₁ h₂
  · -- the first operand decides, or the second one does not matter
    rcases hv with ⟨-, rfl, rfl⟩ | ⟨hd, w, hw, rfl⟩
    · exact hu
    · rcases Bool.or_eq_true_iff.1 h₁ with h₁ | h₁
      · obtain ⟨r, rfl⟩ := eq_const_of_isConstBool h₁
        cases hu
        cases d <;> cases hd
      · obtain ⟨r, rfl⟩ := eq_const_of_isConstBool h₁
        cases hw
        rw [Value.connect_neutral_right (ha u _ hu) hd]
        exact hu
  · -- the first operand does not matter, or the second one decides
    rcases Bool.or_eq_true_iff.1 h₂ with h₂ | h₂
    · obtain ⟨r, rfl⟩ := eq_const_of_isConstBool h₂
      cases hu
      rcases hv with ⟨hd, -⟩ | ⟨-, w, hw, rfl⟩
      · cases d <;> cases hd
      · rw [Value.connect_neutral_left d (hb w _ hw)]
        exact hw
    · obtain ⟨r, rfl⟩ := eq_const_of_isConstBool h₂
      rcases hv with ⟨hd, rfl, rfl⟩ | ⟨-, w, hw, rfl⟩
      · rcases ha v _ hu with rfl | ⟨c, rfl⟩
        · cases hd
        · simp only [Value.isBool, beq_iff_eq] at hd
          rw [hd]
          rfl
      · cases hw
        rw [Value.connect_deciding]
        rfl
  · exact h

/-- A connective is logical where its first operand is. -/
theorem logical_connective (ha : a.Logical m) :
    (Expr.binary (connective d) a b r).Logical m := by
  intro v m' h
  obtain ⟨u, m₁, hu, ⟨-, rfl, -⟩ | ⟨-, w, -, rfl⟩⟩ := result_connective_eq_ok h
  · exact ha _ _ hu
  · exact Value.connect_isLogical

/-- Folding one more operand into a chain that has been folded already. -/
theorem refines_mkConnective_of_refines {node folded : Expr} (h : Refines m node folded)
    (hf : folded.Steady) (hl : node.Logical m) (he : e.Logical m) :
    Refines m (.binary (connective d) node e .truth) (mkBinary (connective d) folded e) := by
  intro v m' hv
  obtain ⟨u, m₁, hu, -⟩ := result_connective_eq_ok hv
  have hfu := h u m₁ hu
  -- the folded chain evaluates as the plain one does, so it is logical too
  have hfl : folded.Logical m := by
    intro w m₂ hw
    rw [hfu] at hw
    cases hw
    exact hl u m₁ hu
  refine refines_mkConnective hf hfl he v m' ?_
  rw [result_connective] at hv ⊢
  rwa [hfu, ← hu]

theorem refines_foldl {node folded : Expr}
    (hes : ∀ e ∈ es, e.Steady ∧ e.Logical m) (h : Refines m node folded) (hf : folded.Steady)
    (hl : node.Logical m) :
    Refines m (es.foldl (fun acc e => .binary (connective d) acc e .truth) node)
      (es.foldl (mkBinary (connective d)) folded) := by
  induction es generalizing node folded with
  | nil => exact h
  | cons e es ih =>
    obtain ⟨hs, he⟩ := hes e (by simp)
    exact ih (fun e' he' => hes e' (by simp [he']))
      (refines_mkConnective_of_refines h hf hl he) (Uses.mkBinary hf hs _) (logical_connective hl)

/-- A folded chain refines the chain of plain nodes. -/
theorem refines_chain (hes : ∀ e ∈ es, e.Steady ∧ e.Logical m) :
    Refines m (chainNodes d es) (es.foldl (mkBinary (connective d)) (bool !d)) := by
  refine refines_foldl hes (.refl m _) (uses_bool _) ?_
  intro v m' h
  cases h
  exact .inr ⟨_, rfl⟩

theorem evalsTo_mkConnective {x y : Bool} (ha : a.EvalsTo m (.bool x))
    (hb : b.EvalsTo m (.bool y)) :
    (mkBinary (connective d) a b).EvalsTo m (.bool (bif d then x || y else x && y)) := by
  rw [mkBinary_connective]
  split_ifs with h₁ h₂
  · rcases Bool.or_eq_true_iff.1 h₁ with h | h <;> obtain ⟨r, rfl⟩ := eq_const_of_isConstBool h
    · cases ha
      cases d <;> rfl
    · cases hb
      cases d <;> cases x <;> exact ha
  · rcases Bool.or_eq_true_iff.1 h₂ with h | h <;> obtain ⟨r, rfl⟩ := eq_const_of_isConstBool h
    · cases ha
      cases d <;> exact hb
    · cases hb
      cases d <;> cases x <;> rfl
  · have hrest : (b.eval >>= fun w => pure ((Value.bool x).connect d w)).result m =
        (.ok ((Value.bool x).connect d (.bool y)), m) := by
      rw [result_bind, hb]
      rfl
    rw [EvalsTo, result_connective, ha, andThen_ok]
    cases d <;> cases x <;> first | rfl | exact hrest.trans (by cases y <;> rfl)

theorem evalsTo_foldl_mkConnective {acc : Expr}
    {c : Bool} (hacc : acc.EvalsTo m (.bool c))
    (h : List.Forall₂ (fun e b => e.EvalsTo m (.bool b)) es cs) :
    (es.foldl (mkBinary (connective d)) acc).EvalsTo m
      (.bool (bif d then c || cs.any id else c && cs.all id)) := by
  induction h generalizing acc c with
  | nil => cases d <;> simpa using hacc
  | cons he _ ih =>
    have := ih (evalsTo_mkConnective (d := d) hacc he)
    cases d <;> simpa [Bool.or_assoc, Bool.and_assoc] using this

theorem evalsTo_conj
    (h : List.Forall₂ (fun e b => e.EvalsTo m (.bool b)) es cs) :
    (conj es).EvalsTo m (.bool (cs.all id)) :=
  evalsTo_foldl_mkConnective (d := false) (result_const m (.bool true) .truth) h

theorem evalsTo_disj
    (h : List.Forall₂ (fun e b => e.EvalsTo m (.bool b)) es cs) :
    (disj es).EvalsTo m (.bool (cs.any id)) :=
  evalsTo_foldl_mkConnective (d := true) (result_const m (.bool false) .truth) h

/-! ### Operators on two operands and on one -/

/-- The plain node of an operator on two operands, with the representation that its constructor
computes. -/
def binaryNode (op : BinaryOp) (a b : Expr) : Expr :=
  .binary op a b (if op.isComparison || op.isLogical then .truth else a.rep.arithmetic b.rep)

/-- The plain node of an operator on one operand, with the representation that its constructor
computes. -/
def unaryNode (op : UnaryOp) (e : Expr) : Expr :=
  .unary op e (match op with
    | .negate | .unaryPlus => e.signedRep
    | .not | .isNull | .isNotNull => .truth)

theorem refines_mkBinary {op : BinaryOp} (hs : a.Steady)
    (hl : op.isLogical → a.Logical m ∧ b.Logical m) :
    Refines m (binaryNode op a b) (mkBinary op a b) := by
  cases op
  case andAlso => exact refines_mkConnective (d := false) hs (hl rfl).1 (hl rfl).2
  case orElse => exact refines_mkConnective (d := true) hs (hl rfl).1 (hl rfl).2
  all_goals exact .refl m _

theorem result_unary_eq_ok {op : UnaryOp} :
    (Expr.unary op a r).eval.result m = (.ok v, m') ↔
      ∃ u, a.eval.result m = (.ok u, m') ∧ u.applyUnary op r = .ok v := by
  rw [result_unary, andThen_lift_eq_ok]

theorem refines_mkNot (e : Expr) : Refines m (.unary .not e .truth) e.mkNot := by
  intro v m' h
  obtain ⟨u, hu, hv⟩ := result_unary_eq_ok.1 h
  unfold mkNot
  split
  · cases hu
    cases hv
    rfl
  · -- two negations give back the value of the operand
    obtain ⟨w, hw, hwu⟩ := result_unary_eq_ok.1 hu
    rw [Value.eq_of_applyUnary_not hwu hv]
    exact hw
  · exact h

/-- What is known about an operand being null is right where the operand evaluates. -/
theorem isNull_of_knownNull? {b : Bool} (hk : e.knownNull? = some b)
    (h : e.eval.result m = (.ok v, m')) (hv : v.Fits e.rep) : v.isNull = b := by
  unfold knownNull? at hk
  split_ifs at hk with hp
  · have hne : v ≠ .null := by
      cases hr : e.rep <;> simp [hr, Rep.isPrim] at hp
      exact Value.ne_null_of_fits_prim (hr ▸ hv)
    cases v <;> simp_all [Value.isNull]
  · cases e <;> simp [constant?] at hk
    cases h
    exact hk

/-- A test for null, where its answer may be known. -/
theorem refines_of_knownNull? {op : UnaryOp} {k : Bool → Bool} {folded : Expr} (hs : e.Steady)
    (hf : ∀ v m', e.eval.result m = (.ok v, m') → v.Fits e.rep)
    (hop : ∀ v : Value, v.applyUnary op .truth = .ok (.bool (k v.isNull)))
    (h : folded = .unary op e .truth ∨ ∃ b, e.knownNull? = some b ∧ folded = bool (k b)) :
    Refines m (.unary op e .truth) folded := by
  rcases h with rfl | ⟨b, hb, rfl⟩
  · exact .refl m _
  · intro v m' h
    obtain ⟨u, hu, hv⟩ := result_unary_eq_ok.1 h
    rw [hop, isNull_of_knownNull? hb hu (hf u m' hu)] at hv
    rw [← Except.ok.inj hv, hs.eq_state hu]
    rfl

theorem refines_mkIsNotNull (hs : e.Steady)
    (hf : ∀ v m', e.eval.result m = (.ok v, m') → v.Fits e.rep) :
    Refines m (.unary .isNotNull e .truth) e.mkIsNotNull := by
  refine refines_of_knownNull? hs hf (fun _ => rfl) ?_
  cases hk : e.knownNull? <;> simp [mkIsNotNull, hk]

theorem refines_mkUnary {op : UnaryOp} (he : e.Regular m) :
    Refines m (unaryNode op e) (mkUnary op e) := by
  have hf := he.fits e (self_mem_nodes e)
  cases op
  · exact .refl m _
  · exact .refl m _
  · exact refines_mkNot e
  · refine refines_of_knownNull? (k := id) he.steady hf (fun _ => rfl) ?_
    cases hk : e.knownNull? <;> simp [mkUnary, mkIsNull, hk]
  · exact refines_mkIsNotNull he.steady hf

/-! ### Choices -/

/-- The plain node of a choice, with the representation that its constructor computes. -/
def condNode (t a b : Expr) : Expr := .cond t a b (choiceRep a b)

/-- A choice whose test holds or fails is the branch that the test selects. -/
theorem result_mkCond {t : Expr} {c : Bool} (ht : t.EvalsTo m (.bool c))
    (hs : c = false → a.same b → a.eval.result m = b.eval.result m) :
    (mkCond t a b).eval.result m = (bif c then a else b).eval.result m := by
  unfold mkCond
  split
  · cases ht
    cases c <;> rfl
  · split_ifs with h₁ h₂ h₃
    · cases c
      · exact hs rfl h₁
      · rfl
    · obtain ⟨r, rfl⟩ := eq_const_of_isConstBool h₂.2.2.1
      obtain ⟨r', rfl⟩ := eq_const_of_isConstBool h₂.2.2.2
      rw [ht]
      cases c <;> rfl
    · obtain ⟨r, rfl⟩ := eq_const_of_isConstBool h₃.2.2.1
      obtain ⟨r', rfl⟩ := eq_const_of_isConstBool h₃.2.2.2
      rw [refines_mkNot t (.bool !c) m (result_unary_eq_ok.2 ⟨_, ht, rfl⟩)]
      cases c <;> rfl
    · rw [result_cond, ht, andThen_ok]
      cases c <;> rfl

theorem refines_mkCond {t : Expr} (hs : t.Steady) (ht : t.Boolean m) (ha : a.Plain) :
    Refines m (condNode t a b) (mkCond t a b) := by
  intro v m' h
  unfold condNode at h
  rw [result_cond] at h
  obtain ⟨u, m₁, hu, hv⟩ := andThen_eq_ok.1 h
  obtain rfl := hs.eq_state hu
  obtain ⟨c, rfl⟩ := ht u _ hu
  rw [result_mkCond hu fun _ h => by rw [eq_of_same_of_plain ha h]]
  cases c <;> exact hv

/-! ### Conversions -/

theorem rep_mkConvert (e : Expr) (r : Rep) : (e.mkConvert r).rep = r := by
  unfold mkConvert
  split_ifs with h
  · exact h
  · split
    · split <;> rfl
    · unfold reconvert
      split
      · split_ifs with h'
        · exact h'.1
        · rfl
      · rfl

theorem result_convert_eq_ok :
    (Expr.convert a r).eval.result m = (.ok v, m') ↔
      ∃ u, a.eval.result m = (.ok u, m') ∧ u.convert r = .ok v := by
  rw [result_convert, andThen_lift_eq_ok]

theorem refines_reconvert
    (hf : ∀ n ∈ e.nodes, ∀ v m', n.eval.result m = (.ok v, m') → v.Fits n.rep) :
    Refines m (.convert e r) (e.reconvert r) := by
  intro v m' h
  unfold reconvert
  split
  · rename_i inner middle
    split_ifs with hr
    · -- the value of the operand passes through both conversions unchanged
      obtain ⟨u, hu, hv⟩ := result_convert_eq_ok.1 h
      obtain ⟨w, hw, hwu⟩ := result_convert_eq_ok.1 hu
      have hfit := hf inner (by simp [nodes, self_mem_nodes]) w m' hw
      rw [hr.1] at hfit
      obtain rfl := Value.convert_of_fits hfit hr.2 hwu
      rwa [Except.ok.inj (hv.symm.trans hfit)]
    · exact h
  · exact h

theorem refines_mkConvert
    (hf : ∀ n ∈ e.nodes, ∀ v m', n.eval.result m = (.ok v, m') → v.Fits n.rep) :
    Refines m (.convert e r) (e.mkConvert r) := by
  intro v m' h
  unfold mkConvert
  split_ifs with hr
  · obtain ⟨u, hu, hv⟩ := result_convert_eq_ok.1 h
    have hfit := hf e (self_mem_nodes e) u m' hu
    rw [hr] at hfit
    rwa [Except.ok.inj (hv.symm.trans hfit)]
  · split
    · obtain ⟨u, hu, hv⟩ := result_convert_eq_ok.1 h
      cases hu
      rw [hv]
      rfl
    · exact refines_reconvert hf v m' h

/-- The simplifying constructors refine the plain nodes of the same operands: operators, choices,
conversions and chains of connectives. A conversion also has the representation that was asked for. -/
theorem constructors_refine_nodes (m : Machine) :
    (∀ op a b, a.Regular m → b.Regular m → (op.isLogical = true → a.Logical m ∧ b.Logical m) →
        Refines m (binaryNode op a b) (mkBinary op a b)) ∧
    (∀ op e, e.Regular m → Refines m (unaryNode op e) (mkUnary op e)) ∧
    (∀ t a b, t.Regular m → a.Regular m → b.Regular m → t.Boolean m →
        Refines m (condNode t a b) (mkCond t a b)) ∧
    (∀ e r, e.Regular m → Refines m (.convert e r) (e.mkConvert r)) ∧
    (∀ es, (∀ e ∈ es, e.Regular m ∧ e.Logical m) →
        Refines m (chainNodes false es) (conj es) ∧ Refines m (chainNodes true es) (disj es)) ∧
    ∀ e r, (mkConvert e r).rep = r := by
  refine ⟨fun op a b ha _ hl => refines_mkBinary ha.steady hl, fun op e he => refines_mkUnary he,
    fun t a b ht ha _ hb => refines_mkCond ht.steady hb ha.plain,
    fun e r he => refines_mkConvert he.fits, fun es hes => ?_, rep_mkConvert⟩
  have hes' : ∀ e ∈ es, e.Steady ∧ e.Logical m := fun e he => ⟨(hes e he).1.steady, (hes e he).2⟩
  exact ⟨refines_chain hes', refines_chain hes'⟩

/-- With `f` null and `x` true: each constructor folds, and gives what the plain node gives. -/
theorem constructors_refine_nodes_truth_slots :
    (mkBinary .andAlso (.slot ⟨"f", .boxed .bool⟩) (bool true)).eval.result
        ((({} : Machine).bind "f" .null).bind "x" (.bool true)) =
      (.ok .null, (({} : Machine).bind "f" .null).bind "x" (.bool true)) ∧
    (mkCond (.slot ⟨"x", .boxed .bool⟩) (bool true) (bool false)).eval.result
        ((({} : Machine).bind "f" .null).bind "x" (.bool true)) =
      (.ok (.bool true), (({} : Machine).bind "f" .null).bind "x" (.bool true)) ∧
    (disj [.slot ⟨"f", .boxed .bool⟩, .slot ⟨"x", .boxed .bool⟩]).eval.result
        ((({} : Machine).bind "f" .null).bind "x" (.bool true)) =
      (.ok (.bool true), (({} : Machine).bind "f" .null).bind "x" (.bool true)) := by
  let m := (({} : Machine).bind "f" .null).bind "x" (.bool true)
  have hf : (Expr.slot ⟨"f", .boxed .bool⟩).Regular m := regular_slot fun v hv => by cases hv; rfl
  have hx : (Expr.slot ⟨"x", .boxed .bool⟩).Regular m := regular_slot fun v hv => by cases hv; rfl
  have hb : ∀ b m, (bool b).Regular m := fun b m => regular_const rfl rfl
  have hfl : (Expr.slot ⟨"f", .boxed .bool⟩).Logical m := fun v m' hv => by cases hv; exact .inl rfl
  have hxl : (Expr.slot ⟨"x", .boxed .bool⟩).Boolean m := by
    intro v m' hv
    cases hv
    exact ⟨_, rfl⟩
  have h := constructors_refine_nodes m
  refine ⟨h.1 .andAlso _ _ hf (hb true _) (fun _ => ⟨hfl, fun v m' hv => ?_⟩) _ _ rfl,
    h.2.2.1 _ _ _ hx (hb true _) (hb false _) hxl _ _ rfl,
    (h.2.2.2.2.1 _ fun e he => ?_).2 _ _ rfl⟩
  · cases hv
    exact .inr ⟨_, rfl⟩
  · simp only [List.mem_cons, List.not_mem_nil, or_false] at he
    rcases he with rfl | rfl
    · exact ⟨hf, hfl⟩
    · exact ⟨hx, fun v m' hv => .inr (hxl v m' hv)⟩

end Expr

end SqlCode
