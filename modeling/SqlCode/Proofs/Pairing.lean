import Mathlib.SetTheory.Cardinal.Arithmetic
import SqlCode.Proofs.Observation
import SqlCode.Proofs.Renaming

/-!
# Code that differs in the names of its variables

Two expressions that differ only in the names of their slots are two views of one expression whose slots are
named by pairs. `Pair.left` and `Pair.right` take a name apart, and renaming by them gives the two views.
What two runs have in common is then said of one expression: it reads pairs of slots with the same value.
-/

namespace SqlCode

open Run SqlCode.Expr

variable {names names' outer : List String} {f : Flagged} {m m' n n' : Machine} {e e' : Expr} {x : String}
  {H : String → Prop}

/-! ### Pairs of names -/

namespace Pair

theorem exists_pairing : ∃ π : String ≃ String × String, π "root" = ("root", "root") := by
  have hcard : Cardinal.mk String = Cardinal.mk (String × String) := by
    rw [Cardinal.mk_prod, Cardinal.lift_id, Cardinal.mul_eq_self (Cardinal.aleph0_le_mk String)]
  obtain ⟨e⟩ := Cardinal.eq.1 hcard
  -- the swap sends the root where it belongs
  exact ⟨e.trans (Equiv.swap (e "root") ("root", "root")), by simp⟩

/-- Every name stands for a pair of names, and the root for itself twice. -/
noncomputable def pairing : String ≃ String × String := exists_pairing.choose

/-- The first name of a pair. -/
noncomputable def left (x : String) : String := (pairing x).1

/-- The second name of a pair. -/
noncomputable def right (x : String) : String := (pairing x).2

/-- The name that stands for a pair. -/
noncomputable def join (x y : String) : String := pairing.symm (x, y)

@[simp] theorem left_join (x y : String) : left (join x y) = x := by simp [left, join]

@[simp] theorem right_join (x y : String) : right (join x y) = y := by simp [right, join]

@[simp] theorem left_root : left "root" = "root" :=
  congrArg Prod.fst exists_pairing.choose_spec

@[simp] theorem right_root : right "root" = "root" :=
  congrArg Prod.snd exists_pairing.choose_spec

end Pair

open Pair

/-! ### States that run in step -/

/-- The routines that change the state of the machine. -/
def Run.restless : List String :=
  ["sequenceNextValue", "rand", "randSeed", "randInteger", "randIntegerSeed"]

theorem Run.notMem_restless {f : String} (h : f ∉ volatile) : f ∉ restless := by
  simp only [volatile, restless, List.mem_cons, List.not_mem_nil, or_false, not_or] at h ⊢
  tauto

namespace Machine

/-- What reading a variable gives. -/
def lookup (m : Machine) (x : String) : Except Fault Value :=
  match m.get? x with
  | some v => .ok v
  | none => .error (.unboundVariable x)

/-- The states have the same context, routines and sequences, and the same values of the names in `outer`. -/
structure Sync (outer : List String) (m m' : Machine) : Prop extends Agrees (· ∈ outer) m m' where
  sequences : m.sequences = m'.sequences

/-- Reading the names of a pair gives the same in the two states. -/
def Same (m m' : Machine) (x : String) : Prop := m.lookup (left x) = m'.lookup (right x)

section

theorem Sync.refl (outer : List String) (m : Machine) : m.Sync outer m := ⟨.refl _ m, rfl⟩

theorem Sync.keeps (h : m.Sync outer m') (hm : m.Keeps names n) (hn : m'.Keeps names' n')
    (ho : ∀ x ∈ outer, x ∈ names) (ho' : ∀ x ∈ outer, x ∈ names') : n.Sync outer n' := by
  refine ⟨⟨?_, ?_, fun x hx => ?_⟩, ?_⟩
  · rw [hm.rest, hn.rest]
    exact h.context
  · rw [hm.rest, hn.rest]
    exact h.routines
  · rw [hm.slots x (ho x hx), hn.slots x (ho' x hx)]
    exact h.slots x hx
  · rw [hm.rest, hn.rest]
    exact h.sequences

theorem Sync.of_keeps_left (h : n.Sync outer m') (hm : m.Keeps names n)
    (ho : ∀ x ∈ outer, x ∈ names) : m.Sync outer m' :=
  h.keeps hm.symm (.refl _ _) ho ho

theorem Sync.same_join (h : m.Sync outer m') (hx : x ∈ outer) :
    m.Same m' (join x x) := by
  simp only [Same, lookup, left_join, right_join]
  rw [h.slots x hx]

theorem Sync.same_root (h : m.Sync outer m') (ho : "root" ∈ outer) : m.Same m' "root" := by
  simp only [Same, lookup, left_root, right_root]
  rw [h.slots "root" ho]

theorem Same.keeps (h : m.Same m' x) (hm : m.Keeps names n) (hn : m'.Keeps names' n')
    (hx : left x ∈ names) (hx' : right x ∈ names') : n.Same n' x := by
  simp only [Same, lookup]
  rw [hm.slots _ hx, hn.slots _ hx']
  exact h

end

end Machine

/-! ### One outcome from two states -/

/-- A routine that does not change the machine gives the same in states that run in step. -/
theorem Run.coincide_call {f : String} (hf : f ∉ restless) (vs : List Value) (h : m.Sync outer m') :
    Coincide m m' (call f vs) (call f vs) := by
  by_cases hv : f ∈ volatile
  · -- of the routines with a state, only the one that reads a sequence changes nothing
    have hname : f = "sequenceCurrentValue" := by
      simp only [volatile, restless, List.mem_cons, List.not_mem_nil, or_false, not_or] at hv hf
      tauto
    subst hname
    unfold Coincide call
    rw [result_bind, result_get, andThen_ok, result_bind, result_get, andThen_ok, h.routines]
    split
    · exact Coincide.lift _
    · refine Coincide.bind (.lift _) fun name => ?_
      unfold Coincide
      rw [result_bind, result_get, andThen_ok, result_bind, result_get, andThen_ok, h.sequences]
      split
      · exact Coincide.pure _
      · exact ⟨_, rfl, rfl⟩
  · exact coincide_call_of_agrees hv vs h.toAgrees

namespace Expr

theorem result_slot_lookup (m : Machine) (s : Slot) :
    (Expr.slot s).eval.result m = (m.lookup s.name, m) := result_slot m s

/-- The two views of an expression have one outcome where the slots that it reads do. -/
theorem coincide_eval {p : Expr} (hp : p.Uses (m.Same m') (· ∉ restless)) (h : m.Sync outer m') :
    Coincide m m' (p.rename left).eval (p.rename right).eval :=
  (Coincide.closed m m').eval
    (fun _ hs => ⟨_, result_slot_lookup m _, by rw [result_slot_lookup, ← hs]⟩)
    (fun _ hf vs => coincide_call hf vs h) hp

theorem uses_rename {ρ : String → String} {Q : String → Prop} :
    (e.rename ρ).Uses H Q ↔ e.Uses (fun x => H (ρ x)) Q := by
  simp [Uses]

/-- Two views determine the names in what they are views of. -/
theorem uses_of_rename {p q : Expr} {Q : String → Prop} (hp : p.Uses H Q)
    (hl : p.rename left = q.rename left) (hr : p.rename right = q.rename right) : q.Uses H Q := by
  have hpairs : ∀ e : Expr, e.reads.map pairing = (e.rename left).reads.zip (e.rename right).reads := by
    intro e
    rw [reads_rename, reads_rename, List.zip_map']
    rfl
  have hreads : p.reads = q.reads :=
    List.map_injective_iff.2 pairing.injective (by rw [hpairs, hpairs, hl, hr])
  have hcalls : p.calls = q.calls := by simpa using congrArg calls hl
  exact ⟨hreads ▸ hp.1, hcalls ▸ hp.2⟩

end Expr

/-! ### Blocks that end alike -/

namespace Code

variable {R R' : Machine → Machine → Prop} {code code' rest rest' : Block}

/-- The blocks have one outcome, each from its state, and where they end well they leave related states. -/
def Matches (m m' : Machine) (R : Machine → Machine → Prop) (code code' : Block) : Prop :=
  Alike (fun n n' => n = m ∧ n' = m') R (Stmt.execBlock code) (Stmt.execBlock code')

theorem Matches.nil (h : R m m') : Matches m m' R [] [] := by
  rintro _ _ ⟨rfl, rfl⟩
  exact ⟨rfl, fun _ _ => h⟩

theorem Matches.append (h : Matches m m' R code code')
    (h' : ∀ n n', R n n' → Matches n n' R' rest rest') :
    Matches m m' R' (code ++ rest) (code' ++ rest') := by
  have hbind : ∀ c d : Block, ∀ n : Machine, (Stmt.execBlock (c ++ d)).result n =
      (Stmt.execBlock c >>= fun _ => Stmt.execBlock d).result n := by
    intro c d n
    rw [Stmt.result_execBlock_append, result_bind]
  rintro n n' hn
  rw [hbind, hbind]
  exact Alike.bind h (fun _ n n' hn => h' n n' hn ⟨rfl, rfl⟩) hn

theorem Matches.cons {s s' : Stmt} (h : Matches m m' R [s] [s'])
    (h' : ∀ n n', R n n' → Matches n n' R' rest rest') : Matches m m' R' (s :: rest) (s' :: rest') :=
  h.append h'

/-- Where the blocks end well, the first state is the one that the first block leaves. -/
theorem Matches.and_ran (h : Matches m m' R code code') :
    Matches m m' (fun n n' => R n n' ∧ (Stmt.execBlock code).result m = (.ok (), n)) code code' := by
  rintro _ _ ⟨rfl, rfl⟩
  obtain ⟨h₁, h₂⟩ := h ⟨rfl, rfl⟩
  exact ⟨h₁, fun a ha => ⟨h₂ a ha, Prod.ext ha rfl⟩⟩

/-- Where the first block has been run already, the second one ends well. -/
theorem Matches.of_ran (h : Matches m m' R code code')
    (hran : (Stmt.execBlock code).result m = (.ok (), n)) :
    Matches n m' (fun n₁ n' => n₁ = n ∧ R n n') [] code' := by
  rintro _ _ ⟨rfl, rfl⟩
  obtain ⟨h₁, h₂⟩ := h ⟨rfl, rfl⟩
  rw [hran] at h₁ h₂
  exact ⟨h₁, fun _ _ => ⟨rfl, h₂ () rfl⟩⟩

theorem Matches.mono (h : Matches m m' R code code') (hR : ∀ n n', R n n' → R' n n') :
    Matches m m' R' code code' := Alike.mono h (fun _ _ hn => hn) hR

theorem Matches.evaluate {g : Flagged} (h : Matches m m' R code code')
    (hR : ∀ n n', R n n' → Coincide n n' f.eval g.eval) :
    ((Block.evaluate code f).result m).1 = ((Block.evaluate code' g).result m').1 :=
  Alike.evaluate h hR ⟨rfl, rfl⟩

theorem Matches.declare {s s' : Slot} (h : Coincide m m' e.eval e'.eval)
    (hR : ∀ v, R (m.bind s.name v) (m'.bind s'.name v)) :
    Matches m m' R [.declare s e] [.declare s' e'] := by
  refine .bind (.bind h.alike fun v => .assign ?_) fun _ => .pure ()
  rintro _ _ ⟨rfl, rfl⟩
  exact hR v

end Code

/-! ### The two views of a flagged expression -/

namespace Flagged

variable {g : Flagged}

/-- The flagged expressions are the two views of one whose slots are in `H`. It calls no routine that changes
the machine, and its value is a constant or a variable. -/
def Paired (H : String → Prop) (f g : Flagged) : Prop :=
  ∃ p : Flagged, f = p.rename left ∧ g = p.rename right ∧ p.value.isAtom ∧
    p.Uses H (· ∉ restless)

/-- What is known of two views is known of what they are views of. -/
theorem Paired.uses {p : Flagged} (h : (p.rename left).Paired H (p.rename right)) :
    p.Uses H (· ∉ restless) := by
  obtain ⟨q, hl, hr, -, hq⟩ := h
  exact ⟨uses_of_rename hq.1 (congrArg Flagged.isNull hl.symm) (congrArg Flagged.isNull hr.symm),
    uses_of_rename hq.2 (congrArg Flagged.value hl.symm) (congrArg Flagged.value hr.symm)⟩

theorem forall_uses_of_paired {ps : List Flagged}
    (h : List.Forall₂ (Paired H) (ps.map (rename left)) (ps.map (rename right))) :
    ∀ p ∈ ps, p.Uses H (· ∉ restless) := by
  rw [List.forall₂_map_left_iff, List.forall₂_map_right_iff, List.forall₂_same] at h
  exact fun p hp => (h p hp).uses

theorem paired_of_expr {a a' t t' : Expr} (ha : a.isAtom)
    (hvalue : ∃ p : Expr, a = p.rename left ∧ a' = p.rename right ∧ p.Uses H (· ∉ restless))
    (hnull : ∃ p : Expr, t = p.rename left ∧ t' = p.rename right ∧ p.Uses H (· ∉ restless)) :
    (⟨t, a⟩ : Flagged).Paired H ⟨t', a'⟩ := by
  obtain ⟨p, rfl, rfl, hp⟩ := hvalue
  obtain ⟨q, rfl, rfl, hq⟩ := hnull
  exact ⟨⟨q, p⟩, rfl, rfl, by simpa using ha, hq, hp⟩

/-- A flagged expression is both of its views where the two states agree. -/
theorem paired_self (ha : f.value.isAtom)
    (hf : f.Uses (fun x => H (join x x)) (· ∉ restless)) : f.Paired H f := by
  have hviews : ∀ (e : Expr), (e.rename fun x => join x x).rename left = e ∧
      (e.rename fun x => join x x).rename right = e := fun e =>
    ⟨rename_rename_of_leftInverse (fun x => left_join x x) e,
      rename_rename_of_leftInverse (fun x => right_join x x) e⟩
  exact paired_of_expr ha ⟨_, (hviews _).1.symm, (hviews _).2.symm, uses_rename.2 hf.2⟩
    ⟨_, (hviews _).1.symm, (hviews _).2.symm, uses_rename.2 hf.1⟩

/-- States that keep what the two views read keep that it is the same. -/
theorem Paired.keeps {Q Q' : String → Prop} (h : f.Paired (m.Same m') g)
    (hf : f.Uses (· ∈ names) Q) (hg : g.Uses (· ∈ names') Q') (hm : m.Keeps names n)
    (hn : m'.Keeps names' n') : f.Paired (n.Same n') g := by
  obtain ⟨p, rfl, rfl, ha, hp⟩ := h
  have hkeep : ∀ e : Expr, e.Uses (m.Same m') (· ∉ restless) → (e.rename left).Uses (· ∈ names) Q →
      (e.rename right).Uses (· ∈ names') Q' → e.Uses (n.Same n') (· ∉ restless) := by
    intro e he hl hr
    rw [uses_rename] at hl hr
    exact ⟨fun x hx => (he.1 x hx).keeps hm hn (hl.1 x hx) (hr.1 x hx), he.2⟩
  exact ⟨p, rfl, rfl, ha, hkeep _ hp.1 hf.1 hg.1, hkeep _ hp.2 hf.2 hg.2⟩

theorem Paired.coincide_eval (h : f.Paired (m.Same m') g) (hm : m.Sync outer m') :
    Coincide m m' f.eval g.eval := by
  obtain ⟨p, rfl, rfl, -, hp⟩ := h
  exact .bind (Expr.coincide_eval hp.1 hm) fun v => .ite (.pure _) (Expr.coincide_eval hp.2 hm)

theorem exists_of_forall₂_paired {fs gs : List Flagged} (h : List.Forall₂ (Paired H) fs gs) :
    ∃ ps : List Flagged, fs = ps.map (rename left) ∧ gs = ps.map (rename right) ∧
      ∀ p ∈ ps, p.value.isAtom ∧ p.Uses H (· ∉ restless) := by
  induction h with
  | nil => exact ⟨[], rfl, rfl, by simp⟩
  | cons hp _ ih =>
    obtain ⟨p, rfl, rfl, ha, hp⟩ := hp
    obtain ⟨ps, rfl, rfl, hps⟩ := ih
    exact ⟨p :: ps, rfl, rfl, List.forall_mem_cons.2 ⟨⟨ha, hp⟩, hps⟩⟩

end Flagged

/-! ### Declaring variables alike -/

namespace Expr

/-- The expressions have one representation, they are the same constant or none, and if only one of them needs
a variable, then the representation has room for null. -/
structure Kindred (e e' : Expr) : Prop where
  rep : e'.rep = e.rep
  const : ∀ v r, e = .const v r ↔ e' = .const v r
  isAtom : e.isAtom ≠ e'.isAtom → e.rep.isPrim = false

theorem kindred_rename (p : Expr) (ρ ρ' : String → String) : Kindred (p.rename ρ) (p.rename ρ') :=
  ⟨by simp, fun v r => by cases p <;> simp [rename], fun h => absurd (by simp) h⟩

theorem Kindred.cases (h : Kindred e e') : (∃ v r, e = .const v r ∧ e' = .const v r) ∨
    (∀ v r, e ≠ .const v r) ∧ ∀ v r, e' ≠ .const v r := by
  by_cases hc : ∃ v r, e = .const v r
  · obtain ⟨v, r, he⟩ := hc
    exact .inl ⟨v, r, he, (h.const v r).1 he⟩
  · push Not at hc
    exact .inr ⟨hc, fun v r he' => hc v r ((h.const v r).2 he')⟩

/-- Without room for null, both need a variable or none does. -/
theorem Kindred.isAtom_eq (h : Kindred e e') (hr : e.rep.isPrim) : e'.isAtom = e.isAtom := by
  by_contra hne
  have := h.isAtom (Ne.symm hne)
  simp [hr] at this

/-- What is known of a constant is the same for kindred expressions. -/
theorem Kindred.constant? (h : Kindred e e') :
    e'.constant? = e.constant? ∧ e'.isNullConst = e.isNullConst := by
  rcases h.cases with ⟨v, r, rfl, rfl⟩ | ⟨hc, hc'⟩
  · exact ⟨rfl, rfl⟩
  · cases e <;> cases e' <;> first | exact ⟨rfl, rfl⟩ | exact absurd rfl (hc _ _) | exact absurd rfl (hc' _ _)

theorem Kindred.knownNull? (h : Kindred e e') : e'.knownNull? = e.knownNull? := by
  unfold Expr.knownNull?
  rw [h.rep, h.constant?.1]

theorem Kindred.mkIsNull (h : Kindred e e') : Kindred e.mkIsNull e'.mkIsNull := by
  unfold Expr.mkIsNull
  rw [h.knownNull?]
  split
  · exact kindred_rename (bool _) id id
  · exact ⟨rfl, fun v r => by simp, fun h => absurd rfl h⟩

/-- Kindred atoms are the two views of an atom. -/
theorem Kindred.exists_pair (h : Kindred e e') (he : e.isAtom) (he' : e'.isAtom) :
    ∃ p : Expr, e = p.rename left ∧ e' = p.rename right ∧ p.Uses (fun _ => True) (· ∉ restless) ∧
      ∀ m m' : Machine, (e.eval.result m).1 = (e'.eval.result m').1 →
        p.Uses (m.Same m') (· ∉ restless) := by
  cases e with
  | const v r =>
    rw [(h.const v r).1 rfl]
    exact ⟨.const v r, rfl, rfl, uses_const _ _, fun _ _ _ => uses_const _ _⟩
  | slot s =>
    cases e' with
    | const v r => exact nomatch (h.const v r).2 rfl
    | slot s' =>
      refine ⟨.slot ⟨join s.name s'.name, s.rep⟩, by simp, ?_, by simp, fun m m' heq => ?_⟩
      · have hrep : s'.rep = s.rep := h.rep
        simp [← hrep]
      · simpa [Machine.Same, result_slot_lookup] using heq
    | _ => exact nomatch he'
  | _ => exact nomatch he

end Expr

theorem Builder.append_eq_const (b : Builder) (suggestion : String) (v : Value) (r : Rep) :
    (b.append suggestion e).1 = .const v r ↔ e = .const v r := by
  by_cases h : e.isAtom = true
  · rw [append_of_isAtom h]
  · rw [append_of_not_isAtom (Bool.eq_false_of_not_eq_true h)]
    refine ⟨fun hc => (nomatch hc), ?_⟩
    rintro rfl
    exact absurd rfl h

theorem Builder.kindred_append (h : Kindred e e') (b b' : Builder) (s s' : String) :
    Kindred (b.append s e).1 (b'.append s' e').1 := by
  obtain ⟨_, -, hs⟩ := b.append_spec s e
  obtain ⟨_, -, hs'⟩ := b'.append_spec s' e'
  refine ⟨hs'.rep.trans (h.rep.trans hs.rep.symm), fun v r => ?_, fun ha => ?_⟩
  · rw [append_eq_const, append_eq_const, h.const]
  · exact absurd (hs.isAtom.trans hs'.isAtom.symm) ha

namespace Emit

theorem run_result_of_isPrim (ha : e.isAtom) (hp : e.rep.isPrim)
    (stem : String) (b : Builder) : (result stem e).run b = .ok (⟨bool false, e⟩, b) := by
  simp only [run_result, Builder.append_of_isAtom ha, mkIsNull_of_isPrim hp]
  rfl

/-- A fault of any other expression is a fault of the declarations. -/
theorem result_execBlock_of_fault (ha : ¬ (e.isAtom ∧ e.rep.isPrim))
    {stem : String} {b b₁ : Builder} {code : Block}
    (hrun : (result stem e).run b = .ok (f, b₁)) (hcode : b₁.statements = b.statements ++ code)
    {fault : Fault} (h : e.eval.result m = (.error fault, m)) :
    (Stmt.execBlock code).result m = (.error fault, m) := by
  rw [run_result] at hrun
  obtain rfl : _ = b₁ := congrArg Prod.snd (Except.ok.inj hrun)
  by_cases hatom : e.isAtom = true
  · -- the value is a slot that may hold null, and the fault is that of its null test
    have hslot : ∃ s, e = .slot s := by
      cases e with
      | const v r => exact nomatch h
      | slot s => exact ⟨s, rfl⟩
      | _ => exact nomatch hatom
    obtain ⟨s, rfl⟩ := hslot
    have hnull : (Expr.slot s).mkIsNull = .unary .isNull (.slot s) .truth := by
      have hp : s.rep.isPrim = false := Bool.eq_false_of_not_eq_true fun hp => ha ⟨rfl, hp⟩
      simp [mkIsNull, knownNull?, constant?, Expr.rep, hp]
    have hopen : (Expr.unary .isNull (.slot s) .truth).isAtom = false := rfl
    simp only [Builder.append_of_isAtom hatom, hnull, Builder.append_of_not_isAtom hopen,
      List.append_cancel_left_eq] at hcode
    subst hcode
    rw [Stmt.result_execBlock_cons, Stmt.result_declare, result_unary, h]
    rfl
  · obtain ⟨code₂, hext, -⟩ := (b.append (stem ++ "_value") e).2.append_spec (stem ++ "_isNull")
      (b.append (stem ++ "_value") e).1.mkIsNull
    rw [hext.statements] at hcode
    simp only [Builder.append_of_not_isAtom (Bool.eq_false_of_not_eq_true hatom),
      List.append_assoc, List.append_cancel_left_eq] at hcode
    subst hcode
    rw [List.singleton_append, Stmt.result_execBlock_cons, Stmt.result_declare, h]
    rfl

/-- Kindred expressions that coincide are stored alike. -/
theorem matches_result (h : Kindred e e') (stem : String) {b b' : Builder}
    (he : e.Uses (· ∈ b.names) (· ∉ restless)) (he' : e'.Uses (· ∈ b'.names) (· ∉ restless)) :
    ∃ f b₁ code g b₁' code', (result stem e).run b = .ok (f, b₁) ∧
      (result stem e').run b' = .ok (g, b₁') ∧ b₁.statements = b.statements ++ code ∧
      b₁'.statements = b'.statements ++ code' ∧ f.Paired (fun _ => True) g ∧
      ∀ m m' : Machine, Coincide m m' e.eval e'.eval → Code.Matches m m'
        (fun n n' => m.Keeps b.names n ∧ m'.Keeps b'.names n' ∧ f.Paired (n.Same n') g) code code' := by
  obtain ⟨f, b₁, code, hrun, hext, hstored, -⟩ := result_spec stem fun ha => he.of_isAtom ha
  obtain ⟨g, b₁', code', hrun', hext', hstored', -⟩ := result_spec stem fun ha => he'.of_isAtom ha
  -- the parts of the results are kindred atoms
  have hparts : Kindred f.value g.value ∧ Kindred f.isNull g.isNull := by
    have hf := hrun
    have hg := hrun'
    rw [run_result] at hf hg
    obtain rfl : _ = f := congrArg Prod.fst (Except.ok.inj hf)
    obtain rfl : _ = g := congrArg Prod.fst (Except.ok.inj hg)
    have hvalue := Builder.kindred_append h b b' (stem ++ "_value") (stem ++ "_value")
    exact ⟨hvalue, Builder.kindred_append hvalue.mkIsNull _ _ _ _⟩
  obtain ⟨p, hp, hp', hpu, hps⟩ := hparts.1.exists_pair hstored.isAtom.1 hstored'.isAtom.1
  obtain ⟨q, hq, hq', hqu, hqs⟩ := hparts.2.exists_pair hstored.isAtom.2 hstored'.isAtom.2
  have hpaired : ∀ n n' : Machine, (f.value.eval.result n).1 = (g.value.eval.result n').1 →
      (f.isNull.eval.result n).1 = (g.isNull.eval.result n').1 → f.Paired (n.Same n') g :=
    fun n n' hv hn => Flagged.paired_of_expr hstored.isAtom.1 ⟨p, hp, hp', hps n n' hv⟩
      ⟨q, hq, hq', hqs n n' hn⟩
  refine ⟨f, b₁, code, g, b₁', code', hrun, hrun', hext.statements, hext'.statements,
    Flagged.paired_of_expr hstored.isAtom.1 ⟨p, hp, hp', hpu⟩ ⟨q, hq, hq', hqu⟩, fun m m' hm => ?_⟩
  obtain ⟨o, ho, ho'⟩ := hm
  by_cases hprim : e.isAtom = true ∧ e.rep.isPrim = true
  · have hatom : e'.isAtom := (h.isAtom_eq hprim.2).trans hprim.1
    rw [run_result_of_isPrim hprim.1 hprim.2] at hrun
    rw [run_result_of_isPrim hatom (h.rep ▸ hprim.2)] at hrun'
    cases hrun
    cases hrun'
    have hnil : ∀ {b : Builder} {code : Block}, b.Extends b code → code = [] := fun hb => by
      simpa using hb.statements
    rw [hnil hext, hnil hext']
    exact .nil ⟨.refl _ _, .refl _ _, hpaired m m' (by simp only [ho, ho']) rfl⟩
  · have hprim' : ¬ (e'.isAtom ∧ e'.rep.isPrim) := by
      rintro ⟨ha, hr⟩
      rw [h.rep] at hr
      exact hprim ⟨(h.isAtom_eq hr).symm.trans ha, hr⟩
    rintro _ _ ⟨rfl, rfl⟩
    cases o with
    | error fault =>
      rw [result_execBlock_of_fault hprim hrun hext.statements ho,
        result_execBlock_of_fault hprim' hrun' hext'.statements ho']
      exact ⟨rfl, fun _ h => nomatch h⟩
    | ok v =>
      obtain ⟨n, hn, hk, hv, ht⟩ := hstored.value ho
      obtain ⟨n', hn', hk', hv', ht'⟩ := hstored'.value ho'
      rw [hn, hn']
      refine ⟨rfl, fun _ _ => ⟨hk, hk', hpaired n n' ?_ ?_⟩⟩
      · rw [hv, hv']
      · rw [ht, ht', h.rep]

end Emit

end SqlCode
