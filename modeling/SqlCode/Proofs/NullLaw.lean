import SqlCode.Compile.Catalog
import SqlCode.Compile.Lower
import SqlCode.Proofs.Emission

/-!
# The law of null policies

A call in the frame of a null policy looks at the null tests of some operands first. If one of them holds,
the code gives null, or the initial value where the representation has no room for null, and it does so
whatever the computation of the call would do. If none holds, the code gives what the computation
gives, faults included.
-/

namespace SqlCode

namespace NullPolicy

open SqlCode.Expr

/-- The null tests that decide a call. -/
def deciding {α : Type} (p : NullPolicy) (flags : List α) : List α :=
  match p with
  | .none => []
  | .arg0 => flags.take 1
  | .strict | .any | .semiStrict => flags

theorem evalsTo_condition {m : Machine} {p : NullPolicy} {flags : List Expr} {cs : List Bool}
    (h : List.Forall₂ (fun e c => e.EvalsTo m (.bool c)) (p.deciding flags) cs) :
    (p.condition flags).EvalsTo m (.bool (cs.any id)) := by
  cases p with
  | none =>
    cases h
    rfl
  | arg0 =>
    cases flags with
    | nil =>
      cases h
      rfl
    | cons e es =>
      obtain ⟨c, ds, he, hds, rfl⟩ := List.forall₂_cons_left_iff.1 h
      cases hds
      simpa [condition] using he
  | _ => exact evalsTo_disj h

theorem uses_condition {S Q : String → Prop} {p : NullPolicy} {flags : List Expr}
    (h : ∀ e ∈ p.deciding flags, e.Uses S Q) : (p.condition flags).Uses S Q := by
  cases p with
  | none => exact uses_bool _
  | arg0 =>
    cases flags with
    | nil => exact uses_bool _
    | cons e es => exact h e (by simp [deciding])
  | _ => exact uses_disj h

end NullPolicy

/-- What a slot holds before its first write. -/
def Rep.initial : Rep → Value
  | .prim p => p.default
  | _ => .null

namespace Expr

open Run

variable {m : Machine}

theorem evalsTo_defaultOf (m : Machine) (r : Rep) : (defaultOf r).EvalsTo m r.initial := by
  cases r <;> rfl

theorem isNull_initial (r : Rep) : r.initial.isNull = !r.isPrim := by
  cases r with
  | prim p => cases p <;> rfl
  | _ => rfl

/-- What is the same as an initial value is a constant. -/
theorem evalsTo_of_defaultOf_same {e : Expr} {r : Rep} (h : (defaultOf r).same e) :
    ∃ v, e.EvalsTo m v ∧ r.initial.same v := by
  have hd : ∃ q, defaultOf r = .const r.initial q := by cases r <;> exact ⟨_, rfl⟩
  obtain ⟨q, hq⟩ := hd
  rw [hq] at h
  cases e with
  | const v q' =>
    simp only [same, Bool.and_eq_true] at h
    exact ⟨v, rfl, h.1⟩
  | _ => simp [same] at h

theorem rep_defaultOf (r : Rep) : (defaultOf r).rep = r := by
  cases r <;> rfl

/-- A choice between branches of one representation has it, unless it is replaced by its test. -/
theorem rep_mkCond {t a b : Expr} (h : a.rep = b.rep) (hr : a.rep ≠ .truth) :
    (mkCond t a b).rep = a.rep := by
  unfold mkCond
  split
  · split_ifs
    · rfl
    · exact h.symm
  · split_ifs with _ h₂ h₃
    · rfl
    · exact absurd h₂.1 hr
    · exact absurd h₃.1 hr
    · exact if_pos h

theorem mkCond_of_same {a b : Expr} (t : Expr) (h : a.same b) :
    mkCond t a b = a ∨ mkCond t a b = b := by
  unfold mkCond
  split
  · split_ifs
    · exact .inl rfl
    · exact .inr rfl
  · exact .inl (if_pos h)

theorem Uses.of_isAtom {S Q Q' : String → Prop} {e : Expr} (h : e.Uses S Q)
    (ha : e.isAtom) : e.Uses S Q' := by
  cases e <;> simp_all [isAtom]

end Expr

namespace Emit

open SqlCode.Expr Run

/-- The operands that the computation of a call is given. -/
def operandsFor (policy : NullPolicy) (harmonize : Bool) (site : CallSite) (args : List Flagged) :
    List Expr :=
  policy.unbox (if harmonize then site.harmonize (args.map (·.value)) else args.map (·.value))

/-- The choice between the initial value and the value that was computed, where null tests decide. -/
def choice (policy : NullPolicy) (args : List Flagged) (whenNull : Rep → Expr) (safe : Expr) : Expr :=
  mkCond (policy.condition (args.map (·.isNull))) (whenNull safe.rep) safe

section Guarded

variable {policy : NullPolicy} {harmonize : Bool} {compute : List Expr → Emit Expr} {site : CallSite}
  {args : List Flagged} {b b₁ : Builder} {raw safe : Expr} {m : Machine} {cs : List Bool}

theorem run_guarded (stem : String) (whenNull : Rep → Expr)
    (h : (compute (operandsFor policy harmonize site args)).run b = .ok (raw, b₁)) :
    (guarded policy harmonize stem whenNull compute site args).run b =
      (result stem (choice policy args whenNull (site.conform raw))).run b₁ := by
  show (compute (operandsFor policy harmonize site args) >>= _).run b = _
  rw [StateT.run_bind, h]
  rfl

theorem run_guarded_of_error {err : CompileError} (stem : String) (whenNull : Rep → Expr)
    (h : (compute (operandsFor policy harmonize site args)).run b = .error err) :
    (guarded policy harmonize stem whenNull compute site args).run b = .error err := by
  show (compute (operandsFor policy harmonize site args) >>= _).run b = _
  rw [StateT.run_bind, h]
  rfl

/-- A null test that holds makes the choice the initial value, whatever the other branch is. -/
theorem evalsTo_choice_of_null
    (hcs : List.Forall₂ (fun e c => e.EvalsTo m (.bool c))
      (policy.deciding (args.map (·.isNull))) cs) (h : true ∈ cs) :
    (choice policy args defaultOf safe).EvalsTo m safe.rep.initial := by
  have hany : cs.any id := List.any_eq_true.2 ⟨true, h, rfl⟩
  have hcond := NullPolicy.evalsTo_condition hcs
  rw [hany] at hcond
  rw [EvalsTo, choice, result_mkCond hcond fun hc => absurd hc (by decide)]
  exact evalsTo_defaultOf m _

/-- Where there is room for null, the choice keeps the representation of what is computed. -/
theorem rep_choice (h : safe.rep.isPrim = false) :
    (choice policy args defaultOf safe).rep = safe.rep := by
  have hne : (defaultOf safe.rep).rep ≠ .truth := by
    rw [rep_defaultOf]
    intro ht
    rw [ht] at h
    cases h
  exact (rep_mkCond (rep_defaultOf _) hne).trans (rep_defaultOf _)

/-- Without a null test that holds the choice is the other branch. Only a constant may be replaced, by an
initial value that is the same. -/
theorem result_choice_of_not_null
    (hcs : List.Forall₂ (fun e c => e.EvalsTo m (.bool c))
      (policy.deciding (args.map (·.isNull))) cs) (h : true ∉ cs) :
    (choice policy args defaultOf safe).eval.result m = safe.eval.result m ∨
      ∃ v, safe.EvalsTo m v ∧ safe.rep.initial.same v ∧
        (choice policy args defaultOf safe).EvalsTo m safe.rep.initial := by
  have hany : cs.any id = false := by
    rw [List.any_eq_false]
    intro c hc hcid
    exact h ((show c = true from hcid) ▸ hc)
  have hcond := NullPolicy.evalsTo_condition hcs
  rw [hany] at hcond
  by_cases hs : (defaultOf safe.rep).same safe = true
  · rcases mkCond_of_same (policy.condition (args.map (·.isNull))) hs with he | he
    · obtain ⟨v, hv, hsame⟩ := evalsTo_of_defaultOf_same (m := m) hs
      exact .inr ⟨v, hv, hsame, by rw [choice, he]; exact evalsTo_defaultOf m _⟩
    · exact .inl (by rw [choice, he])
  · exact .inl (result_mkCond hcond fun _ hs' => absurd hs' hs)

end Guarded

/-- The law of null policies, for a computation that emits no statements. The code of the call consists of
the statements `code` and of the flagged expression `f`. Whatever the state in which it runs, if the null
tests that the policy looks at are truth values there:

* if one of them holds, the code runs without fault, changes no variable that had a name and nothing else
  of the state, and gives the initial value of the representation, which is null if there is room for it;
* if none of them holds, the code gives what the computation gives, its faults and its effects included;
* a policy that looks at no test leaves the computation as it is. -/
theorem guarded_null_law (policy : NullPolicy) (harmonize : Bool) (stem : String)
    (compute : List Expr → Emit Expr) (site : CallSite) (args : List Flagged) {b b₁ : Builder}
    {raw : Expr}
    (hcompute : (compute (operandsFor policy harmonize site args)).run b = .ok (raw, b₁))
    (hquiet : b₁.statements = b.statements)
    (hscope : ∀ e ∈ site.conform raw :: policy.deciding (args.map (·.isNull)),
      ∀ x ∈ e.reads, x ∈ b₁.names) :
    ∃ f b' code,
      (guarded policy harmonize stem defaultOf compute site args).run b = .ok (f, b') ∧
      b'.statements = b.statements ++ code ∧
      (policy = .none → .ok (f, b') = (result stem (site.conform raw)).run b₁) ∧
      ∀ m cs, List.Forall₂ (fun e c => e.EvalsTo m (.bool c))
          (policy.deciding (args.map (·.isNull))) cs →
        (true ∈ cs → ∃ m', (Stmt.execBlock code).result m = (.ok (), m') ∧ m.Keeps b₁.names m' ∧
          f.value.EvalsTo m' (site.conform raw).rep.initial ∧
          f.isNull.EvalsTo m' (.bool !(site.conform raw).rep.isPrim)) ∧
        (true ∉ cs →
          (∀ v m₁, (site.conform raw).eval.result m = (.ok v, m₁) →
            ∃ w m', (Stmt.execBlock code).result m = (.ok (), m') ∧ m₁.Keeps b₁.names m' ∧
              f.value.EvalsTo m' w ∧ (w = v ∨ w.same v = true)) ∧
          ∀ fault m₁, (site.conform raw).eval.result m = (.error fault, m₁) →
            ((Stmt.execBlock code >>= fun _ => f.value.eval).result m).1 = .error fault) := by
  have huse : (choice policy args defaultOf (site.conform raw)).Uses (· ∈ b₁.names)
      (fun _ => True) := by
    have hs : ∀ e ∈ site.conform raw :: policy.deciding (args.map (·.isNull)),
        e.Uses (· ∈ b₁.names) (fun _ => True) := fun e he => ⟨hscope e he, fun _ _ => trivial⟩
    exact .mkCond (NullPolicy.uses_condition fun e he => hs e (List.mem_cons_of_mem _ he))
      (uses_defaultOf _) (hs _ List.mem_cons_self)
  obtain ⟨f, b', code, hrun, hext, hst, -⟩ := result_spec stem fun ha => huse.of_isAtom ha
  refine ⟨f, b', code, (run_guarded stem defaultOf hcompute).trans hrun,
    by rw [hext.statements, hquiet], ?_, fun m cs hcs => ⟨fun hnull => ?_, fun hnull => ?_⟩⟩
  · rintro rfl
    exact hrun.symm
  · obtain ⟨m', hm', hk, hv, hn⟩ := hst.value (evalsTo_choice_of_null hcs hnull)
    refine ⟨m', hm', hk, hv, ?_⟩
    rw [isNull_initial] at hn
    cases hp : (site.conform raw).rep.isPrim with
    | true => simpa [hp] using hn
    | false => simpa [rep_choice hp, hp] using hn
  · rcases result_choice_of_not_null hcs hnull with heq | ⟨u, hu, hsame, hc⟩
    · constructor
      · intro v m₁ hv
        obtain ⟨m', hm', hk, hw, -⟩ := hst.value (heq.trans hv)
        exact ⟨v, m', hm', hk, hw, .inl rfl⟩
      · intro fault m₁ hf
        exact hst.fault (heq.trans hf)
    · constructor
      · intro v m₁ hv
        obtain ⟨m', hm', hk, hw, -⟩ := hst.value hc
        rw [hu] at hv
        cases hv
        exact ⟨_, m', hm', hk, hw, .inr hsame⟩
      · intro fault m₁ hf
        rw [hu] at hf
        cases hf

/-- A product with a null factor: the product itself would fault when it unboxes `y`, and the code gives
null without it. -/
theorem guarded_null_law_null_factor :
    let x : Expr := .slot ⟨"x", .boxed .i32⟩
    let y : Expr := .slot ⟨"y", .boxed .i32⟩
    let type : SqlType := .plain .integer true
    let site : CallSite := ⟨{}, .builtin .multiply, type, [⟨type, none⟩, ⟨type, none⟩]⟩
    let m := (({} : Machine).bind "x" (.int 7)).bind "y" .null
    (y.unbox.eval.result m).1 = .error (.nullValue "Prim(I32)") ∧
      ∃ f b' code m', (Builtin.multiply.lowering.framed site [⟨x.mkIsNull, x⟩, ⟨y.mkIsNull, y⟩]).run
          ⟨["y", "x", "root"], []⟩ = .ok (f, b') ∧ b'.statements = code ∧
        (Stmt.execBlock code).result m = (.ok (), m') ∧
        f.value.EvalsTo m' .null ∧ f.isNull.EvalsTo m' (.bool true) := by
  intro x y type site m
  refine ⟨rfl, ?_⟩
  obtain ⟨f, b', code, hrun, hcode, -, h⟩ := guarded_null_law .strict true "binary_call"
    (Builtin.multiply.lowering.compute site) site [⟨x.mkIsNull, x⟩, ⟨y.mkIsNull, y⟩]
    (b := ⟨["y", "x", "root"], []⟩) rfl rfl (by decide)
  obtain ⟨hnull, -⟩ := h m [false, true] (.cons rfl (.cons rfl .nil))
  obtain ⟨m', hm', -, hv, hn⟩ := hnull (by decide)
  exact ⟨f, b', code, m', hrun, hcode, hm', hv, hn⟩

end Emit

end SqlCode
