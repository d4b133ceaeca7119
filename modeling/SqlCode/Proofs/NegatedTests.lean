import SqlCode.Proofs.LikePatterns

/-!
# Negated tests

Most tests that routines answer have a negated form among the operators. The negated form negates the truth value inside
the frame of the call, while NOT is a call of its own on what the test has given. Both are the three-valued negation of
the test.
-/

namespace SqlCode

open Run SqlCode.Expr

/-! ### Routines -/

theorem Fault.sound_list (routine : String) (args : List Value) (i : ℕ) : Sound (Args.list routine args i) := by
  refine (sound_value routine args i).bind fun v => ?_
  split
  · exact sound_ok _
  · exact sound_invalidArgument _ _

namespace Routine

open Fault

variable {vs : List Value} {r : Routine} {policy : NullPolicy}

theorem answer_posixRegex (ignoreCase : Bool) (vs : List Value) : Answer (posixRegex ignoreCase vs) :=
  (sound_str _ _ _).answer_bind fun _ => (sound_str _ _ _).answer_bind fun _ =>
    (sound_matcher _ _ _).answer_bind fun _ => answer_bool _

theorem answer_isEmpty (vs : List Value) : Answer (isEmpty vs) := by
  refine (sound_value _ _ _).answer_bind fun v => ?_
  split
  · exact answer_bool _
  · exact (sound_list _ _ _).answer_bind fun _ => answer_bool _

theorem answer_isASet (vs : List Value) : Answer (isASet vs) :=
  (sound_list _ _ _).answer_bind fun _ => answer_bool _

theorem answer_submultisetOf (vs : List Value) : Answer (submultisetOf vs) :=
  (sound_list _ _ _).answer_bind fun _ => (sound_list _ _ _).answer_bind fun _ => answer_bool _

theorem test_eq_null_or_answer (h : Answer (r vs)) (negated : Bool) :
    r.test policy negated vs = .ok .null ∨ Answer (r.test policy negated vs) := by
  by_cases hnull : .null ∈ policy.deciding vs
  · exact .inl (test_of_null hnull negated)
  · rw [test_of_not_null hnull]
    exact .inr (h.flip negated)

/-- The negated test is the negation of what the test gives. -/
theorem test_true_eq (h : Answer (r vs)) :
    r.test policy true vs = r.test policy false vs >>= fun v => negation [v] := by
  by_cases hnull : .null ∈ policy.deciding vs
  · rw [test_of_null hnull, test_of_null hnull]
    rfl
  · rw [test_of_not_null hnull, test_of_not_null hnull]
    obtain ⟨x, hx⟩ | ⟨fault, hfault, -⟩ := h
    · rw [hx]
      cases x <;> rfl
    · rw [hfault]
      rfl

end Routine

/-! ### Operators -/

namespace Builtin

open Emit Routine

/-- The tests that have a negated form, with it. -/
def negatedTests : List (Builtin × Builtin) :=
  [(.like, .notLike), (.similarTo, .notSimilarTo),
   (.posixRegexCaseSensitive, .negatedPosixRegexCaseSensitive),
   (.posixRegexCaseInsensitive, .negatedPosixRegexCaseInsensitive), (.isEmpty, .isNotEmpty), (.isASet, .isNotASet),
   (.submultisetOf, .notSubmultisetOf), (.isJsonValue, .isNotJsonValue), (.isJsonObject, .isNotJsonObject),
   (.isJsonArray, .isNotJsonArray), (.isJsonScalar, .isNotJsonScalar)]

/-- One routine answers a test and its negated form. -/
theorem exists_isTest {b b' : Builtin} (h : (b, b') ∈ negatedTests) :
    ∃ f r policy, b.IsTest f r policy false ∧ b'.IsTest f r policy true := by
  have hboth : ∀ {b b' : Builtin} (f : String) {r : Routine} (policy : NullPolicy), b.lowering = .test f policy false →
      b'.lowering = .test f policy true → f ∉ volatile → Routine.find? f = some r →
      (∀ vs, Run.stateful? f vs = none) → (∀ vs, Fault.Answer (r vs)) →
      ∃ f r policy, b.IsTest f r policy false ∧ b'.IsTest f r policy true :=
    fun f r policy hl hl' hf hr hs ha => ⟨f, r, policy, ⟨hl, hf, hr, hs, ha⟩, ⟨hl', hf, hr, hs, ha⟩⟩
  have hdocument : ∀ p vs, Fault.Answer (isDocument p vs) := fun _ _ => Fault.answer_bool _
  simp only [negatedTests, List.mem_cons, Prod.mk.injEq, List.not_mem_nil, or_false] at h
  obtain h | h | h | h | h | h | h | h | h | h | h := h <;> obtain ⟨rfl, rfl⟩ := h
  · exact hboth "like" .strict rfl rfl (by decide) rfl (fun _ => rfl) (answer_patternTest _ _)
  · exact hboth "similar" .strict rfl rfl (by decide) rfl (fun _ => rfl) (answer_patternTest _ _)
  · exact hboth "posixRegexCaseSensitive" .strict rfl rfl (by decide) rfl (fun _ => rfl) (answer_posixRegex _)
  · exact hboth "posixRegexCaseInsensitive" .strict rfl rfl (by decide) rfl (fun _ => rfl) (answer_posixRegex _)
  · exact hboth "isEmpty" .strict rfl rfl (by decide) rfl (fun _ => rfl) answer_isEmpty
  · exact hboth "isASet" .strict rfl rfl (by decide) rfl (fun _ => rfl) answer_isASet
  · exact hboth "submultisetOf" .strict rfl rfl (by decide) rfl (fun _ => rfl) answer_submultisetOf
  · exact hboth "isJsonValue" .none rfl rfl (by decide) rfl (fun _ => rfl) (hdocument _)
  · exact hboth "isJsonObject" .none rfl rfl (by decide) rfl (fun _ => rfl) (hdocument _)
  · exact hboth "isJsonArray" .none rfl rfl (by decide) rfl (fun _ => rfl) (hdocument _)
  · exact hboth "isJsonScalar" .none rfl rfl (by decide) rfl (fun _ => rfl) (hdocument _)

variable {t : Term}

/-- The code of NOT negates a truth value that may be null. -/
theorem yields_not (ht : t.type = .plain .boolean true) :
    Builtin.not.Yields [t] (.plain .boolean true) ["not"] (fun _ => True) negation := by
  have hcases : ∀ {vs : List Value}, List.Forall₂ (fun t v => v.Fits t.type.rep) [t] vs →
      vs = [.null] ∨ ∃ x, vs = [.bool x] := by
    rintro _ (_ | ⟨hv, _ | -⟩)
    rw [ht] at hv
    obtain rfl | hprim := Value.fits_boxed_iff.1 hv
    · exact .inl rfl
    · obtain ⟨x, rfl⟩ := Value.fits_truth_iff.1 hprim
      exact .inr ⟨x, rfl⟩
  have hframed : Builtin.not.Framed .none := ⟨rfl, rfl, by decide⟩
  refine yieldsIn_framed hframed (plain_const rfl _) (fun _ => rfl) ?_ ?_ ?_ ?_
  · intro _ vs u hvs _ hu
    obtain rfl | ⟨x, rfl⟩ := hcases hvs <;> cases hu <;> rfl
  · intro _ vs _
    refine (Fault.sound_value _ _ _).bind fun v => ?_
    split
    · exact Fault.sound_ok _
    · exact Fault.sound_ok _
    · exact Fault.sound_invalidArgument _ _
  · exact fun _ h => absurd h List.not_mem_nil
  · intro site args hcalls _
    have hoperands : operandsFor .none true site args = args.map (·.value) := by
      have hsame : site.harmonize (args.map (·.value)) = args.map (·.value) := by
        simp [CallSite.harmonize, hcalls.operands]
      exact hsame
    refine ⟨_, rfl, fun {m vs} hm hvs _ _ => ?_⟩
    have hfits : ∀ v, negation vs = .ok v → v.Fits (.boxed .bool) := by
      intro v hv
      obtain rfl | ⟨x, rfl⟩ := hcases (List.forall₂_map_left_iff.1 (hcalls.fits hvs)) <;> cases hv <;> rfl
    refine result_mkConvert_call ?_ hfits
    rw [show Builtin.not.lowering.harmonizes = true from rfl, hoperands]
    have hargs : List.Forall₂ (fun e v => e.EvalsTo m v) (args.map (·.value)) vs :=
      List.forall₂_map_left_iff.2 (hvs.imp fun _ _ ha => ha.value)
    rw [result_call, result_evalAll hargs, andThen_ok, Run.result_call_library (hm "not" (by simp)) rfl rfl]

end Builtin

/-! ### Programs -/

open Builtin Routine in
/-- A test of columns, the negated form of the test, and NOT applied to the test compile. On every row, the test gives
null, a truth value or a fault. The negated form gives null exactly where the test does, the opposite truth value exactly
where the test gives a truth value, and fails with the same fault exactly where the test fails. NOT applied to the test
gives the same as the negated form. -/
theorem Term.program_run_negated_test (settings : Settings) (defs : List Term)
    {fields : List (String × SqlType)} {cols : List (ℕ × SqlType)} {b b' : Builtin} (hb : (b, b') ∈ negatedTests)
    (hcols : ∀ c ∈ cols, ∃ name, fields[c.1]? = some (name, c.2)) :
    let call := fun b ts => Term.call (.builtin b) (.plain .boolean true) ts
    let program := fun t : Term => t.program settings defs fields
    ∃ p q r, program (call b (columns cols)) = .ok p ∧ program (call b' (columns cols)) = .ok q ∧
      program (call .not [call b (columns cols)]) = .ok r ∧
      ∀ {row : List Value} {m : Machine}, List.Forall₂ (fun field v => v.Fits field.2.rep) fields row →
        m.Unregistered ("not" :: b.lowering.routines) →
        let outcome := fun p : Program => ((p.run row).result m).1
        (outcome p = .ok .null ∨ (∃ x, outcome p = .ok (.bool x)) ∨ ∃ fault, outcome p = .error fault) ∧
        (outcome q = .ok .null ↔ outcome p = .ok .null) ∧
        (∀ x, outcome q = .ok (.bool !x) ↔ outcome p = .ok (.bool x)) ∧
        (∀ fault, outcome q = .error fault ↔ outcome p = .error fault) ∧ outcome r = outcome q := by
  intro call program
  obtain ⟨f, r, policy, hp, hq⟩ := exists_isTest hb
  have hroutines : b.lowering.routines = [f] := by
    rw [hp.lowering]
    rfl
  rw [hroutines]
  have hlasting := Machine.lasting_unregistered ["not", f]
  have hf : f ∈ ["not", f] := by simp
  have hpositive := hp.yieldsIn_columns (n := true) hcols hf (fun _ => True) fun _ _ => rfl
  have hnegated := hq.yieldsIn_columns (n := true) hcols hf (fun _ => True) fun _ _ => rfl
  have hnot := yieldsIn_call hlasting
    ((yields_not (t := call b (columns cols)) rfl).mono fun hm g hg => hm g (by simp_all)) (.cons hpositive .nil)
    fun _ _ => trivial
  obtain ⟨p, hp', hrun⟩ := hpositive.program_run hlasting settings defs
  obtain ⟨q, hq', hrunq⟩ := hnegated.program_run hlasting settings defs
  obtain ⟨s, hs, hruns⟩ := hnot.program_run hlasting settings defs
  refine ⟨p, q, s, hp', hq', hs, ?_⟩
  intro row m hrow hm outcome
  have hpos : outcome p = _ := hrun hrow trivial hm
  have hneg : outcome q = _ := hrunq hrow trivial hm
  have hrest : outcome s = _ := hruns hrow trivial hm
  rw [test_true_eq (hp.answer _), ← hpos] at hneg
  have hsame : outcome s = outcome q := by
    rw [hrest, hneg, hpos]
    simp
  have hcases : outcome p = .ok .null ∨ Fault.Answer (outcome p) := by
    rw [hpos]
    exact test_eq_null_or_answer (hp.answer _) false
  rw [hsame, hneg]
  obtain hnull | ⟨x, hx⟩ | ⟨fault, hfault, -⟩ := hcases
  · rw [hnull]
    simp [negation, Args.value, bind, Except.bind]
  · rw [hx]
    simp [negation, Args.value, bind, Except.bind]
  · rw [hfault]
    simp [bind, Except.bind]

open Builtin in
/-- The empty collection is empty, so that IS NOT EMPTY and NOT of IS EMPTY say no. -/
theorem Term.program_run_negated_test_empty :
    let bag : SqlType := .plain .multiset true
    let call := fun b ts => Term.call (.builtin b) (.plain .boolean true) ts
    ∃ q r, (call .isNotEmpty (columns [(0, bag)])).program {} [] [("x", bag)] = .ok q ∧
      (call .not [call .isEmpty (columns [(0, bag)])]).program {} [] [("x", bag)] = .ok r ∧
      ((q.run [.list []]).result {}).1 = .ok (.bool false) ∧ ((r.run [.list []]).result {}).1 = .ok (.bool false) := by
  intro bag call
  have hcols : ∀ c ∈ [(0, bag)], ∃ name, [("x", bag)][c.1]? = some (name, c.2) := by simp
  have hrow : List.Forall₂ (fun (field : String × SqlType) (v : Value) => v.Fits field.2.rep) [("x", bag)] [.list []] :=
    .cons rfl .nil
  have hpair : (.isEmpty, .isNotEmpty) ∈ negatedTests := by decide
  obtain ⟨p, q, r, hp, hq, hr, hrun⟩ := program_run_negated_test {} [] hpair hcols
  obtain ⟨-, -, hopposite, -, hsame⟩ := hrun hrow (m := {}) fun _ _ => rfl
  have htest : Builtin.isEmpty.IsTest "isEmpty" Routine.isEmpty .strict false :=
    ⟨rfl, by decide, rfl, fun _ => rfl, Routine.answer_isEmpty⟩
  obtain ⟨p', hp', hrun'⟩ := htest.program_run hcols (n := true) (fun _ _ _ => rfl) {} []
  cases hp.symm.trans hp'
  have hempty : ((p.run [.list []]).result {}).1 = .ok (.bool true) :=
    hrun' (.cons ⟨rfl, fun _ => rfl⟩ .nil) fun _ _ => rfl
  have hnot := (hopposite true).2 hempty
  exact ⟨q, r, hq, hr, hnot, hsame.trans hnot⟩

end SqlCode
