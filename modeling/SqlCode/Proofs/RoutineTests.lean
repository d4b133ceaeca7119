import SqlCode.Proofs.CompiledOutcomes

/-!
# Tests that routines answer

A routine that answers with a truth value is called as a test or as a negated test. The negated test fails where the
routine fails, and gives the opposite answer otherwise; null operands make both null where the null policy says so.
-/

namespace SqlCode

open Run SqlCode.Expr

variable {vs : List Value} {r : Routine} {policy : NullPolicy} {o : Except Fault Value}

/-! ### Faults -/

/-- A fault of the outcome, if it has one, is not that a variable is unbound. -/
def Fault.Sound {α : Type} (o : Except Fault α) : Prop := ∀ x, o ≠ .error (.unboundVariable x)

namespace Fault

variable {α β : Type} {o : Except Fault α}

theorem sound_ok (a : α) : Sound (.ok a) := by simp [Sound]

theorem sound_invalidArgument (routine reason : String) :
    Sound (.error (.invalidArgument routine reason) : Except Fault α) := by simp [Sound]

theorem Sound.bind {f : α → Except Fault β} (h : Sound o) (hf : ∀ a, Sound (f a)) : Sound (o >>= f) := by
  cases o with
  | ok a => exact hf a
  | error fault => exact fun x hx => h x (congrArg Except.error (Except.error.inj hx))

theorem sound_value (routine : String) (args : List Value) (i : ℕ) : Sound (Args.value routine args i) := by
  unfold Args.value
  split
  · exact sound_ok _
  · exact sound_invalidArgument _ _

theorem sound_str (routine : String) (args : List Value) (i : ℕ) : Sound (Args.str routine args i) := by
  refine (sound_value routine args i).bind fun v => ?_
  split
  · exact sound_ok _
  · exact sound_invalidArgument _ _

end Fault

/-! ### Operands -/

theorem NullPolicy.mem_of_mem_deciding {α : Type} {a : α} {flags : List α}
    (h : a ∈ policy.deciding flags) : a ∈ flags := by
  cases policy with
  | none => cases h
  | arg0 => exact List.mem_of_mem_take h
  | _ => exact h

/-- The operands that a call gets evaluate to their values, where no null decides the call. -/
theorem Emit.forall₂_operandsFor {site : CallSite} {args : List Flagged} {m : Machine}
    (hatom : ∀ a ∈ args, a.value.isAtom)
    (h : List.Forall₂ (fun a v => a.Represents m v) args vs) (hnot : .null ∉ policy.deciding vs) :
    List.Forall₂ (fun e v => e.EvalsTo m v) (operandsFor policy false site args) vs := by
  have hvalues : List.Forall₂ (fun e v => e.EvalsTo m v) (args.map (·.value)) vs :=
    List.forall₂_map_left_iff.2 (h.imp fun _ _ ha => ha.value)
  have hunbox : ∀ {a v}, a ∈ args → a.Represents m v → v ≠ .null → a.value.unbox.EvalsTo m v :=
    fun ha hv hne => ((hv.carries (hatom _ ha)).unbox hne).evalsTo
  have hall : .null ∉ vs → List.Forall₂ (fun e v => e.EvalsTo m v) ((args.map (·.value)).map Expr.unbox) vs := by
    clear hvalues hnot
    intro hnot
    induction h with
    | nil => exact .nil
    | @cons a v args vs ha _ ih =>
      rw [List.mem_cons, not_or] at hnot
      exact .cons (hunbox (by simp) ha (Ne.symm hnot.1))
        (ih (fun b hb => hatom b (by simp [hb])) (fun hb => hunbox (by simp [hb])) hnot.2)
  cases policy with
  | none => exact hvalues
  | arg0 =>
    cases h with
    | nil => exact .nil
    | @cons a v args vs ha hargs =>
      have hne : v ≠ .null := fun h => hnot (by simp [NullPolicy.deciding, h])
      exact .cons (hunbox (by simp) ha hne) (List.forall₂_map_left_iff.2 (hargs.imp fun _ _ ha => ha.value))
  | _ => exact hall hnot

/-! ### Tests -/

/-- The code of a test that a routine answers, or of the negated test. -/
def Lowering.test (f : String) (policy : NullPolicy) (negated : Bool) : Lowering :=
  bif negated then .negation (.routine f policy false) else .routine f policy false

/-- The opposite truth value, if asked for. -/
def Value.flip (negated : Bool) : Value → Value
  | .bool b => .bool (b != negated)
  | v => v

/-- The outcome is a truth value or a fault that is not about a variable. -/
def Fault.Answer (o : Except Fault Value) : Prop :=
  (∃ b, o = .ok (.bool b)) ∨ ∃ fault, o = .error fault ∧ ∀ x, fault ≠ .unboundVariable x

namespace Fault

variable {α : Type}

theorem answer_bool (b : Bool) : Answer (.ok (.bool b)) := .inl ⟨b, rfl⟩

theorem Answer.flip (h : Answer o) (negated : Bool) : Answer (o.map (Value.flip negated)) := by
  obtain ⟨b, rfl⟩ | ⟨fault, rfl, hx⟩ := h
  · exact answer_bool _
  · exact .inr ⟨fault, rfl, hx⟩

theorem Answer.fits (h : Answer o) {v : Value} (hv : o = .ok v) (n : Bool) :
    v.Fits (SqlType.plain .boolean n).rep := by
  obtain ⟨b, rfl⟩ | ⟨fault, rfl, -⟩ := h
  · cases hv
    cases n <;> rfl
  · cases hv

theorem Answer.sound (h : Answer o) : Sound o := by
  obtain ⟨b, rfl⟩ | ⟨fault, rfl, hx⟩ := h
  · exact sound_ok _
  · exact fun x heq => hx x (Except.error.inj heq)

theorem answer_invalidArgument (routine reason : String) : Answer (.error (.invalidArgument routine reason)) :=
  .inr ⟨_, rfl, by simp⟩

theorem Sound.answer_bind {o : Except Fault α} {f : α → Except Fault Value} (h : Sound o) (hf : ∀ a, Answer (f a)) :
    Answer (o >>= f) := by
  cases o with
  | ok a => exact hf a
  | error fault => exact .inr ⟨fault, rfl, fun x hx => h x (congrArg Except.error hx)⟩

end Fault

/-- The outcome of a test or of the negated test. -/
def Routine.test (r : Routine) (policy : NullPolicy) (negated : Bool) : Routine := fun vs =>
  bif (policy.deciding vs).any Value.isNull then .ok .null else (r vs).map (Value.flip negated)

namespace Routine

theorem any_isNull_iff : (policy.deciding vs).any Value.isNull ↔ .null ∈ policy.deciding vs := by
  simp [Value.isNull_iff]

theorem test_of_null (h : .null ∈ policy.deciding vs) (negated : Bool) : r.test policy negated vs = .ok .null := by
  rw [test, any_isNull_iff.2 h, cond_true]

theorem test_of_not_null (h : .null ∉ policy.deciding vs) (negated : Bool) :
    r.test policy negated vs = (r vs).map (Value.flip negated) := by
  rw [test, Bool.eq_false_iff.2 (mt any_isNull_iff.1 h), cond_false]

end Routine

/-- What a test computes before it is put into the frame of the call. -/
def Expr.testCode (negated : Bool) (call : Expr) : Expr := bif negated then call.unbox.mkNot else call

/-- The negation of a truth value fails where the truth value does. -/
theorem Expr.result_testCode {f : String} {es : List Expr} {n : Bool} {m : Machine}
    (hr : Fault.Answer (r vs)) (negated : Bool)
    (h : (Expr.call f es (SqlType.plain .boolean n).rep).eval.result m = (r vs, m)) :
    ((testCode negated (.call f es (SqlType.plain .boolean n).rep)).mkConvert
      (SqlType.plain .boolean n).rep).eval.result m = ((r vs).map (Value.flip negated), m) := by
  have hfits : ∀ v, (r vs).map (Value.flip negated) = .ok v → v.Fits (SqlType.plain .boolean n).rep :=
    fun _ hv => (hr.flip negated).fits hv n
  have htruth : ∀ v, r vs = .ok v → v.Fits .truth := fun _ hv => hr.fits hv false
  have hcode : testCode true (.call f es (SqlType.plain .boolean n).rep) =
      .unary .not ((Expr.call f es (SqlType.plain .boolean n).rep).mkConvert .truth) .truth := by
    cases n <;> rfl
  cases negated with
  | false =>
    have hsame : (r vs).map (Value.flip false) = r vs := by
      obtain ⟨b, hb⟩ | ⟨fault, hfault, -⟩ := hr
      · rw [hb]
        cases b <;> rfl
      · rw [hfault]
        rfl
    rw [hsame] at hfits ⊢
    exact result_mkConvert_call h hfits
  | true =>
    rw [hcode]
    refine result_mkConvert (by simp) ?_ hfits
    rw [result_unary, result_mkConvert_call h htruth]
    obtain ⟨b, hb⟩ | ⟨fault, hfault, -⟩ := hr
    · rw [hb]
      cases b <;> rfl
    · rw [hfault]
      rfl

namespace Builtin

open Emit

variable {b : Builtin} {f : String} {negated n : Bool} {ts : List Term}

/-- The calls of the builtin are tests that a routine of the library answers, or negated tests. -/
structure IsTest (b : Builtin) (f : String) (r : Routine) (policy : NullPolicy) (negated : Bool) : Prop where
  lowering : b.lowering = .test f policy negated
  steady : f ∉ volatile
  library : Routine.find? f = some r
  stateless : ∀ vs, Run.stateful? f vs = none
  answer : ∀ vs, Fault.Answer (r vs)

theorem IsTest.yields (h : b.IsTest f r policy negated) : b.Yields ts (.plain .boolean n) [f]
    (fun vs => .null ∈ policy.deciding vs → n = true) (r.test policy negated) := by
  have hframed : b.Framed policy := by
    refine ⟨?_, ?_, ?_⟩ <;> rw [h.lowering]
    · cases negated <;> rfl
    · cases negated <;> rfl
    · cases negated <;> simpa [Lowering.test, Lowering.routines] using h.steady
  have hharm : b.lowering.harmonizes = false := by
    rw [h.lowering]
    cases negated <;> rfl
  have hcompute : ∀ site es, b.lowering.compute site es = pure (testCode negated (.call f es site.rep)) := by
    rw [h.lowering]
    cases negated <;> exact fun _ _ => rfl
  refine yieldsIn_framed hframed ?_ ?_ ?_ ?_ ?_ ?_
  · cases n <;> exact plain_const rfl _
  · rw [h.lowering]
    cases negated <;> exact fun _ => rfl
  · intro _ vs v _ hgood hv
    by_cases hnull : .null ∈ policy.deciding vs
    · rw [Routine.test_of_null hnull] at hv
      cases hv
      rw [hgood hnull]
      rfl
    · rw [Routine.test_of_not_null hnull] at hv
      exact ((h.answer vs).flip negated).fits hv n
  · intro _ vs _
    by_cases hnull : .null ∈ policy.deciding vs
    · rw [Routine.test_of_null hnull]
      exact Fault.sound_ok _
    · rw [Routine.test_of_not_null hnull]
      exact ((h.answer vs).flip negated).sound
  · exact fun _ hnull => Routine.test_of_null hnull negated
  · intro site args hcalls _
    refine ⟨_, hcompute _ _, fun {m vs} hm hvs _ hnot => ?_⟩
    have hatom := forall_mem_of_forall₂ hcalls.args fun _ _ ha => ha.isAtom
    have hargs := @forall₂_operandsFor vs policy site args m hatom hvs hnot
    rw [CallSite.rep, hcalls.type, hharm, Routine.test_of_not_null hnot]
    refine result_testCode (h.answer vs) negated ?_
    rw [result_call, result_evalAll hargs, andThen_ok,
      Run.result_call_library (hm f (by simp)) (h.stateless vs) h.library]

/-- The columns of a row, as operands. -/
def columns (cols : List (ℕ × SqlType)) : List Term := cols.map fun c => .input c.1 c.2

section Columns

variable {fields : List (String × SqlType)} {cols : List (ℕ × SqlType)}
  (hcols : ∀ c ∈ cols, ∃ name, fields[c.1]? = some (name, c.2))
include hcols

/-- A test on columns of the row, in rows where no null decides a test that is NOT NULL. -/
theorem IsTest.yieldsIn_columns (h : b.IsTest f r policy negated) {routines : List String} (hf : f ∈ routines)
    (rows : List Value → Prop)
    (hn : ∀ {row}, rows row → .null ∈ policy.deciding (cols.map fun c => row.getD c.1 .null) → n) :
    (Term.call (.builtin b) (.plain .boolean n) (columns cols)).YieldsIn fields (·.Unregistered routines)
      (fun _ => rows) fun _ row => r.test policy negated (cols.map fun c => row.getD c.1 .null) := by
  have hts : List.Forall₂ (fun t value => t.Gives fields routines rows value) (columns cols)
      (cols.map fun c row => row.getD c.1 .null) := by
    refine List.forall₂_map_left_iff.2 (List.forall₂_map_right_iff.2 (List.forall₂_same.2 fun c hc => ?_))
    obtain ⟨name, hi⟩ := hcols c hc
    exact Term.gives_input hi
  have hvalues : ∀ row, (cols.map fun c (row : List Value) => row.getD c.1 .null).map (· row) =
      cols.map fun c => row.getD c.1 .null := fun _ => List.map_map
  refine (Term.yieldsIn_call_of_gives (Machine.lasting_unregistered routines) id
    (h.yields.mono fun hm g hg => hm g (List.mem_singleton.1 hg ▸ hf)) hts fun {_ row} hrow => ?_).congr
      fun {_ row} _ => by rw [hvalues]
  rw [hvalues]
  exact ⟨hrow, hn hrow⟩

theorem IsTest.program_run (h : b.IsTest f r policy negated)
    (hn : ∀ c ∈ cols, c.2.nullable → n) (settings : Settings) (defs : List Term) :
    ∃ q, (Term.call (.builtin b) (.plain .boolean n) (columns cols)).program settings defs fields = .ok q ∧
      ∀ {row m}, IsRow fields row → m.Unregistered [f] →
        ((q.run row).result m).1 = r.test policy negated (cols.map fun c => row.getD c.1 .null) := by
  have hyields := h.yieldsIn_columns (n := n) hcols (List.mem_singleton_self f) (IsRow fields)
    fun {row} hrow hnull => by
      obtain ⟨c, hc, hv⟩ := List.mem_map.1 (NullPolicy.mem_of_mem_deciding hnull)
      obtain ⟨name, hi⟩ := hcols c hc
      exact hn c hc ((hrow.getD hi).nullable hv)
  obtain ⟨q, hq, hrun⟩ := hyields.program_run (Machine.lasting_unregistered [f]) settings defs
  exact ⟨q, hq, fun hrow => hrun hrow.fits hrow⟩

end Columns

end Builtin

end SqlCode
