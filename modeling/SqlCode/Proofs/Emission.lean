import SqlCode.Compile.Emit
import SqlCode.Proofs.Folding

/-!
# Emitting the value of a call

A builder hands out names that it has not handed out before, so code that is appended to a block leaves
the variables of the code before it alone. `Emit.result` declares a variable for a value and one for its
null test, unless they are constants or variables already; `Emit.result_spec` says what running these
declarations does.
-/

namespace SqlCode

variable {b : Builder} {e init : Expr} {m : Machine}

/-! ### Fresh names -/

namespace Builder

theorem numbered_injective (suggestion : String) :
    Function.Injective fun i : Nat => suggestion ++ toString i := by
  intro i j h
  have hr : i.repr = j.repr := (String.append_right_inj suggestion).1 h
  -- a numeral is read back from its digits
  have hd : Nat.toDigits 10 i = Nat.toDigits 10 j := by
    rw [← Nat.toList_repr, hr, Nat.toList_repr]
  rw [← Nat.ofDigitChars_ten_toDigits (n := i), hd, Nat.ofDigitChars_ten_toDigits]

/-- Of one more numbered names than there are taken names, one is free. -/
theorem exists_numbered_notMem (names : List String) (suggestion : String) :
    ∃ name ∈ (List.range (names.length + 1)).map fun i : Nat => suggestion ++ toString i,
      name ∉ names := by
  by_contra h
  push Not at h
  have hnodup : ((List.range (names.length + 1)).map
      fun i : Nat => suggestion ++ toString i).Nodup :=
    List.nodup_range.map (numbered_injective suggestion)
  have hle := (hnodup.subperm h).length_le
  simp at hle

theorem freshName_notMem (b : Builder) (suggestion : String) :
    b.freshName suggestion ∉ b.names := by
  unfold freshName
  split_ifs with h
  · obtain ⟨name, hmem, hfree⟩ := exists_numbered_notMem b.names suggestion
    cases hf : ((List.range (b.names.length + 1)).map fun (i : Nat) => suggestion ++ toString i).find?
        fun name => !b.names.contains name with
    | none =>
      have := List.find?_eq_none.1 hf name hmem
      simp [hfree] at this
    | some found =>
      have := List.find?_some hf
      simpa using this
  · simpa using h

end Builder

/-! ### States that differ in other variables -/

namespace Machine

/-- The second state has the values of the first one for the names, and differs from it in no more than
its variables. -/
structure Keeps (names : List String) (m m' : Machine) : Prop where
  rest : m' = { m with store := m'.store }
  slots : ∀ x ∈ names, m'.get? x = m.get? x

namespace Keeps

variable {names names' : List String} {m' m'' : Machine}

theorem refl (names : List String) (m : Machine) : m.Keeps names m := ⟨rfl, fun _ _ => rfl⟩

theorem mono (h : m.Keeps names' m') (hn : ∀ x ∈ names, x ∈ names') : m.Keeps names m' :=
  ⟨h.rest, fun x hx => h.slots x (hn x hx)⟩

theorem symm (h : m.Keeps names m') : m'.Keeps names m :=
  ⟨by rw [h.rest], fun x hx => (h.slots x hx).symm⟩

theorem trans (h : m.Keeps names m') (h' : m'.Keeps names m'') : m.Keeps names m'' := by
  refine ⟨?_, fun x hx => (h'.slots x hx).trans (h.slots x hx)⟩
  rw [h'.rest, h.rest]

theorem bind {x : String} (hx : x ∉ names) (m : Machine) (v : Value) : m.Keeps names (m.bind x v) :=
  ⟨rfl, fun _ hy => get?_bind_of_ne m v fun hxy => hx (hxy ▸ hy)⟩

theorem agrees (h : m.Keeps names m') : m.Agrees (· ∈ names) m' := by
  refine ⟨?_, ?_, fun x hx => (h.slots x hx).symm⟩
  · rw [h.rest]
  · rw [h.rest]

end Keeps

end Machine

namespace Expr

open Run

theorem EvalsTo.keeps {names : List String} {m' : Machine} {v : Value}
    (h : e.EvalsTo m v) (hm : m.Keeps names m') (he : e.Uses (· ∈ names) (· ∉ volatile)) :
    e.EvalsTo m' v := by
  obtain ⟨o, ho, ho'⟩ := coincide_of_agrees he hm.agrees
  rw [EvalsTo, ho] at h
  rw [EvalsTo, ho', Prod.mk.inj h |>.1]

theorem evalsTo_slot {s : Slot} {v : Value} (h : m.get? s.name = some v) : (Expr.slot s).EvalsTo m v := by
  rw [EvalsTo, result_slot, h]

/-- A constant or a variable. -/
def isAtom : Expr → Bool
  | .const .. | .slot _ => true
  | _ => false

theorem steady_of_isAtom (h : e.isAtom) : e.Steady := by
  cases e <;> simp_all [isAtom]

theorem mkIsNull_of_isPrim (h : e.rep.isPrim) : e.mkIsNull = bool false := by
  unfold mkIsNull knownNull?
  rw [if_pos h]

theorem rep_mkIsNull (e : Expr) : e.mkIsNull.rep = .truth := by
  unfold mkIsNull
  split <;> rfl

/-- The null test of a value that an unboxed representation never has to answer for. -/
theorem evalsTo_mkIsNull {v : Value} (h : e.EvalsTo m v) :
    e.mkIsNull.EvalsTo m (.bool (!e.rep.isPrim && v.isNull)) := by
  unfold mkIsNull knownNull?
  split_ifs with hp
  · simp [hp, EvalsTo, bool]
  · cases e with
    | const w r =>
      cases h
      simp [constant?, EvalsTo, bool, hp]
    | _ => simp [constant?, EvalsTo, result_unary, h, hp, Value.applyUnary]

/-- The null test of an operand that faults is known before it runs, or it faults too. -/
theorem mkIsNull_of_fault {m₁ : Machine} {f : Fault}
    (h : e.eval.result m = (.error f, m₁)) :
    (∃ b, e.mkIsNull = bool b) ∨ e.mkIsNull.eval.result m = (.error f, m₁) := by
  unfold mkIsNull
  split
  · exact .inl ⟨_, rfl⟩
  · exact .inr (by rw [result_unary, h, andThen_error])

/-- The expression `e` stands for the value of `init` once the statements have run: the statements
evaluate `init` and keep the variables with the given names, or `e` is `init`. -/
structure Stored (names : List String) (init e : Expr) (code : Block) : Prop where
  isAtom : e.isAtom
  rep : e.rep = init.rep
  value : ∀ {m m₁ : Machine} {v : Value}, init.eval.result m = (.ok v, m₁) →
    ∃ m₂, (Stmt.execBlock code).result m = (.ok (), m₂) ∧ m₁.Keeps names m₂ ∧ e.EvalsTo m₂ v
  fault : ∀ {m m₁ : Machine} {f : Fault}, init.eval.result m = (.error f, m₁) →
    (Stmt.execBlock code).result m = (.error f, m₁) ∨
      code = [] ∧ e.eval.result m = (.error f, m₁)

end Expr

namespace Builder

open SqlCode.Expr Run

/-- The second builder has more names and, after the statements of the first one, the given ones. -/
structure Extends (b b' : Builder) (code : Block) : Prop where
  names : ∀ x ∈ b.names, x ∈ b'.names
  statements : b'.statements = b.statements ++ code

theorem Extends.refl (b : Builder) : b.Extends b [] :=
  ⟨fun _ hx => hx, (List.append_nil _).symm⟩

theorem Extends.trans {b' b'' : Builder} {code code' : Block} (h : b.Extends b' code)
    (h' : b'.Extends b'' code') : b.Extends b'' (code ++ code') := by
  refine ⟨fun x hx => h'.names x (h.names x hx), ?_⟩
  rw [h'.statements, h.statements, List.append_assoc]

theorem append_of_isAtom (h : init.isAtom) (b : Builder) (suggestion : String) :
    b.append suggestion init = (init, b) := by
  cases init <;> simp_all [isAtom, append]

theorem append_of_not_isAtom (h : init.isAtom = false) (b : Builder)
    (suggestion : String) : b.append suggestion init =
      (.slot ⟨b.freshName suggestion, init.rep⟩,
        ⟨b.freshName suggestion :: b.names,
          b.statements ++ [.declare ⟨b.freshName suggestion, init.rep⟩ init]⟩) := by
  cases init <;> simp_all [isAtom, append, declare, newSlot, newName, add]

/-- Appending an expression stores it, in a variable with a name that was free. -/
theorem append_spec (b : Builder) (suggestion : String) (init : Expr) :
    ∃ code, b.Extends (b.append suggestion init).2 code ∧
      Stored b.names init (b.append suggestion init).1 code := by
  by_cases h : init.isAtom = true
  · rw [append_of_isAtom h]
    refine ⟨[], .refl b, h, rfl, fun hv => ?_, fun hf => .inr ⟨rfl, hf⟩⟩
    obtain rfl := (steady_of_isAtom h).eq_state hv
    exact ⟨_, rfl, .refl _ _, hv⟩
  · rw [append_of_not_isAtom (Bool.eq_false_of_not_eq_true h)]
    refine ⟨_, ⟨fun _ hx => List.mem_cons_of_mem _ hx, rfl⟩, rfl, rfl, fun {m m₁ v} hv => ?_,
      fun {m m₁ f} hf => .inl ?_⟩
    · refine ⟨m₁.bind (b.freshName suggestion) v, ?_, .bind (b.freshName_notMem suggestion) _ _, ?_⟩
      · rw [Stmt.result_execBlock_cons, Stmt.result_declare, hv]
        rfl
      · exact evalsTo_slot (Machine.get?_bind_self ..)
    · rw [Stmt.result_execBlock_cons, Stmt.result_declare, hf]
      rfl

/-- What an expression is appended as uses names of the builder and calls nothing. -/
theorem uses_append {Q : String → Prop} (suggestion : String)
    (h : init.isAtom → init.Uses (· ∈ b.names) Q) :
    (b.append suggestion init).1.Uses (· ∈ (b.append suggestion init).2.names) Q := by
  by_cases ha : init.isAtom = true
  · rw [append_of_isAtom ha]
    exact h ha
  · rw [append_of_not_isAtom (Bool.eq_false_of_not_eq_true ha)]
    simp

end Builder

namespace Flagged

open Run

/-- Both parts of the flagged expression use no more than the given slots and routines. -/
def Uses (S Q : String → Prop) (f : Flagged) : Prop := f.isNull.Uses S Q ∧ f.value.Uses S Q

theorem Uses.mono {S S' Q Q' : String → Prop} {f : Flagged} (h : f.Uses S Q)
    (hS : ∀ x, S x → S' x) (hQ : ∀ g, Q g → Q' g := by exact fun _ h => h) : f.Uses S' Q' :=
  ⟨h.1.mono hS hQ, h.2.mono hS hQ⟩

/-- The flagged expression stands for the value of `init` and for its null test once the statements have
run. A fault of `init` is a fault of the statements or of the value. -/
structure Stored (names : List String) (init : Expr) (f : Flagged) (code : Block) : Prop where
  isAtom : f.value.isAtom ∧ f.isNull.isAtom
  rep : f.value.rep = init.rep
  isNull_rep : f.isNull.rep = .truth
  value : ∀ {m m₁ : Machine} {v : Value}, init.eval.result m = (.ok v, m₁) →
    ∃ m₂, (Stmt.execBlock code).result m = (.ok (), m₂) ∧ m₁.Keeps names m₂ ∧
      f.value.EvalsTo m₂ v ∧ f.isNull.EvalsTo m₂ (.bool (!init.rep.isPrim && v.isNull))
  fault : ∀ {m m₁ : Machine} {e : Fault}, init.eval.result m = (.error e, m₁) →
    ((Stmt.execBlock code >>= fun _ => f.value.eval).result m).1 = .error e

end Flagged

namespace Emit

open Run

theorem run_result (stem : String) (init : Expr) (b : Builder) : (Emit.result stem init).run b =
    let p := b.append (stem ++ "_value") init
    let q := p.2.append (stem ++ "_isNull") p.1.mkIsNull
    .ok (⟨q.1, p.1⟩, q.2) := rfl

/-- A value with its null test: the code declares at most one variable for each of them. -/
theorem result_spec (stem : String)
    (h : init.isAtom → init.Uses (· ∈ b.names) (· ∉ volatile)) :
    ∃ f b' code, (Emit.result stem init).run b = .ok (f, b') ∧ b.Extends b' code ∧
      f.Stored b.names init code ∧ f.Uses (· ∈ b'.names) (· ∉ volatile) := by
  obtain ⟨code₁, hb₁, hs₁⟩ := b.append_spec (stem ++ "_value") init
  have hu₁ := Builder.uses_append (stem ++ "_value") h
  generalize hp₁ : b.append (stem ++ "_value") init = p₁ at hb₁ hs₁ hu₁
  obtain ⟨e, b₁⟩ := p₁
  obtain ⟨code₂, hb₂, hs₂⟩ := b₁.append_spec (stem ++ "_isNull") e.mkIsNull
  have hu₂ := Builder.uses_append (stem ++ "_isNull") fun _ => hu₁.mkIsNull
  generalize hp₂ : b₁.append (stem ++ "_isNull") e.mkIsNull = p₂ at hb₂ hs₂ hu₂
  obtain ⟨t, b₂⟩ := p₂
  refine ⟨⟨t, e⟩, b₂, code₁ ++ code₂, ?_, hb₁.trans hb₂,
    ⟨⟨hs₁.isAtom, hs₂.isAtom⟩, hs₁.rep, hs₂.rep.trans (Expr.rep_mkIsNull e), fun {m m₁ v} hv => ?_,
      fun {m m₁ f} hf => ?_⟩, hu₂, hu₁.mono (fun x hx => hb₂.names x hx)⟩
  · simp only [run_result, hp₁, hp₂]
  · obtain ⟨m₂, hm₂, hk₂, he₂⟩ := hs₁.value hv
    obtain ⟨m₃, hm₃, hk₃, ht₃⟩ := hs₂.value (Expr.evalsTo_mkIsNull he₂)
    exact ⟨m₃, Stmt.result_execBlock_append_of_ok hm₂ hm₃, hk₂.trans (hk₃.mono hb₁.names),
      he₂.keeps hk₃ hu₁, hs₁.rep ▸ ht₃⟩
  · rw [result_bind, Stmt.result_execBlock_append]
    rcases hs₁.fault hf with hc | ⟨rfl, he⟩
    · rw [hc]
      rfl
    · -- the value is a variable that faults, and its null test stops there or does not look at it
      rw [Stmt.result_execBlock_nil, andThen_ok]
      rcases Expr.mkIsNull_of_fault he with ⟨c, hc⟩ | ht
      · obtain ⟨m₂, hm₂, hk₂, -⟩ := hs₂.value (m := m) (v := .bool c) (by rw [hc]; rfl)
        rw [hm₂, andThen_ok, ← Expr.outcome_congr hu₁ hk₂.agrees, he]
      · rcases hs₂.fault ht with hc | ⟨rfl, -⟩
        · rw [hc]
          rfl
        · rw [Stmt.result_execBlock_nil, andThen_ok, he]

end Emit

end SqlCode
