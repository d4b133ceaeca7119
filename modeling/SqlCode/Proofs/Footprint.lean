import SqlCode.Proofs.Renaming

/-!
# What the computation of a call uses

The value of a call reads the slots of its operands and the root, and nothing else. The routines that it
calls are those of its operands, those that its lowering names, and routines without a state of their
own.

A quiet computation declares no variable, and on renamed operands it gives the renamed value. So what it gives
uses no names but those of its operands and those that it brings in: a renaming that keeps them keeps the
operands, and with them the value. The computations that are not quiet are that of COALESCE, which compares its
operands, and those of the constructors of arrays and maps, which declare a variable.

* `Expr.uses_of_rename_eq`: an expression that does not change when other names do uses no other names;
* `Lowering.routines`: the routines that a lowering names;
* `Emit.Quiet`, `Emit.Quiet.uses`, `Lowering.quiet_compute`.
-/

namespace SqlCode

open Run SqlCode.Expr Emit

variable {f : String} {e : Expr} {site : CallSite} {args : List Expr} {S Q : String → Prop}
  {ρ σ : String → String} {fs : List String}

/-! ### Parts of expressions -/

namespace Expr

@[simp] theorem uses_root : Expr.root.Uses S Q ↔ S "root" := uses_slot _

@[simp] theorem uses_literalExpr (v : Value) (t : SqlType) : (v.literalExpr t).Uses S Q := by
  obtain ⟨w, r, h⟩ := exists_literalExpr_eq v t
  rw [h]
  exact uses_const w r

theorem Uses.call (hf : Q f) (h : ∀ a ∈ args, a.Uses S Q) (r : Rep) :
    (Expr.call f args r).Uses S Q := (uses_call ..).2 ⟨hf, h⟩

/-- An expression that every renaming keeps that keeps the names in `S` and `Q` uses no other names. -/
theorem uses_of_rename_eq (hS : S "root") (hQ : ∀ f, f ∉ volatile → Q f)
    (h : ∀ ρ σ : String → String, (∀ x, S x → ρ x = x) → (∀ f, Q f → σ f = f) → e.rename ρ σ = e) :
    e.Uses S Q := by
  classical
  -- all other names are replaced by one of the names that stay
  have hkeep : ∀ (P : String → Prop) (y : String) (xs : List String), P y →
      xs.map (fun x => if P x then x else y) = xs → ∀ x ∈ xs, P x := by
    intro P y xs hy hxs x hx
    by_contra hn
    have hfix : (if P x then x else y) = x :=
      List.map_inj_left.1 (hxs.trans (List.map_id xs).symm) x hx
    rw [if_neg hn] at hfix
    exact hn (hfix ▸ hy)
  have he := h (fun x => if S x then x else "root") (fun f => if Q f then f else "not")
    (fun x hx => if_pos hx) fun f hf => if_pos hf
  exact ⟨hkeep S "root" _ hS (by rw [← reads_rename, he]),
    hkeep Q "not" _ (hQ _ (by decide)) (by rw [← calls_rename, he])⟩

end Expr

/-- A renaming that keeps the names that the operands use keeps the operands. -/
theorem Flagged.map_rename_eq {args : List Flagged} (h : ∀ a ∈ args, a.isNull.Uses S Q ∧ a.value.Uses S Q)
    (hρ : ∀ x, S x → ρ x = x) (hσ : ∀ f, Q f → σ f = f) : args.map (Flagged.rename ρ σ) = args := by
  have hsame : ∀ a ∈ args, a.rename ρ σ = a := fun a ha =>
    congrArg₂ Flagged.mk ((h a ha).1.rename_eq hρ hσ) ((h a ha).2.rename_eq hρ hσ)
  rw [List.map_congr_left hsame, List.map_id']

namespace CallSite

theorem uses_conform (site : CallSite) (h : e.Uses S Q) : (site.conform e).Uses S Q := by
  unfold conform
  split
  · exact h
  · exact h.mkConvert _

theorem uses_coalesce_fold {es : List Expr} (he : e.Uses S Q)
    (h : ∀ a ∈ es, a.Uses S Q) : (coalesce.fold e es).Uses S Q := by
  induction es generalizing e with
  | nil => exact he
  | cons next rest ih =>
    exact he.mkIsNotNull.mkCond he (ih (h next (by simp)) fun a ha => h a (by simp [ha]))

theorem uses_connective {neutral : Bool} {args : List Flagged} (hS : S "root")
    (hQ : ∀ f, f ∉ volatile → Q f) (h : ∀ a ∈ args, a.isNull.Uses S Q ∧ a.value.Uses S Q) :
    (site.connective neutral args).Uses S Q := by
  refine uses_of_rename_eq hS hQ fun ρ σ hρ hσ => ?_
  rw [← connective_rename, Flagged.map_rename_eq h hρ hσ]

end CallSite

/-! ### Lowerings -/

namespace Emit

/-- The computation on the operands emits nothing, and on renamed operands it gives the renamed value or the
same error, if the given routines keep their names. -/
def Quiet (fs : List String) (compute : List Expr → Emit Expr) (args : List Expr) : Prop :=
  ∃ r : Except CompileError Expr, compute args = lift r ∧
    ∀ ρ σ : String → String, KeepsNames fs ρ σ →
      compute (args.map (Expr.rename ρ σ)) = lift (r.map (Expr.rename ρ σ))

theorem quiet_lift {f : List Expr → Except CompileError Expr}
    (h : ∀ ρ σ : String → String, KeepsNames fs ρ σ →
      f (args.map (Expr.rename ρ σ)) = (f args).map (Expr.rename ρ σ)) :
    Quiet fs (fun args => lift (f args)) args :=
  ⟨f args, rfl, fun ρ σ hkeep => congrArg lift (h ρ σ hkeep)⟩

/-- What a quiet computation gives uses nothing but the names that its operands use, the root and the
routines that keep their names: it would not be the renaming of itself otherwise. -/
theorem Quiet.uses {compute : List Expr → Emit Expr} (h : Quiet fs compute args) (hS : S "root") (hQ : ∀ f, f ∉ volatile → Q f) (hfs : ∀ f ∈ fs, Q f)
    (hargs : ∀ a ∈ args, a.Uses S Q) (he : compute args = lift (.ok e)) : e.Uses S Q := by
  obtain ⟨r, hr, hview⟩ := h
  refine uses_of_rename_eq hS hQ fun ρ σ hρ hσ => ?_
  have hsame : args.map (Expr.rename ρ σ) = args := by
    rw [List.map_congr_left fun a ha => (hargs a ha).rename_eq hρ hσ, List.map_id']
  have hview := hview ρ σ ⟨hρ _ hS, fun f hf => hσ f (hQ f hf), fun f hf => hσ f (hfs f hf)⟩
  rw [hsame, hr] at hview
  rw [hr] at he
  cases r with
  | error err => cases congrFun he {}
  | ok e' =>
    cases congrFun he {}
    exact congrArg Prod.fst (Except.ok.inj (congrFun hview {}).symm)

end Emit

namespace Lowering

/-- The routines that a lowering names. An operator also calls the variant of its backup routine for
operands of any type. -/
def routines : Lowering → List String
  | .routine f _ _ | .named _ _ f | .sequence f => [f]
  | .byArity _ _ _ fs => fs
  | .negation positive => positive.routines
  | .temporal _ date timestamp _ => [date, timestamp]
  | .binary _ _ _ backup => backup.toList.flatMap fun f => [f, f ++ "Any"]
  | _ => []

theorem mem_of_routineFor? {least arity : Nat} {fs : List String}
    (h : routineFor? least fs arity = some f) : f ∈ fs := by
  unfold routineFor? at h
  split at h
  · cases h
  · exact List.mem_of_getElem? h

theorem uses_whenNull (l : Lowering) (r : Rep) : (l.whenNull r).Uses S Q := by
  unfold whenNull
  split
  · exact (uses_bool _).mkConvert _
  · exact uses_defaultOf _

/-- The computation of a call neither declares variables nor compares slots. -/
def isQuiet : Lowering → Bool
  | .coalesce | .constructor => false
  | .negation positive => positive.isQuiet
  | _ => true

theorem quiet_compute {l : Lowering} (hl : l.isQuiet) (site : CallSite) (args : List Expr) :
    Emit.Quiet l.routines (l.compute site) args := by
  have hcall : ∀ {fs : List String} (f : String) (r : Rep), f ∉ volatile ∨ f ∈ fs →
      Emit.Quiet fs (fun args => pure (Expr.call f args r)) args :=
    fun f r hf => quiet_lift (f := fun args => .ok (.call f args r)) fun ρ σ h => by
      simp [Except.map, hf.elim (h.steady f) (h.named f)]
  have hconst : ∀ (v : Value) (r : Rep), Emit.Quiet [] (fun _ => pure (Expr.const v r)) args :=
    fun v r => quiet_lift (f := fun _ => .ok (.const v r)) fun ρ σ _ => rfl
  have hrefuse : ∀ {fs : List String} err, Emit.Quiet fs (fun _ => Emit.lift (.error err)) args :=
    fun err => quiet_lift (f := fun _ => .error err) fun ρ σ _ => rfl
  induction l with
  | routine f => exact hcall f _ (.inr (by simp [routines]))
  | named _ _ f => exact hcall f _ (.inr (by simp [routines]))
  | byArity _ _ least fs =>
    unfold Emit.Quiet
    simp only [compute, List.length_map]
    cases hf : routineFor? least fs args.length with
    | some f => exact hcall f _ (.inr (mem_of_routineFor? hf))
    | none => exact hrefuse _
  | negation positive ih =>
    obtain ⟨r, hr, hview⟩ := ih hl
    have hnot : ∀ r : Except CompileError Expr, (Emit.lift r >>= fun e => pure e.unbox.mkNot) =
        Emit.lift (r.map fun e => e.unbox.mkNot) := by
      intro r
      cases r <;> rfl
    refine ⟨r.map fun e => e.unbox.mkNot, ?_, fun ρ σ h => ?_⟩
    · rw [compute, hr, hnot]
    · rw [compute, hview ρ σ h, hnot]
      cases r <;> simp [Except.map]
  | temporal _ date timestamp withLocale =>
    exact quiet_lift fun ρ σ h => site.temporal_rename args h (h.named date (by simp [routines]))
      (h.named timestamp (by simp [routines])) withLocale
  | binary op _ _ backup =>
    refine quiet_lift fun ρ σ h => site.binary_rename args op fun f hf => ?_
    cases hf
    exact ⟨h.named f (by simp [routines]), h.named _ (by simp [routines])⟩
  | unary op => exact quiet_lift fun ρ σ _ => site.unary_rename args op
  | logicalAnd | logicalOr => exact hrefuse _
  | logicalNot => exact hcall _ _ (.inl (by decide))
  | predicate test => exact quiet_lift fun ρ σ _ => site.predicate_rename args test
  | cast => exact quiet_lift fun ρ σ h => site.cast_rename args h
  | reinterpret => exact quiet_lift fun ρ σ _ => site.reinterpret_rename args
  | coalesce => exact absurd hl Bool.false_ne_true
  | extract => exact quiet_lift fun ρ σ h => site.extract_rename args h
  | floor => exact quiet_lift fun ρ σ h => site.boundary_rename args h true
  | ceil => exact quiet_lift fun ρ σ h => site.boundary_rename args h false
  | datetime => exact quiet_lift fun ρ σ h => site.datetime_rename args h
  | constructor => exact absurd hl Bool.false_ne_true
  | item => exact quiet_lift fun ρ σ h => site.item_rename args h
  | system => exact quiet_lift (f := fun _ => site.system) fun ρ σ h => (site.system_rename h).symm
  | jsonValue => exact quiet_lift fun ρ σ h => site.jsonValue_rename args h
  | trim => exact quiet_lift fun ρ σ h => site.trim_rename args h
  | pi | default => exact hconst _ _
  | sequence f =>
    exact quiet_lift fun ρ σ h => site.sequence_rename args h (h.named f (by simp [routines]))

end Lowering

end SqlCode
