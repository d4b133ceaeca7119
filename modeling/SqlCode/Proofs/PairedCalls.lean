import SqlCode.Proofs.CompileScope
import SqlCode.Proofs.Pairing

/-!
# Calls on paired operands

A call is compiled twice, into two builders, on operands that are the two views of one list. Both
compilations fail with the same error, or both emit code, and the two pieces of code end alike from states
in which the operands have the same values. For most lowerings the two pieces of code are views of one
another. COALESCE is different: it drops a choice between two slots of the same name, which may have two
names on the other side.
-/

namespace SqlCode

open Run SqlCode.Expr Pair CallSite Flagged

variable {fs gs : List Flagged} {m m' : Machine} {outer : List String} {b b' : Builder} {e : Expr} {s : Slot}

namespace Emit

/-- The steps fail with one error, or their code ends alike from states that run in step and in which the
operands have the same values, and leaves two views of a result. -/
def Mirrors (outer : List String) (fs gs : List Flagged) (b b' : Builder) (x y : Emit Flagged) : Prop :=
  (∃ err, x.run b = .error err ∧ y.run b' = .error err) ∨
    ∃ f b₁ code g b₁' code', x.run b = .ok (f, b₁) ∧ y.run b' = .ok (g, b₁') ∧
      b₁.statements = b.statements ++ code ∧ b₁'.statements = b'.statements ++ code' ∧
      f.Paired (fun _ => True) g ∧
      ∀ m m' : Machine, m.Sync outer m' → List.Forall₂ (Flagged.Paired (m.Same m')) fs gs →
        Code.Matches m m' (fun n n' => m.Keeps b.names n ∧ m'.Keeps b'.names n' ∧
          f.Paired (n.Same n') g) code code'

theorem mirrors_result {e' : Expr} (h : Kindred e e') (stem : String)
    (he : e.Uses (· ∈ b.names) (· ∉ restless)) (he' : e'.Uses (· ∈ b'.names) (· ∉ restless))
    (hm : ∀ m m' : Machine, m.Sync outer m' → List.Forall₂ (Flagged.Paired (m.Same m')) fs gs →
      Coincide m m' e.eval e'.eval) :
    Mirrors outer fs gs b b' (result stem e) (result stem e') := by
  obtain ⟨f, b₁, code, g, b₁', code', hrun, hrun', hcode, hcode', hpaired, hmatches⟩ :=
    matches_result h stem he he'
  exact .inr ⟨f, b₁, code, g, b₁', code', hrun, hrun', hcode, hcode', hpaired,
    fun m m' hsync hargs => hmatches m m' (hm m m' hsync hargs)⟩

theorem Mirrors.congr {x x₁ y y₁ : Emit Flagged} (h : Mirrors outer fs gs b b' x y)
    (hx : x₁.run b = x.run b) (hy : y₁.run b' = y.run b') : Mirrors outer fs gs b b' x₁ y₁ := by
  unfold Mirrors
  rw [hx, hy]
  exact h

end Emit

/-! ### COALESCE -/

theorem Expr.same_slot : (Expr.slot s).same e ↔ e = .slot s := by
  cases e with
  | slot s' =>
    simp only [same, beq_iff_eq, Expr.slot.injEq]
    exact eq_comm
  | _ => simp [same]

/-- An atom of which it is not known whether it is null is a slot with room for null. -/
theorem Expr.exists_slot_of_knownNull? (he : e.isAtom) (h : e.knownNull? = none) :
    ∃ s : Slot, e = .slot s ∧ s.rep.isPrim = false := by
  unfold knownNull? at h
  split_ifs at h with hp
  cases e with
  | const v r => exact nomatch h
  | slot s => exact ⟨s, rfl, Bool.eq_false_of_not_eq_true hp⟩
  | _ => exact nomatch he

namespace CallSite

open coalesce

variable {next : Expr} {rest : List Expr}

theorem fold_of_knownNull? {b : Bool} (h : e.knownNull? = some b) :
    fold e (next :: rest) = if b then fold next rest else e := by
  rw [fold, mkIsNotNull, h]
  cases b <;> rfl

/-- A slot that may be null is tested, unless the other choice is that slot. -/
theorem fold_slot (hs : s.rep.isPrim = false) :
    fold (.slot s) (next :: rest) = if (Expr.slot s).same (fold next rest) then .slot s
      else .cond (.unary .isNotNull (.slot s) .truth) (.slot s) (fold next rest)
        (choiceRep (.slot s) (fold next rest)) := by
  have hne : s.rep ≠ .truth := by
    intro h
    rw [h] at hs
    cases hs
  have hnull : (Expr.slot s).mkIsNotNull = .unary .isNotNull (.slot s) .truth := by
    simp [mkIsNotNull, knownNull?, constant?, Expr.rep, hs]
  rw [fold, hnull]
  simp only [mkCond, Expr.rep, hne, false_and, if_false]

/-- What is chosen from atoms is an atom or a choice. -/
theorem fold_ne_convert {es : List Expr} (he : e.isAtom) (hes : ∀ x ∈ es, x.isAtom)
    (a : Expr) (r : Rep) : fold e es ≠ .convert a r := by
  induction es generalizing e with
  | nil =>
    rintro rfl
    exact nomatch he
  | cons next rest ih =>
    have hF := ih (hes next (by simp)) fun x hx => hes x (by simp [hx])
    cases hk : e.knownNull? with
    | some b =>
      rw [fold_of_knownNull? hk]
      split
      · exact hF
      · rintro rfl
        exact nomatch he
    | none =>
      obtain ⟨s, rfl, hs⟩ := exists_slot_of_knownNull? he hk
      rw [fold_slot hs]
      split <;> exact fun h => nomatch h

/-- The first of several atoms that is not null, under two renamings: a choice between slots that one renaming
identifies needs no variable there, but its representation stays that of the slots. -/
theorem kindred_fold {p : Expr} {ps : List Expr} (hp : p.isAtom)
    (hps : ∀ q ∈ ps, q.isAtom) (ρ ρ' : String → String) :
    Kindred (fold (p.rename ρ) (ps.map (Expr.rename ρ)))
      (fold (p.rename ρ') (ps.map (Expr.rename ρ'))) := by
  induction ps generalizing p with
  | nil => exact kindred_rename p ρ ρ'
  | cons q ps ih =>
    have hF := ih (hps q (by simp)) fun x hx => hps x (by simp [hx])
    rw [List.map_cons, List.map_cons]
    cases hk : p.knownNull? with
    | some b =>
      rw [fold_of_knownNull? (by rwa [knownNull?_rename]), fold_of_knownNull? (by rwa [knownNull?_rename])]
      split
      · exact hF
      · exact kindred_rename p ρ ρ'
    | none =>
      obtain ⟨s, rfl, hs⟩ := exists_slot_of_knownNull? hp hk
      have hs' : ∀ x, (⟨x, s.rep⟩ : Slot).rep.isPrim = false := fun _ => hs
      rw [rename_slot, rename_slot, fold_slot (hs' _), fold_slot (hs' _)]
      generalize fold (q.rename ρ) (ps.map (Expr.rename ρ)) = F at hF
      generalize fold (q.rename ρ') (ps.map (Expr.rename ρ')) = F' at hF
      -- where one side drops the choice, its alternatives have one representation
      have hrep : ∀ {x : String} {F : Expr}, F.rep = s.rep → choiceRep (.slot ⟨x, s.rep⟩) F = s.rep := by
        intro x F h
        exact if_pos h.symm
      have hboth : choiceRep (.slot ⟨ρ' s.name, s.rep⟩) F' = choiceRep (.slot ⟨ρ s.name, s.rep⟩) F := by
        unfold choiceRep
        rw [hF.rep, hF.constant?.2]
        rfl
      split_ifs with hl hr hr
      · exact ⟨rfl, fun v r => by simp, fun h => absurd rfl h⟩
      · have hFrep : F.rep = s.rep := by rw [same_slot.1 hl]; rfl
        refine ⟨hboth.trans (hrep hFrep), fun v r => by simp, fun _ => hs⟩
      · have hFrep : F.rep = s.rep := by rw [← hF.rep, same_slot.1 hr]; rfl
        refine ⟨(hrep hFrep).symm, fun v r => by simp, fun _ => ?_⟩
        show (choiceRep _ F).isPrim = false
        rw [hrep hFrep]
        exact hs
      · exact ⟨hboth, fun v r => by simp, fun h => absurd rfl h⟩

/-- Choosing a slot that is not null, else what the other operands give. -/
theorem result_fold_slot (hs : s.rep.isPrim = false) (m : Machine) :
    (fold (.slot s) (next :: rest)).eval.result m = ((Expr.slot s).eval >>= fun v =>
      if v.isNull then (fold next rest).eval else pure v : Run Value).result m := by
  rw [fold_slot hs, result_bind]
  obtain ⟨o, ho⟩ : ∃ o, (Expr.slot s).eval.result m = (o, m) := ⟨_, result_slot_lookup m s⟩
  split_ifs with hsame
  · rw [same_slot.1 hsame, ho]
    cases o with
    | error f => rfl
    | ok v =>
      rw [andThen_ok]
      split_ifs
      · exact ho.symm
      · rfl
  · rw [result_cond, result_unary, ho]
    cases o with
    | error f => rfl
    | ok v =>
      simp only [andThen_ok, result_lift, Value.applyUnary, Value.isBool]
      cases v.isNull
      · exact ho
      · rfl

/-- The two views of the operands give the same first value that is not null. -/
theorem coincide_fold {p : Expr} {ps : List Expr}
    (hsync : m.Sync outer m') (hp : p.isAtom ∧ p.Uses (m.Same m') (· ∉ restless))
    (hps : ∀ q ∈ ps, q.isAtom ∧ q.Uses (m.Same m') (· ∉ restless)) :
    Coincide m m' (fold (p.rename left) (ps.map (Expr.rename left))).eval
      (fold (p.rename right) (ps.map (Expr.rename right))).eval := by
  induction ps generalizing p with
  | nil => exact Expr.coincide_eval hp.2 hsync
  | cons q ps ih =>
    have hF := ih (hps q (by simp)) fun x hx => hps x (by simp [hx])
    rw [List.map_cons, List.map_cons]
    cases hk : p.knownNull? with
    | some b =>
      rw [fold_of_knownNull? (by rwa [knownNull?_rename]), fold_of_knownNull? (by rwa [knownNull?_rename])]
      split
      · exact hF
      · exact Expr.coincide_eval hp.2 hsync
    | none =>
      obtain ⟨s, rfl, hs⟩ := exists_slot_of_knownNull? hp.1 hk
      have hslot := Expr.coincide_eval hp.2 hsync
      rw [rename_slot, rename_slot] at hslot ⊢
      have hs' : ∀ x, (⟨x, s.rep⟩ : Slot).rep.isPrim = false := fun _ => hs
      unfold Coincide
      rw [result_fold_slot (hs' _), result_fold_slot (hs' _)]
      exact Coincide.bind hslot fun v => .ite hF (.pure v)

theorem kindred_conform {e' : Expr} (site : CallSite) (h : Kindred e e')
    (he : ∀ a r, e ≠ .convert a r) (he' : ∀ a r, e' ≠ .convert a r) :
    Kindred (site.conform e) (site.conform e') ∧ ∀ m m' : Machine, Coincide m m' e.eval e'.eval →
      Coincide m m' (site.conform e).eval (site.conform e').eval := by
  unfold conform
  rw [h.rep]
  split_ifs with hr
  · exact ⟨h, fun _ _ hm => hm⟩
  · have hopen : ∀ {x : Expr}, x.rep ≠ site.rep → (∀ v r, x ≠ .const v r) →
        (∀ a r, x ≠ .convert a r) → x.mkConvert site.rep = .convert x site.rep := by
      intro x hx hc ha
      unfold mkConvert
      rw [if_neg hx]
      cases x <;> first | rfl | exact absurd rfl (hc _ _) | exact absurd rfl (ha _ _)
    push Not at hr
    rcases h.cases with ⟨v, r, rfl, rfl⟩ | ⟨hc, hc'⟩
    · have hfixed : ((Expr.const v r).mkConvert site.rep).IsFixed := .mkConvert _
      refine ⟨?_, fun m m' _ => ?_⟩
      · nth_rewrite 1 [← hfixed.rename (ρ := id)]
        nth_rewrite 2 [← hfixed.rename (ρ := id)]
        exact kindred_rename _ id id
      · obtain ⟨w, q, hw | ⟨q', hw⟩⟩ := hfixed
        · rw [hw]
          exact .pure w
        · rw [hw]
          exact .bind (.pure w) fun v => .lift _
    · rw [hopen hr.1 hc he, hopen (h.rep ▸ hr.1) hc' he']
      exact ⟨⟨rfl, fun v r => by simp, fun h => absurd rfl h⟩, fun m m' hm => .bind hm fun v => .lift _⟩

end CallSite

/-! ### Arrays and maps -/

namespace Emit

theorem pairs_map {α β : Type} (f : α → β) : ∀ as : List α, pairs (as.map f) = (pairs as).map (List.map f)
  | [] => rfl
  | [_] => rfl
  | a :: a' :: as => by simp [pairs, pairs_map f as]

theorem foldl_add (b : Builder) {α : Type} (f : α → Stmt) (as : List α) :
    as.foldl (fun b a => b.add (f a)) b = ⟨b.names, b.statements ++ as.map f⟩ := by
  induction as generalizing b with
  | nil => simp
  | cons a as ih =>
    rw [List.foldl_cons, ih]
    simp [Builder.add]

/-- A constructor refuses its operands, or it fills a container with them; either way it does not look at
names. -/
theorem constructor_rename (site : CallSite) (args : List Expr) :
    (∃ err, ∀ ρ, Emit.constructor site (args.map (Expr.rename ρ)) = lift (.error err)) ∨
      ∃ (container : Container) (suggestion routine : String) (entries : List (List Expr)),
        (∀ es ∈ entries, ∀ e ∈ es, e ∈ args) ∧
        ∀ ρ, Emit.constructor site (args.map (Expr.rename ρ)) =
          fill container suggestion routine (entries.map (List.map (Expr.rename ρ))) := by
  unfold Emit.constructor
  split
  · simp only [List.length_map]
    split_ifs
    · exact .inl ⟨_, fun ρ => rfl⟩
    · exact .inr ⟨.map, "map", "mapPut", pairs args, fun es hes e he => mem_of_mem_pairs hes he,
        fun ρ => by rw [pairs_map]⟩
  · refine .inr ⟨.list, "list", "collectionAdd", args.map ([·]), fun es hes e he => ?_,
      fun ρ => by simp [Function.comp_def]⟩
    obtain ⟨a, ha, rfl⟩ := List.mem_map.1 hes
    exact List.mem_singleton.1 he ▸ ha
  · exact .inl ⟨_, fun ρ => rfl⟩

/-- The code that declares a container and fills it. -/
def fillCode (s : Slot) (container : Container) (routine : String) (entries : List (List Expr)) : Block :=
  .declare s (.new container) :: entries.map fun es => .invoke s routine (es.map (·.box))

theorem run_fill (container : Container) (suggestion routine : String) (entries : List (List Expr))
    (b : Builder) :
    (fill container suggestion routine entries).run b =
      .ok (.slot ⟨b.freshName suggestion, container.rep⟩,
        ⟨b.freshName suggestion :: b.names, b.statements ++
          fillCode ⟨b.freshName suggestion, container.rep⟩ container routine entries⟩) := by
  show Except.ok _ = Except.ok _
  rw [foldl_add]
  simp [Builder.add, fillCode]

/-- Since `m` and `m'` nothing has changed but variables that are new. Two of them hold one container. -/
def Filled (m m' : Machine) (s s' : Slot) (b b' : Builder) (n n' : Machine) : Prop :=
  m.Keeps b.names n ∧ m'.Keeps b'.names n' ∧ ∃ v, n.get? s.name = some v ∧ n'.get? s'.name = some v

theorem matches_fill {s' : Slot}
    (hs : s.name ∉ b.names) (hs' : s'.name ∉ b'.names) (container : Container) (routine : String)
    {entries : List (List Expr)} (ho : ∀ x ∈ outer, x ∈ b.names) (ho' : ∀ x ∈ outer, x ∈ b'.names)
    (hsync : m.Sync outer m')
    (hentries : ∀ es ∈ entries, ∀ e ∈ es, e.Uses (fun x => m.Same m' x ∧ left x ∈ b.names ∧
      right x ∈ b'.names) (· ∉ restless)) :
    Code.Matches m m' (Filled m m' s s' b b')
      (fillCode s container routine (entries.map (List.map (Expr.rename left))))
      (fillCode s' container routine (entries.map (List.map (Expr.rename right)))) := by
  refine Code.Matches.cons (R := Filled m m' s s' b b')
    (.declare (by cases container <;> exact .pure _) fun v =>
      ⟨.bind hs m v, .bind hs' m' v, v, by simp, by simp⟩) fun n n' hn => ?_
  -- the entries read what was there before the containers, so every change keeps them as they are
  induction entries generalizing n n' with
  | nil => exact .nil hn
  | cons es rest ih =>
    refine Code.Matches.cons (R := Filled m m' s s' b b') ?_ fun n n' hn =>
      ih (fun es' hes' => hentries es' (by simp [hes'])) n n' hn
    obtain ⟨hk, hk', v, hv, hv'⟩ := hn
    have hargs : Coincide n n' (evalAll ((es.map (Expr.rename left)).map (·.box)))
        (evalAll ((es.map (Expr.rename right)).map (·.box))) := by
      have hview : ∀ ρ : String → String, (es.map (Expr.rename ρ)).map (·.box) =
          (es.map (·.box)).map (Expr.rename ρ) := by
        intro ρ
        simp
      rw [hview, hview]
      refine (Coincide.closed n n').evalAll fun e he => Expr.coincide_eval ?_ (hsync.keeps hk hk' ho ho')
      obtain ⟨e, hmem, rfl⟩ := List.mem_map.1 he
      refine ((hentries es (by simp) e hmem).mono (fun x hx => ?_)).box
      exact hx.1.keeps hk hk' hx.2.1 hx.2.2
    refine .bind (.bind hargs.alike fun vs => .mutate ?_ ?_ routine vs) fun _ => .pure ()
    · rintro _ _ ⟨rfl, rfl⟩
      exact ⟨hv.trans hv'.symm, fun h => nomatch hv.symm.trans h⟩
    · rintro _ _ ⟨rfl, rfl⟩ w
      exact ⟨hk.trans (.bind hs _ w), hk'.trans (.bind hs' _ w), w, by simp, by simp⟩

end Emit

/-! ### The code of a call -/

/-- The operands of a call that is compiled into two builders: the two views of one list, which use names of
the builders. The names around the code are taken in both. -/
structure Emit.Operands (outer : List String) (fs gs : List Flagged) (b b' : Builder) : Prop where
  root : "root" ∈ outer
  outer_left : ∀ x ∈ outer, x ∈ b.names
  outer_right : ∀ x ∈ outer, x ∈ b'.names
  uses_left : ∀ f ∈ fs, f.Uses (· ∈ b.names) (· ∉ restless)
  uses_right : ∀ g ∈ gs, g.Uses (· ∈ b'.names) (· ∉ restless)
  paired : List.Forall₂ (Flagged.Paired fun _ => True) fs gs

namespace Lowering

open Emit

variable {l : Lowering} {site : CallSite}

/-- The frame of a quiet call: what is stored is one expression in two views. -/
theorem mirrors_framed_of_isQuiet (hl : l.isQuiet) (hr : ∀ f ∈ l.routines, f ∉ restless)
    (h : Operands outer fs gs b b') :
    Mirrors outer fs gs b b' (l.framed site fs) (l.framed site gs) := by
  obtain ⟨ps, rfl, rfl, -⟩ := exists_of_forall₂_paired h.paired
  have hQ : ∀ f, f ∉ volatile → f ∉ restless := fun _ => notMem_restless
  obtain ⟨r, hcompute, hview⟩ :=
    quiet_compute hl site (operandsFor l.policy l.harmonizes site ps)
  have hrun : ∀ ρ : String → String, ρ "root" = "root" → l.compute site
      (operandsFor l.policy l.harmonizes site (ps.map (Flagged.rename ρ))) =
        lift (r.map (Expr.rename ρ)) := by
    intro ρ hρ
    rw [operandsFor_rename]
    exact hview ρ id ⟨hρ, fun _ _ => rfl, fun _ _ => rfl⟩
  have hfootprint : ∀ {S : String → Prop} {fs : List Flagged} {e : Expr}, S "root" →
      (∀ f ∈ fs, f.Uses S (· ∉ restless)) →
      l.compute site (operandsFor l.policy l.harmonizes site fs) = Emit.lift (.ok e) →
      (choice l.policy fs l.whenNull (site.conform e)).Uses S (· ∉ restless) := fun hS hfs he =>
    uses_choice (fun r => l.uses_whenNull r) hfs
      ((quiet_compute hl site _).uses hS hQ hr (uses_operandsFor hS hQ hfs) he)
  cases r with
  | error err =>
    exact .inl ⟨err, run_guarded_of_error _ _ (congrFun (hrun left left_root) b),
      run_guarded_of_error _ _ (congrFun (hrun right right_root) b')⟩
  | ok raw =>
    have hframed : ∀ ρ : String → String, ρ "root" = "root" → ∀ b,
        (l.framed site (ps.map (Flagged.rename ρ))).run b =
          (result l.stem ((choice l.policy ps l.whenNull (site.conform raw)).rename ρ)).run b := by
      intro ρ hρ b
      rw [← choice_rename]
      exact run_guarded _ _ (congrFun (hrun ρ hρ) b)
    have huses : ∀ ρ : String → String, ρ "root" = "root" → ∀ b : Builder, "root" ∈ b.names →
        (∀ f ∈ ps.map (Flagged.rename ρ), f.Uses (· ∈ b.names) (· ∉ restless)) →
        ((choice l.policy ps l.whenNull (site.conform raw)).rename ρ).Uses (· ∈ b.names)
          (· ∉ restless) := by
      intro ρ hρ b hroot hps
      rw [← choice_rename]
      exact hfootprint hroot hps (hrun ρ hρ)
    refine (mirrors_result (kindred_rename _ left right) l.stem
      (huses left left_root b (h.outer_left _ h.root) h.uses_left)
      (huses right right_root b' (h.outer_right _ h.root) h.uses_right) fun m m' hsync hargs => ?_).congr
      (hframed left left_root b) (hframed right right_root b')
    exact Expr.coincide_eval (hfootprint (hsync.same_root h.root)
      (forall_uses_of_paired hargs) hcompute) hsync

theorem mirrors_connective (neutral : Bool) (stem : String) (h : Operands outer fs gs b b') :
    Mirrors outer fs gs b b' (result stem (site.connective neutral fs))
      (result stem (site.connective neutral gs)) := by
  obtain ⟨ps, rfl, rfl, -⟩ := exists_of_forall₂_paired h.paired
  have huses : ∀ {S : String → Prop} {fs : List Flagged}, S "root" →
      (∀ f ∈ fs, f.Uses S (· ∉ restless)) → (site.connective neutral fs).Uses S (· ∉ restless) :=
    fun hS hfs => uses_connective hS (fun _ => notMem_restless) hfs
  refine mirrors_result ?_ stem (huses (h.outer_left _ h.root) h.uses_left)
    (huses (h.outer_right _ h.root) h.uses_right) fun m m' hsync hargs => ?_
  · rw [connective_rename, connective_rename]
    exact kindred_rename _ left right
  · rw [connective_rename, connective_rename]
    exact Expr.coincide_eval (huses (hsync.same_root h.root) (forall_uses_of_paired hargs)) hsync

/-- Without a null policy the code of a call stores what is computed. -/
theorem run_framed_of_none (hp : l.policy = .none) {b₁ : Builder} {raw : Expr}
    (h : (l.compute site (operandsFor l.policy l.harmonizes site fs)).run b = .ok (raw, b₁)) :
    (l.framed site fs).run b = (result l.stem (site.conform raw)).run b₁ := by
  refine (run_guarded _ _ h).trans ?_
  rw [hp]
  rfl

theorem mirrors_coalesce (h : Operands outer fs gs b b') :
    Mirrors outer fs gs b b' (coalesce.framed site fs) (coalesce.framed site gs) := by
  obtain ⟨ps, rfl, rfl, hps⟩ := exists_of_forall₂_paired h.paired
  have hvalues : ∀ ρ : String → String, operandsFor .none false site (ps.map (Flagged.rename ρ)) =
      (ps.map (·.value)).map (Expr.rename ρ) := fun ρ => operandsFor_rename .none false site ps
  cases ps with
  | nil =>
    exact .inl ⟨_, run_guarded_of_error _ _ rfl, run_guarded_of_error _ _ rfl⟩
  | cons p ps =>
    have hatom : ∀ e ∈ ps.map (·.value), e.isAtom := by
      intro e he
      obtain ⟨q, hq, rfl⟩ := List.mem_map.1 he
      exact (hps q (by simp [hq])).1
    have hp := (hps p (by simp)).1
    let chosen (ρ : String → String) : Expr :=
      CallSite.coalesce.fold (p.value.rename ρ) ((ps.map (·.value)).map (Expr.rename ρ))
    have hrun : ∀ ρ (b : Builder), (coalesce.framed site ((p :: ps).map (Flagged.rename ρ))).run b =
        (result coalesce.stem (site.conform (chosen ρ))).run b := by
      intro ρ b
      refine run_framed_of_none rfl ?_
      show (Emit.lift (site.coalesce (operandsFor .none false site _))).run b = _
      rw [hvalues]
      rfl
    have hne : ∀ ρ a r, chosen ρ ≠ .convert a r := by
      intro ρ
      refine fold_ne_convert (by simpa using hp) fun e he => ?_
      obtain ⟨q, hq, rfl⟩ := List.mem_map.1 he
      simpa using hatom q hq
    have huses : ∀ ρ (b : Builder), (∀ f ∈ (p :: ps).map (Flagged.rename ρ), f.Uses (· ∈ b.names) (· ∉ restless)) →
        (site.conform (chosen ρ)).Uses (· ∈ b.names) (· ∉ restless) := by
      intro ρ b hu
      rw [List.map_cons, List.forall_mem_cons, List.forall_mem_map] at hu
      simp only [chosen, List.map_map]
      exact site.uses_conform (uses_coalesce_fold hu.1.2 (List.forall_mem_map.2 fun q hq => (hu.2 q hq).2))
    obtain ⟨hkindred, hcoincide⟩ := site.kindred_conform
      (kindred_fold hp hatom left right) (hne left) (hne right)
    refine (mirrors_result hkindred coalesce.stem (huses left b h.uses_left)
      (huses right b' h.uses_right) fun m m' hsync hargs => ?_).congr (hrun left b) (hrun right b')
    have hsame := forall_uses_of_paired hargs
    refine hcoincide m m' (coincide_fold hsync ⟨hp, (hsame p (by simp)).2⟩ fun q hq => ?_)
    refine ⟨hatom q hq, ?_⟩
    obtain ⟨f, hf, rfl⟩ := List.mem_map.1 hq
    exact (hsame f (by simp [hf])).2

theorem mirrors_fill (hp : l.policy = .none) {container : Container} {suggestion routine : String}
    {ps : List Flagged} {entries : List (List Expr)}
    (h : Operands outer (ps.map (Flagged.rename left)) (ps.map (Flagged.rename right)) b b')
    (hentries : ∀ es ∈ entries, ∀ e ∈ es, ∃ p ∈ ps, e = p.value)
    (hcompute : ∀ ρ : String → String, l.compute site
      (operandsFor l.policy l.harmonizes site (ps.map (Flagged.rename ρ))) =
        fill container suggestion routine (entries.map (List.map (Expr.rename ρ)))) :
    Mirrors outer (ps.map (Flagged.rename left)) (ps.map (Flagged.rename right)) b b'
      (l.framed site (ps.map (Flagged.rename left))) (l.framed site (ps.map (Flagged.rename right))) := by
  have hs := b.freshName_notMem suggestion
  have hs' := b'.freshName_notMem suggestion
  -- the value that is stored is the variable that holds the container
  let stored : Expr := site.conform
    (.slot ⟨join (b.freshName suggestion) (b'.freshName suggestion), container.rep⟩)
  have hleft : stored.rename left = site.conform (.slot ⟨b.freshName suggestion, container.rep⟩) := by
    simp [stored, rename_conform]
  have hright : stored.rename right = site.conform (.slot ⟨b'.freshName suggestion, container.rep⟩) := by
    simp [stored, rename_conform]
  have hrun : ∀ (ρ : String → String) (b : Builder), (l.framed site (ps.map (Flagged.rename ρ))).run b =
      (result l.stem (site.conform (.slot ⟨b.freshName suggestion, container.rep⟩))).run
        ⟨b.freshName suggestion :: b.names, b.statements ++ fillCode
          ⟨b.freshName suggestion, container.rep⟩ container routine
            (entries.map (List.map (Expr.rename ρ)))⟩ := by
    intro ρ b
    refine run_framed_of_none hp ?_
    rw [hcompute ρ]
    exact run_fill ..
  have huses : ∀ (b : Builder) (block : Block),
      (site.conform (.slot ⟨b.freshName suggestion, container.rep⟩)).Uses
        (· ∈ (⟨b.freshName suggestion :: b.names, block⟩ : Builder).names) (· ∉ restless) :=
    fun b block => site.uses_conform (by simp)
  obtain ⟨f, b₂, code, g, b₂', code', hf, hg, hcode, hcode', hpaired, hmatches⟩ :=
    matches_result (kindred_rename stored left right) l.stem (hleft ▸ huses b _) (hright ▸ huses b' _)
  rw [hleft] at hf
  rw [hright] at hg
  refine .inr ⟨f, b₂, _ ++ code, g, b₂', _ ++ code', (hrun left b).trans hf, (hrun right b').trans hg,
    hcode.trans (List.append_assoc ..), hcode'.trans (List.append_assoc ..), hpaired,
    fun m m' hsync hargs => ?_⟩
  have hps := forall_uses_of_paired hargs
  refine (matches_fill hs hs' container routine h.outer_left h.outer_right hsync
    fun es hes e he => ?_).append ?_
  · obtain ⟨p, hmem, rfl⟩ := hentries es hes e he
    have hleft := uses_rename.1 (h.uses_left _ (List.mem_map_of_mem hmem)).2
    have hright := uses_rename.1 (h.uses_right _ (List.mem_map_of_mem hmem)).2
    exact ⟨fun x hx => ⟨(hps p hmem).2.1 x hx, hleft.1 x hx, hright.1 x hx⟩, (hps p hmem).2.2⟩
  · rintro n n' ⟨hk, hk', v, hv, hv'⟩
    have hslot : stored.Uses (n.Same n') (· ∉ restless) := by
      refine site.uses_conform ((uses_slot _).2 ?_)
      simp [Machine.Same, Machine.lookup, hv, hv']
    have hsync' : n.Sync outer n' := hsync.keeps hk hk' h.outer_left h.outer_right
    refine (hmatches n n' (Expr.coincide_eval hslot hsync')).mono ?_
    rintro o o' ⟨ho, ho', hfg⟩
    exact ⟨hk.trans (ho.mono fun _ hx => List.mem_cons_of_mem _ hx),
      hk'.trans (ho'.mono fun _ hx => List.mem_cons_of_mem _ hx), hfg⟩

theorem mirrors_constructor (h : Operands outer fs gs b b') :
    Mirrors outer fs gs b b' (constructor.framed site fs) (constructor.framed site gs) := by
  obtain ⟨ps, rfl, rfl, -⟩ := exists_of_forall₂_paired h.paired
  have hcompute : ∀ ρ : String → String, constructor.compute site
      (operandsFor constructor.policy constructor.harmonizes site (ps.map (Flagged.rename ρ))) =
        Emit.constructor site ((ps.map (·.value)).map (Expr.rename ρ)) := fun ρ =>
    congrArg (Emit.constructor site) (operandsFor_rename .none false site ps)
  rcases constructor_rename site (ps.map (·.value)) with ⟨err, herr⟩ |
    ⟨container, suggestion, routine, entries, hmem, hfill⟩
  · refine .inl ⟨err, run_guarded_of_error _ _ ?_, run_guarded_of_error _ _ ?_⟩
    · rw [hcompute, herr]
      rfl
    · rw [hcompute, herr]
      rfl
  · refine mirrors_fill rfl h (fun es hes e he => ?_) fun ρ => (hcompute ρ).trans (hfill ρ)
    obtain ⟨p, hp, rfl⟩ := List.mem_map.1 (hmem es hes e he)
    exact ⟨p, hp, rfl⟩

/-- The code of a call, compiled into two builders on paired operands: both compilations fail with one
error, or the two pieces of code end alike. -/
theorem mirrors_emit (hl : l.isQuiet ∨ l = .coalesce ∨ l = .constructor)
    (hr : ∀ f ∈ l.routines, f ∉ restless) (h : Operands outer fs gs b b') :
    Mirrors outer fs gs b b' (l.emit site fs) (l.emit site gs) := by
  rcases hl with hl | rfl | rfl
  · cases l with
    | logicalAnd => exact mirrors_connective true _ h
    | logicalOr => exact mirrors_connective false _ h
    | cast =>
      have hframed : Mirrors outer fs gs b b' (cast.framed site fs) (cast.framed site gs) :=
        mirrors_framed_of_isQuiet hl hr h
      unfold emit
      cases hid : site.isIdentityCast with
      | false => exact hframed
      | true =>
        obtain - | ⟨hfg, - | -⟩ := h.paired
        · exact hframed
        · -- a cast to the type of the operand is the operand
          exact .inr ⟨_, b, [], _, b', [], rfl, rfl, by simp, by simp, hfg,
            fun m m' _ hargs => .nil ⟨.refl _ _, .refl _ _, (List.forall₂_cons.1 hargs).1⟩⟩
        · exact hframed
    | _ => exact mirrors_framed_of_isQuiet hl hr h
  · exact mirrors_coalesce h
  · exact mirrors_constructor h

end Lowering

end SqlCode
