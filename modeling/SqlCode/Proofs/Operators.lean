import SqlCode.Proofs.Frame

/-!
# The code of the operators on truth values and integers

For every operator of the fragment, the expression that the code of a call stores evaluates to the meaning
of the operator, if the arguments represent the values of the operands. The operators are taken family by
family, and `Builtin.Takes.compiles` puts the families together.
-/

namespace SqlCode

open Run SqlCode.Expr

variable {op : BinaryOp} {k' k₀ : Kind} {vs : List Value} {f : String} {n n₁ n₂ : Bool} {v : Value} {e : Expr}
  {m : Machine}

namespace Builtin

open CallSite Emit

variable {b : Builtin} {sorts : List (Kind × Bool)} {k : Kind} {nullable : Bool} {site : CallSite}
  {args : List Flagged}

/-! ### Comparisons and arithmetic -/

/-- Comparisons for which the machine may have no operator have a routine in the library. -/
theorem ordering_routine (h : b.machineOp? = some (op, f))
    (hop : op.isOrdering) : f ∈ ["not", "lt", "le", "gt", "ge"] ∧
      (∀ vs, Run.stateful? f vs = none) ∧ Routine.find? f = some (Routine.comparison op) := by
  unfold machineOp? at h
  split at h <;> cases h
  case h_3 | h_4 | h_5 | h_6 => exact ⟨by decide, fun _ => rfl, rfl⟩
  all_goals exact absurd hop (by decide)

/-- Two operands of one kind are converted to their common type and then unboxed. -/
theorem operandsFor_pair {x y : Flagged}
    (ht : site.Typed b [(k, n₁), (k, n₂)] k' nullable [x, y]) :
    ∃ e e', operandsFor .strict true site [x, y] = [e, e'] ∧ e.rep = .prim k.prim ∧
      e'.rep = .prim k.prim ∧ ∀ {m v w}, x.Represents m v → y.Represents m w → v ≠ .null →
        w ≠ .null → e.Carries m v ∧ e'.Carries m w := by
  obtain - | ⟨hx, - | ⟨hy, - | -⟩⟩ := ht.args
  have hharm : site.harmonize [x.value, y.value] = if n₁ = n₂ then [x.value, y.value]
      else [x.value.mkConvert (.boxed k.prim), y.value.mkConvert (.boxed k.prim)] := by
    simp only [CallSite.harmonize, ht.operands]
    cases k <;> cases n₁ <;> cases n₂ <;> rfl
  have hops : operandsFor .strict true site [x, y] =
      (site.harmonize [x.value, y.value]).map Expr.unbox := rfl
  rw [hops, hharm]
  split_ifs
  · exact ⟨_, _, rfl, hx.rep_unbox, hy.rep_unbox, fun hv hw hv' hw' =>
      ⟨hv.carries_unbox hx hv', hw.carries_unbox hy hw'⟩⟩
  · refine ⟨_, _, rfl, ?_, ?_, fun hv hw hv' hw' => ⟨?_, ?_⟩⟩
    · rw [rep_unbox, rep_mkConvert, Rep.unbox]
    · rw [rep_unbox, rep_mkConvert, Rep.unbox]
    · exact ((hv.carries hx.isAtom).mkConvert
        (Value.fits_boxed_of_fits_type (hx.rep ▸ hv.fits))).unbox hv'
    · exact ((hw.carries hy.isAtom).mkConvert
        (Value.fits_boxed_of_fits_type (hy.rep ▸ hw.fits))).unbox hw'

/-- What a comparison or arithmetic on unboxed operands becomes: the machine does not order truth values. -/
def machineCode (site : CallSite) (op : BinaryOp) (f : String) (k : Kind) (e e' : Expr) : Expr :=
  if op.isOrdering && k = .truth then .call f [e, e'] (site.backupRep op) else .mkBinary op e e'

theorem compute_machineOp {e' : Expr}
    (hop : b.machineOp? = some (op, f)) (ht : site.Typed b [(k, n₁), (k, n₂)] k' nullable args)
    (he : e.rep = .prim k.prim) (he' : e'.rep = .prim k.prim) :
    b.lowering.compute site [e, e'] = pure (machineCode site op f k e e') := by
  have hany : (site.operands.any fun o => o.type.name == .any) = false := ht.any_operands (by cases k <;> rfl)
  have hbackup : needsBackup op e.rep e'.rep = (op.isOrdering && k = .truth) := by
    rw [he, he']
    cases k <;> cases op <;> rfl
  rw [(machineOp?_spec hop).1]
  show Emit.lift (site.binary op (some f) [e, e']) = _
  simp only [CallSite.binary, hany, hbackup, machineCode, Bool.false_eq_true, if_false]
  split_ifs <;> rfl

/-- Comparisons and arithmetic, from what their code gives on operands that are not null. -/
theorem implements_machineOp
    (hop : b.machineOp? = some (op, f)) (ht : site.Typed b [(k, n₁), (k, n₂)] k' nullable args)
    (hnull : ∀ v, b.meaning [.null, v] = .null ∧ b.meaning [v, .null] = .null)
    (hraw : ∀ {m v w e e'}, m.Unshadowed → v.Fits (.prim k.prim) → w.Fits (.prim k.prim) →
      e.rep = .prim k.prim → e'.rep = .prim k.prim → e.EvalsTo m v → e'.EvalsTo m w →
      (machineCode site op f k e e').Carries m (b.meaning [v, w])) :
    ∃ value, b.Implements site args value := by
  obtain ⟨x, y, rfl, -, -⟩ := ht.pair
  obtain ⟨e, e', hops, he, he', hcarries⟩ := operandsFor_pair ht
  have hlow := (machineOp?_spec hop).1
  have hcompute : b.lowering.compute site (operandsFor .strict b.lowering.harmonizes site [x, y]) =
      pure (machineCode site op f k e e') := by
    rw [show b.lowering.harmonizes = true by rw [hlow]; rfl, hops]
    exact compute_machineOp hop ht he he'
  refine implements_strict ht (by rw [hlow]; rfl) (by rw [hlow]; rfl) (by rw [hlow]; rfl)
    hcompute ?_ ?_
  · rintro (_ | ⟨v, _ | ⟨w, _ | ⟨u, vs⟩⟩⟩) hlen hmem <;> simp at hlen hmem
    rcases hmem with rfl | rfl
    · exact (hnull w).1
    · exact (hnull v).2
  · intro m vs hgiven hnot
    obtain - | ⟨hv, - | ⟨hw, - | -⟩⟩ := hgiven.represents
    simp only [List.mem_cons, List.not_mem_nil, or_false, not_or] at hnot
    obtain ⟨hcv, hcw⟩ := hcarries hv hw (Ne.symm hnot.1) (Ne.symm hnot.2)
    exact hraw hgiven.unshadowed (he ▸ hcv.fits) (he' ▸ hcw.fits) he he' hcv.evalsTo hcw.evalsTo

theorem implements_comparison
    (hop : b.machineOp? = some (op, f)) (hc : op.isComparison)
    (ht : site.Typed b [(k, n₁), (k, n₂)] k' nullable args) :
    ∃ value, b.Implements site args value := by
  have hmeaning := (machineOp?_spec hop).2.1 hc
  refine implements_machineOp hop ht (fun v => ?_) fun {m v w e e'} hm hv hw _ _ he he' => ?_
  · rw [hmeaning, hmeaning]
    exact ⟨rfl, by cases v <;> rfl⟩
  · obtain ⟨hcompare, c, hbool⟩ := Value.compareBy_of_fits hc hv hw
    rw [hbool] at hcompare
    rw [hmeaning, hbool]
    unfold machineCode
    split_ifs with ho
    · -- truth values are ordered by the backup routine
      rw [Bool.and_eq_true] at ho
      obtain ⟨hf, hs, hfind⟩ := ordering_routine hop ho.1
      have hcall : (Run.call f [v, w]).result m = (.ok (.bool c), m) := by
        rw [Run.result_call_library (hm f hf) (hs _) hfind, ← hcompare]
        rfl
      refine .plain (evalsTo_call _ (.cons he (.cons he' .nil)) hcall) ?_ (by simp)
      rw [Expr.rep, CallSite.backupRep, if_pos hc]
      rfl
    · have hlogical : op.isLogical = false := by
        cases op <;> first | rfl | exact absurd hc (by decide)
      have happly : v.applyBinary op w .truth = .ok (.bool c) := by
        rw [Value.applyBinary, if_pos hc, hcompare]
        rfl
      rw [mkBinary_of_not_isLogical hlogical, if_pos hc]
      exact .plain (evalsTo_binary hlogical he he' happly) rfl (by simp)

theorem implements_arithmetic
    (hop : b.machineOp? = some (op, f)) (hr : op.isRing)
    (ht : site.Typed b [(.integer, n₁), (.integer, n₂)] .integer nullable args) :
    ∃ value, b.Implements site args value := by
  have hmeaning := (machineOp?_spec hop).2.2 hr
  refine implements_machineOp hop ht (fun v => ?_) fun {m v w e e'} _ hv hw hrep hrep' he he' => ?_
  · rw [hmeaning, hmeaning]
    exact ⟨rfl, by cases v <;> rfl⟩
  · obtain ⟨hlogical, hc⟩ : op.isLogical = false ∧ op.isComparison = false := by
      cases op <;> first | exact ⟨rfl, rfl⟩ | exact absurd hr (by decide)
    have happly : v.applyBinary op w (.prim .i32) = .ok (v.wrapping op.onIntegers w) :=
      Value.applyBinary_of_fits hr hv hw
    rw [hmeaning, machineCode, if_neg (by simp), mkBinary_of_not_isLogical hlogical, hc, hrep, hrep']
    refine .plain (evalsTo_binary hlogical he he' happly) ?_ (by simp)
    obtain ⟨n, rfl, -⟩ := Value.fits_integer_iff.1 hv
    obtain ⟨n', rfl, -⟩ := Value.fits_integer_iff.1 hw
    exact Value.fits_wrapped _

/-! ### Operators on one operand -/

theorem implements_sign {op : UnaryOp} (hlow : b.lowering = .unary op .strict)
    (hop : op = .negate ∨ op = .unaryPlus)
    (ht : site.Typed b [(.integer, n)] .integer nullable args) (hnull : b.meaning [.null] = .null)
    (happly : ∀ {v : Value}, v.Fits (.prim .i32) →
      v.applyUnary op (.prim .i32) = .ok (b.meaning [v]) ∧ (b.meaning [v]).Fits (.prim .i32)) :
    ∃ value, b.Implements site args value := by
  obtain ⟨x, rfl, hx⟩ := ht.single
  have hrep : x.value.unbox.rep = .prim .i32 := hx.rep_unbox
  have hsigned : x.value.unbox.signedRep = .prim .i32 := by
    rw [signedRep, hrep]
    rfl
  have hunary : Expr.mkUnary op x.value.unbox = .unary op x.value.unbox (.prim .i32) := by
    rcases hop with rfl | rfl <;> rw [Expr.mkUnary, hsigned]
  have hcompute : b.lowering.compute site (operandsFor .strict b.lowering.harmonizes site [x]) =
      pure ((Expr.mkUnary op x.value.unbox).mkConvert x.value.unbox.rep) := by
    rw [hlow]
    rfl
  refine implements_strict ht (by rw [hlow]; rfl) (by rw [hlow]; rfl) (by rw [hlow]; rfl)
    hcompute ?_ ?_
  · rintro (_ | ⟨v, _ | ⟨w, vs⟩⟩) hlen hmem <;> simp at hlen hmem
    rw [← hmem, hnull]
  · intro m vs hgiven hnot
    obtain - | ⟨hv, - | -⟩ := hgiven.represents
    have hcv := hv.carries_unbox hx fun h => hnot (by simp [h])
    obtain ⟨hu, hfits⟩ := happly (hrep ▸ hcv.fits)
    rw [hunary, hrep]
    exact (Carries.plain (evalsTo_unary hcv.evalsTo hu) hfits (by simp)).mkConvert hfits

theorem carries_equality {a : Bool} (t : Bool) (he : e.EvalsTo m (.bool a)) :
    (Expr.mkBinary .equal e (bool t)).Carries m (.bool (a == t)) ∧
      (Expr.mkBinary .notEqual e (bool t)).Carries m (.bool (a != t)) := by
  have ht : (bool t).EvalsTo m (.bool t) := result_const m (.bool t) .truth
  constructor
  all_goals
    refine .plain (evalsTo_binary rfl he ht ?_) rfl (by simp [Expr.mkBinary])
    cases a <;> cases t <;> rfl

theorem meaning_test_null (hb : b.tests k₀) :
    b.lowering = .predicate b ∧ b.meaning [.null] = .bool b.answerOnNull := by
  cases b with
  | isNull | isNotNull | isTrue | isNotTrue | isFalse | isNotFalse => exact ⟨rfl, rfl⟩
  | _ => cases hb

theorem exists_predicate (hb : b.tests k₀) (site : CallSite)
    (he : e.rep = .prim k₀.prim) : ∃ raw, site.predicate b [e] = .ok raw ∧
      ∀ {m v}, e.EvalsTo m v → v.Fits (.prim k₀.prim) → raw.Carries m (b.meaning [v]) := by
  have hprim : e.rep.isPrim := by rw [he]; rfl
  cases b with
  | isNull =>
    refine ⟨_, rfl, fun _ hv => ?_⟩
    rw [show e.mkIsNull = bool false by simp [mkIsNull, knownNull?, hprim], meaning, Value.isNull_of_fits_prim hv]
    exact carries_const rfl
  | isNotNull =>
    refine ⟨_, rfl, fun _ hv => ?_⟩
    rw [show e.mkIsNotNull = bool true by simp [mkIsNotNull, knownNull?, hprim], meaning, Value.isNull_of_fits_prim hv]
    exact carries_const rfl
  | isTrue | isNotTrue | isFalse | isNotFalse =>
    obtain rfl : k₀ = .truth := by simpa [tests] using hb
    refine ⟨_, rfl, fun hev hv => ?_⟩
    obtain ⟨a, rfl⟩ := Value.fits_truth_iff.1 hv
    first | exact (carries_equality _ hev).1 | exact (carries_equality _ hev).2
  | _ => cases hb

theorem implements_test (hb : b.tests k₀)
    (ht : site.Typed b [(k₀, n)] .truth nullable args) : ∃ value, b.Implements site args value := by
  obtain ⟨x, rfl, hx⟩ := ht.single
  obtain ⟨hlow, hnull⟩ := meaning_test_null hb
  obtain ⟨raw, hraw, hcarries⟩ := exists_predicate hb site hx.rep_unbox
  have hanswer : b.lowering.whenNull site.rep = .const (.bool b.answerOnNull) site.rep := by
    rw [hlow, ht.rep]
    cases nullable <;> rfl
  have hcompute : b.lowering.compute site (operandsFor b.lowering.policy b.lowering.harmonizes site [x]) =
      pure raw := by
    rw [hlow]
    show Emit.lift (site.predicate b [x.value.unbox]) = _
    rw [hraw]
    rfl
  refine ⟨_, implements_framed ht (by rw [hlow]; rfl) hcompute ?_ ?_ ?_⟩
  · rw [hanswer]
    exact plain_const rfl _
  · intro m vs hgiven _ h
    obtain - | ⟨hv, - | -⟩ := hgiven.represents
    rw [hlow, show (Lowering.predicate b).policy = .strict from rfl] at h
    obtain rfl : Value.null = _ := by simpa using Value.true_mem_map_isNull.1 h
    rw [hanswer, hnull]
    rfl
  · intro m vs hgiven _ h
    obtain - | ⟨hv, - | -⟩ := hgiven.represents
    rw [hlow] at h
    have hcv := hv.carries_unbox hx fun hn => h (Value.true_mem_map_isNull.2 (by simp [hn]))
    exact hcarries hcv.evalsTo (hx.rep_unbox ▸ hcv.fits)

theorem implements_not (ht : site.Typed .not [(.truth, n)] .truth nullable args) :
    ∃ value, Builtin.not.Implements site args value := by
  obtain ⟨x, rfl, hx⟩ := ht.single
  have hharm : site.harmonize [x.value] = [x.value] := by
    simp only [CallSite.harmonize, ht.operands]
    cases n <;> rfl
  have hcompute : Builtin.not.lowering.compute site (operandsFor .none true site [x]) =
      pure (.call "not" [x.value] (.boxed .bool)) := by
    show Builtin.not.lowering.compute site (site.harmonize [x.value]) = _
    rw [hharm]
    rfl
  refine ⟨_, implements_framed ht rfl hcompute ?_ ?_ ?_⟩
  · rw [ht.rep]
    cases nullable <;> exact plain_const rfl _
  · exact fun _ _ h => absurd h List.not_mem_nil
  · intro m vs hgiven _ _
    have hfits := Takes.not.fits (hgiven.fits ht)
    obtain - | ⟨hv, - | -⟩ := hgiven.represents
    refine .plain (evalsTo_call _ (.cons hv.value .nil) ?_) hfits (by simp)
    rw [Run.result_call_library (hgiven.unshadowed "not" (by decide)) rfl rfl]
    obtain - | ⟨hv', - | -⟩ := hgiven.fits ht
    obtain rfl | ⟨c, rfl⟩ := Value.truth_or_null hv' <;> rfl

/-! ### COALESCE -/

theorem evalsTo_mkIsNotNull (h : e.EvalsTo m v)
    (ha : e.isAtom) (hv : v.Fits e.rep) : e.mkIsNotNull.EvalsTo m (.bool !v.isNull) := by
  refine refines_mkIsNotNull (steady_of_isAtom ha) (fun w m' hw => ?_) _ _ (evalsTo_unary h rfl)
  rw [h] at hw
  cases hw
  exact hv

theorem plain_of_evalsTo_null (ha : e.isAtom)
    (h : e.EvalsTo m .null) : e.Plain := by
  cases e with
  | const v r =>
    cases h
    exact plain_const rfl r
  | slot s => exact fun v r hv => by simp [nodes] at hv
  | _ => cases ha

theorem meaning_coalesce_cons (v : Value) (vs : List Value) :
    meaning .coalesce (v :: vs) = bif v.isNull then meaning .coalesce vs else v := by
  cases v <;> rfl

/-- The chain of choices gives the first value that is not null, else the last one. -/
theorem carries_coalesce {x : Flagged} {xs : List Flagged}
    (hx : ∃ n, x.Shaped (k.type n)) (hxs : ∀ y ∈ xs, ∃ n, y.Shaped (k.type n))
    (hv : x.Represents m v) (hvs : List.Forall₂ (fun f v => f.Represents m v) xs vs) :
    (CallSite.coalesce.fold x.value (xs.map (·.value))).Carries m (meaning .coalesce (v :: vs)) ∧
      (CallSite.coalesce.fold x.value (xs.map (·.value))).rep.unbox = .prim k.prim := by
  induction hvs generalizing x v with
  | nil =>
    obtain ⟨n, hx⟩ := hx
    have hmeaning : meaning .coalesce [v] = v := by
      cases v <;> rfl
    rw [hmeaning]
    exact ⟨hv.carries hx.isAtom, (rep_unbox x.value).symm.trans hx.rep_unbox⟩
  | @cons y w ys ws hw hws ih =>
    obtain ⟨n, hx⟩ := hx
    obtain ⟨hcarries, hrep⟩ := ih (hxs y (by simp)) (fun z hz => hxs z (by simp [hz])) hw
    rw [meaning_coalesce_cons, List.map_cons, CallSite.coalesce.fold]
    have hrepx := hx.rep
    rw [Kind.rep_type] at hrepx
    cases n with
    | false =>
      -- an operand without room for null is the value
      have hnot : v.isNull = false := Value.isNull_of_fits_prim (hrepx ▸ hv.fits)
      have htest : x.value.mkIsNotNull = bool true := by
        simp [mkIsNotNull, knownNull?, hrepx, Rep.isPrim]
      rw [htest, hnot]
      exact ⟨hv.carries hx.isAtom, (rep_unbox x.value).symm.trans hx.rep_unbox⟩
    | true =>
      -- where the operand is null it is a variable or the constant null, so that folding is harmless
      refine Carries.mkCond (evalsTo_mkIsNotNull hv.value hx.isAtom hv.fits) hrepx hrep
        (fun hnull hsame => ?_) ?_
      · have hv' : v = .null := Value.isNull_iff.1 (by simpa using hnull)
        exact eq_of_same_of_plain (plain_of_evalsTo_null hx.isAtom (hv' ▸ hv.value)) hsame
      · cases v.isNull with
        | true => exact hcarries
        | false => exact hv.carries hx.isAtom

theorem implements_coalesce (ht : site.Typed .coalesce sorts k nullable args)
    (hsorts : ∀ k' ∈ sorts.map (·.1), k' = k) (hne : sorts ≠ []) :
    ∃ value, Builtin.coalesce.Implements site args value := by
  obtain ⟨x, xs, rfl⟩ : ∃ x xs, args = x :: xs := by
    have hlen := ht.args.length_eq
    cases sorts with
    | nil => exact absurd rfl hne
    | cons s ss =>
      cases args with
      | nil => cases hlen
      | cons x xs => exact ⟨x, xs, rfl⟩
  have hshaped := ht.shaped_of_kind hsorts
  have hcompute : Builtin.coalesce.lowering.compute site (operandsFor .none false site (x :: xs)) =
      pure (CallSite.coalesce.fold x.value (xs.map (·.value))) := rfl
  refine ⟨_, implements_framed ht rfl hcompute ?_ ?_ ?_⟩
  · rw [ht.rep]
    cases k <;> cases nullable <;> exact plain_const rfl _
  · exact fun _ _ h => absurd h List.not_mem_nil
  · intro m vs hgiven _ _
    obtain - | ⟨hv, hvs⟩ := hgiven.represents
    exact (carries_coalesce (hshaped x (by simp)) (fun y hy => hshaped y (by simp [hy])) hv hvs).1

/-! ### Conjunction and disjunction -/

/-- The operands with null replaced by the neutral value. A truth value that is not neutral stays. -/
theorem forall₂_substituted (neutral : Bool)
    (hargs : ∀ a ∈ args, ∃ n, a.Shaped (Kind.truth.type n))
    (hvs : List.Forall₂ (fun f v => f.Represents m v) args vs) :
    List.Forall₂ (fun e c => e.EvalsTo m (.bool c))
      (args.map fun a => Expr.mkCond a.isNull (.bool neutral) a.value.unbox)
      (vs.map fun v => v.isBool (!neutral) != neutral) := by
  induction hvs with
  | nil => exact .nil
  | @cons x v xs vs hv _ ih =>
    obtain ⟨⟨n, hx⟩, hxs⟩ := List.forall_mem_cons.1 hargs
    refine .cons ?_ (ih hxs)
    have hsame : (bool neutral).same x.value.unbox → bool neutral = x.value.unbox :=
      eq_of_same_of_plain (plain_const rfl _)
    rw [EvalsTo, result_mkCond hv.isNull fun _ hs => by rw [hsame hs]]
    obtain rfl | ⟨c, rfl⟩ :=
      Value.truth_or_null (Value.fits_boxed_of_fits_type (hx.rep ▸ hv.fits))
    · cases neutral <;> rfl
    · have hc : ((Value.bool c).isBool (!neutral) != neutral) = c := by
        cases c <;> cases neutral <;> rfl
      have hev : x.value.unbox.EvalsTo m (.bool ((Value.bool c).isBool (!neutral) != neutral)) := by
        rw [hc]
        exact (hv.carries_unbox hx (by simp)).evalsTo
      exact hev

theorem evalsTo_decided {es : List Expr} {neutral : Bool}
    (h : List.Forall₂ (fun e c => e.EvalsTo m (.bool c)) es
      (vs.map fun v => v.isBool (!neutral) != neutral)) :
    (if neutral then (conj es).mkNot else disj es).EvalsTo m
      (.bool (vs.any (·.isBool !neutral))) := by
  cases neutral with
  | true =>
    refine refines_mkNot (conj es) _ m (evalsTo_unary (evalsTo_conj h) ?_)
    simp [Value.applyUnary, List.all_map, List.not_any_eq_all_not]
  | false =>
    have hdisj := evalsTo_disj h
    simpa [List.any_map, Function.comp_def] using hdisj

/-- The three values of a conjunction or a disjunction, boxed. -/
theorem carries_connective {decided hasNull : Expr} {c d : Bool} (neutral : Bool)
    (hc : decided.EvalsTo m (.bool c)) (hd : hasNull.EvalsTo m (.bool d)) :
    (Expr.mkCond decided (.boxedBool !neutral)
        (.mkCond hasNull (.null (.boxed .bool)) (.boxedBool neutral))).Carries m
      (if c then .bool !neutral else if d then .null else .bool neutral) := by
  have hinner := Carries.mkCond (v := if d then .null else .bool neutral) hd (p := .bool)
    (a := .null (.boxed .bool)) (b := .boxedBool neutral) rfl rfl
    (fun _ hs => eq_of_same_of_plain (plain_const rfl _) hs) ?_
  · refine (Carries.mkCond hc rfl hinner.2 (fun _ hs => eq_of_same_of_plain (plain_const rfl _) hs) ?_).1
    cases c with
    | true => exact carries_const rfl
    | false => exact hinner.1
  · cases d with
    | true | false => exact carries_const rfl

theorem implements_connective {neutral : Bool} (hb : b = bif neutral then .and else .or)
    (ht : site.Typed b sorts .truth nullable args) (hsorts : ∀ k' ∈ sorts.map (·.1), k' = .truth) :
    b.Implements site args (site.connective neutral args) := by
  have hn : site.type.nullable = nullable := by rw [ht.type]; rfl
  refine ⟨⟨fun bd => ?_, ?_, fun _ _ hroot h => uses_connective hroot (fun _ hf => hf) h⟩, fun {m vs} hgiven hfits => ?_⟩
  · cases neutral <;> cases hb <;> rfl
  · have hrep : ∀ t t' : Expr, (Expr.mkCond t (.boxedBool !neutral)
        (.mkCond t' (.null (.boxed .bool)) (.boxedBool neutral))).rep = .boxed .bool := by
      intro t t'
      have hinner : (Expr.mkCond t' (.null (.boxed .bool)) (.boxedBool neutral)).rep = .boxed .bool :=
        rep_mkCond rfl (by decide)
      exact rep_mkCond hinner.symm (by simp [boxedBool, Expr.rep])
    rw [ht.rep]
    simp only [CallSite.connective, hn]
    cases nullable with
    | true => exact hrep _ _
    | false => exact (rep_unbox _).trans (by rw [hrep]; rfl)
  · have hkinds : ∀ v ∈ vs, v.Fits (.boxed Kind.truth.prim) :=
      fits_of_forall₂ (hgiven.fits ht) hsorts
    have hmeaning : b.meaning vs = if vs.any (·.isBool !neutral) then .bool !neutral
        else if vs.any Value.isNull then .null else .bool neutral := by
      rw [← Value.foldr_kleene hkinds]
      cases neutral <;> cases hb <;> rfl
    have hnulls := evalsTo_disj (Flagged.forall₂_isNull hgiven.represents)
    rw [List.any_map, Function.id_comp] at hnulls
    have hcarries := carries_connective neutral
      (evalsTo_decided (forall₂_substituted neutral (ht.shaped_of_kind hsorts) hgiven.represents)) hnulls
    rw [← hmeaning] at hcarries
    rw [ht.rep] at hfits
    simp only [CallSite.connective, hn]
    cases nullable with
    | true => exact hcarries.evalsTo
    | false => exact (hcarries.unbox (Value.ne_null_of_fits_prim hfits)).evalsTo

/-! ### Casts between integer types -/

theorem literal_of_fits {type : SqlType} (hv : v.Fits type.rep) :
    v.literal type = ⟨.bool v.isNull, .const v type.rep⟩ := by
  cases hnull : v.isNull with
  | true =>
    obtain rfl := Value.isNull_iff.1 hnull
    have hbox : type.rep.box = type.rep := by
      cases hr : type.rep with
      | prim p =>
        rw [hr] at hv
        cases p <;> cases hv
      | _ => rfl
    simp only [Value.literal, Value.literalExpr, hnull, if_true, Expr.null, hbox]
  | false =>
    have hconvert : v.convert type.rep = .ok v := hv
    simp only [Value.literal, Value.literalExpr, hnull, Bool.false_eq_true, if_false, hconvert]

theorem implements_cast (ht : site.Typed .cast [(.integer, n)] .integer nullable args)
    (hn : n ≠ nullable) : ∃ value, Builtin.cast.Implements site args value := by
  obtain ⟨x, rfl, hx⟩ := ht.single
  obtain ⟨operand, hoperand, htype⟩ := List.map_eq_singleton_iff.1 ht.operands
  have hne : operand.type ≠ site.type := by
    rw [htype, ht.type]
    exact fun h => hn (congrArg SqlType.nullable h)
  have hidentity : site.isIdentityCast = false := by
    rw [isIdentityCast, hoperand]
    exact beq_eq_false_iff_ne.2 hne
  have hrep : x.value.unbox.rep = .prim .i32 := hx.rep_unbox
  have hcast : site.cast [x.value.unbox] =
      .ok (operand.literal?.elim x.value.unbox (·.literalExpr site.type)) := by
    have hup : site.type.sameUpToNull operand.type := by
      rw [ht.type, htype]
      rfl
    have hsame : x.value.unbox.castTo operand.type (site.type.withNullable false) = x.value.unbox := by
      rw [castTo, if_pos (by rw [ht.type, htype]; exact .inl rfl)]
      refine mkConvert_of_rep_eq ?_
      rw [hrep, ht.type]
      rfl
    simp only [CallSite.cast, hoperand, if_neg hne, hup, hsame]
    cases operand.literal? <;> rfl
  have hcompute : Builtin.cast.lowering.compute site (operandsFor .strict false site [x]) = pure _ :=
    congrArg Emit.lift hcast
  refine implements_strict ht rfl rfl ?_ hcompute ?_ ?_
  · show Lowering.emit .cast site [x] = _
    unfold Lowering.emit
    rw [hidentity]
    rfl
  · rintro (_ | ⟨v, _ | ⟨w, vs⟩⟩) hlen hmem <;> simp at hlen hmem
    exact hmem.symm
  · intro m vs hgiven hnot
    have hfits := hgiven.fits ht
    have hliterals := hgiven.literals
    rw [hoperand] at hliterals
    obtain - | ⟨hv, - | -⟩ := hgiven.represents
    obtain - | ⟨hfits, - | -⟩ := hfits
    obtain - | ⟨hliteral, - | -⟩ := hliterals
    simp only [List.mem_singleton] at hnot
    cases hl : operand.literal? with
    | none => exact hv.carries_unbox hx (Ne.symm hnot)
    | some u =>
      -- a literal is written again, and the operand has its value
      obtain rfl := hliteral u hl
      have hu : u.Fits (Kind.integer.type nullable).rep :=
        Value.fits_type hfits fun _ => Ne.symm hnot
      have hconst : u.literalExpr _ = _ := congrArg Flagged.value (literal_of_fits hu)
      simp only [Option.elim_some, ht.type, hconst]
      exact carries_const hu

/-! ### All operators of the fragment -/

/-- The routines that the code of the fragment calls do not read the state. -/
theorem Takes.routines {ks : List Kind} (h : b.Takes ks k) :
    ∀ f ∈ b.lowering.routines, f ∉ volatile := by
  cases h with
  | @test b k hb =>
    rw [(meaning_test_null hb).1]
    exact fun f hf => absurd hf (by simp [Lowering.routines])
  | comparison hop | arithmetic hop =>
    unfold machineOp? at hop
    split at hop <;> cases hop <;> decide
  | _ => decide

/-- A cast to the type that the operand has is the operand itself. -/
theorem compiles_identity_cast (bd : Builder)
    (ht : site.Typed .cast [(.integer, nullable)] .integer nullable args) :
    Builtin.cast.Compiles site args bd := by
  obtain ⟨x, rfl, hx⟩ := ht.single
  have hidentity : site.isIdentityCast := by
    obtain ⟨operand, hoperand, htype⟩ := List.map_eq_singleton_iff.1 ht.operands
    rw [isIdentityCast, hoperand]
    exact beq_iff_eq.2 (htype.trans ht.type.symm)
  refine ⟨x, bd, [], ?_, .refl bd, ht.type ▸ hx, fun m vs hgiven _ => ?_⟩
  · show (Lowering.emit .cast site [x]).run bd = _
    unfold Lowering.emit
    rw [hidentity]
    rfl
  · obtain - | ⟨hv, - | -⟩ := hgiven.represents
    exact ⟨m, rfl, .refl _ _, hv⟩

/-- The code of every well-typed call represents the meaning of its operator. -/
theorem Takes.compiles {bd : Builder} (h : b.Takes (sorts.map (·.1)) k)
    (ht : site.Typed b sorts k nullable args) (hroot : "root" ∈ bd.names)
    (hargs : ∀ a ∈ args, a.Uses (· ∈ bd.names) (· ∉ volatile)) : b.Compiles site args bd := by
  have hvalue : (∃ value, b.Implements site args value) → b.Compiles site args bd :=
    fun ⟨_, hi⟩ => hi.compiles h.routines hroot hargs
  generalize hks : sorts.map (·.1) = ks at h
  cases h with
  | and hall => exact hvalue ⟨site.connective true args, implements_connective rfl ht (hks ▸ hall)⟩
  | or hall => exact hvalue ⟨site.connective false args, implements_connective rfl ht (hks ▸ hall)⟩
  | coalesce hall =>
    refine hvalue (implements_coalesce ht (by rw [hks]; simpa using hall) ?_)
    rintro rfl
    cases hks
  | not =>
    match sorts, hks with
    | [(_, n)], rfl => exact hvalue (implements_not ht)
  | test hb =>
    match sorts, hks with
    | [(_, n)], rfl => exact hvalue (implements_test hb ht)
  | comparison hop hc =>
    match sorts, hks with
    | [(_, n₁), (_, n₂)], hks =>
      cases hks
      exact hvalue (implements_comparison hop hc ht)
  | arithmetic hop hr =>
    match sorts, hks with
    | [(_, n₁), (_, n₂)], rfl => exact hvalue (implements_arithmetic hop hr ht)
  | unaryMinus =>
    match sorts, hks with
    | [(_, n)], rfl =>
      refine hvalue (implements_sign rfl (.inl rfl) ht rfl fun hv => ?_)
      obtain ⟨i, rfl, happly⟩ := Value.applyUnary_negate hv
      exact ⟨happly, Value.fits_wrapped _⟩
  | unaryPlus =>
    match sorts, hks with
    | [(_, n)], rfl => exact hvalue (implements_sign rfl (.inr rfl) ht rfl fun hv => ⟨rfl, hv⟩)
  | cast =>
    match sorts, hks with
    | [(_, n)], rfl =>
      by_cases hn : n = nullable
      · subst hn
        exact compiles_identity_cast bd ht
      · exact hvalue (implements_cast ht hn)

end Builtin

end SqlCode
