import SqlCode.Proofs.ExactNumbers
import SqlCode.Proofs.IntegerArithmetic
import SqlCode.Proofs.StrictFolds

/-!
# Sums

SUM and SUM0 over exact numbers. Every row is cut to the type of the result, and so is every sum. Below 64 bits
this amounts to cutting the exact sum of all rows; in 64 bits nothing is cut, and the first sum that does not fit
is a fault. Sums of decimals are exact.
-/

namespace SqlCode

open Run SqlCode.Expr IntegerType

variable {vs : List Value} {n n' : Bool} {c : AggregateCall}

/-! ### Adding numbers -/

/-- The number of an integer. -/
def Value.integer? : Value → Option Int
  | .int k => some k.toInt
  | _ => none

/-- The sums of the first numbers are words, whatever their number is. -/
def RunningSumsFit (xs : List Int) : Prop := ∀ ys, ys <+: xs → Word.Fits ys.sum

theorem runningSumsFit_nil : RunningSumsFit [] := by
  intro ys hys
  rw [List.prefix_nil.1 hys]
  decide

theorem runningSumsFit_concat {xs : List Int} {x : Int} :
    RunningSumsFit (xs ++ [x]) ↔ RunningSumsFit xs ∧ Word.Fits (xs.sum + x) := by
  simp only [RunningSumsFit, List.prefix_concat_iff]
  constructor
  · intro h
    refine ⟨fun ys hys => h ys (.inr hys), ?_⟩
    simpa using h (xs ++ [x]) (.inl rfl)
  · rintro ⟨hxs, hx⟩ ys (rfl | hys)
    · simpa using hx
    · exact hxs ys hys

namespace IntegerType

variable {w : IntegerType}

/-- What a row makes of a sum of the type. -/
def plus (w : IntegerType) (a v : Value) : Except Fault Value :=
  v.convert (.prim w.prim) >>= Arithmetic.plus.outcome w a

theorem convert_int (w : IntegerType) (k : Int64) :
    (Value.int k).convert (.prim w.prim) = .ok (w.wrapped k.toInt) := w.toPrim_int k

/-- Adding up numbers that are cut to the type is cutting their sum. -/
theorem plus_wrapped (hw : w ≠ .big) (s : Int) (k : Int64) :
    w.plus (w.wrapped s) (.int k) = .ok (w.wrapped (s + k.toInt)) := by
  have hstore : ∀ n, Arithmetic.plus.store w n = .ok (w.wrapped n) := by
    intro n
    cases w <;> first | rfl | exact absurd rfl hw
  have hmod : ∀ n : Int, (Int64.ofInt (n.bmod (2 ^ w.bits))).toInt = n.bmod (2 ^ w.bits) := fun n =>
    Word.toInt_ofInt (w.holds_bmod n).fits
  rw [plus, convert_int]
  show Arithmetic.plus.store w _ = _
  rw [hstore, hmod, hmod, wrapped, Int.bmod_add_bmod, Int.add_bmod_bmod, wrapped]

/-- In 64 bits a sum is a word or a fault. -/
theorem plus_big {s : Int} (hs : Word.Fits s) (k : Int64) :
    big.plus (.int (Int64.ofInt s)) (.int k) =
      if Word.Fits (s + k.toInt) then .ok (.int (Int64.ofInt (s + k.toInt)))
      else .error (.overflow BinaryOp.add.label) := by
  have hk : big.wrapped k.toInt = .int k := by
    have hmod : k.toInt.bmod (2 ^ big.bits) = k.toInt := holds_iff.1 ⟨Int64.le_toInt k, Int64.toInt_lt k⟩
    rw [wrapped, hmod, Int64.ofInt_toInt]
  rw [plus, convert_int, hk]
  show Arithmetic.plus.store big _ = _
  rw [Word.toInt_ofInt hs]
  rfl

theorem foldlM_plus (hw : w ≠ .big) (hvs : ∀ v ∈ vs, ∃ k, v = .int k) :
    vs.foldlM w.plus (.int 0) = .ok (w.wrapped (vs.filterMap Value.integer?).sum) := by
  induction vs using List.reverseRecOn with
  | nil => cases w <;> rfl
  | append_singleton vs v ih =>
    obtain ⟨k, rfl⟩ := hvs v (by simp)
    rw [List.foldlM_append, ih fun u hu => hvs u (by simp [hu]), List.filterMap_append, List.sum_append]
    show w.plus _ _ >>= pure = _
    rw [bind_pure, plus_wrapped hw]
    simp [Value.integer?]

/-- In 64 bits: the exact sum, if the sums on the way fit. -/
theorem foldlM_plus_big (hvs : ∀ v ∈ vs, ∃ k, v = .int k) :
    (RunningSumsFit (vs.filterMap Value.integer?) →
      vs.foldlM big.plus (.int 0) = .ok (.int (Int64.ofInt (vs.filterMap Value.integer?).sum))) ∧
    (¬ RunningSumsFit (vs.filterMap Value.integer?) →
      vs.foldlM big.plus (.int 0) = .error (.overflow BinaryOp.add.label)) := by
  induction vs using List.reverseRecOn with
  | nil => exact ⟨fun _ => rfl, fun h => absurd runningSumsFit_nil h⟩
  | append_singleton vs v ih =>
    obtain ⟨k, rfl⟩ := hvs v (by simp)
    obtain ⟨hok, herror⟩ := ih fun u hu => hvs u (by simp [hu])
    have hxs : (vs ++ [Value.int k]).filterMap Value.integer? = vs.filterMap Value.integer? ++ [k.toInt] := by
      rw [List.filterMap_append]
      rfl
    rw [hxs, runningSumsFit_concat, List.foldlM_append]
    -- a fault on the way stays; otherwise the last sum decides
    by_cases hfit : RunningSumsFit (vs.filterMap Value.integer?)
    · have hstep := plus_big (hfit _ List.prefix_rfl) k
      rw [hok hfit]
      show (_ → big.plus _ _ >>= pure = _) ∧ (_ → big.plus _ _ >>= pure = _)
      rw [bind_pure, hstep]
      refine ⟨fun h => ?_, fun h => ?_⟩
      · rw [if_pos h.2]
        simp
      · rw [if_neg fun hlast => h ⟨hfit, hlast⟩]
    · rw [herror hfit]
      exact ⟨fun h => absurd h.1 hfit, fun _ => rfl⟩

end IntegerType

theorem Decimal.foldlM_add (hvs : ∀ v ∈ vs, ∃ d, v = .decimal d) :
    ∃ d, vs.foldlM (Value.arithmetic .add) (.decimal ⟨0, 0⟩) = .ok (.decimal d) ∧
      d.toRat = (vs.filterMap Value.number?).sum := by
  induction vs using List.reverseRecOn with
  | nil => exact ⟨⟨0, 0⟩, rfl, by simp [toRat]⟩
  | append_singleton vs v ih =>
    obtain ⟨d', rfl⟩ := hvs v (by simp)
    obtain ⟨d, hd, hsum⟩ := ih fun u hu => hvs u (by simp [hu])
    refine ⟨d.add d', ?_, ?_⟩
    · rw [List.foldlM_append, hd]
      rfl
    · rw [toRat_add, hsum]
      simp [Value.number?]

/-! ### The code of a sum -/

theorem Fold.computes_sum_integer {w w' : IntegerType} (hc : c.parameters = [w.type n])
    (ht : c.returnType = w'.type n') :
    sum.Computes c (·.Fits (.prim w'.prim)) (.int 0) fun a row => w'.plus a (row.getD 0 .null) := by
  have hrep : c.notNullRep = .prim w'.prim := by
    rw [AggregateCall.notNullRep, ht]
    cases w' <;> rfl
  refine computes_of_combine (fun x y => (Expr.mkBinary .add x y).mkConvert c.notNullRep) hc rfl rfl
    (fun e => rfl) ?_ ?_ ?_
  · intro m
    rw [hrep]
    cases w' <;> rfl
  · cases w' <;> rfl
  · intro a v ha hv hnull
    obtain ⟨k, rfl, -⟩ := fits_prim_iff.1 (fits_of_bits_le hv hnull le_rfl)
    have hcut := w'.fits_wrapped k.toInt
    have hplus : w'.plus a (.int k) = Arithmetic.plus.outcome w' a (w'.wrapped k.toInt) := by
      rw [IntegerType.plus, convert_int]
      rfl
    rw [hrep, hplus]
    refine ⟨fun a' ha' => Arithmetic.fits_of_outcome ha hcut ha', _, w'.convert_int k, ?_⟩
    intro m x y _ hx hy hxa hyu
    exact Arithmetic.result_mkConvert_mkBinary (o := .plus) rfl hx hy ha hcut hxa hyu

theorem Fold.computes_sum_decimal (hc : c.parameters = [.plain .decimal n])
    (ht : c.returnType = .plain .decimal n') :
    sum.Computes c (∃ d, · = .decimal d) (.decimal ⟨0, 0⟩)
      fun a row => Value.arithmetic .add a (row.getD 0 .null) := by
  have hrep : c.notNullRep = .decimal := by
    rw [AggregateCall.notNullRep, ht]
    rfl
  refine computes_of_combine (fun x y => (Expr.mkBinary .add x y).mkConvert c.notNullRep) hc rfl rfl
    (fun e => rfl) ?_ ⟨_, rfl⟩ ?_
  · intro m
    rw [hrep]
    rfl
  · rintro _ v ⟨d, rfl⟩ hv hnull
    obtain ⟨d', rfl⟩ := Value.exists_decimal hv hnull
    refine ⟨fun a' ha' => ⟨d.add d', (Except.ok.inj ha').symm⟩, ?_⟩
    rw [hrep]
    refine ⟨.decimal d', rfl, fun {m x y} _ hx hy hxa hyu => ?_⟩
    have hnode : Expr.mkBinary .add x y = .binary .add x y .decimal := by
      rw [mkBinary_of_not_isLogical rfl, hx, hy]
      rfl
    have hsum : (Expr.binary .add x y .decimal).EvalsTo m (.decimal (d.add d')) :=
      evalsTo_binary rfl hxa hyu rfl
    rw [hnode, mkConvert_of_rep_eq (show (Expr.binary .add x y .decimal).rep = .decimal from rfl), hsum]
    rfl

/-! ### Groups -/

theorem filterMap_filter_isNull {α : Type} {g : Value → Option α} (hg : g .null = none) (vs : List Value) :
    (vs.filter fun v => !v.isNull).filterMap g = vs.filterMap g := by
  rw [List.filterMap_filter]
  congr 1
  funext v
  cases v with
  | null => exact hg.symm
  | _ => rfl

namespace AggregateProgram

variable {p : AggregateProgram} (hp : p.Implements (.strict .sum) c)

section Integers

variable {w w' : IntegerType} (hc : c.parameters = [w.type n]) (hvs : ∀ v ∈ vs, v.Fits (w.type n).rep)
include hvs

theorem exists_int_of_mem_filter :
    ∀ v ∈ vs.filter fun v => !v.isNull, ∃ k, v = .int k := by
  refine Fold.forall_mem_filter_isNull fun v hv hne => ?_
  obtain ⟨k, rfl, -⟩ := fits_prim_iff.1 (fits_of_bits_le (hvs v hv) hne le_rfl)
  exact ⟨k, rfl⟩

include hp hc

/-- In 64 bits, the first sum that does not fit is a fault of its row. -/
theorem overflow_of_not_runningSumsFit (ht : c.returnType = IntegerType.big.type n') (m : Machine)
    (hfit : ¬ RunningSumsFit (vs.filterMap Value.integer?)) :
    ((p.aggregate (vs.map ([·]))).result m).1 = .error (.overflow BinaryOp.add.label) ∧
      ∃ before v after m', vs = before ++ v :: after ∧
        RunningSumsFit (before.filterMap Value.integer?) ∧
        ¬ Word.Fits ((before ++ [v]).filterMap Value.integer?).sum ∧
        (p.start >>= fun _ => p.takeAll (before.map ([·]))).result m = (.ok (), m') ∧
        ((p.take [v]).result m').1 = .error (.overflow BinaryOp.add.label) := by
  have hcomputes := Fold.computes_sum_integer hc ht
  have hm := Fold.unregistered_of_calls_eq_nil (f := .sum) rfl m
  have hfold := (foldlM_plus_big (exists_int_of_mem_filter hvs)).2
    (by rwa [filterMap_filter_isNull rfl])
  refine ⟨?_, ?_⟩
  · rw [hcomputes.result_aggregate_column hp hc hvs hm, hfold]
    rfl
  · obtain ⟨before, v, after, a, m', rfl, hv, hbefore, hnext, hrun, htake⟩ :=
      hcomputes.exists_fault_column hp hc hvs hm hfold
    have hbeforeFits : ∀ u ∈ before, u.Fits (w.type n).rep := fun u hu => hvs u (by simp [hu])
    obtain ⟨hok, herror⟩ := foldlM_plus_big (exists_int_of_mem_filter hbeforeFits)
    rw [filterMap_filter_isNull rfl] at hok herror
    -- the rows before the fault were taken in, so that their sums fit
    have hsums : RunningSumsFit (before.filterMap Value.integer?) := by
      by_contra hno
      cases hbefore.symm.trans (herror hno)
    cases hbefore.symm.trans (hok hsums)
    obtain ⟨k, rfl⟩ := exists_int_of_mem_filter hvs v (Fold.mem_filter_isNull.2 ⟨by simp, hv⟩)
    refine ⟨before, .int k, after, m', rfl, hsums, fun hsum => ?_, hrun, htake⟩
    have hlast : Word.Fits ((before.filterMap Value.integer?).sum + k.toInt) := by
      simpa [List.filterMap_append, Value.integer?] using hsum
    rw [plus_big (hsums _ List.prefix_rfl), if_pos hlast] at hnext
    cases hnext

end Integers

end AggregateProgram

/-! ### The main result -/

/-- SUM and SUM0 over a column of exact numbers. Integers: without numbers the result is null if it may be null
and zero otherwise; with a type below 64 bits it is the exact sum, cut to the type; in 64 bits it is the exact sum
if the sums of the first rows fit, and otherwise the first row whose sum does not fit is an overflow. Decimals: the
exact sum. -/
theorem AggregateFunction.aggregate_sum {a : Aggregate} (ha : a = .sum ∨ a = .sum0) (settings : Settings) (call : AggregateCall)
    (window : Bool) (hwindow : window = true → settings.windowReuse = .allowList) :
    (∀ (w w' : IntegerType) (n n' : Bool), call.parameters = [w.type n] → call.returnType = w'.type n' →
      ∃ p, (builtin a).program settings call window = .ok p ∧
        ∀ vs : List Value, (∀ v ∈ vs, v.Fits (w.type n).rep) → ∀ m : Machine,
          let xs := vs.filterMap Value.integer?
          let result := ((p.aggregate (vs.map ([·]))).result m).1
          ((∀ v ∈ vs, v = .null) → result = .ok (if n' then .null else .int 0)) ∧
          ((∃ v ∈ vs, v ≠ .null) → w' ≠ .big → result = .ok (w'.wrapped xs.sum)) ∧
          ((∃ v ∈ vs, v ≠ .null) → w' = .big → RunningSumsFit xs →
            result = .ok (.int (Int64.ofInt xs.sum))) ∧
          (w' = .big → ¬ RunningSumsFit xs → result = .error (.overflow "Add") ∧
            ∃ before v after m', vs = before ++ v :: after ∧
              RunningSumsFit (before.filterMap Value.integer?) ∧
              ¬ Word.Fits ((before ++ [v]).filterMap Value.integer?).sum ∧
              (p.start >>= fun _ => p.takeAll (before.map ([·]))).result m = (.ok (), m') ∧
              ((p.take [v]).result m').1 = .error (.overflow "Add"))) ∧
    ∀ n n' : Bool, call.parameters = [.plain .decimal n] → call.returnType = .plain .decimal n' →
      ∃ p, (builtin a).program settings call window = .ok p ∧
        ∀ vs : List Value, (∀ v ∈ vs, v.Fits .decimal) → ∀ m : Machine,
          let result := ((p.aggregate (vs.map ([·]))).result m).1
          ((∀ v ∈ vs, v = .null) → result = .ok (if n' then .null else .decimal ⟨0, 0⟩)) ∧
          ((∃ v ∈ vs, v ≠ .null) → ∃ d, result = .ok (.decimal d) ∧
            d.toRat = (vs.filterMap Value.number?).sum) := by
  have ha : a.plain? = some (.strict .sum) ∧ a.isReusable = true := by rcases ha with rfl | rfl <;> exact ⟨rfl, rfl⟩
  refine ⟨fun w w' n n' hc ht => ?_, fun n n' hc ht => ?_⟩
  · replace ht : (call.complete settings).returnType = w'.type n' := ht
    have hcomputes := Fold.computes_sum_integer (c := call.complete settings) hc ht
    obtain ⟨p, hp, himp⟩ := exists_program_of_computes ha.1 ha.2 hwindow hcomputes
    refine ⟨p, hp, fun vs hvs m => ?_⟩
    have hm := Fold.unregistered_of_calls_eq_nil (f := .sum) rfl m
    have hints := AggregateProgram.exists_int_of_mem_filter hvs
    refine ⟨fun hnull => ?_, fun hsome hw => ?_, fun hsome hw hfit => ?_, fun hw hfit => ?_⟩
    · rw [hcomputes.result_aggregate_of_forall_null himp hc hvs hm hnull, ht]
      rfl
    · rw [hcomputes.result_aggregate_of_exists himp hc hvs hm hsome, IntegerType.foldlM_plus hw hints,
        filterMap_filter_isNull rfl]
    · subst hw
      rw [hcomputes.result_aggregate_of_exists himp hc hvs hm hsome,
        (IntegerType.foldlM_plus_big hints).1 (by rwa [filterMap_filter_isNull rfl]), filterMap_filter_isNull rfl]
    · subst hw
      exact AggregateProgram.overflow_of_not_runningSumsFit himp hc hvs ht m hfit
  · replace ht : (call.complete settings).returnType = .plain .decimal n' := ht
    have hcomputes := Fold.computes_sum_decimal (c := call.complete settings) hc ht
    obtain ⟨p, hp, himp⟩ := exists_program_of_computes ha.1 ha.2 hwindow hcomputes
    refine ⟨p, hp, fun vs hvs m => ?_⟩
    have hm := Fold.unregistered_of_calls_eq_nil (f := .sum) rfl m
    refine ⟨fun hnull => ?_, fun hsome => ?_⟩
    · rw [hcomputes.result_aggregate_of_forall_null himp hc hvs hm hnull, ht]
      rfl
    · obtain ⟨d, hd, hsum⟩ := Decimal.foldlM_add
        (Fold.forall_mem_filter_isNull fun v hv => Value.exists_decimal (hvs v hv))
      rw [hcomputes.result_aggregate_of_exists himp hc hvs hm hsome]
      exact ⟨d, hd, by rw [hsum, filterMap_filter_isNull rfl]⟩

/-- 100 and 30 give -126 as TINYINT; the greatest BIGINT, one and minus one overflow at the second row; 0.1 and
0.2 are 0.3. -/
theorem AggregateFunction.aggregate_sum_at_the_limits :
    (∃ p, (builtin .sum).program {} { returnType := .plain .tinyInt true, parameters := [.plain .tinyInt true] }
        false = .ok p ∧
      ((p.aggregate [[.int 100], [.null], [.int 30]]).result {}).1 = .ok (.int (-126)) ∧
      ((p.aggregate [[.null]]).result {}).1 = .ok .null) ∧
    (∃ p, (builtin .sum0).program {} { returnType := .plain .bigInt false, parameters := [.plain .bigInt false] }
        false = .ok p ∧
      ((p.aggregate [[.int 9223372036854775807], [.int 1], [.int (-1)]]).result {}).1 =
        .error (.overflow "Add")) ∧
    ∃ p, (builtin .sum).program {} { returnType := .plain .decimal false, parameters := [.plain .decimal false] }
        false = .ok p ∧
      ∃ d, ((p.aggregate [[.decimal ⟨1, 1⟩], [.decimal ⟨2, 1⟩]]).result {}).1 = .ok (.decimal d) ∧
        d.toRat = 3 / 10 := by
  refine ⟨?_, ?_, ?_⟩
  · obtain ⟨p, hp, hsum⟩ := (aggregate_sum (a := .sum) (.inl rfl) {}
      { returnType := .plain .tinyInt true, parameters := [.plain .tinyInt true] } false (by simp)).1
      .tiny .tiny true true rfl rfl
    refine ⟨p, hp, ?_, ?_⟩
    · refine (hsum [.int 100, .null, .int 30] ?_ {}).2.1 ⟨.int 100, by simp, by simp⟩ (by decide)
      exact List.forall_mem_cons.2 ⟨rfl, List.forall_mem_cons.2 ⟨rfl, List.forall_mem_singleton.2 rfl⟩⟩
    · exact (hsum [.null] (List.forall_mem_singleton.2 rfl) {}).1 (by simp)
  · obtain ⟨p, hp, hsum⟩ := (aggregate_sum (a := .sum0) (.inr rfl) {}
      { returnType := .plain .bigInt false, parameters := [.plain .bigInt false] } false (by simp)).1
      .big .big false false rfl rfl
    have hfirst : [9223372036854775807, 1] <+:
        [Value.int 9223372036854775807, .int 1, .int (-1)].filterMap Value.integer? := ⟨[-1], rfl⟩
    refine ⟨p, hp, ((hsum [.int 9223372036854775807, .int 1, .int (-1)] ?_ {}).2.2.2 rfl fun hsums =>
      absurd (hsums _ hfirst) (by decide)).1⟩
    exact List.forall_mem_cons.2 ⟨rfl, List.forall_mem_cons.2 ⟨rfl, List.forall_mem_singleton.2 rfl⟩⟩
  · obtain ⟨p, hp, hsum⟩ := (aggregate_sum (a := .sum) (.inl rfl) {}
      { returnType := .plain .decimal false, parameters := [.plain .decimal false] } false (by simp)).2
      false false rfl rfl
    obtain ⟨d, hd, hrat⟩ := (hsum [.decimal ⟨1, 1⟩, .decimal ⟨2, 1⟩]
      (List.forall_mem_cons.2 ⟨rfl, List.forall_mem_singleton.2 rfl⟩) {}).2 ⟨.decimal ⟨1, 1⟩, by simp, by simp⟩
    refine ⟨p, hp, d, hd, ?_⟩
    rw [hrat]
    show Decimal.toRat ⟨1, 1⟩ + (Decimal.toRat ⟨2, 1⟩ + 0) = 3 / 10
    norm_num [Decimal.toRat]

end SqlCode
