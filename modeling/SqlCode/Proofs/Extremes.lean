import Mathlib.Data.String.Basic
import SqlCode.Proofs.ExactNumbers
import SqlCode.Proofs.IntegerArithmetic
import SqlCode.Proofs.StrictFolds

/-!
# Extremes

MIN, MAX, EVERY, SOME and ANY_VALUE keep the lesser or the greater of the accumulator and the row. Over a type
whose values are linearly ordered, the result is the value of a row that bounds all others. The accumulator starts
from null, or from the far end of a machine kind, which no row lies beyond: either way the first row wins.
-/

namespace SqlCode

open Run SqlCode.Expr Fold

variable {least : Bool} {u v : Value} {o : Ordering} {c : AggregateCall}

/-! ### Ordered values -/

namespace Value

/-- The order is one of a value that is at most (`least`) or at least the other one. -/
def favours (least : Bool) (o : Ordering) : Bool := if least then o.isLE else o.isGE

theorem favours_swap (h : favours least o = false) :
    favours least o.swap := by
  cases least <;> cases o <;> cases h <;> rfl

theorem eq_of_favours (h : favours least o)
    (h' : favours least o.swap) : o = .eq := by
  cases least <;> cases o <;> first | rfl | simp [favours] at h h'

/-- The first value is at most (`least`) or at least the second one. -/
def Bounds (least : Bool) (u v : Value) : Prop := ∃ o, u.compare? v = some o ∧ favours least o

/-- The values are linearly ordered, up to sameness. -/
structure Ordered (S : Value → Prop) : Prop where
  ne_null : ∀ {v}, S v → v ≠ .null
  total : ∀ {u v}, S u → S v → ∃ o, u.compare? v = some o ∧ v.compare? u = some o.swap
  trans : ∀ {least u v w}, S u → S v → S w → Bounds least u v → Bounds least v w → Bounds least u w
  same : ∀ {u v}, S u → S v → u.compare? v = some .eq → u.same v

variable {S : Value → Prop}

theorem bounds_iff {K : Type} [LinearOrder K] {x y : K} (h : u.compare? v = some (Ord.compare x y)) :
    Bounds least u v ↔ if least then x ≤ y else y ≤ x := by
  simp only [Bounds, h, Option.some.injEq, exists_eq_left']
  cases least with
  | true => exact Ordering.isLE_iff_ne_gt.trans compare_le_iff_le
  | false => exact Ordering.isGE_iff_ne_lt.trans compare_ge_iff_ge

/-- Values of one kind that are ordered as keys in a linear order. -/
theorem ordered_of_key {α K : Type} [LinearOrder K] (kind : α → Value) (key : α → K)
    (hkind : ∀ {v}, S v → ∃ x, v = kind x) (hnull : ∀ x, kind x ≠ .null)
    (hcompare : ∀ x y, (kind x).compare? (kind y) = some (Ord.compare (key x) (key y)))
    (hsame : ∀ x y, key x = key y → (kind x).same (kind y)) : Ordered S := by
  refine ⟨fun {v} hv => ?_, fun {u v} hu hv => ?_, fun {least u v w} hu hv hw huv hvw => ?_,
    fun {u v} hu hv h => ?_⟩
  · obtain ⟨x, rfl⟩ := hkind hv
    exact hnull x
  · obtain ⟨x, rfl⟩ := hkind hu
    obtain ⟨y, rfl⟩ := hkind hv
    have hswap : Ord.compare (key y) (key x) = (Ord.compare (key x) (key y)).swap := Std.OrientedCmp.eq_swap
    exact ⟨_, hcompare x y, by rw [hcompare, hswap]⟩
  · obtain ⟨x, rfl⟩ := hkind hu
    obtain ⟨y, rfl⟩ := hkind hv
    obtain ⟨z, rfl⟩ := hkind hw
    rw [bounds_iff (hcompare _ _)] at huv hvw ⊢
    cases least with
    | true => exact le_trans huv hvw
    | false => exact le_trans hvw huv
  · obtain ⟨x, rfl⟩ := hkind hu
    obtain ⟨y, rfl⟩ := hkind hv
    rw [hcompare, Option.some.injEq, compare_eq_iff_eq] at h
    exact hsame x y h

/-- The one of two values that an extreme keeps. -/
def keep (least : Bool) (a v : Value) : Except Fault Value :=
  Routine.extreme (if least then "lesser" else "greater") (if least then .lt else .gt) [a, v]

theorem keep_null (least : Bool) (v : Value) : keep least .null v = .ok v := by
  cases v <;> rfl

theorem keep_of_compare? (hu : u ≠ .null) (hv : v ≠ .null) (h : u.compare? v = some o) :
    keep least u v = .ok (if favours least o then u else v) := by
  simp only [keep, Routine.extreme, Args.value, List.getElem?_cons_zero, List.getElem?_cons_succ, bind,
    Except.bind]
  rw [h]
  cases least <;> cases o <;> rfl

namespace Ordered

theorem bounds_self (h : Ordered S) (hu : S u) : Bounds least u u := by
  obtain ⟨o, ho, ho'⟩ := h.total hu hu
  refine ⟨o, ho, ?_⟩
  have hswap : o = o.swap := Option.some.inj (ho.symm.trans ho')
  by_contra hno
  rw [Bool.not_eq_true] at hno
  exact Bool.false_ne_true (hno.symm.trans (hswap ▸ favours_swap hno))

theorem same_of_bounds (h : Ordered S) (hu : S u) (hv : S v) (huv : Bounds least u v) (hvu : Bounds least v u) :
    u.same v := by
  obtain ⟨o, ho, ho'⟩ := h.total hu hv
  refine h.same hu hv ?_
  obtain ⟨p, hp, hfav⟩ := huv
  obtain ⟨q, hq, hfav'⟩ := hvu
  cases ho.symm.trans hp
  cases ho'.symm.trans hq
  rw [ho, eq_of_favours hfav hfav']

theorem exists_keep (h : Ordered S) (least : Bool) (hu : S u) (hv : S v) :
    ∃ c, keep least u v = .ok c ∧ (c = u ∨ c = v) ∧ Bounds least c u ∧ Bounds least c v := by
  obtain ⟨o, ho, ho'⟩ := h.total hu hv
  rw [keep_of_compare? (h.ne_null hu) (h.ne_null hv) ho]
  cases hfav : favours least o with
  | true => exact ⟨u, rfl, .inl rfl, h.bounds_self hu, o, ho, hfav⟩
  | false => exact ⟨v, rfl, .inr rfl, ⟨o.swap, ho', favours_swap hfav⟩, h.bounds_self hv⟩

/-- What is left of a list is a member that bounds all members, if the first one wins. -/
theorem foldlM_keep (h : Ordered S) {start : Value} (hstart : ∀ v, S v → keep least start v = .ok v)
    {vs : List Value} (hvs : ∀ v ∈ vs, S v) (hne : vs ≠ []) :
    ∃ u ∈ vs, vs.foldlM (keep least) start = .ok u ∧ ∀ v ∈ vs, Bounds least u v := by
  -- from the right: what is left of the members before meets the last one
  induction vs using List.reverseRecOn with
  | nil => exact absurd rfl hne
  | append_singleton vs v ih =>
    have hv := hvs v (by simp)
    have hsub : ∀ w ∈ vs, S w := fun w hw => hvs w (by simp [hw])
    rw [List.foldlM_append]
    by_cases hnil : vs = []
    · subst hnil
      refine ⟨v, by simp, ?_, by simpa using h.bounds_self hv⟩
      show keep least start v >>= pure = _
      rw [bind_pure, hstart v hv]
    · obtain ⟨u, hmem, hfold, hbounds⟩ := ih hsub hnil
      have hu := hsub u hmem
      obtain ⟨c, hkeep, hc, hcu, hcv⟩ := h.exists_keep least hu hv
      have hSc : S c := by rcases hc with rfl | rfl <;> assumption
      refine ⟨c, ?_, ?_, ?_⟩
      · rcases hc with rfl | rfl
        · simp [hmem]
        · simp
      · rw [hfold]
        show keep least u v >>= pure = _
        rw [bind_pure, hkeep]
      · intro w hw
        rcases List.mem_append.1 hw with hw | hw
        · exact h.trans hSc hu (hsub w hw) hcu (hbounds w hw)
        · rwa [List.mem_singleton.1 hw]

end Ordered

end Value

/-! ### Ordered types -/

/-- The names of the types that are linearly ordered. -/
def TypeName.isOrdered (t : TypeName) : Bool :=
  t == .boolean || t.isExactInteger || t.isDatetime || t.isInterval || t == .decimal || t.isCharacter

namespace Rep

/-- The representations of values of these types, except null. -/
inductive IsOrdered : Rep → Prop
  | bool : IsOrdered (.prim .bool)
  | integer (w : IntegerType) : IsOrdered (.prim w.prim)
  | decimal : IsOrdered .decimal
  | string : IsOrdered .string

/-- What an extreme starts from. -/
def farEnd (least : Bool) : Rep → Value
  | .prim p => if least then p.greatest else p.least
  | _ => .null

variable {r : Rep}

theorem isOrdered_of_name {type : SqlType} (h : type.name.isOrdered) :
    (type.withNullable false).rep.IsOrdered := by
  obtain ⟨name, nullable, component, key, fields⟩ := type
  cases name with
  | boolean => exact .bool
  | tinyInt => exact .integer .tiny
  | smallInt => exact .integer .small
  | integer | date | time | intervalYear | intervalYearMonth | intervalMonth => exact .integer .regular
  | bigInt | timestamp | timestampWithLocalTimeZone | intervalDay | intervalDayHour | intervalDayMinute
  | intervalDaySecond | intervalHour | intervalHourMinute | intervalHourSecond | intervalMinute
  | intervalMinuteSecond | intervalSecond => exact .integer .big
  | decimal => exact .decimal
  | char | varchar => exact .string
  | _ => cases h

theorem exists_str (h : v.Fits .string) (hne : v ≠ .null) : ∃ s, v = .str s := by
  unfold Value.Fits at h
  cases v with
  | null => exact absurd rfl hne
  | str s => exact ⟨s, rfl⟩
  | _ => simp [Value.convert] at h

/-- Values that are not null are ordered: booleans, integers and texts in their own order, decimals as the numbers
that they denote. -/
theorem IsOrdered.ordered (h : r.IsOrdered) : Value.Ordered fun v => v.Fits r ∧ v ≠ .null := by
  cases h with
  | bool =>
    refine Value.ordered_of_key .bool id (fun hv => Value.fits_truth_iff.1 hv.1) (by simp) (fun x y => rfl) ?_
    exact fun x y hxy => beq_iff_eq.2 hxy
  | integer w =>
    refine Value.ordered_of_key .int Int64.toInt (fun hv => ?_) (by simp) (fun x y => rfl) ?_
    · obtain ⟨k, rfl, -⟩ := IntegerType.fits_prim_iff.1 hv.1
      exact ⟨k, rfl⟩
    · exact fun x y hxy => beq_iff_eq.2 (Int64.toInt_inj.1 hxy)
  | decimal =>
    refine Value.ordered_of_key .decimal Decimal.toRat (fun hv => Value.exists_decimal hv.1 hv.2) (by simp) ?_ ?_
    · exact fun x y => congrArg some (Decimal.compare_eq_compare_toRat x y)
    · intro x y hxy
      show (x.compare y == .eq) = true
      rw [Decimal.compare_eq_compare_toRat, compare_eq_iff_eq.2 hxy]
      rfl
  | string =>
    refine Value.ordered_of_key .str id (fun hv => exists_str hv.1 hv.2) (by simp) (fun x y => rfl) ?_
    exact fun x y hxy => beq_iff_eq.2 hxy

theorem exists_farEnd_integer (least : Bool) (w : IntegerType) : ∃ e, (Rep.prim w.prim).farEnd least = .int e ∧
    e.toInt = if least then 2 ^ (w.bits - 1) - 1 else -2 ^ (w.bits - 1) := by
  cases w <;> cases least <;> exact ⟨_, rfl, by decide⟩

/-- No value lies beyond the far end, so that the first value wins against it. -/
theorem IsOrdered.keep_farEnd (h : r.IsOrdered) (least : Bool) (hv : v.Fits r) (hne : v ≠ .null) :
    Value.keep least (r.farEnd least) v = .ok v := by
  cases h with
  | bool =>
    obtain ⟨b, rfl⟩ := Value.fits_truth_iff.1 hv
    cases least <;> cases b <;> rfl
  | integer w =>
    obtain ⟨k, rfl, hlo, hhi⟩ := IntegerType.fits_prim_iff.1 hv
    obtain ⟨e, he, hend⟩ := exists_farEnd_integer least w
    rw [he, Value.keep_of_compare? (by simp) (by simp) rfl]
    split_ifs with hfav
    · -- the far end is kept against itself only
      have hsame : e.toInt = k.toInt := by
        cases least with
        | true =>
          have hle : e.toInt ≤ k.toInt := compare_le_iff_le.1 (Ordering.isLE_iff_ne_gt.1 hfav)
          simp only [if_true] at hend
          omega
        | false =>
          have hle : k.toInt ≤ e.toInt := compare_ge_iff_ge.1 (Ordering.isGE_iff_ne_lt.1 hfav)
          simp only [Bool.false_eq_true, if_false] at hend
          omega
      rw [Int64.toInt_inj.1 hsame]
    · rfl
  | decimal | string => exact Value.keep_null least v

theorem IsOrdered.same_farEnd (h : r.IsOrdered) (least : Bool) :
    (r.farEnd least).same (r.farEnd least) := by
  cases h with
  | bool => cases least <;> rfl
  | integer w =>
    obtain ⟨e, he, -⟩ := exists_farEnd_integer least w
    rw [he]
    exact beq_self_eq_true e
  | decimal | string => rfl

end Rep

/-! ### The code of an extreme -/

namespace Fold

variable {type : SqlType}

/-- Types of one name are represented alike. -/
theorem rep_withNullable {t t' : SqlType} (h : t.name = t'.name) (nullable : Bool) :
    (t.withNullable nullable).rep = (t'.withNullable nullable).rep := by
  unfold SqlType.rep
  rw [show (t.withNullable nullable).name = t'.name from h]
  rfl

theorem fits_notNullRep (hname : type.name = c.returnType.name) (hv : v.Fits type.rep)
    (hne : v ≠ .null) : v.Fits c.notNullRep := by
  have hrep : (type.withNullable false).rep = c.notNullRep := rep_withNullable hname false
  exact hrep ▸ (Builtin.fits_withNullable hv hne).1

theorem evalsTo_farEnd (least : Bool) (r : Rep) (m : Machine) : (farEnd least r).EvalsTo m (r.farEnd least) := by
  cases r <;> rfl

theorem computes_keep (least : Bool) (hc : c.parameters = [type]) (hname : type.name = c.returnType.name) :
    (extreme least).Computes c (fun _ => True) (c.notNullRep.farEnd least)
      fun a row => Value.keep least a (row.getD 0 .null) := by
  refine computes_of_combine
    (fun x y => .call (if least then "lesser" else "greater") [x, y] c.notNullRep) hc rfl rfl (fun e => rfl)
    (evalsTo_farEnd least _) trivial ?_
  intro a v _ hv hne
  refine ⟨fun _ _ => trivial, v, fits_notNullRep hname hv hne, fun {m x y} hm _ _ hx hy => ?_⟩
  rw [result_call, result_evalAll (.cons hx (.cons hy .nil)), andThen_ok]
  cases least with
  | true | false => exact Run.result_call_library (hm _ (List.mem_singleton_self _)) rfl rfl

end Fold

/-! ### Groups -/

namespace AggregateProgram

variable {p : AggregateProgram} {type : SqlType} {vs vs' : List Value} {m : Machine} {u' : Value}

/-- The value is what an extreme of the column is: a row that bounds all rows, and without rows null or the far
end. -/
structure IsExtreme (c : AggregateCall) (least : Bool) (vs : List Value) (u : Value) : Prop where
  of_exists : (∃ v ∈ vs, v ≠ .null) → u ∈ vs ∧ u ≠ .null ∧ ∀ v ∈ vs, v ≠ .null → Value.Bounds least u v
  of_forall_null : (∀ v ∈ vs, v = .null) →
    u = if c.returnType.nullable then .null else c.notNullRep.farEnd least

section Column

variable (hname : type.name = c.returnType.name) (hvs : ∀ v ∈ vs, v.Fits type.rep)
include hname hvs

theorem exists_isExtreme (hp : p.Implements (.strict (.extreme least)) c) (hc : c.parameters = [type])
    (hordered : c.returnType.name.isOrdered) (hm : m.Unregistered (Fold.extreme least).calls) :
    ∃ u, ((p.aggregate (vs.map ([·]))).result m).1 = .ok u ∧ IsExtreme c least vs u := by
  have hcomputes := computes_keep least hc hname
  have hrep : c.notNullRep.IsOrdered := Rep.isOrdered_of_name hordered
  rcases forall_null_or_exists vs with hnull | hsome
  · refine ⟨_, hcomputes.result_aggregate_of_forall_null hp hc hvs hm hnull, ?_, fun _ => rfl⟩
    rintro ⟨v, hv, hne⟩
    exact absurd (hnull v hv) hne
  · obtain ⟨u, hu, hfold, hbounds⟩ := hrep.ordered.foldlM_keep (fun v hv => hrep.keep_farEnd least hv.1 hv.2)
      (forall_mem_filter_isNull fun v hv hne => ⟨fits_notNullRep hname (hvs v hv) hne, hne⟩)
      (filter_isNull_ne_nil hsome)
    obtain ⟨hu, hne⟩ := mem_filter_isNull.1 hu
    refine ⟨u, (hcomputes.result_aggregate_of_exists hp hc hvs hm hsome).trans hfold, fun _ => ⟨hu, hne, ?_⟩,
      fun hnull => absurd (hnull u hu) hne⟩
    exact fun v hv hv' => hbounds v (mem_filter_isNull.2 ⟨hv, hv'⟩)

/-- EVERY is false if a row is false, and SOME is true if a row is true. -/
theorem IsExtreme.eq_bool_iff (h : IsExtreme c least vs u) (hbool : c.returnType.name = .boolean) :
    u = .bool (!least) ↔ .bool (!least) ∈ vs := by
  have hrep : c.notNullRep = .prim .bool :=
    rep_withNullable (show c.returnType.name = (SqlType.plain .boolean false).name from hbool) false
  rcases forall_null_or_exists vs with hnull | hsome
  · constructor
    · intro heq
      have hend := h.of_forall_null hnull
      rw [heq, hrep] at hend
      split_ifs at hend
      cases least <;> cases hend
    · intro hmem
      cases hnull _ hmem
  · obtain ⟨hu, hne, hbounds⟩ := h.of_exists hsome
    have hfits := fits_notNullRep hname (hvs u hu) hne
    rw [hrep] at hfits
    obtain ⟨b, rfl⟩ := Value.fits_truth_iff.1 hfits
    constructor
    · intro heq
      rwa [heq] at hu
    · intro hmem
      obtain ⟨o, ho, hfav⟩ := hbounds _ hmem (by simp)
      cases least <;> cases b <;> cases ho <;> first | rfl | cases hfav

/-- The order of the rows does not matter. -/
theorem IsExtreme.same_of_perm (h : IsExtreme c least vs u) (h' : IsExtreme c least vs' u')
    (hordered : c.returnType.name.isOrdered) (hperm : vs.Perm vs') : u.same u' := by
  have hrep : c.notNullRep.IsOrdered := Rep.isOrdered_of_name hordered
  rcases forall_null_or_exists vs with hnull | hsome
  · rw [h.of_forall_null hnull, h'.of_forall_null fun v hv => hnull v (hperm.mem_iff.2 hv)]
    split_ifs
    · rfl
    · exact hrep.same_farEnd least
  · obtain ⟨hu, hne, hbounds⟩ := h.of_exists hsome
    obtain ⟨hu', hne', hbounds'⟩ := h'.of_exists (by simpa only [hperm.mem_iff] using hsome)
    have hmem := hperm.mem_iff.2 hu'
    exact hrep.ordered.same_of_bounds ⟨fits_notNullRep hname (hvs u hu) hne, hne⟩
      ⟨fits_notNullRep hname (hvs u' hmem) hne', hne'⟩ (hbounds u' hmem hne')
      (hbounds' u (hperm.mem_iff.1 hu) hne)

end Column

end AggregateProgram

/-! ### The main result -/

/-- The end of the order that the aggregate gives: the least value (`true`) or the greatest one. -/
def Aggregate.least? : Aggregate → Option Bool
  | .min | .everyTrue => some true
  | .max | .someTrue | .anyValue => some false
  | _ => none

namespace AggregateFunction

theorem exists_program_extreme {a : Aggregate} (ha : a.least? = some least) {settings : Settings}
    {call : AggregateCall} {window : Bool} (hwindow : window → settings.windowReuse = .allowList)
    {type : SqlType} (hc : call.parameters = [type]) (hname : type.name = call.returnType.name) :
    ∃ p, (builtin a).program settings call window = .ok p ∧
      p.Implements (.strict (.extreme least)) (call.complete settings) := by
  have ha : a.plain? = some (.strict (.extreme least)) ∧ a.isReusable := by
    cases a <;> cases ha <;> exact ⟨rfl, rfl⟩
  exact exists_program_of_computes ha.1 ha.2 hwindow (computes_keep (c := call.complete settings) least hc hname)

/-- MIN and EVERY give a row that is at most every row, and MAX, SOME and ANY_VALUE one that is at least every row;
without rows the result is null if it may be null. So EVERY is false if and only if a row is false, and SOME is true
if and only if a row is true. The order of the rows does not matter. -/
theorem aggregate_extreme {a : Aggregate} {least : Bool} (ha : a.least? = some least) (settings : Settings)
    (call : AggregateCall) (window : Bool) (hwindow : window = true → settings.windowReuse = .allowList)
    {type : SqlType} (hc : call.parameters = [type]) (hname : type.name = call.returnType.name)
    (hordered : type.name.isOrdered = true) :
    ∃ p, (builtin a).program settings call window = .ok p ∧
      ∀ m : Machine, m.routines.get? (if least then "lesser" else "greater") = none →
        ∀ vs : List Value, (∀ v ∈ vs, v.Fits type.rep) →
          ∃ u, ((p.aggregate (vs.map ([·]))).result m).1 = .ok u ∧
            ((∃ v ∈ vs, v ≠ .null) → u ∈ vs ∧ u ≠ .null ∧ ∀ v ∈ vs, v ≠ .null → Value.Bounds least u v) ∧
            ((∀ v ∈ vs, v = .null) → call.returnType.nullable = true → u = .null) ∧
            (type.name = .boolean → (u = .bool (!least) ↔ .bool (!least) ∈ vs)) ∧
            ∀ vs', vs.Perm vs' →
              ∃ u', ((p.aggregate (vs'.map ([·]))).result m).1 = .ok u' ∧ u.same u' = true := by
  rw [hname] at hordered
  replace hname : type.name = (call.complete settings).returnType.name := hname
  obtain ⟨p, hp, himp⟩ := exists_program_extreme ha hwindow hc hname
  refine ⟨p, hp, fun m hm vs hvs => ?_⟩
  have hresult : ∀ {vs : List Value}, (∀ v ∈ vs, v.Fits type.rep) →
      ∃ u, ((p.aggregate (vs.map ([·]))).result m).1 = .ok u ∧
        AggregateProgram.IsExtreme (call.complete settings) least vs u := fun hvs =>
    AggregateProgram.exists_isExtreme hname hvs himp hc hordered (Fold.unregistered_singleton hm)
  obtain ⟨u, hu, hextreme⟩ := hresult hvs
  refine ⟨u, hu, hextreme.of_exists, fun hnull hnullable => ?_, fun hbool => ?_, fun vs' hperm => ?_⟩
  · rw [hextreme.of_forall_null hnull]
    exact if_pos hnullable
  · exact AggregateProgram.IsExtreme.eq_bool_iff hname hvs hextreme (hname ▸ hbool)
  · obtain ⟨u', hu', hextreme'⟩ := hresult fun v hv => hvs v (hperm.mem_iff.2 hv)
    exact ⟨u', hu', AggregateProgram.IsExtreme.same_of_perm hname hvs hextreme hextreme' hordered hperm⟩

/-- A least INTEGER that is the far end itself, a group of one null, and a SOME with a row that is true. -/
theorem aggregate_extreme_far_end :
    (∃ p, (builtin .min).program {} { returnType := .plain .integer true, parameters := [.plain .integer true] }
        false = .ok p ∧
      ((p.aggregate [[.null], [.int 2147483647]]).result {}).1 = .ok (.int 2147483647) ∧
      ((p.aggregate [[.null]]).result {}).1 = .ok .null) ∧
    ∃ p, (builtin .someTrue).program {} { returnType := .plain .boolean true, parameters := [.plain .boolean true] }
        false = .ok p ∧
      ((p.aggregate [[.bool false], [.null], [.bool true]]).result {}).1 = .ok (.bool true) := by
  constructor
  · obtain ⟨p, hp, hmin⟩ := aggregate_extreme (a := .min) rfl {}
      { returnType := .plain .integer true, parameters := [.plain .integer true] } false (by simp) rfl rfl rfl
    refine ⟨p, hp, ?_, ?_⟩
    · obtain ⟨u, hu, hrow, -⟩ := hmin {} rfl [.null, .int 2147483647]
        (List.forall_mem_cons.2 ⟨rfl, List.forall_mem_singleton.2 rfl⟩)
      obtain ⟨hmem, hne, -⟩ := hrow ⟨.int 2147483647, by simp, by simp⟩
      have hvalue : u = .int 2147483647 := by simpa [hne] using hmem
      exact hu.trans (congrArg _ hvalue)
    · obtain ⟨u, hu, -, hnull, -⟩ := hmin {} rfl [.null] (List.forall_mem_singleton.2 rfl)
      exact hu.trans (congrArg _ (hnull (by simp) rfl))
  · obtain ⟨p, hp, hsome⟩ := aggregate_extreme (a := .someTrue) rfl {}
      { returnType := .plain .boolean true, parameters := [.plain .boolean true] } false (by simp) rfl rfl rfl
    obtain ⟨u, hu, -, -, htrue, -⟩ := hsome {} rfl [.bool false, .null, .bool true]
      (List.forall_mem_cons.2 ⟨rfl, List.forall_mem_cons.2 ⟨rfl, List.forall_mem_singleton.2 rfl⟩⟩)
    exact ⟨p, hp, hu.trans (congrArg _ ((htrue rfl).2 (by simp)))⟩

end AggregateFunction

end SqlCode
