import SqlCode.Proofs.DoubleOrder
import SqlCode.Proofs.Extremes

/-!
# Extremes of doubles

MIN and MAX over floating point numbers. Doubles other than NaN are linearly ordered, with the infinities at the
ends. The accumulator starts from the greatest or the least finite number of its kind, and an infinity lies beyond
it: so the result is a row that bounds all others if a row is not that infinity, and otherwise it is the finite
number that the accumulator started from, which is no row.
-/

namespace SqlCode

open Float.Model (UnpackedFloat Format)

variable {least : Bool} {x y : Float}

open Float.Model.UnpackedFloat (Sign)

/-! ### The order of doubles -/

/-- The value is a double other than NaN. -/
def Value.IsNumber (v : Value) : Prop := ∃ x : Float, v = .float x ∧ x.isNaN = false

theorem Value.ordered_isNumber : Ordered IsNumber := by
  refine ordered_of_key (α := { x : Float // x.isNaN = false }) (fun x => .float x) (fun x => Double.key x)
    ?_ (by simp) (fun x y => Double.compare?_eq_compare_key x.2 y.2) ?_
  · rintro v ⟨x, rfl, hx⟩
    exact ⟨⟨x, hx⟩, rfl⟩
  · intro x y hxy
    show (x.1 == y.1 || _) = true
    rw [(Double.beq_iff_key x.2 y.2).2 hxy, Bool.true_or]

/-! ### Beyond the finite numbers -/

namespace Double

section Fields

variable (b : BitVec Format.binary64.numBits)

theorem toNat_unpackExponent : (UnpackedFloat.unpackExponent b).toNat = b.toNat / 2 ^ 52 % 2 ^ 11 := by
  simp [UnpackedFloat.unpackExponent, BitVec.extractLsb_toNat, Nat.shiftRight_eq_div_pow]

theorem unpackExponent_eq_iff : UnpackedFloat.unpackExponent b = -1#11 ↔ b.toNat / 2 ^ 52 % 2 ^ 11 = 2047 := by
  rw [← BitVec.toNat_inj, toNat_unpackExponent]
  rfl

end Fields

/-- Finite doubles have bounded mantissas and exponents. -/
theorem bounds_of_unpack_finite {b : BitVec Format.binary64.numBits} {s : Sign} {m : ℕ} {e : ℤ} {hm : 0 < m}
    (h : UnpackedFloat.unpack .binary64 b = .finite s m e hm) : e ≤ 971 ∧ m < 2 ^ 53 := by
  have hexponent := toNat_unpackExponent b
  unfold UnpackedFloat.unpack at h
  dsimp only at h
  split_ifs at h with hfull _ hzero
  · cases h
    refine ⟨?_, (BitVec.isLt _).trans (by decide)⟩
    rw [hzero]
    decide
  · cases h
    rw [unpackExponent_eq_iff] at hfull
    refine ⟨?_, BitVec.isLt _⟩
    show ((UnpackedFloat.unpackExponent b).toNat : ℤ) - 1075 ≤ 971
    omega

theorem eq_of_unpack_eq (h : x.toModel.unpack = y.toModel.unpack) : x = y :=
  Float.toBits_inj.1 (UInt64.toBitVec_inj.1
    ((UnpackedFloat.unpack_inj_of_valid x.toModel.valid y.toModel.valid).1 h))

theorem exists_unpack_infinity (hx : Binary.ofFloat? x = none) (hnan : x.isNaN = false) :
    ∃ s, x.toModel.unpack = .infinity s := by
  have hfull : x.toBits.toBitVec.toNat / 2 ^ 52 % 2 ^ 11 = 2047 := by
    unfold Binary.ofFloat? at hx
    dsimp only at hx
    split_ifs at hx with hfield
    exact hfield
  have hunpack : x.toModel.unpack = UnpackedFloat.unpack .binary64 x.toBits.toBitVec := rfl
  have hnot : x.toModel.unpack.isNaN = false := hnan
  rw [hunpack] at hnot ⊢
  unfold UnpackedFloat.unpack at hnot ⊢
  dsimp only at hnot ⊢
  rw [if_pos ((unpackExponent_eq_iff _).2 hfull)] at hnot ⊢
  split_ifs at hnot ⊢
  · exact ⟨_, rfl⟩
  · cases hnot

/-- The infinity beyond the greatest finite double (`least`), or beyond the least one. -/
def endless (least : Bool) : Float := if least then infinity else -infinity

/-- A double is an infinity, or it lies between the least and the greatest finite number. -/
theorem infinite_or_between (hx : x.isNaN = false) :
    (∃ s, x.toModel.unpack = .infinity s) ∨ key (-greatest) ≤ key x ∧ key x ≤ key greatest := by
  have hleast : key (-greatest) = toLex (-1, toLex (-971, -9007199254740991)) := rfl
  have hgreatest : key greatest = toLex (1, toLex (971, 9007199254740991)) := rfl
  rw [hleast, hgreatest, key]
  cases hu : x.toModel.unpack with
  | notANumber =>
    have hnan : x.toModel.unpack.isNaN = false := hx
    rw [hu] at hnan
    cases hnan
  | infinity s => exact .inl ⟨s, rfl⟩
  | zero s => exact .inr (by simp [place, Prod.Lex.toLex_le_toLex])
  | finite s m e _ =>
    obtain ⟨he, hm⟩ := bounds_of_unpack_finite hu
    have hlex : e < 971 ∨ e = 971 ∧ m ≤ 9007199254740991 := by omega
    refine .inr ?_
    cases s
    · simpa [place, Prod.Lex.toLex_le_toLex, eq_comm] using hlex
    · simpa [place, Prod.Lex.toLex_le_toLex] using hlex

theorem eq_endless_of_infinite {s : Sign} (hs : x.toModel.unpack = .infinity s)
    (h : if least then key zero < key x else key x < key zero) : x = endless least := by
  have hkey : key x = place (.infinity s) := congrArg place hs
  rw [hkey] at h
  cases least <;> cases s
  · exact eq_of_unpack_eq hs
  · exact absurd h (by decide)
  · exact absurd h (by decide)
  · exact eq_of_unpack_eq hs

/-- Only an infinity lies beyond the finite doubles. -/
theorem eq_endless (hx : x.isNaN = false)
    (h : if least then key greatest < key x else key x < key (-greatest)) : x = endless least := by
  rcases infinite_or_between hx with ⟨s, hs⟩ | ⟨hlo, hhi⟩
  · refine eq_endless_of_infinite hs ?_
    cases least with
    | true => exact lt_trans (by decide : key zero < key greatest) h
    | false => exact lt_trans h (by decide : key (-greatest) < key zero)
  · cases least with
    | true => exact absurd h hhi.not_gt
    | false => exact absurd h hlo.not_gt

/-- What rounds to itself in single precision and lies beyond the finite single precision numbers is an
infinity. -/
theorem eq_endless_of_toSingle (hx : x.isNaN = false) (hsingle : toSingle x = x)
    (h : if least then key greatestSingle < key x else key x < key (-greatestSingle)) : x = endless least := by
  unfold toSingle at hsingle
  split at hsingle
  · rename_i hnone
    obtain ⟨s, hs⟩ := exists_unpack_infinity hnone hx
    refine eq_endless_of_infinite hs ?_
    cases least with
    | true => exact lt_trans (by decide : key zero < key greatestSingle) h
    | false => exact lt_trans h (by decide : key (-greatestSingle) < key zero)
  · -- rounding gave an infinity, or a number within the finite range
    dsimp only at hsingle
    split_ifs at hsingle with hhi hlo
    · subst hsingle
      cases least with
      | true => rfl
      | false => exact absurd h (by decide)
    · subst hsingle
      cases least with
      | true => exact absurd h (by decide)
      | false => rfl
    · rw [hsingle, lt_iff_key rfl hx] at hhi
      rw [hsingle, lt_iff_key hx rfl] at hlo
      cases least with
      | true => exact absurd h hhi
      | false => exact absurd h hlo

end Double

/-! ### The far ends of floating point kinds -/

namespace Rep

variable {p : Prim}

theorem isNumber_farEnd (hp : p.isFractional) (least : Bool) : ((Rep.prim p).farEnd least).IsNumber := by
  cases p <;> cases hp <;> cases least <;> exact ⟨_, rfl, rfl⟩

theorem bounds_float_iff (hx : x.isNaN = false) (hy : y.isNaN = false) :
    Value.Bounds least (.float x) (.float y) ↔
      if least then Double.key x ≤ Double.key y else Double.key y ≤ Double.key x :=
  Value.bounds_iff (Double.compare?_eq_compare_key hx hy)

/-- The numbers of a floating point kind that lie beyond its far end are an infinity. -/
theorem bounds_farEnd_iff (hp : p.isFractional) (hfits : (Value.float x).Fits (.prim p))
    (hx : x.isNaN = false) :
    Value.Bounds least (.float x) ((Rep.prim p).farEnd least) ↔ x ≠ Double.endless least := by
  constructor
  · rintro h rfl
    cases p <;> cases hp <;> cases least
    all_goals exact absurd ((bounds_float_iff rfl rfl).1 h) (by decide)
  · intro hne
    by_contra hno
    cases p <;> cases hp
    · have hsingle : Double.toSingle x = x := Value.float.inj (Except.ok.inj hfits)
      refine hne (Double.eq_endless_of_toSingle hx hsingle ?_)
      cases least <;> exact not_le.1 ((bounds_float_iff hx rfl).not.1 hno)
    · refine hne (Double.eq_endless hx ?_)
      cases least <;> exact not_le.1 ((bounds_float_iff hx rfl).not.1 hno)

/-- The far end is neither null nor an infinity. -/
theorem not_same_farEnd (hp : p.isFractional) {v : Value} (hv : v = .null ∨ v = .float (Double.endless least)) :
    ((Rep.prim p).farEnd least).same v = false := by
  rcases hv with rfl | rfl <;> cases p <;> cases hp <;> cases least <;> rfl

theorem exists_float (hp : p.isFractional) {v : Value} (h : v.Fits (.prim p)) : ∃ x, v = .float x := by
  unfold Value.Fits at h
  cases v with
  | float x => exact ⟨x, rfl⟩
  | _ => cases p <;> cases hp <;> cases h

theorem exists_of_isApproximate {type : SqlType} (h : type.name.isApproximate) :
    ∃ p : Prim, p.isFractional ∧ (type.withNullable false).rep = .prim p := by
  obtain ⟨name, nullable, component, key, fields⟩ := type
  cases name with
  | real => exact ⟨.f32, rfl, rfl⟩
  | float | double => exact ⟨.f64, rfl, rfl⟩
  | _ => cases h

end Rep

/-! ### Groups -/

namespace AggregateProgram

variable {p : AggregateProgram} {c : AggregateCall} {type : SqlType} {vs : List Value} {m : Machine}

/-- The accumulator stands among the rows as one more of them. -/
theorem exists_bound_of_farEnd (hp : p.Implements (.strict (.extreme least)) c) (hc : c.parameters = [type])
    (hname : type.name = c.returnType.name) (hvs : ∀ v ∈ vs, v.Fits type.rep) (hsome : ∃ v ∈ vs, v ≠ .null)
    (hm : m.Unregistered (Fold.extreme least).calls) {far : Value} (hfar : c.notNullRep.farEnd least = far)
    (hend : far.IsNumber) (hnumber : ∀ v ∈ vs, v ≠ .null → v.IsNumber) :
    ∃ u, ((p.aggregate (vs.map ([·]))).result m).1 = .ok u ∧
      (u = far ∨ u ∈ vs ∧ u ≠ .null) ∧ Value.Bounds least u (far) ∧
      ∀ v ∈ vs, v ≠ .null → Value.Bounds least u v := by
  subst hfar
  have hmem : ∀ v ∈ c.notNullRep.farEnd least :: vs.filter fun v => !v.isNull, v.IsNumber :=
    List.forall_mem_cons.2 ⟨hend, Fold.forall_mem_filter_isNull hnumber⟩
  obtain ⟨u, hu, hfold, hbounds⟩ := Value.ordered_isNumber.foldlM_keep
    (fun v _ => Value.keep_null least v) hmem (by simp)
  rw [List.foldlM_cons, Value.keep_null] at hfold
  refine ⟨u, ?_, ?_, hbounds _ (by simp), fun v hv hne => hbounds v ?_⟩
  · exact ((Fold.computes_keep least hc hname).result_aggregate_of_exists hp hc hvs hm hsome).trans hfold
  · rcases List.mem_cons.1 hu with hu | hu
    · exact .inl hu
    · exact .inr (Fold.mem_filter_isNull.1 hu)
  · exact List.mem_cons_of_mem _ (Fold.mem_filter_isNull.2 ⟨hv, hne⟩)

end AggregateProgram

/-! ### The main result -/

/-- MIN and MAX over a column of floating point numbers without NaN. If a row is not the infinity at the far end,
the result equals a row and bounds every row. Otherwise the result is the finite number at the far end, which
equals no row. -/
theorem AggregateFunction.aggregate_extreme_float {a : Aggregate} {least : Bool} (ha : a.least? = some least) (settings : Settings)
    (call : AggregateCall) (window : Bool) (hwindow : window = true → settings.windowReuse = .allowList)
    {type : SqlType} (hc : call.parameters = [type]) (hname : type.name = call.returnType.name)
    (happrox : type.name.isApproximate = true) :
    ∃ p, (builtin a).program settings call window = .ok p ∧
      ∀ m : Machine, m.routines.get? (if least then "lesser" else "greater") = none →
        ∀ vs : List Value, (∀ v ∈ vs, v.Fits type.rep) → (∀ x, .float x ∈ vs → x.isNaN = false) →
          (∃ v ∈ vs, v ≠ .null) →
          ∃ u, ((p.aggregate (vs.map ([·]))).result m).1 = .ok u ∧
            ((∃ v ∈ vs, v ≠ .null ∧ v ≠ .float (Double.endless least)) →
              (∃ v ∈ vs, v ≠ .null ∧ u.same v = true) ∧ ∀ v ∈ vs, v ≠ .null → Value.Bounds least u v) ∧
            ((∀ v ∈ vs, v = .null ∨ v = .float (Double.endless least)) →
              u = call.notNullRep.farEnd least ∧ ∀ v ∈ vs, u.same v = false) := by
  rw [hname] at happrox
  obtain ⟨p, hp, himp⟩ := exists_program_extreme ha hwindow hc hname
  refine ⟨p, hp, fun m hm vs hvs hnan hsome => ?_⟩
  obtain ⟨k, hk, hrep⟩ := Rep.exists_of_isApproximate happrox
  have hrep : call.notNullRep = .prim k := hrep
  have hkind : ∀ v ∈ vs, v ≠ .null → ∃ x, v = .float x ∧ x.isNaN = false ∧ (Value.float x).Fits (.prim k) := by
    intro v hv hne
    have hfits := Fold.fits_notNullRep hname (hvs v hv) hne
    rw [hrep] at hfits
    obtain ⟨x, rfl⟩ := Rep.exists_float hk hfits
    exact ⟨x, rfl, hnan x hv, hfits⟩
  have hnumber : ∀ v ∈ vs, v ≠ .null → v.IsNumber := by
    intro v hv hne
    obtain ⟨x, rfl, hx, -⟩ := hkind v hv hne
    exact ⟨x, rfl, hx⟩
  have hend := Rep.isNumber_farEnd hk least
  obtain ⟨u, hu, hor, hbeyond, hbounds⟩ := AggregateProgram.exists_bound_of_farEnd himp hc hname hvs hsome
    (Fold.unregistered_singleton hm) (congrArg _ hrep) hend hnumber
  rw [hrep]
  refine ⟨u, hu, ?_, fun hall => ?_⟩
  · rintro ⟨v, hv, hne, hfinite⟩
    refine ⟨?_, hbounds⟩
    rcases hor with rfl | ⟨hmem, hnull⟩
    · -- the far end was kept against a row that is not beyond it, so that they are the same
      obtain ⟨x, rfl, hx, hfits⟩ := hkind v hv hne
      have hback := (Rep.bounds_farEnd_iff hk hfits hx).2 fun heq => hfinite (congrArg _ heq)
      exact ⟨_, hv, hne, Value.ordered_isNumber.same_of_bounds hend ⟨x, rfl, hx⟩ (hbounds _ hv hne) hback⟩
    · have hself := hnumber u hmem hnull
      exact ⟨u, hmem, hnull, Value.ordered_isNumber.same_of_bounds hself hself (hbounds u hmem hnull)
        (hbounds u hmem hnull)⟩
  · rcases hor with rfl | ⟨hmem, hnull⟩
    · exact ⟨rfl, fun v hv => Rep.not_same_farEnd hk (hall v hv)⟩
    · obtain ⟨x, rfl, hx, hfits⟩ := hkind u hmem hnull
      have hinfinite := Value.float.inj ((hall _ hmem).resolve_left hnull)
      exact absurd hinfinite ((Rep.bounds_farEnd_iff hk hfits hx).1 hbeyond)

/-- The least DOUBLE of infinity and one is one; of infinity alone it is the greatest finite number. The greatest
REAL of minus infinity alone is the least finite number of single precision. -/
theorem AggregateFunction.aggregate_extreme_float_infinite :
    (∃ p, (builtin .min).program {} { returnType := .plain .double true, parameters := [.plain .double true] }
        false = .ok p ∧
      (∃ u, ((p.aggregate [[.float Double.infinity], [.null], [.float Double.one]]).result {}).1 = .ok u ∧
        Value.Bounds true u (.float Double.one)) ∧
      ((p.aggregate [[.null], [.float Double.infinity]]).result {}).1 = .ok (.float Double.greatest)) ∧
    ∃ p, (builtin .max).program {} { returnType := .plain .real false, parameters := [.plain .real false] }
        false = .ok p ∧
      ((p.aggregate [[.float (-Double.infinity)]]).result {}).1 = .ok (.float (-Double.greatestSingle)) := by
  constructor
  · obtain ⟨p, hp, hmin⟩ := aggregate_extreme_float (a := .min) rfl {}
      { returnType := .plain .double true, parameters := [.plain .double true] } false (by simp) rfl rfl rfl
    refine ⟨p, hp, ?_, ?_⟩
    · have hnan : ∀ x, Value.float x ∈ [Value.float Double.infinity, .null, .float Double.one] →
          x.isNaN = false := by
        intro x hx
        simp only [List.mem_cons, Value.float.injEq, List.not_mem_nil, or_false, reduceCtorEq, false_or] at hx
        rcases hx with rfl | rfl <;> rfl
      have hone : Value.float Double.one ≠ .float (Double.endless true) := fun heq =>
        absurd (congrArg (fun v => v.same (.float Double.one)) heq) (by decide)
      obtain ⟨u, hu, hrow, -⟩ := hmin {} rfl [.float Double.infinity, .null, .float Double.one]
        (List.forall_mem_cons.2 ⟨rfl, List.forall_mem_cons.2 ⟨rfl, List.forall_mem_singleton.2 rfl⟩⟩) hnan
        ⟨.float Double.one, by simp, by simp⟩
      obtain ⟨-, hbounds⟩ := hrow ⟨.float Double.one, by simp, by simp, hone⟩
      exact ⟨u, hu, hbounds _ (by simp) (by simp)⟩
    · have hnan : ∀ x, Value.float x ∈ [Value.null, .float Double.infinity] → x.isNaN = false := by
        intro x hx
        simp only [List.mem_cons, Value.float.injEq, List.not_mem_nil, or_false, reduceCtorEq, false_or] at hx
        rw [hx]
        rfl
      obtain ⟨u, hu, -, hend⟩ := hmin {} rfl [.null, .float Double.infinity]
        (List.forall_mem_cons.2 ⟨rfl, List.forall_mem_singleton.2 rfl⟩) hnan ⟨.float Double.infinity, by simp, by simp⟩
      exact hu.trans (congrArg _ (hend (by simp [Double.endless])).1)
  · obtain ⟨p, hp, hmax⟩ := aggregate_extreme_float (a := .max) rfl {}
      { returnType := .plain .real false, parameters := [.plain .real false] } false (by simp) rfl rfl rfl
    have hnan : ∀ x, Value.float x ∈ [Value.float (-Double.infinity)] → x.isNaN = false := by
      intro x hx
      rw [Value.float.inj (List.mem_singleton.1 hx)]
      rfl
    obtain ⟨u, hu, -, hend⟩ := hmax {} rfl [.float (-Double.infinity)] (List.forall_mem_singleton.2 rfl) hnan
      ⟨.float (-Double.infinity), by simp, by simp⟩
    exact ⟨p, hp, hu.trans (congrArg _ (hend (by simp [Double.endless])).1)⟩

end SqlCode
