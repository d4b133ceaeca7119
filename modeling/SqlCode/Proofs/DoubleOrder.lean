import Mathlib
import SqlCode.Number.Double

/-!
# The order of doubles

Doubles other than NaN are linearly ordered by a key, with the infinities at the ends and the two zeros at one place. NaN
has no key: it is the same as itself, but not ordered.

* `Double.key`, `Double.key?`: where a double stands in the order;
* `Double.compare?_eq_compare_key`, `Double.compare?_eq_keys`: doubles compare as their keys;
* `Double.same_iff_key?`: sameness is equality of keys.
-/

namespace SqlCode

open Float.Model (UnpackedFloat Format)
open Float.Model.UnpackedFloat (Sign)

namespace Double

/-- Where an unpacked number stands in the order: by its class, then by exponent and mantissa. -/
def place : UnpackedFloat → ℤ ×ₗ (ℤ ×ₗ ℤ)
  | .infinity .negative => toLex (-2, toLex (0, 0))
  | .finite .negative m e _ => toLex (-1, toLex (-e, -(m : ℤ)))
  | .zero _ | .notANumber => toLex (0, toLex (0, 0))
  | .finite .positive m e _ => toLex (1, toLex (e, (m : ℤ)))
  | .infinity .positive => toLex (2, toLex (0, 0))

/-- Where a double stands in the order. -/
def key (x : Float) : ℤ ×ₗ (ℤ ×ₗ ℤ) := place x.toModel.unpack

theorem compare_neg (a b : ℤ) : compare (-a) (-b) = (compare a b).swap := by
  rcases lt_trichotomy a b with h | rfl | h
  · rw [compare_gt_iff_gt.2 (neg_lt_neg h), compare_lt_iff_lt.2 h]
    rfl
  · rw [compare_eq_iff_eq.2 rfl, compare_eq_iff_eq.2 rfl]
    rfl
  · rw [compare_lt_iff_lt.2 (neg_lt_neg h), compare_gt_iff_gt.2 h]
    rfl

theorem compare_natCast (a b : ℕ) : compare (a : ℤ) (b : ℤ) = compare a b := by
  rcases lt_trichotomy a b with h | rfl | h
  · rw [compare_lt_iff_lt.2 (Int.ofNat_lt.2 h), compare_lt_iff_lt.2 h]
  · rw [compare_eq_iff_eq.2 rfl, compare_eq_iff_eq.2 rfl]
  · rw [compare_gt_iff_gt.2 (Int.ofNat_lt.2 h), compare_gt_iff_gt.2 h]

/-- Numbers compare as their places. -/
theorem compare_place {u v : UnpackedFloat} (hu : u.isNaN = false) (hv : v.isNaN = false) :
    u.compare v = some (compare (place u) (place v)) := by
  cases u with
  | notANumber => cases hu
  | infinity s =>
    cases v with
    | notANumber => cases hv
    | infinity t | finite t _ _ _ => cases s <;> cases t <;> rfl
    | zero t => cases s <;> rfl
  | zero s =>
    cases v with
    | notANumber => cases hv
    | infinity t | finite t _ _ _ => cases t <;> rfl
    | zero t => rfl
  | finite s m e _ =>
    cases v with
    | notANumber => cases hv
    | infinity t => cases s <;> cases t <;> rfl
    | zero t => cases s <;> rfl
    | finite t n d _ =>
      cases s <;> cases t
      · show some _ = some ((compare (-e) (-d)).then (compare (-(m : ℤ)) (-(n : ℤ))))
        rw [compare_neg, compare_neg, compare_natCast, Ordering.swap_then]
      · rfl
      · rfl
      · show some _ = some ((compare e d).then (compare (m : ℤ) (n : ℤ)))
        rw [compare_natCast]

variable {x y : Float}

theorem compare_unpack (hx : x.isNaN = false) (hy : y.isNaN = false) :
    x.toModel.unpack.compare y.toModel.unpack = some (compare (key x) (key y)) := compare_place hx hy

theorem lt_iff_compare : x < y ↔ x.toModel.unpack.compare y.toModel.unpack = some .lt := by
  show decide (x.toModel < y.toModel) = true ↔ _
  rw [decide_eq_true_iff]
  exact beq_iff_eq

theorem beq_iff_compare : (x == y) ↔ x.toModel.unpack.compare y.toModel.unpack = some .eq :=
  beq_iff_eq (a := x.toModel.unpack.compare y.toModel.unpack)

theorem lt_iff_key (hx : x.isNaN = false) (hy : y.isNaN = false) : x < y ↔ key x < key y := by
  rw [lt_iff_compare, compare_unpack hx hy, Option.some.injEq, compare_lt_iff_lt]

theorem beq_iff_key (hx : x.isNaN = false) (hy : y.isNaN = false) : (x == y) ↔ key x = key y := by
  rw [beq_iff_compare, compare_unpack hx hy, Option.some.injEq, compare_eq_iff_eq]

theorem compare?_eq_compare_key (hx : x.isNaN = false) (hy : y.isNaN = false) :
    compare? x y = some (compare (key x) (key y)) := by
  unfold compare?
  simp only [lt_iff_key hx hy, lt_iff_key hy hx, beq_iff_key hx hy]
  rcases lt_trichotomy (key x) (key y) with h | h | h
  · rw [if_pos h, compare_lt_iff_lt.2 h]
  · rw [if_neg (by simp [h]), if_neg (by simp [h]), if_pos h, compare_eq_iff_eq.2 h]
  · rw [if_neg h.not_gt, if_pos h, compare_gt_iff_gt.2 h]

/-- NaN is not ordered, not even beside itself. -/
theorem compare_unpack_of_isNaN (h : x.isNaN ∨ y.isNaN) :
    x.toModel.unpack.compare y.toModel.unpack = none := by
  have hnan : ∀ {u : UnpackedFloat}, u.isNaN → u = .notANumber := by
    intro u hu
    cases u <;> first | rfl | cases hu
  rcases h with h | h
  · rw [hnan (show x.toModel.unpack.isNaN = true from h)]
    rfl
  · rw [hnan (show y.toModel.unpack.isNaN = true from h)]
    cases x.toModel.unpack <;> rfl

theorem compare_unpack_ne_of_isNaN (h : x.isNaN ∨ y.isNaN) (o : Ordering) :
    x.toModel.unpack.compare y.toModel.unpack ≠ some o := by
  rw [compare_unpack_of_isNaN h]
  exact (Option.some_ne_none o).symm

/-- Where a double stands in the order; NaN has no place. -/
def key? (x : Float) : Option (ℤ ×ₗ (ℤ ×ₗ ℤ)) := if x.isNaN then none else some (key x)

theorem key?_of_isNaN (h : x.isNaN) : key? x = none := if_pos h

theorem key?_of_not_isNaN (h : x.isNaN = false) : key? x = some (key x) := if_neg (Bool.eq_false_iff.1 h)

theorem compare?_eq_keys (x y : Float) :
    compare? x y = (key? x).bind fun i => (key? y).map fun j => compare i j := by
  have hnone : x.isNaN ∨ y.isNaN → compare? x y = none := by
    intro h
    rw [compare?, if_neg, if_neg, if_neg]
    · exact fun heq => compare_unpack_ne_of_isNaN h _ (beq_iff_compare.1 heq)
    · exact fun hlt => compare_unpack_ne_of_isNaN h.symm _ (lt_iff_compare.1 hlt)
    · exact fun hlt => compare_unpack_ne_of_isNaN h _ (lt_iff_compare.1 hlt)
  cases hx : x.isNaN with
  | true => rw [hnone (.inl hx), key?_of_isNaN hx, Option.bind_none]
  | false =>
    rw [key?_of_not_isNaN hx, Option.bind_some]
    cases hy : y.isNaN with
    | true => rw [hnone (.inr hy), key?_of_isNaN hy, Option.map_none]
    | false => rw [compare?_eq_compare_key hx hy, key?_of_not_isNaN hy, Option.map_some]

/-- Doubles are the same if they have one key or both have none. -/
theorem same_iff_key? (x y : Float) : same x y ↔ key? x = key? y := by
  have hbeq : x.isNaN ∨ y.isNaN → (x == y) = false := fun h =>
    Bool.eq_false_iff.2 fun heq => compare_unpack_ne_of_isNaN h _ (beq_iff_compare.1 heq)
  unfold same
  cases hx : x.isNaN <;> cases hy : y.isNaN
  · rw [Bool.false_and, Bool.or_false, beq_iff_key hx hy, key?_of_not_isNaN hx, key?_of_not_isNaN hy,
      Option.some.injEq]
  · rw [hbeq (.inr hy), key?_of_not_isNaN hx, key?_of_isNaN hy]
    simp
  · rw [hbeq (.inl hx), key?_of_isNaN hx, key?_of_not_isNaN hy]
    simp
  · rw [key?_of_isNaN hx, key?_of_isNaN hy]
    simp

end Double

end SqlCode
