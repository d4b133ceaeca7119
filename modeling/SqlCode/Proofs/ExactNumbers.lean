import SqlCode.Proofs.Scalars

/-!
# Exact numbers

Integers and decimals denote rational numbers. Sums of decimals are exact, and values that denote a number are
ordered as these numbers, whatever kinds they have.

* `Decimal.toRat`, `Value.number?`: the number denoted;
* `Value.compare?_of_number?`, `Value.compareBy_of_number?`: the order of values is that of the numbers.
-/

namespace SqlCode

namespace Decimal

/-- The number denoted. -/
def toRat (d : Decimal) : ℚ := d.unscaled * 10 ^ (-d.scale)

@[simp] theorem toRat_ofInt (n : Int) : (ofInt n).toRat = n := by
  simp [toRat, ofInt]

theorem ten_zpow_pos (s : Int) : (0 : ℚ) < 10 ^ s := zpow_pos (by norm_num) s

/-- The unscaled integer at a larger scale is a multiple of the number. -/
theorem cast_unscaledAt {d : Decimal} {s : Int} (h : d.scale ≤ s) :
    (d.unscaledAt s : ℚ) = d.toRat * 10 ^ s := by
  have hcast : ((pow10 (s - d.scale).toNat : Nat) : ℚ) = 10 ^ (s - d.scale) := by
    rw [← Int.toNat_of_nonneg (sub_nonneg.2 h), zpow_natCast, Int.toNat_natCast]
    exact Nat.cast_pow 10 _
  have hsplit : (10 : ℚ) ^ (s - d.scale) = 10 ^ (-d.scale) * 10 ^ s := by
    rw [← zpow_add₀ (by norm_num), neg_add_eq_sub]
  rw [unscaledAt_eq, Int.cast_mul, Int.cast_natCast, hcast, hsplit, toRat, mul_assoc]

theorem toRat_add (a b : Decimal) : (a.add b).toRat = a.toRat + b.toRat := by
  have hcancel : (10 : ℚ) ^ max a.scale b.scale * 10 ^ (-max a.scale b.scale) = 1 := by
    rw [← zpow_add₀ (by norm_num), add_neg_cancel, zpow_zero]
  calc (a.add b).toRat
      = ((a.unscaledAt (max a.scale b.scale) : ℚ) + b.unscaledAt (max a.scale b.scale)) *
          10 ^ (-max a.scale b.scale) := by simp only [add, toRat, Int.cast_add]
    _ = (a.toRat + b.toRat) * (10 ^ max a.scale b.scale * 10 ^ (-max a.scale b.scale)) := by
        rw [cast_unscaledAt (le_max_left _ _), cast_unscaledAt (le_max_right _ _)]
        ring
    _ = a.toRat + b.toRat := by rw [hcancel, mul_one]

/-- Decimals are ordered as the numbers that they denote. -/
theorem compare_eq_compare_toRat (a b : Decimal) : a.compare b = Ord.compare a.toRat b.toRat := by
  have hlt : ∀ x y : Decimal, x.scale ≤ max a.scale b.scale → y.scale ≤ max a.scale b.scale →
      (x.unscaledAt (max a.scale b.scale) < y.unscaledAt (max a.scale b.scale) ↔ x.toRat < y.toRat) := by
    intro x y hx hy
    rw [← Int.cast_lt (R := ℚ), cast_unscaledAt hx, cast_unscaledAt hy,
      mul_lt_mul_iff_left₀ (ten_zpow_pos _)]
  have hab := hlt a b (le_max_left _ _) (le_max_right _ _)
  have hba := hlt b a (le_max_right _ _) (le_max_left _ _)
  rw [compare_eq_compare_unscaledAt]
  rcases lt_trichotomy a.toRat b.toRat with h | h | h
  · rw [compare_lt_iff_lt.2 h, compare_lt_iff_lt.2 (hab.2 h)]
  · have heq : a.unscaledAt (max a.scale b.scale) = b.unscaledAt (max a.scale b.scale) :=
      le_antisymm (not_lt.1 fun hc => (hba.1 hc).ne' h) (not_lt.1 fun hc => (hab.1 hc).ne h)
    rw [compare_eq_iff_eq.2 h, compare_eq_iff_eq.2 heq]
  · rw [compare_gt_iff_gt.2 h, compare_gt_iff_gt.2 (hba.2 h)]

end Decimal

namespace Value

/-- The number that an integer or a decimal denotes. -/
def number? : Value → Option ℚ
  | .int n => some n.toInt
  | .decimal d => some d.toRat
  | _ => none

variable {v w : Value} {x y : ℚ}

theorem exists_decimal (h : v.Fits .decimal) (hne : v ≠ .null) : ∃ d, v = .decimal d := by
  unfold Fits at h
  cases v with
  | null => exact absurd rfl hne
  | decimal d => exact ⟨d, rfl⟩
  | float x =>
    simp only [convert] at h
    split at h <;> cases h
  | _ => simp [convert, toDecimal?] at h

/-- Values that denote a number are ordered as these numbers. -/
theorem compare?_of_number? (hv : v.number? = some x) (hw : w.number? = some y) :
    v.compare? w = some (Ord.compare x y) := by
  have hint : ∀ a b : Int, Ord.compare a b = Ord.compare (a : ℚ) (b : ℚ) := by
    intro a b
    rw [← Decimal.toRat_ofInt a, ← Decimal.toRat_ofInt b, ← Decimal.compare_eq_compare_toRat,
      Decimal.compare_eq_compare_unscaledAt]
    simp [Decimal.ofInt, Decimal.unscaledAt_eq]
  cases v <;> cases hv <;> cases w <;> cases hw <;>
    simp [compare?, isNumeric, compareNumbers?, toDecimal?, Decimal.compare_eq_compare_toRat, hint]

theorem compareBy_of_number? {op : BinaryOp} (hop : op.isComparison) (hv : v.number? = some x)
    (hw : w.number? = some y) : compareBy op v w = .ok (.bool (op.accepts (Ord.compare x y))) := by
  have hcompare := compare?_of_number? hv hw
  have hnumeric : v.isNumeric ∧ w.isNumeric := by
    cases v <;> cases hv <;> cases w <;> cases hw <;> exact ⟨rfl, rfl⟩
  have hequals : v.equals w = (Ord.compare x y == .eq) := by
    rw [equals, hnumeric.1, hnumeric.2, Bool.and_self, if_pos rfl, hcompare]
    cases Ord.compare x y <;> rfl
  have hnull : (v.isNull || w.isNull) = false := by
    cases v <;> cases hv <;> cases w <;> cases hw <;> rfl
  unfold compareBy
  rw [hnull, if_neg Bool.false_ne_true]
  cases op with
  | equal | notEqual =>
    simp only [hequals]
    rfl
  | lessThan | lessThanOrEqual | greaterThan | greaterThanOrEqual =>
    simp only [hcompare]
    rfl
  | _ => exact absurd hop (by decide)

end Value

end SqlCode
