import SqlCode.Proofs.Sameness
import SqlCode.Proofs.ValueOrder

/-!
# Comparison operators

Of two values that are comparable, one is less, or they are equal, or one is greater, as far as the operators go by the
order of values. Equality goes by it for numbers only, and else by sameness, which tells numbers of different kinds apart
inside lists. So the operators are exclusive, and one of them holds unless the values are ordered as equal without being
alike: then none of the three does, while both "less or equal" and "greater or equal" hold.
-/

namespace SqlCode

namespace Value

/-! ### Kinds -/

mutual

/-- The kinds of the values agree, in lists item by item. -/
def alike : Value → Value → Bool
  | .list as, .list bs => alikeItems as bs
  | a, b => a.kindName == b.kindName
termination_by structural v => v

@[inherit_doc alike]
def alikeItems : List Value → List Value → Bool
  | [], [] => true
  | a :: as, b :: bs => alike a b && alikeItems as bs
  | _, _ => false
termination_by structural vs => vs

end

/-! ### Sameness of comparable values -/

theorem eq_and_true_of_iff {p : Bool} {o : Ordering} (h : p ↔ o = .eq) : p = (o == .eq && true) := by
  rw [Bool.and_true, Bool.eq_iff_iff, h, beq_iff_eq]

theorem same_float_of_compare? {x y : Float} {o : Ordering} (h : Double.compare? x y = some o) :
    Double.same x y ↔ o = .eq := by
  rw [Double.compare?_eq_keys, Option.bind_eq_some_iff] at h
  obtain ⟨i, hi, h⟩ := h
  obtain ⟨j, hj, rfl⟩ := Option.map_eq_some_iff.1 h
  rw [Double.same_iff_key?, hi, hj, Option.some.injEq, compare_eq_iff_eq]

theorem bytes_eq_iff_compare {as bs : List UInt8} :
    (as == bs) ↔ compare (as.map UInt8.toNat) (bs.map UInt8.toNat) = .eq := by
  have hinj : Function.Injective UInt8.toNat := fun _ _ => UInt8.toNat_inj.1
  rw [beq_iff_eq, Std.LawfulEqCmp.compare_eq_iff_eq, hinj.list_map.eq_iff]

mutual

/-- Comparable values are the same if they are ordered as equal and their kinds agree. -/
theorem same_eq_of_compare? : ∀ {a b : Value} {o : Ordering}, a.compare? b = some o →
    a.same b = (o == .eq && a.alike b)
  | .null, _, _, h | .map _, _, _, h | .symbol _, _, _, h => by cases h
  | .bool p, b, o, h => by
    cases b with
    | bool q =>
      cases h
      exact eq_and_true_of_iff (beq_iff_eq.trans compare_eq_iff_eq.symm)
    | _ => cases h
  | .int x, b, o, h => by
    cases b with
    | int y =>
      cases h
      exact eq_and_true_of_iff (beq_iff_eq.trans (by rw [compare_eq_iff_eq, Int64.toInt_inj]))
    | float | decimal => exact (Bool.and_false _).symm
    | _ => cases h
  | .float x, b, o, h => by
    cases b with
    | float y => exact eq_and_true_of_iff (same_float_of_compare? h)
    | int | decimal => exact (Bool.and_false _).symm
    | _ => cases h
  | .decimal x, b, o, h => by
    cases b with
    | decimal y =>
      cases h
      exact eq_and_true_of_iff beq_iff_eq
    | int | float => exact (Bool.and_false _).symm
    | _ => cases h
  | .str s, b, o, h => by
    cases b with
    | str t =>
      cases h
      exact eq_and_true_of_iff (beq_iff_eq.trans Std.LawfulEqCmp.compare_eq_iff_eq.symm)
    | _ => cases h
  | .bytes as, b, o, h => by
    cases b with
    | bytes bs =>
      cases h
      exact eq_and_true_of_iff bytes_eq_iff_compare
    | _ => cases h
  | .list as, b, o, h => by
    cases b with
    | list bs => exact sameItems_eq_of_compareItems? h
    | _ => cases h

/-- Item by item: what decides the order of lists is a difference of items. -/
theorem sameItems_eq_of_compareItems? : ∀ {as bs : List Value} {o : Ordering}, compareItems? as bs = some o →
    sameItems as bs = (o == .eq && alikeItems as bs)
  | [], bs, o, h => by cases bs <;> cases h <;> rfl
  | a :: as, [], o, h => by
    cases h
    rfl
  | a :: as, b :: bs, o, h => by
    rw [sameItems, alikeItems]
    rcases compareItems?_cons_eq_some_iff.1 h with ⟨hhead, htail⟩ | ⟨hhead, hne⟩
    · rw [same_eq_of_compare? hhead, sameItems_eq_of_compareItems? htail, beq_self_eq_true, Bool.true_and,
        Bool.and_left_comm]
    · rw [same_eq_of_compare? hhead, beq_eq_false_iff_ne.2 hne, Bool.false_and, Bool.false_and, Bool.false_and]

end

/-! ### The operators -/

variable {a b : Value} {o : Ordering}

/-- Numbers are equal if they are ordered so; other values have to be alike as well. -/
theorem equals_eq_of_compare? (h : a.compare? b = some o) :
    a.equals b = (o == .eq && (a.isNumeric || a.alike b)) := by
  have hnumeric : a.isNumeric → b.isNumeric := by
    intro ha
    cases a <;> cases ha <;> cases b <;> first | rfl | cases h
  unfold equals
  cases ha : a.isNumeric with
  | true => rw [hnumeric ha, h, Bool.true_and, if_pos rfl, Bool.true_or, Bool.and_true]; rfl
  | false => rw [Bool.false_and, if_neg Bool.false_ne_true, Bool.false_or, same_eq_of_compare? h]

/-- The operator holds of the values. -/
def Holds (op : BinaryOp) (a b : Value) : Prop := compareBy op a b = .ok (.bool true)

theorem isNull_or_eq_false (h : a.compare? b = some o) : (a.isNull || b.isNull) = false := by
  cases a <;> cases b <;> first | rfl | cases h

theorem compareBy_equal (h : a.compare? b = some o) :
    compareBy .equal a b = .ok (.bool (o == .eq && (a.isNumeric || a.alike b))) := by
  rw [compareBy, isNull_or_eq_false h, if_neg Bool.false_ne_true, equals_eq_of_compare? h]

theorem compareBy_notEqual (h : a.compare? b = some o) :
    compareBy .notEqual a b = .ok (.bool !(o == .eq && (a.isNumeric || a.alike b))) := by
  rw [compareBy, isNull_or_eq_false h, if_neg Bool.false_ne_true, equals_eq_of_compare? h]

theorem compareBy_order (h : a.compare? b = some o) :
    compareBy .lessThan a b = .ok (.bool (o == .lt)) ∧ compareBy .lessThanOrEqual a b = .ok (.bool (o != .gt)) ∧
    compareBy .greaterThan a b = .ok (.bool (o == .gt)) ∧
    compareBy .greaterThanOrEqual a b = .ok (.bool (o != .lt)) := by
  simp [compareBy, isNull_or_eq_false h, h, BinaryOp.holds?]

/-- The comparison operators on values that are comparable. All of them answer, and "not equal" is the negation of
"equal". Unless the values are ordered as equal without being numbers or alike, exactly one of "less", "equal" and
"greater" holds, and "less or equal" and "greater or equal" are what they say. Those exceptions, which are lists with
numbers of different kinds in one place, are neither less nor equal nor greater, yet both less or equal and greater or
equal. -/
theorem compareBy_trichotomy (h : a.compare? b = some o) :
    (∃ e : Bool, compareBy .equal a b = .ok (.bool e) ∧ compareBy .notEqual a b = .ok (.bool !e)) ∧
    (∀ op ∈ [BinaryOp.lessThan, .lessThanOrEqual, .greaterThan, .greaterThanOrEqual],
      ∃ t : Bool, compareBy op a b = .ok (.bool t)) ∧
    ((o = .eq → a.isNumeric = true ∨ a.alike b = true) →
      (∃! op, op ∈ [BinaryOp.lessThan, .equal, .greaterThan] ∧ Holds op a b) ∧
      (Holds .lessThanOrEqual a b ↔ Holds .lessThan a b ∨ Holds .equal a b) ∧
      (Holds .greaterThanOrEqual a b ↔ Holds .greaterThan a b ∨ Holds .equal a b)) ∧
    (o = .eq → a.isNumeric = false → a.alike b = false →
      (∀ op ∈ [BinaryOp.lessThan, .equal, .greaterThan], ¬Holds op a b) ∧
      Holds .lessThanOrEqual a b ∧ Holds .greaterThanOrEqual a b) := by
  obtain ⟨hlt, hle, hgt, hge⟩ := compareBy_order h
  have hequal := compareBy_equal h
  have hlt' : Holds .lessThan a b ↔ o = .lt := by simp [Holds, hlt]
  have hle' : Holds .lessThanOrEqual a b ↔ o ≠ .gt := by simp [Holds, hle]
  have hgt' : Holds .greaterThan a b ↔ o = .gt := by simp [Holds, hgt]
  have hge' : Holds .greaterThanOrEqual a b ↔ o ≠ .lt := by simp [Holds, hge]
  have hequal' : Holds .equal a b ↔ o = .eq ∧ (a.isNumeric = true ∨ a.alike b = true) := by simp [Holds, hequal]
  refine ⟨⟨_, hequal, compareBy_notEqual h⟩, ?_, fun hagree => ?_, fun ho ha hb => ?_⟩
  · simp only [List.forall_mem_cons, List.not_mem_nil, false_implies, implies_true, and_true]
    exact ⟨⟨_, hlt⟩, ⟨_, hle⟩, ⟨_, hgt⟩, ⟨_, hge⟩⟩
  · have hequal'' : Holds .equal a b ↔ o = .eq := hequal'.trans (and_iff_left_of_imp hagree)
    rw [hle', hge', hlt', hgt', hequal'']
    refine ⟨⟨if o = .lt then .lessThan else if o = .eq then .equal else .greaterThan, ?_, ?_⟩, ?_⟩
    · cases o <;> simp [hlt', hgt', hequal'']
    · rintro op ⟨hop, hholds⟩
      simp only [List.mem_cons, List.not_mem_nil, or_false] at hop
      rcases hop with rfl | rfl | rfl
      · rw [if_pos (hlt'.1 hholds)]
      · rw [hequal''.1 hholds]
        rfl
      · rw [hgt'.1 hholds]
        rfl
    · cases o <;> simp
  · simp only [List.forall_mem_cons, List.not_mem_nil, false_implies, implies_true, and_true, hlt', hle', hgt', hge',
      hequal', ho, ha, hb]
    simp

/-- The lists of 1 and 1.0 are ordered as equal, but none of the three operators holds of them; with x and y behind
these numbers, the first list is less and nothing else. -/
theorem compareBy_trichotomy_kinds :
    let a := Value.list [.int 1]
    let b := Value.list [.decimal ⟨10, 1⟩]
    let c := Value.list [.int 1, .str "x"]
    let d := Value.list [.decimal ⟨10, 1⟩, .str "y"]
    ((∀ op ∈ [BinaryOp.lessThan, .equal, .greaterThan], ¬Holds op a b) ∧ Holds .lessThanOrEqual a b ∧
      Holds .greaterThanOrEqual a b) ∧
    ∃! op, op ∈ [BinaryOp.lessThan, .equal, .greaterThan] ∧ Holds op c d := by
  intro a b c d
  have hab : a.compare? b = some .eq := by decide
  have hcd : c.compare? d = some .lt := by decide
  exact ⟨(compareBy_trichotomy hab).2.2.2 rfl rfl rfl, ((compareBy_trichotomy hcd).2.2.1 (by rintro ⟨⟩)).1⟩

end Value

end SqlCode
