import SqlCode.Proofs.Sameness

/-!
# Bags

A list counts as a bag: how often a value occurs in it is the number of its elements that are the same as the value. The
multiset routines compute minimum, difference and sum of these numbers, or cut them at one. They pair off the elements of
the first list with elements of the second, one after the other, and each pair uses up an element of the second list.
-/

namespace SqlCode

/-- What a routine of the library gives. -/
def Routine.onValues (name : String) (args : List Value) : Except Fault Value :=
  (find? name).elim (.error (.unknownRoutine name)) fun r => r args

namespace Multiset

/-! ### Counting by sameness -/

/-- How often a value occurs in a list. -/
def count (v : Value) (items : List Value) : ℕ := items.countP fun w => w.same v

variable {u v w : Value} {x y items seen : List Value}

@[simp] theorem count_nil (v : Value) : count v [] = 0 := rfl

theorem count_cons_of_same (h : w.same v) : count v (w :: items) = count v items + 1 :=
  List.countP_cons_of_pos h

theorem count_cons_of_not_same (h : w.same v = false) : count v (w :: items) = count v items :=
  List.countP_cons_of_neg (by simp [h])

theorem count_append (v : Value) (x y : List Value) : count v (x ++ y) = count v x + count v y := List.countP_append

theorem count_le_of_sublist (h : x.Sublist y) (v : Value) : count v x ≤ count v y := h.countP_le

theorem count_eq_zero_iff : count v items = 0 ↔ ∀ w ∈ items, w.same v = false := by
  simp [count, List.countP_eq_zero]

theorem occurs_eq_false_iff : occurs v items = false ↔ count v items = 0 := by
  simp [occurs, count_eq_zero_iff]

theorem count_congr (hitems : ∀ w ∈ items, w.WellKeyed) (hu : u.WellKeyed) (huv : u.same v) :
    count u items = count v items := by
  refine List.countP_congr fun w hw => ⟨fun h => ?_, fun h => ?_⟩
  · exact (hitems w hw).same_trans h huv
  · exact (hitems w hw).same_trans h (hu.same_symm huv)

/-- A sublist in which every value occurs as often is the whole list. -/
theorem eq_of_sublist_of_count (hitems : ∀ w ∈ items, w.WellKeyed) (hsub : x.Sublist items)
    (hcount : ∀ w ∈ items, count w items ≤ count w x) : x = items := by
  induction hsub with
  | slnil => rfl
  | @cons x items w hsub _ =>
    have hself := (hitems w List.mem_cons_self).same_refl
    have hle := hcount w List.mem_cons_self
    rw [count_cons_of_same hself] at hle
    have := count_le_of_sublist hsub w
    omega
  | @cons_cons x items w _ ih =>
    rw [ih (fun v hv => hitems v (List.mem_cons_of_mem _ hv)) fun v hv => ?_]
    have hle := hcount v (List.mem_cons_of_mem _ hv)
    cases hwv : w.same v with
    | true => rwa [count_cons_of_same hwv, count_cons_of_same hwv, Nat.add_le_add_iff_right] at hle
    | false => rwa [count_cons_of_not_same hwv, count_cons_of_not_same hwv] at hle

/-! ### Pairing off -/

theorem remove?_eq_none_iff : remove? v items = none ↔ count v items = 0 := by
  simp [remove?, List.findIdx?_eq_none_iff, count_eq_zero_iff]

theorem perm_swapRemove {i : ℕ} (h : i < items.length) :
    items.Perm (items[i] :: swapRemove items i) := by
  obtain ⟨init, last, rfl⟩ :=
    (List.eq_nil_or_concat' items).resolve_left (List.ne_nil_of_length_pos (by omega))
  have hremove : swapRemove (init ++ [last]) i = ((init ++ [last]).set i last).dropLast := by
    simp [swapRemove]
  rw [hremove]
  by_cases hi : i < init.length
  · rw [List.set_append_left _ _ hi, List.dropLast_concat, List.getElem_append_left hi]
    have hinit := (List.getElem_cons_eraseIdx_perm hi).symm
    have hset := (List.set_perm_cons_eraseIdx hi last).symm
    exact (List.perm_append_singleton _ _).trans
      ((hinit.cons last).trans ((List.Perm.swap _ _ _).trans (hset.cons _)))
  · obtain rfl : i = init.length := by
      simp at h
      omega
    simp

/-- What is removed is an element that is the same as the value. -/
theorem exists_perm_of_remove? {rest : List Value} (h : remove? v items = some rest) :
    ∃ w, w.same v ∧ items.Perm (w :: rest) := by
  obtain ⟨i, hi, rfl⟩ := Option.map_eq_some_iff.1 h
  obtain ⟨hlt, hsame, -⟩ := List.findIdx?_eq_some_iff_getElem.1 hi
  exact ⟨items[i], hsame, perm_swapRemove hlt⟩

/-- Each element either uses up an element of the second list that is the same, or finds none. -/
theorem pairOff_cons_cases (u : Value) (x y : List Value) :
    (∃ w rest, w.same u ∧ y.Perm (w :: rest) ∧ pairOff true (u :: x) y = u :: pairOff true x rest ∧
      pairOff false (u :: x) y = pairOff false x rest) ∨
    (count u y = 0 ∧ pairOff true (u :: x) y = pairOff true x y ∧
      pairOff false (u :: x) y = u :: pairOff false x y) := by
  cases h : remove? u y with
  | none => exact .inr ⟨remove?_eq_none_iff.1 h, by simp [pairOff, h], by simp [pairOff, h]⟩
  | some rest =>
    obtain ⟨w, hw, hperm⟩ := exists_perm_of_remove? h
    exact .inl ⟨w, rest, hw, hperm, by simp [pairOff, h], by simp [pairOff, h]⟩

theorem pairOff_sublist (x y : List Value) : (pairOff true x y).Sublist x ∧ (pairOff false x y).Sublist x := by
  induction x generalizing y with
  | nil => exact ⟨.refl _, .refl _⟩
  | cons u x ih =>
    rcases pairOff_cons_cases u x y with ⟨w, rest, -, -, htrue, hfalse⟩ | ⟨-, htrue, hfalse⟩ <;> rw [htrue, hfalse]
    · exact ⟨(ih rest).1.cons_cons u, (ih rest).2.cons u⟩
    · exact ⟨(ih y).1.cons u, (ih y).2.cons_cons u⟩

/-- Every element is on one of the two sides. -/
theorem pairOff_perm (x y : List Value) : (pairOff true x y ++ pairOff false x y).Perm x := by
  induction x generalizing y with
  | nil => exact .refl _
  | cons u x ih =>
    rcases pairOff_cons_cases u x y with ⟨w, rest, -, -, htrue, hfalse⟩ | ⟨-, htrue, hfalse⟩ <;> rw [htrue, hfalse]
    · exact (ih rest).cons u
    · exact List.perm_middle.trans ((ih y).cons u)

theorem count_pairOff_true (hx : ∀ u ∈ x, u.WellKeyed) (hy : ∀ w ∈ y, w.WellKeyed) (v : Value) :
    count v (pairOff true x y) = min (count v x) (count v y) := by
  induction x generalizing y with
  | nil => simp [pairOff]
  | cons u x ih =>
    obtain ⟨hu, hx⟩ := List.forall_mem_cons.1 hx
    rcases pairOff_cons_cases u x y with ⟨w, rest, hw, hperm, htrue, -⟩ | ⟨hnone, htrue, -⟩
    · have hrest : ∀ w' ∈ w :: rest, w'.WellKeyed := fun w' hw' => hy w' (hperm.mem_iff.2 hw')
      obtain ⟨hwell, hrest⟩ := List.forall_mem_cons.1 hrest
      have hcount : count v y = count v (w :: rest) := hperm.countP_eq _
      have hwv := hwell.same_congr_left hu hw v
      rw [htrue, hcount]
      cases huv : u.same v with
      | true =>
        rw [count_cons_of_same huv, count_cons_of_same huv, count_cons_of_same (hwv.trans huv), ih hx hrest,
          Nat.add_min_add_right]
      | false =>
        rw [count_cons_of_not_same huv, count_cons_of_not_same huv, count_cons_of_not_same (hwv.trans huv), ih hx hrest]
    · rw [htrue, ih hx hy]
      cases huv : u.same v with
      | true => rw [← count_congr hy hu huv, hnone, Nat.min_zero, Nat.min_zero]
      | false => rw [count_cons_of_not_same huv]

theorem count_pairOff_false (hx : ∀ u ∈ x, u.WellKeyed) (hy : ∀ w ∈ y, w.WellKeyed) (v : Value) :
    count v (pairOff false x y) = count v x - min (count v x) (count v y) := by
  have hsum : count v (pairOff true x y ++ pairOff false x y) = count v x := (pairOff_perm x y).countP_eq _
  rw [count_append, count_pairOff_true hx hy] at hsum
  omega

/-- The order of the second list does not matter, nor which of its elements that are the same is used up. -/
theorem pairOff_congr {y' : List Value} (hx : ∀ u ∈ x, u.WellKeyed) (hy : ∀ w ∈ y, w.WellKeyed)
    (hy' : ∀ w ∈ y', w.WellKeyed) (hcount : ∀ v, count v y = count v y') (keep : Bool) :
    pairOff keep x y = pairOff keep x y' := by
  induction x generalizing y y' with
  | nil => rfl
  | cons u x ih =>
    obtain ⟨hu, hx⟩ := List.forall_mem_cons.1 hx
    rw [pairOff, pairOff]
    cases h : remove? u y with
    | none =>
      have h' : remove? u y' = none := remove?_eq_none_iff.2 (hcount u ▸ remove?_eq_none_iff.1 h)
      rw [h', ih hx hy hy' hcount]
    | some rest =>
      cases h' : remove? u y' with
      | none =>
        rw [remove?_eq_none_iff.2 (hcount u ▸ remove?_eq_none_iff.1 h')] at h
        cases h
      | some rest' =>
        obtain ⟨w, hw, hperm⟩ := exists_perm_of_remove? h
        obtain ⟨w', hw', hperm'⟩ := exists_perm_of_remove? h'
        obtain ⟨hwell, hrest⟩ := List.forall_mem_cons.1 fun v hv => hy v (hperm.mem_iff.2 hv)
        obtain ⟨hwell', hrest'⟩ := List.forall_mem_cons.1 fun v hv => hy' v (hperm'.mem_iff.2 hv)
        have hww' : w.same w' := hwell.same_trans hw (hwell'.same_symm hw')
        have hleft : ∀ v, count v rest = count v rest' := by
          intro v
          have hsum : count v (w :: rest) = count v (w' :: rest') :=
            (hperm.countP_eq _).symm.trans ((hcount v).trans (hperm'.countP_eq _))
          have hv := hwell.same_congr_left hwell' hww' v
          rw [count, count, List.countP_cons, List.countP_cons, hv] at hsum
          exact Nat.add_right_cancel hsum
        simp only [ih hx hrest hrest' hleft]

/-- Nothing is left over if no value occurs more often than in the second list. -/
theorem except_eq_nil_iff (hx : ∀ u ∈ x, u.WellKeyed) (hy : ∀ w ∈ y, w.WellKeyed) :
    except x y = [] ↔ ∀ v, count v x ≤ count v y := by
  constructor
  · intro h v
    have hcount := count_pairOff_false hx hy v
    rw [show pairOff false x y = [] from h, count_nil] at hcount
    omega
  · intro h
    refine List.eq_nil_iff_forall_not_mem.2 fun u hu => ?_
    have hwell := hx u ((pairOff_sublist x y).2.subset hu)
    have hcount : count u (except x y) = 0 := by
      rw [except, count_pairOff_false hx hy, min_eq_left (h u), Nat.sub_self]
    exact Bool.false_ne_true ((count_eq_zero_iff.1 hcount u hu).symm.trans hwell.same_refl)

/-! ### Every value once -/

/-- The values that were not seen yet are kept once. -/
theorem count_distinctFrom (hseen : ∀ w ∈ seen, w.WellKeyed) (hitems : ∀ w ∈ items, w.WellKeyed) (v : Value) :
    count v (distinctFrom seen items) = if count v seen = 0 then min 1 (count v items) else 0 := by
  induction items generalizing seen with
  | nil => simp [distinctFrom]
  | cons u items ih =>
    obtain ⟨hu, hitems⟩ := List.forall_mem_cons.1 hitems
    have hcongr : u.same v → count u seen = count v seen := count_congr hseen hu
    cases hoccurs : occurs u seen with
    | true =>
      have hne : count u seen ≠ 0 := fun h => Bool.false_ne_true ((occurs_eq_false_iff.2 h).symm.trans hoccurs)
      rw [distinctFrom, if_pos hoccurs, ih hseen hitems]
      cases huv : u.same v with
      | true => rw [if_neg (hcongr huv ▸ hne), if_neg (hcongr huv ▸ hne)]
      | false => rw [count_cons_of_not_same huv]
    | false =>
      have hzero := occurs_eq_false_iff.1 hoccurs
      have hseen' : ∀ w ∈ u :: seen, w.WellKeyed := List.forall_mem_cons.2 ⟨hu, hseen⟩
      rw [distinctFrom, if_neg (by simp [hoccurs])]
      cases huv : u.same v with
      | true =>
        rw [count_cons_of_same huv, ih hseen' hitems, count_cons_of_same huv, count_cons_of_same huv,
          if_neg (Nat.succ_ne_zero _), if_pos (hcongr huv ▸ hzero)]
        omega
      | false =>
        rw [count_cons_of_not_same huv, ih hseen' hitems, count_cons_of_not_same huv, count_cons_of_not_same huv]

theorem count_distinct (hitems : ∀ w ∈ items, w.WellKeyed) (v : Value) :
    count v (distinct items) = min 1 (count v items) := by
  rw [distinct, count_distinctFrom (by simp) hitems, count_nil, if_pos rfl]

theorem distinctFrom_sublist (seen items : List Value) : (distinctFrom seen items).Sublist items := by
  induction items generalizing seen with
  | nil => exact .refl _
  | cons u items ih =>
    rw [distinctFrom]
    split
    · exact (ih seen).cons u
    · exact (ih (u :: seen)).cons_cons u

/-- Nothing is dropped if no value occurs twice. -/
theorem length_distinct_eq_iff (hitems : ∀ w ∈ items, w.WellKeyed) :
    (distinct items).length = items.length ↔ ∀ v, count v items ≤ 1 := by
  constructor
  · intro h v
    have hcount := count_distinct hitems v
    rw [show distinct items = items from (distinctFrom_sublist [] items).eq_of_length h] at hcount
    omega
  · intro h
    have heq : distinct items = items := eq_of_sublist_of_count hitems (distinctFrom_sublist [] items) fun w _ => by
      rw [count_distinct hitems]
      exact le_min (h w) le_rfl
    rw [heq]

theorem count_filter {p : Value → Bool} (hp : ∀ w ∈ items, w.same v → p w = p v) :
    count v (items.filter p) = if p v then count v items else 0 := by
  unfold count
  rw [List.countP_filter]
  split_ifs with hv
  · refine List.countP_congr fun w hw => ?_
    rw [Bool.and_eq_true]
    exact and_iff_left_of_imp fun h => (hp w hw h).trans hv
  · refine List.countP_eq_zero.2 fun w hw h => hv ?_
    rw [Bool.and_eq_true] at h
    exact (hp w hw h.1).symm.trans h.2

/-! ### The routines -/

open Routine (onValues)

/-- The multiset routines compute with bags. The ALL variants take the minimum, the difference and the sum of the numbers
of occurrences; those of intersection and difference are sublists of the first list that share out its elements, and
the order of the second list does not matter to them. The DISTINCT variants keep each value once, if it occurs in both
lists, in the first one only, or in one of them. A list is a submultiset if no value occurs in it more often than in the
other one, and a set if no value occurs twice. -/
theorem bag_algebra {x y : List Value} (hx : ∀ v ∈ x, v.WellKeyed) (hy : ∀ v ∈ y, v.WellKeyed) :
    (∃ both left all : List Value,
      onValues "multisetIntersectAll" [.list x, .list y] = .ok (.list both) ∧
      onValues "multisetExceptAll" [.list x, .list y] = .ok (.list left) ∧
      onValues "multisetUnionAll" [.list x, .list y] = .ok (.list all) ∧
      (∀ v, count v both = min (count v x) (count v y) ∧
        count v left = count v x - min (count v x) (count v y) ∧ count v all = count v x + count v y) ∧
      both.Sublist x ∧ left.Sublist x ∧ (both ++ left).Perm x ∧
      ∀ y' : List Value, y'.Perm y →
        onValues "multisetIntersectAll" [.list x, .list y'] = .ok (.list both) ∧
        onValues "multisetExceptAll" [.list x, .list y'] = .ok (.list left)) ∧
    (∃ both left all : List Value,
      onValues "multisetIntersectDistinct" [.list x, .list y] = .ok (.list both) ∧
      onValues "multisetExceptDistinct" [.list x, .list y] = .ok (.list left) ∧
      onValues "multisetUnionDistinct" [.list x, .list y] = .ok (.list all) ∧
      ∀ v, (count v both ≤ 1 ∧ (count v both = 1 ↔ 0 < count v x ∧ 0 < count v y)) ∧
        (count v left ≤ 1 ∧ (count v left = 1 ↔ 0 < count v x ∧ count v y = 0)) ∧
        (count v all ≤ 1 ∧ (count v all = 1 ↔ 0 < count v x ∨ 0 < count v y))) ∧
    (∃ sub : Bool, onValues "submultisetOf" [.list x, .list y] = .ok (.bool sub) ∧
      (sub = true ↔ ∀ v, count v x ≤ count v y)) ∧
    ∃ set : Bool, onValues "isASet" [.list x] = .ok (.bool set) ∧ (set = true ↔ ∀ v, count v x ≤ 1) := by
  have hboth : ∀ v ∈ intersect x y, v.WellKeyed := fun v hv => hx v ((pairOff_sublist x y).1.subset hv)
  have hall : ∀ v ∈ x ++ y, v.WellKeyed := List.forall_mem_append.2 ⟨hx, hy⟩
  refine ⟨⟨intersect x y, except x y, x ++ y, rfl, rfl, rfl, fun v => ⟨count_pairOff_true hx hy v,
      count_pairOff_false hx hy v, count_append v x y⟩, (pairOff_sublist x y).1, (pairOff_sublist x y).2,
      pairOff_perm x y, fun y' hperm => ?_⟩,
    ⟨distinct (intersect x y), (distinct x).filter fun v => !occurs v y, distinct (x ++ y), rfl, rfl, rfl,
      fun v => ⟨?_, ?_, ?_⟩⟩,
    ⟨(except x y).isEmpty, rfl, ?_⟩, ⟨(distinct x).length == x.length, rfl, ?_⟩⟩
  · have hcongr := pairOff_congr hx (fun w hw => hy w (hperm.mem_iff.1 hw)) hy fun v => hperm.countP_eq _
    exact ⟨congrArg (fun z => Except.ok (Value.list z)) (hcongr true),
      congrArg (fun z => Except.ok (Value.list z)) (hcongr false)⟩
  · rw [count_distinct hboth, intersect, count_pairOff_true hx hy]
    omega
  · have hsub := distinctFrom_sublist [] x
    rw [count_filter fun w hw hwv => ?_, count_distinct hx]
    · cases h : occurs v y with
      | false =>
        have := occurs_eq_false_iff.1 h
        simp only [Bool.not_false, if_true]
        omega
      | true =>
        have : count v y ≠ 0 := fun hz => Bool.false_ne_true ((occurs_eq_false_iff.2 hz).symm.trans h)
        simp only [Bool.not_true, Bool.false_eq_true, if_false]
        omega
    · rw [Bool.not_inj_iff, Bool.eq_iff_iff, ← not_iff_not, Bool.not_eq_true, Bool.not_eq_true, occurs_eq_false_iff,
        occurs_eq_false_iff, count_congr hy (hx w (hsub.subset hw)) hwv]
  · rw [count_distinct hall, count_append]
    omega
  · rw [List.isEmpty_iff, except_eq_nil_iff hx hy]
  · rw [beq_iff_eq, length_distinct_eq_iff hx]

/-- Decimals of different scale and maps of different order pair off: of the decimals 1.0 and 1.00, one pairs off with 1,
and the other one is left. -/
theorem bag_algebra_scales :
    let one := Value.decimal ⟨1, 0⟩
    let x := [Value.decimal ⟨10, 1⟩, .mapOf [(.str "a", .int 1), (.str "b", .int 2)], .decimal ⟨100, 2⟩]
    let y := [Value.mapOf [(.str "b", .int 2), (.str "a", .int 1)], one]
    ∃ both left, onValues "multisetIntersectAll" [.list x, .list y] = .ok (.list both) ∧
      onValues "multisetExceptAll" [.list x, .list y] = .ok (.list left) ∧
      both.length = 2 ∧ count one both = 1 ∧ count one left = 1 ∧ (both ++ left).Perm x := by
  intro one x y
  have hentry : ∀ s n, (Value.str s).WellKeyed ∧ (Value.int n).WellKeyed := fun s n => ⟨.atom rfl, .atom rfl⟩
  have hmap : ∀ s t : String, ∀ n k : Int64, (Value.mapOf [(.str s, .int n), (.str t, .int k)]).WellKeyed := by
    intro s t n k
    refine .mapOf ?_
    simp [hentry s n, hentry t k]
  have hx : ∀ v ∈ x, v.WellKeyed := by
    simp only [x, List.forall_mem_cons]
    exact ⟨.atom rfl, hmap .., .atom rfl, by simp⟩
  have hy : ∀ v ∈ y, v.WellKeyed := by
    simp only [y, List.forall_mem_cons]
    exact ⟨hmap .., .atom rfl, by simp⟩
  obtain ⟨⟨both, left, all, hboth, hleft, -, hcount, -, -, hperm, -⟩, -⟩ := bag_algebra hx hy
  have hlength : both.length = 2 := by
    cases hboth
    decide
  have hone := hcount one
  have hcounts : count one x = 2 ∧ count one y = 1 := by decide
  rw [hcounts.1, hcounts.2] at hone
  exact ⟨both, left, hboth, hleft, hlength, hone.1, hone.2.1, hperm⟩

end Multiset

end SqlCode
