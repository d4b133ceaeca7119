import SqlCode.Text.CodePoints
import Mathlib.Data.List.Perm.Basic

/-!
# Sets of code points

A union holds the code points of its parts. The ranges of both parts are put in order by their starts, and then ranges
that overlap or touch are joined; joining loses no code point because the ranges are in order.
-/

namespace SqlCode

namespace CodePoints

variable {n : Nat} {a b : CodePoints}

theorem contains_cons {r : Nat × Nat} {rs : CodePoints} :
    contains (r :: rs) n ↔ (r.1 ≤ n ∧ n ≤ r.2) ∨ contains rs n := by
  simp [contains]

theorem contains_append : contains (a ++ b) n ↔ contains a n ∨ contains b n := by
  simp [contains]

theorem contains_perm (h : a.Perm b) : contains a n = contains b n := h.any_eq

/-- The ranges are in the order of their starts. -/
def Ordered (ps : CodePoints) : Prop := ps.Pairwise fun r s => r.1 ≤ s.1

theorem perm_place {r : Nat × Nat} {rest : CodePoints → CodePoints} (hrest : ∀ ts, (rest ts).Perm (a ++ ts))
    (ss : CodePoints) : (place r rest ss).Perm (r :: a ++ ss) := by
  induction ss with
  | nil => exact (hrest []).cons r
  | cons s ss ih =>
    rw [place]
    split_ifs
    · exact (hrest (s :: ss)).cons r
    · exact (ih.cons s).trans List.perm_middle.symm

theorem perm_merge : (merge a b).Perm (a ++ b) := by
  induction a generalizing b with
  | nil => exact .refl _
  | cons r a ih => exact perm_place (fun _ => ih) b

theorem Ordered.place {r : Nat × Nat} {rest : CodePoints → CodePoints} (hperm : ∀ ts, (rest ts).Perm (a ++ ts))
    (hrest : ∀ {ts}, Ordered ts → Ordered (rest ts)) (ha : ∀ s ∈ a, r.1 ≤ s.1) {ss : CodePoints} (hss : Ordered ss) :
    Ordered (place r rest ss) := by
  induction ss with
  | nil =>
    refine List.pairwise_cons.2 ⟨fun s hs => ?_, hrest hss⟩
    exact ha s (by simpa using (hperm []).mem_iff.1 hs)
  | cons t ss ih =>
    obtain ⟨ht, hss'⟩ := List.pairwise_cons.1 hss
    rw [CodePoints.place]
    split_ifs with hle
    · refine List.pairwise_cons.2 ⟨fun s hs => ?_, hrest hss⟩
      rcases List.mem_append.1 ((hperm _).mem_iff.1 hs) with hs | hs
      · exact ha s hs
      · rcases List.mem_cons.1 hs with rfl | hs
        · exact hle
        · exact Nat.le_trans hle (ht s hs)
    · refine List.pairwise_cons.2 ⟨fun s hs => ?_, ih hss'⟩
      rcases List.mem_append.1 ((perm_place hperm ss).mem_iff.1 hs) with hs | hs
      · rcases List.mem_cons.1 hs with rfl | hs
        · omega
        · have := ha s hs
          omega
      · exact ht s hs

theorem Ordered.merge (ha : Ordered a) (hb : Ordered b) : Ordered (merge a b) := by
  induction a generalizing b with
  | nil => exact hb
  | cons r a ih =>
    obtain ⟨hr, ha⟩ := List.pairwise_cons.1 ha
    exact .place (fun _ => perm_merge) (fun hts => ih ha hts) hr hb

/-- Joining ranges that overlap or touch adds no code point, and loses none if the ranges are in order. -/
theorem contains_absorb (r : Nat × Nat) (ss : CodePoints) : (contains (absorb r ss) n → contains (r :: ss) n) ∧
    (Ordered (r :: ss) → contains (r :: ss) n → contains (absorb r ss) n) := by
  induction ss generalizing r with
  | nil => exact ⟨id, fun _ => id⟩
  | cons s ss ih =>
    rw [absorb]
    split_ifs with hs
    · obtain ⟨hfrom, hto⟩ := ih (r.1, max r.2 s.2)
      simp only [contains_cons, Ordered, List.pairwise_cons, List.forall_mem_cons] at hfrom hto ⊢
      refine ⟨fun h => ?_, fun hord h => ?_⟩
      · -- beyond the end of `r` the joined range lies in `s`
        rcases hfrom h with h | h
        · omega
        · exact .inr (.inr h)
      · refine hto ⟨hord.1.2, hord.2.2⟩ ?_
        have := hord.1.1
        rcases h with h | h | h
        · exact .inl (by omega)
        · exact .inl (by omega)
        · exact .inr h
    · obtain ⟨hfrom, hto⟩ := ih s
      rw [contains_cons, contains_cons]
      exact ⟨fun h => h.imp_right hfrom, fun hord h => h.imp_right (hto (List.pairwise_cons.1 hord).2)⟩

theorem Ordered.absorb {r : Nat × Nat} {ss : CodePoints} (h : Ordered (r :: ss)) :
    Ordered (absorb r ss) ∧ ∀ s ∈ absorb r ss, r.1 ≤ s.1 := by
  induction ss generalizing r with
  | nil => exact ⟨h, by simp [CodePoints.absorb]⟩
  | cons s ss ih =>
    simp only [Ordered, List.pairwise_cons, List.forall_mem_cons] at h
    rw [CodePoints.absorb]
    split_ifs
    · exact ih (List.pairwise_cons.2 ⟨h.1.2, h.2.2⟩)
    · obtain ⟨hord, hle⟩ := ih (List.pairwise_cons.2 h.2)
      have hall : ∀ t ∈ CodePoints.absorb s ss, r.1 ≤ t.1 := fun t ht => Nat.le_trans h.1.1 (hle t ht)
      exact ⟨List.pairwise_cons.2 ⟨hall, hord⟩, List.forall_mem_cons.2 ⟨Nat.le_refl _, hall⟩⟩

theorem contains_coalesce : (contains (coalesce a) n → contains a n) ∧
    (Ordered a → contains a n → contains (coalesce a) n) := by
  cases a with
  | nil => exact ⟨id, fun _ => id⟩
  | cons r a => exact contains_absorb r a

theorem contains_of_union (h : contains (union a b) n) : contains a n ∨ contains b n := by
  rw [union] at h
  split_ifs at h
  · exact .inl h
  · exact .inr h
  · rw [← contains_append, ← contains_perm perm_merge]
    exact contains_coalesce.1 h

theorem contains_union_iff (ha : Ordered a) (hb : Ordered b) :
    contains (union a b) n ↔ contains a n ∨ contains b n := by
  refine ⟨contains_of_union, fun h => ?_⟩
  rw [union]
  split_ifs with hb' ha'
  · rw [List.isEmpty_iff.1 hb'] at h
    exact h.resolve_right (by simp [contains])
  · rw [List.isEmpty_iff.1 ha'] at h
    exact h.resolve_left (by simp [contains])
  · rw [← contains_append, ← contains_perm perm_merge] at h
    exact contains_coalesce.2 (ha.merge hb) h

theorem Ordered.union (ha : Ordered a) (hb : Ordered b) : Ordered (union a b) := by
  rw [CodePoints.union]
  split_ifs
  · exact ha
  · exact hb
  · have hord := ha.merge hb
    cases hm : CodePoints.merge a b with
    | nil => exact .nil
    | cons r rs => exact (hm ▸ hord).absorb.1

end CodePoints

end SqlCode
