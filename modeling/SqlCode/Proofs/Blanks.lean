import SqlCode.Proofs.CodePointSets
import SqlCode.Text.CharClass

/-!
# Letters, numerals and blanks

No letter and no numeral is white space. A union of tables holds no code point that none of them holds, so each table is
looked through on its own.

* `CodePoints.ApartFromBlanks`: no code point of the table is white space;
* `CharClass.isWhiteSpace_of_isAlphanumeric`.
-/

namespace SqlCode

namespace CodePoints

variable {n : Nat} {a b : CodePoints}

theorem contains_unions {sets : List CodePoints} (h : contains (unions sets) n) :
    ∃ s ∈ sets, contains s n := by
  have hfold : ∀ start, contains (sets.foldl union start) n →
      contains start n ∨ ∃ s ∈ sets, contains s n := by
    clear h
    induction sets with
    | nil => exact fun _ => .inl
    | cons s sets ih =>
      intro start h
      rcases ih _ h with h | ⟨t, ht, h⟩
      · exact (contains_of_union h).imp_right fun h => ⟨s, List.mem_cons_self, h⟩
      · exact .inr ⟨t, List.mem_cons_of_mem _ ht, h⟩
  exact (hfold [] h).resolve_left (by simp [contains])

/-! ### Tables without blanks -/

/-- No code point of the set is white space. -/
def ApartFromBlanks (ps : CodePoints) : Prop := ∀ ⦃n⦄, ps.contains n → Trait.whiteSpaces.contains n = false

theorem ApartFromBlanks.union (ha : ApartFromBlanks a) (hb : ApartFromBlanks b) : ApartFromBlanks (union a b) :=
  fun _ h => (contains_of_union h).elim (fun h => ha h) (fun h => hb h)

theorem ApartFromBlanks.unions {sets : List CodePoints} (h : ∀ s ∈ sets, ApartFromBlanks s) :
    ApartFromBlanks (unions sets) := by
  intro n hn
  obtain ⟨s, hs, hn⟩ := contains_unions hn
  exact h s hs hn

/-- The range lies between blanks. -/
def isApart (r : Nat × Nat) : Bool := Trait.whiteSpaces.all fun s => Nat.blt r.2 s.1 || Nat.blt s.2 r.1

theorem apartFromBlanks_of_all {ps : CodePoints} (h : ps.all isApart) : ApartFromBlanks ps := by
  intro n hn
  obtain ⟨r, hr, hn⟩ := List.any_eq_true.1 hn
  rw [contains, List.any_eq_false]
  intro s hs hmem
  have hsides := List.all_eq_true.1 (List.all_eq_true.1 h r hr) s hs
  simp only [Bool.or_eq_true, Bool.and_eq_true, decide_eq_true_eq, Nat.blt_eq] at hsides hmem hn
  omega

/-- The words of a table that is given by its characters, as a text is not taken apart by evaluation. -/
def wordsOf (cs : List Char) : List (List Char) :=
  ((cs.map fun c => if c = '\n' then ' ' else c).splitOn ' ').filter (· ≠ [])

theorem apartFromBlanks_parse {s : String} (cs : List Char) (hs : s = String.ofList cs)
    (hcs : ((wordsOf cs).map parseRange).all isApart) : ApartFromBlanks (parse s) := by
  rw [parse, words, hs, String.toList_ofList]
  exact apartFromBlanks_of_all hcs

theorem apartFromBlanks_parseGaps {s : String} (cs : List Char) (hs : s = String.ofList cs)
    (hcs : (rangesFrom 0 (numbersFrom 0 cs)).all isApart) : ApartFromBlanks (parseGaps s) := by
  rw [parseGaps, hs, String.toList_ofList]
  exact apartFromBlanks_of_all hcs

end CodePoints

open CodePoints

/-! ### Letters and numerals -/

namespace Category

theorem lookup_ranges {cs : List (Category × String × String)} {c : Category} (h : c ∈ cs.map (·.1)) :
    (cs.map fun d => (d.1, CodePoints.parseGaps d.1.table)).lookup c = some (CodePoints.parseGaps c.table) := by
  induction cs with
  | nil => cases h
  | cons d cs ih =>
    rw [List.map_cons, List.lookup_cons]
    cases hd : c == d.1 with
    | true => rw [eq_of_beq hd]
    | false => exact ih ((List.mem_cons.1 h).resolve_left fun heq => by simp [heq] at hd)

theorem codePoints_eq (c : Category) : c.codePoints = CodePoints.parseGaps c.table := by
  have hmem : c ∈ all.map (·.1) := by cases c <;> decide
  rw [codePoints, ranges, lookup_ranges hmem, Option.getD_some]

section

-- the tables have some thousand characters
set_option maxRecDepth 40000

theorem apartFromBlanks {c : Category} (h : c ∈ [uppercaseLetter, lowercaseLetter, titlecaseLetter, modifierLetter,
    otherLetter, letterNumber, decimalNumber, otherNumber]) : ApartFromBlanks c.codePoints := by
  rw [codePoints_eq]
  simp only [List.mem_cons, List.not_mem_nil, or_false] at h
  rcases h with rfl | rfl | rfl | rfl | rfl | rfl | rfl | rfl
  all_goals
    apply apartFromBlanks_parseGaps
    · rfl
    · decide +kernel

end

theorem apartFromBlanks_ofCategories {cs : List Category} (h : cs ⊆ [uppercaseLetter, lowercaseLetter, titlecaseLetter,
    modifierLetter, otherLetter, letterNumber, decimalNumber, otherNumber]) :
    ApartFromBlanks (Trait.ofCategories cs) := by
  refine .unions fun s hs => ?_
  obtain ⟨c, hc, rfl⟩ := List.mem_map.1 hs
  exact apartFromBlanks (h hc)

end Category

section

set_option maxRecDepth 20000

theorem Trait.apartFromBlanks {t : Trait} (h : t ∈ [otherLowercase, otherUppercase, otherAlphabetic]) :
    ApartFromBlanks (listed t) := by
  simp only [List.mem_cons, List.not_mem_nil, or_false] at h
  rcases h with rfl | rfl | rfl
  all_goals
    apply apartFromBlanks_parseGaps
    · rfl
    · decide +kernel

end

theorem Recent.apartFromBlanks {k : Category × String} (h : k ∈ table) : ApartFromBlanks (CodePoints.parse k.2) := by
  simp only [table, List.mem_cons, List.not_mem_nil, or_false] at h
  rcases h with rfl | rfl | rfl | rfl | rfl | rfl | rfl | rfl | rfl | rfl | rfl | rfl
  all_goals
    apply apartFromBlanks_parse
    · rfl
    · decide +kernel

theorem Recent.apartFromBlanks_ofCategories (cs : List Category) : ApartFromBlanks (ofCategories cs) := by
  refine .unions fun s hs => ?_
  obtain ⟨k, hk, rfl⟩ := List.mem_map.1 hs
  exact apartFromBlanks (List.mem_filter.1 hk).1

namespace CharClass

theorem apartFromBlanks_letters : ApartFromBlanks letters := by
  have hmarks : ApartFromBlanks (CodePoints.parse "10efa-10efb 11b60-11b67 1e6e3 1e6e6 1e6ee-1e6ef 1e6f5") := by
    apply apartFromBlanks_parse
    · rfl
    · decide +kernel
  refine .union (.unions ?_) (.union (Recent.apartFromBlanks_ofCategories _) hmarks)
  simp only [List.forall_mem_cons, List.not_mem_nil, false_implies, implies_true, and_true]
  exact ⟨.union (Category.apartFromBlanks (by simp)) (Trait.apartFromBlanks (by simp)),
    .union (Category.apartFromBlanks (by simp)) (Trait.apartFromBlanks (by simp)),
    Category.apartFromBlanks_ofCategories (by simp), Trait.apartFromBlanks (by simp)⟩

theorem apartFromBlanks_numerals : ApartFromBlanks numerals :=
  .union (Category.apartFromBlanks_ofCategories (by simp)) (Recent.apartFromBlanks_ofCategories _)

/-- No letter and no numeral is white space. -/
theorem isWhiteSpace_of_isAlphanumeric {c : Char} (h : isAlphanumeric c) : isWhiteSpace c = false := by
  unfold isAlphanumeric isAlphabetic isNumeric at h
  split at h
  · rename_i hascii
    refine Bool.eq_false_iff.2 fun hblank => ?_
    have hcode : c.toNat ∈ [9, 10, 11, 12, 13, 32] := by
      simp only [isWhiteSpace, contains, Trait.whiteSpaces, List.any_cons, List.any_nil, Bool.or_false,
        Bool.or_eq_true, Bool.and_eq_true, decide_eq_true_eq] at hblank
      simp only [isAscii, decide_eq_true_eq] at hascii
      simp only [List.mem_cons, List.not_mem_nil, or_false]
      omega
    have hblanks : ∀ n ∈ [9, 10, 11, 12, 13, 32], ((Char.ofNat n).isAlpha || (Char.ofNat n).isDigit) = false := by
      decide
    have hclear := hblanks _ hcode
    rw [Char.ofNat_toNat, h] at hclear
    cases hclear
  · rw [Bool.or_eq_true] at h
    exact h.elim (fun h => apartFromBlanks_letters h) fun h => apartFromBlanks_numerals h

end CharClass

end SqlCode
