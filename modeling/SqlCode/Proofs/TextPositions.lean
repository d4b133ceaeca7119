import Mathlib.Data.List.Infix
import SqlCode.Routine.Strings

/-!
# Positions in texts

The routines that cut texts clamp positions to the text, with words that stop at the ends of their
range, and drop and take characters. Here they are described by the positions, counted from one, of
the characters that stay.
-/

namespace SqlCode

namespace Strings

variable {cs needle : List Char} {i k : ℕ}

/-- The characters at the positions from `first` up to but excluding `stop`, counted from one. -/
def between (cs : List Char) (first stop : ℤ) : List Char :=
  ((cs.zipIdx 1).filter fun c => decide (first ≤ c.2 ∧ (c.2 : ℤ) < stop)).map (·.1)

/-- Cutting out the positions of an interval, in a list whose first position is `k`. -/
theorem map_filter_zipIdx (cs : List Char) (k : ℕ) (first stop : ℤ) :
    ((cs.zipIdx k).filter fun c => decide (first ≤ c.2 ∧ (c.2 : ℤ) < stop)).map (·.1) =
      (cs.take (stop - k).toNat).drop (first - k).toNat := by
  induction cs generalizing k with
  | nil => simp
  | cons c cs ih =>
    rw [List.zipIdx_cons, List.filter_cons]
    by_cases hstop : (k : ℤ) < stop
    · obtain ⟨j, hj, hj'⟩ : ∃ j, (stop - k).toNat = j + 1 ∧ (stop - (k + 1 : ℕ)).toNat = j := ⟨_, by omega, rfl⟩
      rw [hj, List.take_succ_cons]
      by_cases hfirst : first ≤ k
      · have hzero : (first - k).toNat = 0 ∧ (first - (k + 1 : ℕ)).toNat = 0 := by omega
        rw [if_pos (by simpa using ⟨hfirst, hstop⟩), List.map_cons, ih, hj', hzero.1, hzero.2]
        rfl
      · have hsucc : (first - k).toNat = (first - (k + 1 : ℕ)).toNat + 1 := by omega
        rw [if_neg (by simp [hfirst]), ih, hj', hsucc, List.drop_succ_cons]
    · have hzero : (stop - k).toNat = 0 ∧ (stop - (k + 1 : ℕ)).toNat = 0 := by omega
      rw [if_neg (by simp [hstop]), ih, hzero.1, hzero.2]
      simp

theorem between_eq (cs : List Char) (first stop : ℤ) :
    between cs first stop = (cs.take (stop - 1).toNat).drop (first - 1).toNat :=
  map_filter_zipIdx cs 1 first stop

theorem between_eq_drop (cs : List Char) {first stop : ℤ} (h : cs.length < stop) :
    between cs first stop = cs.drop (first - 1).toNat := by
  rw [between_eq, List.take_of_length_le (by omega)]

/-- Positions after the last character make no difference. -/
theorem between_congr {first stop stop' : ℤ}
    (h : stop = stop' ∨ cs.length < stop ∧ cs.length < stop') :
    between cs first stop = between cs first stop' := by
  rcases h with rfl | ⟨h, h'⟩
  · rfl
  · rw [between_eq_drop cs h, between_eq_drop cs h']

theorem toInt_place (a : Int64) : (place a).toInt = max a.toInt 1 - 1 := by
  have hmax : (max a 1).toInt = max a.toInt 1 := Word.toInt_max a 1
  have hfits := Word.fits_iff.1 (Word.fits_toInt a)
  have hplace : Word.Fits (max a.toInt 1 - 1) := Word.fits_iff.2 ⟨by omega, by omega⟩
  rw [place, Int64.toInt_sub, hmax]
  exact Word.bmod_of_fits hplace

/-- Clamping to the ends of the text keeps the characters between the positions. -/
theorem slice_eq_between (hcs : Word.Fits cs.length) (first stop : Int64) :
    slice cs first stop = between cs first.toInt stop.toInt := by
  have hsize : (Word.wrap cs.length).toInt = cs.length := Word.toInt_ofInt hcs
  rw [slice, between_eq]
  simp only [Int64.le_iff_toInt_le, Word.toInt_min, toInt_place, hsize]
  split_ifs with hle
  · refine (List.drop_eq_nil_of_le ?_).symm
    rw [List.length_take]
    omega
  · have htake : cs.take (min (max stop.toInt 1 - 1) cs.length).toNat =
        cs.take (stop.toInt - 1).toNat := List.take_eq_take_iff.2 (by omega)
    rw [htake]
    congr 1
    omega

/-- A sum that stops at the end of the range of words is after the last character. -/
theorem slice_saturatingAdd (hcs : Word.Fits (cs.length + 1)) (first length : Int64)
    (h : 0 ≤ length.toInt) : slice cs first (Word.saturatingAdd first length) =
      between cs first.toInt (first.toInt + length.toInt) := by
  have hfirst := Word.fits_iff.1 (Word.fits_toInt first)
  rw [Word.fits_iff] at hcs
  rw [slice_eq_between (Word.fits_iff.2 ⟨by omega, by omega⟩)]
  apply between_congr
  unfold Word.saturatingAdd Word.clamp
  split_ifs with hlow hhigh
  · simp only [Word.least] at hlow
    omega
  · simp only [Word.greatest] at hhigh
    have hmax : (Int64.ofInt Word.greatest).toInt = 9223372036854775807 := by decide
    exact .inr ⟨by omega, by omega⟩
  · exact .inl (Word.toInt_ofInt ⟨Int.not_lt.1 hlow, Int.not_lt.1 hhigh⟩)

/-- The search finds the first place where the text stands. -/
theorem indexFrom?_spec (hne : needle ≠ []) (cs : List Char) (start : ℕ) :
    match indexFrom? needle start cs with
    | some i => ∃ j, i = start + j ∧ needle <+: cs.drop j ∧ ∀ j' < j, ¬ needle <+: cs.drop j'
    | none => ∀ j, ¬ needle <+: cs.drop j := by
  induction cs generalizing start with
  | nil => simpa [indexFrom?] using hne
  | cons c cs ih =>
    rw [indexFrom?]
    split_ifs with hhere
    · exact ⟨0, rfl, List.isPrefixOf_iff_prefix.1 hhere, by simp⟩
    · have hhere' : ¬ needle <+: c :: cs := mt List.isPrefixOf_iff_prefix.2 hhere
      have hstep : ∀ {j}, (∀ j' < j, ¬ needle <+: cs.drop j') → ∀ j' < j + 1, ¬ needle <+: (c :: cs).drop j' := by
        rintro j h (_ | j') hj'
        · exact hhere'
        · exact h j' (by omega)
      have := ih (start + 1)
      cases hi : indexFrom? needle (start + 1) cs with
      | some i =>
        rw [hi] at this
        obtain ⟨j, rfl, hj, hleast⟩ := this
        exact ⟨j + 1, by omega, hj, hstep hleast⟩
      | none =>
        rw [hi] at this
        exact fun j => hstep (fun j' _ => this j') j (Nat.lt_succ_self j)

theorem between_eq_iff {p : ℤ} (hp : 1 ≤ p) :
    between cs p (p + needle.length) = needle ↔ needle <+: cs.drop (p - 1).toNat := by
  have hstop : (p + needle.length - 1).toNat = (p - 1).toNat + needle.length := by omega
  rw [between_eq, hstop, List.drop_take, Nat.add_sub_cancel_left, List.prefix_iff_eq_take, eq_comm]

end Strings

namespace Routine

open Strings

/-- The concatenation of what two routines give. -/
def joined (x y : Except Fault Value) : Except Fault Value := do concat [← x, ← y]

theorem joined_text (cs cs' : List Char) : joined (.ok (text cs)) (.ok (text cs')) = .ok (text (cs ++ cs')) := by
  show Except.ok (Value.str (String.ofList cs ++ String.ofList cs')) = _
  rw [← String.ofList_append]
  rfl

variable {s : String} (hs : Word.Fits (s.length + 1))

section Substring

include hs

theorem substring_length (a l : Int64) : substring [.str s, .int a, .int l] =
    if l.toInt < 0 then .error (.invalidArgument "substring" "negative substring length")
    else .ok (text (between s.toList a.toInt (a.toInt + l.toInt))) := by
  rw [← String.length_toList] at hs
  have hroute : substring [.str s, .int a, .int l] =
      if l < 0 then .error (.invalidArgument "substring" "negative substring length")
      else .ok (text (Strings.slice s.toList a (Word.saturatingAdd a l))) := rfl
  rw [hroute]
  have hiff : l < 0 ↔ l.toInt < 0 := Int64.lt_iff_toInt_lt
  by_cases h : l < 0
  · rw [if_pos h, if_pos (hiff.1 h)]
  · have hl := mt hiff.2 h
    rw [if_neg h, if_neg hl, slice_saturatingAdd hs a l (Int.not_lt.1 hl)]

theorem substring_rest (a : Int64) :
    substring [.str s, .int a] = .ok (text (between s.toList a.toInt (s.length + 1))) := by
  rw [← String.length_toList] at hs ⊢
  have hlength := Word.fits_iff.1 hs
  have hslice : Strings.slice s.toList a Int64.maxValue = between s.toList a.toInt (s.toList.length + 1) := by
    rw [slice_eq_between (Word.fits_iff.2 ⟨by omega, by omega⟩)]
    refine between_congr (.inr ⟨?_, by omega⟩)
    rw [Int64.toInt_maxValue]
    omega
  rw [← hslice]
  rfl

end Substring

theorem text_toList (s : String) : text s.toList = .str s := congrArg Value.str String.ofList_toList

theorem left_eq (s : String) (k : Int64) :
    side "left" true [.str s, .int k] = .ok (text (s.toList.take k.toInt.toNat)) := rfl

theorem overlay_eq (s r : String) (a : Int64) {l : Int64} (hl : 0 ≤ l.toInt) :
    overlay [.str s, .str r, .int a, .int l] =
      .ok (text (between s.toList 1 (max a.toInt 1) ++ r.toList ++
        between s.toList (max a.toInt 1 + l.toInt) (s.length + 1))) := by
  have hstop : (max a.toInt 1 + l.toInt - 1).toNat = (max a.toInt 1 - 1).toNat + l.toInt.toNat := by
    omega
  have hroute : overlay [.str s, .str r, .int a, .int l] =
      .ok (text (s.toList.take (place a).toInt.toNat ++ r.toList ++
        s.toList.drop ((place a).toInt.toNat + l.toInt.toNat))) := rfl
  rw [hroute, ← String.length_toList, between_eq_drop _ (Int.lt_succ _), between_eq, hstop, toInt_place]
  rfl

section Position

include hs

theorem substring_eq_iff {r : String} {p length : Int64} (hp : 1 ≤ p.toInt)
    (hlength : length.toInt = r.length) : substring [.str s, .int p, .int length] = .ok (.str r) ↔
      r.toList <+: s.toList.drop (p.toInt - 1).toNat := by
  rw [substring_length hs, if_neg (by omega), hlength, ← String.length_toList, ← between_eq_iff hp, Except.ok.injEq,
    ← text_toList r]
  exact ⟨fun h => String.ofList_injective (Value.str.inj h), congrArg text⟩

theorem position_least {r : String} (a : Int64) {length : Int64} (hr : r ≠ "")
    (hlength : length.toInt = r.length) :
    let occurs (p : Int64) := substring [.str s, .int p, .int length] = .ok (.str r)
    ∃ q, position [.str r, .str s, .int a] = .ok (.int q) ∧
      ((max a.toInt 1 ≤ q.toInt ∧ occurs q ∧ ∀ p : Int64, max a.toInt 1 ≤ p.toInt → occurs p → q.toInt ≤ p.toInt) ∨
        q = 0 ∧ ∀ p : Int64, max a.toInt 1 ≤ p.toInt → ¬ occurs p) := by
  intro occurs
  have hne : r.toList ≠ [] := by simpa using hr
  have hposition : position [.str r, .str s, .int a] =
      .ok (.int (Word.wrap (Strings.position r.toList s.toList (place a).toInt.toNat))) := rfl
  have hstart : (place a).toInt.toNat = (a.toInt - 1).toNat := by
    rw [toInt_place]
    omega
  rw [hposition, hstart, Strings.position, if_neg hne]
  have hspec := indexFrom?_spec hne (s.toList.drop (a.toInt - 1).toNat) (a.toInt - 1).toNat
  have hplace : ∀ p : Int64, max a.toInt 1 ≤ p.toInt → ∃ j, (p.toInt - 1).toNat = (a.toInt - 1).toNat + j ∧
      (occurs p ↔ r.toList <+: (s.toList.drop (a.toInt - 1).toNat).drop j) := by
    intro p hp
    refine ⟨(p.toInt - 1).toNat - (a.toInt - 1).toNat, by omega, ?_⟩
    rw [List.drop_drop, Nat.add_sub_cancel' (by omega)]
    exact substring_eq_iff hs (by omega) hlength
  cases hi : indexFrom? r.toList (a.toInt - 1).toNat (s.toList.drop (a.toInt - 1).toNat) with
  | none =>
    rw [hi] at hspec
    refine ⟨_, rfl, .inr ⟨rfl, fun p hp hoccurs => ?_⟩⟩
    obtain ⟨j, -, hiff⟩ := hplace p hp
    exact hspec j (hiff.1 hoccurs)
  | some i =>
    rw [hi] at hspec
    obtain ⟨j, rfl, hj, hleast⟩ := hspec
    have hlt : (a.toInt - 1).toNat + j < s.length := by
      have := hj.length_le
      have := List.length_pos_of_ne_nil hne
      simp only [List.length_drop, String.length_toList] at *
      omega
    have hq : (Word.wrap ((a.toInt - 1).toNat + j + 1 : ℕ)).toInt = ((a.toInt - 1).toNat + j + 1 : ℕ) :=
      Word.toInt_ofInt ⟨by simp [Word.least]; omega, by have := hs.2; omega⟩
    refine ⟨Word.wrap ((a.toInt - 1).toNat + j + 1 : ℕ), rfl, .inl ⟨by omega, ?_, fun p hp hoccurs => ?_⟩⟩
    · obtain ⟨j', hj', hiff⟩ := hplace (Word.wrap ((a.toInt - 1).toNat + j + 1 : ℕ)) (by omega)
      obtain rfl : j' = j := by omega
      exact hiff.2 hj
    · obtain ⟨j', hj', hiff⟩ := hplace p hp
      have := mt (hleast j') (not_not.2 (hiff.1 hoccurs))
      omega

end Position

/-- SUBSTRING has the characters at the positions that are asked for. LEFT and RIGHT are what is left and right of a place,
OVERLAY puts a text between two of them, and POSITION is the first place at or after the start where the text is found,
or zero. The position after the last character of a text is a word. -/
theorem text_positions (s : String) (hs : Word.Fits (s.length + 1)) :
    (∀ a l : Int64, substring [.str s, .int a, .int l] =
      if l.toInt < 0 then .error (.invalidArgument "substring" "negative substring length")
      else .ok (text (between s.toList a.toInt (a.toInt + l.toInt)))) ∧
    (∀ a : Int64, substring [.str s, .int a] = .ok (text (between s.toList a.toInt (s.length + 1)))) ∧
    (∀ k : Int64, 0 ≤ k.toInt → k.toInt ≤ s.length →
      (∀ k' : Int64, k'.toInt = k.toInt + 1 →
        joined (side "left" true [.str s, .int k]) (substring [.str s, .int k']) = .ok (.str s)) ∧
      ∀ j : Int64, j.toInt = s.length - k.toInt →
        joined (side "left" true [.str s, .int j]) (side "right" false [.str s, .int k]) = .ok (.str s)) ∧
    (∀ (r : String) (a l : Int64), 0 ≤ l.toInt →
      overlay [.str s, .str r, .int a, .int l] = .ok (text (between s.toList 1 (max a.toInt 1) ++ r.toList ++
        between s.toList (max a.toInt 1 + l.toInt) (s.length + 1))) ∧
      ∀ b c : Int64, b.toInt = max a.toInt 1 - 1 → c.toInt = max a.toInt 1 + l.toInt →
        overlay [.str s, .str r, .int a, .int l] =
          joined (joined (side "left" true [.str s, .int b]) (.ok (.str r))) (substring [.str s, .int c])) ∧
    ∀ (r : String) (a length : Int64), r ≠ "" → length.toInt = r.length →
      let occurs (p : Int64) := substring [.str s, .int p, .int length] = .ok (.str r)
      ∃ q, position [.str r, .str s, .int a] = .ok (.int q) ∧
        ((max a.toInt 1 ≤ q.toInt ∧ occurs q ∧ ∀ p : Int64, max a.toInt 1 ≤ p.toInt → occurs p → q.toInt ≤ p.toInt) ∨
          q = 0 ∧ ∀ p : Int64, max a.toInt 1 ≤ p.toInt → ¬ occurs p) := by
  refine ⟨substring_length hs, substring_rest hs, fun k hk hle => ⟨fun k' hk' => ?_, fun j hj => ?_⟩,
    fun r a l hl => ⟨overlay_eq s r a hl, fun b c hb hc => ?_⟩, fun r a length => position_least hs a⟩
  · rw [left_eq, substring_rest hs, joined_text, ← String.length_toList, between_eq_drop _ (by omega),
      hk', Int.add_sub_cancel, List.take_append_drop, text_toList]
  · have hright : side "right" false [.str s, .int k] = .ok (text (s.toList.drop (s.toList.length - k.toInt.toNat))) := rfl
    have hplace : s.toList.length - k.toInt.toNat = j.toInt.toNat := by
      rw [String.length_toList]
      omega
    rw [left_eq, hright, joined_text, hplace, List.take_append_drop, text_toList]
  · have htake : b.toInt.toNat = (max a.toInt 1 - 1).toNat := by omega
    rw [overlay_eq s r a hl, left_eq, substring_rest hs, ← text_toList r, joined_text, joined_text,
      hc, between_eq _ 1, htake]
    rfl

theorem text_positions_accent :
    joined (side "left" true [.str "añb", .int 1]) (side "right" false [.str "añb", .int 2]) = .ok (.str "añb") ∧
      ∃ q, position [.str "b", .str "añb", .int 2] = .ok (.int q) ∧ 2 ≤ q.toInt ∧ q.toInt ≤ 3 := by
  obtain ⟨-, -, hsides, -, hposition⟩ := text_positions "añb" (by decide)
  refine ⟨(hsides 2 (by decide) (by decide)).2 1 rfl, ?_⟩
  obtain ⟨q, hq, ⟨hle, -, hleast⟩ | ⟨-, hnone⟩⟩ := hposition "b" 2 1 (by decide) rfl
  · exact ⟨q, hq, hle, hleast 3 (by decide) rfl⟩
  · exact absurd rfl (hnone 3 (by decide))

end Routine

end SqlCode
