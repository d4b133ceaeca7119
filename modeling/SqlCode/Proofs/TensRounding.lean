import Mathlib.Algebra.Order.Group.Unbundled.Int
import SqlCode.Routine.Math

/-!
# Rounding integers to tens

Multiples of a unit lie at least the unit apart, so that a multiple is known from how far the number is from it, and on which
side. This decides both ways of rounding and how they relate for two numbers.
-/

namespace SqlCode

variable {u n n' r r' s : ℤ} {nearest : Bool} {k : ℕ}

/-- The number is rounded to a multiple of the unit. Cutting gives the multiple of the greatest magnitude that is not beyond
the number, on its side of zero; otherwise it is the multiple nearest to the number, and of two the one farther from zero. -/
def Rounds (nearest : Bool) (u n r : ℤ) : Prop :=
  u ∣ r ∧ bif nearest then
      ∀ s, u ∣ s → (n - r).natAbs ≤ (n - s).natAbs ∧ ((n - s).natAbs = (n - r).natAbs → s.natAbs ≤ r.natAbs)
    else (0 ≤ n → 0 ≤ r ∧ r ≤ n) ∧ (n ≤ 0 → n ≤ r ∧ r ≤ 0) ∧ ∀ s, u ∣ s → s.natAbs ≤ n.natAbs → s.natAbs ≤ r.natAbs

/-- The multiple is less than a unit from the number: between zero and the number, or at most half a unit away. -/
def Lies (nearest : Bool) (u n r : ℤ) : Prop :=
  u ∣ r ∧ bif nearest then
      2 * (n - r).natAbs ≤ u ∧ (2 * (n - r).natAbs = u → (0 ≤ n → n ≤ r) ∧ (n ≤ 0 → r ≤ n))
    else (0 ≤ n → 0 ≤ r ∧ r ≤ n ∧ n < r + u) ∧ (n ≤ 0 → n ≤ r ∧ r ≤ 0 ∧ r < n + u)

/-- Different multiples are at least a unit apart. -/
theorem eq_or_apart_of_dvd (hr : u ∣ r) (hs : u ∣ s) : r = s ∨ r + u ≤ s ∨ s + u ≤ r := by
  rcases lt_trichotomy r s with h | h | h
  · have := Int.le_of_dvd (by omega) (Int.dvd_sub hs hr)
    omega
  · exact .inl h
  · have := Int.le_of_dvd (by omega) (Int.dvd_sub hr hs)
    omega

theorem Lies.rounds (h : Lies nearest u n r) : Rounds nearest u n r := by
  obtain ⟨hr, h⟩ := h
  refine ⟨hr, ?_⟩
  cases nearest with
  | true =>
    intro s hs
    obtain ⟨hle, htie⟩ := h
    have := eq_or_apart_of_dvd hr hs
    constructor <;> omega
  | false =>
    obtain ⟨hpos, hneg⟩ := h
    refine ⟨by omega, by omega, fun s hs hle => ?_⟩
    have := eq_or_apart_of_dvd (Int.dvd_natAbs.2 hr) (Int.dvd_natAbs.2 hs)
    omega

/-- The next multiples on both sides, and zero, leave no other place. -/
theorem Rounds.lies (hu : 0 < u) (h : Rounds nearest u n r) : Lies nearest u n r := by
  obtain ⟨hr, h⟩ := h
  refine ⟨hr, ?_⟩
  have hup := Int.dvd_add hr (Int.dvd_refl u)
  have hdown := Int.dvd_sub hr (Int.dvd_refl u)
  cases nearest with
  | true =>
    have := h _ hup
    have := h _ hdown
    have := h 0 (Int.dvd_zero u)
    refine ⟨by omega, fun htie => ⟨by omega, by omega⟩⟩
  | false =>
    obtain ⟨hpos, hneg, h⟩ := h
    have := h _ hup
    have := h _ hdown
    constructor <;> omega

theorem Rounds.le (hu : 0 < u) (h : Rounds nearest u n r) (h' : Rounds nearest u n' r') (hn : n ≤ n') : r ≤ r' := by
  obtain ⟨hr, h⟩ := h.lies hu
  obtain ⟨hr', h'⟩ := h'.lies hu
  have := eq_or_apart_of_dvd hr hr'
  cases nearest with
  | true =>
    obtain ⟨hle, htie⟩ := h
    obtain ⟨hle', htie'⟩ := h'
    omega
  | false =>
    obtain ⟨hpos, hneg⟩ := h
    obtain ⟨hpos', hneg'⟩ := h'
    omega

theorem Rounds.neg (hu : 0 < u) (h : Rounds nearest u n r) : Rounds nearest u (-n) (-r) := by
  obtain ⟨hr, h⟩ := h.lies hu
  refine Lies.rounds ⟨(Int.dvd_neg).2 hr, ?_⟩
  cases nearest with
  | true =>
    obtain ⟨hle, htie⟩ := h
    refine ⟨by omega, fun heq => ?_⟩
    have := htie (by omega)
    omega
  | false =>
    obtain ⟨hpos, hneg⟩ := h
    constructor <;> omega

theorem Rounds.unique (hu : 0 < u) (h : Rounds nearest u n r) (h' : Rounds nearest u n r') : r = r' :=
  le_antisymm (h.le hu h' le_rfl) (h'.le hu h le_rfl)

/-! ### The computation -/

namespace Routine

theorem lies_tdiv_mul (n : ℤ) (hu : 0 < u) : Lies false u n (n.tdiv u * u) := by
  have hpos : ∀ {n : ℤ}, 0 ≤ n → 0 ≤ n.tdiv u * u ∧ n.tdiv u * u ≤ n ∧ n < n.tdiv u * u + u := by
    intro n hn
    rw [Int.tdiv_eq_ediv_of_nonneg hn]
    have := Int.mul_nonneg (Int.ediv_nonneg hn hu.le) hu.le
    have := Int.ediv_mul_le n hu.ne'
    have := Int.lt_ediv_add_one_mul_self n hu
    rw [Int.add_mul, Int.one_mul] at this
    omega
  refine ⟨Int.dvd_mul_left _ _, hpos, fun hn => ?_⟩
  have := hpos (Int.neg_nonneg_of_nonpos hn)
  rw [Int.neg_tdiv, Int.neg_mul] at this
  omega

/-- The next multiple is taken from half a unit on. -/
theorem lies_step (nearest : Bool) {d : ℤ} (hu : 0 < u) (hd : d = n.tdiv u * u) :
    Lies nearest u n (if nearest ∧ u ≤ (n - d).natAbs * 2 then d + (n - d).sign * u else d) := by
  obtain ⟨hdvd, hpos, hneg⟩ := lies_tdiv_mul n hu
  rw [← hd] at hdvd hpos hneg
  split_ifs with haway
  · obtain ⟨rfl, haway⟩ := haway
    refine ⟨Int.dvd_add hdvd (Int.dvd_mul_left _ _), ?_⟩
    rcases lt_trichotomy (n - d) 0 with h | h | h
    · rw [Int.sign_eq_neg_one_of_neg h]
      exact ⟨by omega, by omega⟩
    · omega
    · rw [Int.sign_eq_one_of_pos h]
      exact ⟨by omega, by omega⟩
  · cases nearest with
    | true =>
      have hnear : ¬ u ≤ (n - d).natAbs * 2 := fun h => haway ⟨rfl, h⟩
      exact ⟨hdvd, by omega, by omega⟩
    | false => exact ⟨hdvd, hpos, hneg⟩

/-- The powers of ten are taken one after the other, and the nineteenth is too large. -/
theorem powFrom_ten (j : ℕ) (w : Int64) (hw : w.toInt = 10 ^ j) (hj : j ≤ 18) (i : ℕ) :
    (i + j ≤ 18 → ∃ f, Word.powFrom 10 w i = some f ∧ f.toInt = 10 ^ (i + j)) ∧
      (18 < i + j → Word.powFrom 10 w i = none) := by
  induction i generalizing j w with
  | zero => exact ⟨fun _ => ⟨w, rfl, by rw [hw, Nat.zero_add]⟩, by omega⟩
  | succ i ih =>
    have hten : (10 : Int64).toInt = 10 := rfl
    have hnext : w.toInt * (10 : Int64).toInt = 10 ^ (j + 1) := by rw [hw, hten, pow_succ]
    rw [Word.powFrom, hnext, Nat.succ_add_eq_add_succ]
    by_cases hlast : j + 1 ≤ 18
    · have hpos : (0 : ℤ) ≤ 10 ^ (j + 1) := by exact_mod_cast Nat.zero_le (10 ^ (j + 1))
      have hle : (10 : ℤ) ^ (j + 1) ≤ 10 ^ 18 := by
        exact_mod_cast Nat.pow_le_pow_right (Nat.succ_pos 9) hlast
      have hfits : Word.Fits (10 ^ (j + 1)) := Word.fits_iff.2 ⟨by omega, by omega⟩
      rw [Word.ofInt?, if_pos hfits]
      exact ih (j + 1) (Int64.ofInt (10 ^ (j + 1))) (Word.toInt_ofInt hfits) hlast
    · obtain rfl : j = 18 := by omega
      rw [Word.ofInt?, if_neg (by decide)]
      exact ⟨by omega, fun _ => rfl⟩

namespace Tens

variable {d factor : Int64}

theorem factor?_neg (hd : d.toInt = -k) (hk : k ≤ 18) :
    ∃ f, factor? d = some f ∧ f.toInt = 10 ^ k := by
  have hplaces : (-d).toInt = k := by
    rw [Int64.toInt_neg, hd, neg_neg]
    exact Word.bmod_of_fits (Word.fits_iff.2 ⟨by omega, by omega⟩)
  rw [factor?, hplaces, if_pos ⟨by omega, by change _ < (4294967296 : ℤ); omega⟩]
  exact (powFrom_ten 0 1 rfl (by decide) k).1 hk

theorem factor?_eq_none (hd : d.toInt < -18) : factor? d = none := by
  have hfits := Word.fits_iff.1 (Word.fits_toInt d)
  unfold factor?
  dsimp only
  split_ifs with hplaces
  · refine (powFrom_ten 0 1 rfl (by decide) _).2 ?_
    have hcases : (-d).toInt = -d.toInt ∨ d.toInt = -9223372036854775808 := by
      by_cases hleast : d.toInt = -9223372036854775808
      · exact .inr hleast
      · rw [Int64.toInt_neg]
        exact .inl (Word.bmod_of_fits (Word.fits_iff.2 ⟨by omega, by omega⟩))
    rcases hcases with h | h
    · omega
    · rw [Int64.toInt_neg, h] at hplaces
      exact absurd hplaces.1 (by decide)
  · rfl

/-- No operation on words goes around the ends of their range. -/
structure Exact (n factor : Int64) : Prop where
  quotient : (n / factor).toInt = n.toInt.tdiv factor.toInt
  down : (down n factor).toInt = (n / factor).toInt * factor.toInt
  rest : (rest n factor).toInt = n.toInt - (Tens.down n factor).toInt
  magnitude : (Tens.rest n factor).abs.toInt = (Tens.rest n factor).toInt.natAbs
  doubled : (doubled n factor).toInt = (Tens.rest n factor).abs.toInt * 2
  step : (step n factor).toInt = (Tens.rest n factor).toInt.sign * factor.toInt

theorem exact_of_le (n : Int64) (hten : 10 ≤ factor.toInt) (hle : factor.toInt ≤ 10 ^ 18) :
    Exact n factor := by
  have hn := Word.fits_iff.1 (Word.fits_toInt n)
  obtain ⟨-, hpos, hneg⟩ := lies_tdiv_mul n.toInt (u := factor.toInt) (by omega)
  have hsmall : (n.toInt.tdiv factor.toInt).natAbs ≤ n.toInt.natAbs / 10 := by
    rw [Int.natAbs_tdiv]
    exact Nat.div_le_div_left (by omega) (Nat.succ_pos 9)
  have hquotient : (n / factor).toInt = n.toInt.tdiv factor.toInt := by
    rw [Int64.toInt_div]
    exact Word.bmod_of_fits (Word.fits_iff.2 ⟨by omega, by omega⟩)
  have hdown : (down n factor).toInt = (n / factor).toInt * factor.toInt := by
    rw [down, Int64.toInt_mul, hquotient]
    exact Word.bmod_of_fits (Word.fits_iff.2 ⟨by omega, by omega⟩)
  have hrest : (rest n factor).toInt = n.toInt - (down n factor).toInt := by
    rw [rest, Int64.toInt_sub, hdown, hquotient]
    exact Word.bmod_of_fits (Word.fits_iff.2 ⟨by omega, by omega⟩)
  have hlt : (rest n factor).toInt.natAbs < factor.toInt := by
    rw [hrest, hdown, hquotient]
    omega
  have hmagnitude : (rest n factor).abs.toInt = (rest n factor).toInt.natAbs := by
    refine BitVec.toInt_abs_eq_natAbs_of_ne_intMin fun hleast => ?_
    have : (rest n factor).toInt = -9223372036854775808 := congrArg BitVec.toInt hleast
    omega
  refine ⟨hquotient, hdown, hrest, hmagnitude, ?_, ?_⟩
  · have htwo : (2 : Int64).toInt = 2 := rfl
    rw [doubled, Int64.toInt_mul, hmagnitude, htwo]
    exact Word.bmod_of_fits (Word.fits_iff.2 ⟨by omega, by omega⟩)
  · have hsign : (Word.signum (rest n factor)).toInt = (rest n factor).toInt.sign := by
      refine Word.toInt_ofInt ?_
      rcases Int.sign_trichotomy (rest n factor).toInt with h | h | h <;> rw [h] <;> decide
    rw [step, Int64.toInt_mul, hsign]
    refine Word.bmod_of_fits ?_
    rcases Int.sign_trichotomy (rest n factor).toInt with h | h | h <;> rw [h, Word.fits_iff] <;> omega

namespace Exact

variable {n : Int64}

theorem rounds (h : Exact n factor) (hu : 0 < factor.toInt) (nearest : Bool) :
    Rounds nearest factor.toInt n.toInt
      (if nearest ∧ factor ≤ Tens.doubled n factor
        then (Tens.down n factor).toInt + (Tens.step n factor).toInt
        else (Tens.down n factor).toInt) := by
  have hdown : (Tens.down n factor).toInt = n.toInt.tdiv factor.toInt * factor.toInt := by
    rw [h.down, h.quotient]
  have hlies := lies_step nearest hu hdown
  rw [← h.rest, ← h.step, ← h.magnitude, ← h.doubled] at hlies
  simp only [Int64.le_iff_toInt_le]
  exact hlies.rounds

/-- The last addition too, if the multiple is a word. -/
theorem toInt_round (h : Exact n factor) (hu : 0 < factor.toInt) {r : Int64}
    (hr : Rounds nearest factor.toInt n.toInt r.toInt) :
    round nearest n factor = r ∧ r.toInt =
      if nearest ∧ factor ≤ Tens.doubled n factor
      then (Tens.down n factor).toInt + (Tens.step n factor).toInt
      else (Tens.down n factor).toInt := by
  have heq := hr.unique hu (h.rounds hu nearest)
  refine ⟨Int64.toInt_inj.1 ?_, heq⟩
  have hfits := Word.fits_toInt r
  unfold round
  split_ifs at heq ⊢ with haway
  · rw [Int64.toInt_add, ← heq]
    exact Word.bmod_of_fits hfits
  · exact heq.symm

end Exact

end Tens

/-- ROUND and TRUNCATE of an integer give it back for a digit count that is not negative, and
overflow for more than 18 digits before the point. In between they give the multiple of the power of
ten that the integer is rounded to, if there is a word for it, and every operation on the way has its
result among the words. They keep the order, and change sign with the integer. -/
theorem roundTo_word (routine : String) (nearest : Bool) (n d : Int64) :
    (0 ≤ d.toInt → roundTo routine nearest [.int n, .int d] = .ok (.int n)) ∧
    (d.toInt < -18 → roundTo routine nearest [.int n, .int d] = .error (.overflow routine)) ∧
    ∀ k : ℕ, d.toInt = -k → 1 ≤ k → k ≤ 18 → (∃ r, Rounds nearest (10 ^ k) n.toInt r) ∧
      ∃ factor, Tens.factor? d = some factor ∧ factor.toInt = 10 ^ k ∧ Tens.Exact n factor ∧
        ∀ r : Int64, Rounds nearest (10 ^ k) n.toInt r.toInt →
          roundTo routine nearest [.int n, .int d] = .ok (.int r) ∧
          (r.toInt = if nearest ∧ factor ≤ Tens.doubled n factor
            then (Tens.down n factor).toInt + (Tens.step n factor).toInt
            else (Tens.down n factor).toInt) ∧
          ∀ n' r' : Int64, Rounds nearest (10 ^ k) n'.toInt r'.toInt →
            (n.toInt ≤ n'.toInt → r.toInt ≤ r'.toInt) ∧
            (n'.toInt = -n.toInt → r'.toInt = -r.toInt) := by
  refine ⟨fun hd => ?_, fun hd => ?_, fun k hd hk hk' => ?_⟩
  · change (if 0 ≤ d.toInt then _ else _) = _
    rw [if_pos hd]
  · change (if 0 ≤ d.toInt then _ else _) = _
    rw [if_neg (by omega), Tens.factor?_eq_none hd]
  · obtain ⟨factor, hfactor, hpow⟩ := Tens.factor?_neg hd hk'
    have hten : 10 ≤ factor.toInt := by
      rw [hpow]
      exact_mod_cast Nat.pow_le_pow_right (Nat.succ_pos 9) hk
    have hle : factor.toInt ≤ 10 ^ 18 := by
      rw [hpow]
      exact_mod_cast Nat.pow_le_pow_right (Nat.succ_pos 9) hk'
    have hu : 0 < factor.toInt := by omega
    have hexact := Tens.exact_of_le n hten hle
    rw [← hpow]
    refine ⟨⟨_, hexact.rounds hu nearest⟩, factor, hfactor, rfl, hexact, fun r hr => ?_⟩
    obtain ⟨hround, hsum⟩ := hexact.toInt_round hu hr
    refine ⟨?_, hsum, fun n' r' hr' => ⟨hr.le hu hr', fun hneg => ?_⟩⟩
    · change (if 0 ≤ d.toInt then _ else _) = _
      rw [if_neg (by omega), hfactor, ← hround]
    · exact (hneg ▸ hr').unique hu (hr.neg hu)

theorem roundTo_word_tie : roundTo "round" true [.int (-1250), .int (-2)] = .ok (.int (-1300)) := by
  have hround : Rounds true (10 ^ 2) (-1250 : Int64).toInt (-1300 : Int64).toInt := by
    exact Lies.rounds ⟨⟨-13, rfl⟩, by decide, fun _ => by decide⟩
  obtain ⟨-, factor, -, -, -, hround'⟩ :=
    (roundTo_word "round" true (-1250) (-2)).2.2 2 rfl (by decide) (by decide)
  exact (hround' _ hround).1

end Routine

end SqlCode
