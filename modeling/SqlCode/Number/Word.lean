/-!
# Machine words

The powers of two and ten are the bases of the binary and the decimal number formats.

SQL integers of every width are held in 64-bit words. Arithmetic is done on `Int` and brought
back: `Word.ofInt?` refuses what does not fit, `Word.wrap` keeps the low bits, and `Word.clamp`
stops at the ends of the range.
-/

namespace SqlCode

/-- A power of two. -/
abbrev pow2 (n : Nat) : Nat := Nat.pow 2 n

/-- A power of ten. -/
abbrev pow10 (n : Nat) : Nat := Nat.pow 10 n

namespace Word

/-- The least word. -/
def least : Int := -9223372036854775808

/-- The greatest word. -/
def greatest : Int := 9223372036854775807

/-- There is a word for the integer. -/
def Fits (n : Int) : Prop := least ≤ n ∧ n ≤ greatest

instance (n : Int) : Decidable (Fits n) := inferInstanceAs (Decidable (_ ∧ _))

/-- The word of an integer that fits in 64 bits. -/
def ofInt? (n : Int) : Option Int64 :=
  if Fits n then some (Int64.ofInt n) else none

/-- The word with the low 64 bits of `n`. -/
def wrap (n : Int) : Int64 := Int64.ofInt n

/-- The low `bits` bits of `n`, read as a two's complement number. -/
def wrapTo (bits : Nat) (n : Int64) : Int64 := Int64.ofInt (n.toInt.bmod (pow2 bits))

/-- The word nearest to `n`. -/
def clamp (n : Int) : Int64 :=
  if n < least then Int64.ofInt least
  else if greatest < n then Int64.ofInt greatest
  else Int64.ofInt n

/-- The sum, or the end of the range that it is beyond. -/
def saturatingAdd (a b : Int64) : Int64 := clamp (a.toInt + b.toInt)

/-- The product with the powers of a base, up to an exponent; none if one of them is no word. -/
def powFrom (base product : Int64) : Nat → Option Int64
  | 0 => some product
  | e + 1 => (ofInt? (product.toInt * base.toInt)).bind (powFrom base · e)

/-- The power, if it is a word. -/
def checkedPow (base : Int64) (e : Nat) : Option Int64 := powFrom base 1 e

/-- The word moved to the left by fewer places than it has bits. -/
def checkedShl (w : Int64) (places : Nat) : Option Int64 :=
  if places < 64 then some (w <<< Int64.ofNat places) else none

/-- Minus one, zero or one. -/
def signum (w : Int64) : Int64 := wrap w.toInt.sign

/-- Bitwise operations read words as two's complement bit strings. -/
def bitAnd (a b : Int64) : Int64 := a &&& b

@[inherit_doc bitAnd]
def bitOr (a b : Int64) : Int64 := a ||| b

@[inherit_doc bitAnd]
def bitXor (a b : Int64) : Int64 := a ^^^ b

theorem fits_toInt (w : Int64) : Fits w.toInt :=
  ⟨Int64.le_toInt w, Int.le_of_lt_add_one (Int64.toInt_lt w)⟩

theorem fits_iff {n : Int} : Fits n ↔ -9223372036854775808 ≤ n ∧ n ≤ 9223372036854775807 := Iff.rfl

theorem toInt_ofInt {n : Int} (h : Fits n) : (Int64.ofInt n).toInt = n :=
  Int64.toInt_ofInt_of_le h.1 (Int.lt_add_one_of_le h.2)

theorem bmod_of_fits {n : Int} (h : Fits n) : n.bmod 18446744073709551616 = n := by
  have := fits_iff.1 h
  exact Int.bmod_eq_of_le (by omega) (by omega)

theorem toInt_max (a b : Int64) : (max a b).toInt = max a.toInt b.toInt := by
  show (if a ≤ b then b else a).toInt = _
  simp only [Int64.le_iff_toInt_le, Int.max_def]
  split <;> rfl

theorem toInt_min (a b : Int64) : (min a b).toInt = min a.toInt b.toInt := by
  show (if a ≤ b then a else b).toInt = _
  simp only [Int64.le_iff_toInt_le, Int.min_def]
  split <;> rfl

/-- Bringing an integer back succeeds exactly with the word that denotes it. -/
theorem ofInt?_eq_some_iff {n : Int} {w : Int64} : ofInt? n = some w ↔ w.toInt = n := by
  constructor
  · intro h
    by_cases hn : Fits n
    · simp only [ofInt?, hn, if_true, Option.some.injEq] at h
      rw [← h, toInt_ofInt hn]
    · simp [ofInt?, hn] at h
  · rintro rfl
    simp [ofInt?, fits_toInt]

@[simp] theorem ofInt?_toInt (w : Int64) : ofInt? w.toInt = some w :=
  ofInt?_eq_some_iff.mpr rfl

end Word

end SqlCode
