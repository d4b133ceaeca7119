import SqlCode.Number.Word

/-!
# Decimal numerals

Reading and writing whole numbers in base ten, over lists of ASCII characters.
-/

namespace SqlCode

namespace Numeral

/-- The number a non-empty run of decimal digits denotes. -/
def nat? (cs : List Char) : Option Nat :=
  if cs ≠ [] ∧ cs.all Char.isDigit then some (Nat.ofDigitChars 10 cs 0) else none

/-- The number a numeral with an optional sign denotes. -/
def int? : List Char → Option Int
  | '-' :: cs => (nat? cs).map fun n => -(n : Int)
  | '+' :: cs => (nat? cs).map Int.ofNat
  | cs => (nat? cs).map Int.ofNat

/-- The numeral of `n`, with zeros in front up to `width` digits. -/
def padded (width n : Nat) : String :=
  let digits := n.repr
  String.ofList (List.replicate (width - digits.length) '0') ++ digits

/-- The number of decimal digits of `n`; zero has one. -/
def digitCount (n : Nat) : Nat := n.repr.length

theorem lt_pow10_digitCount (n : Nat) : n < pow10 (digitCount n) :=
  (Nat.length_repr_le_iff Nat.length_repr_pos).mp (Nat.le_refl _)

/-- A word in base sixteen, most significant digit first, with exactly `width` digits. -/
def hex (width n : Nat) : String :=
  let digits := Nat.toDigits 16 n
  String.ofList (List.replicate (width - digits.length) '0' ++ digits)

/-- The value of a hexadecimal digit in either case. -/
def hexDigit? (c : Char) : Option Nat :=
  if c.isDigit then some (c.toNat - 48)
  else if 'a' ≤ c ∧ c ≤ 'f' then some (c.toNat - 87)
  else if 'A' ≤ c ∧ c ≤ 'F' then some (c.toNat - 55)
  else none

/-- The number that hexadecimal digits denote. -/
def hexNat? (cs : List Char) : Option Nat :=
  if cs = [] then none
  else cs.foldlM (fun n c => (hexDigit? c).map (16 * n + ·)) 0

/-- A numeral reads back as the number it was written for. -/
theorem nat?_toDigits (n : Nat) : nat? (Nat.toDigits 10 n) = some n := by
  have h : (Nat.toDigits 10 n).all Char.isDigit = true :=
    List.all_eq_true.mpr fun _ hc => Nat.isDigit_of_mem_toDigits (by decide) (by decide) hc
  simp [nat?, Nat.toDigits_ne_nil, h, Nat.ofDigitChars_ten_toDigits]

end Numeral

end SqlCode
