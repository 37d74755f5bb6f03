/-!
# Decimal numerals

`Decimal.digits` writes a number, `Decimal.value?` reads a run of digits of any length, and `Decimal.bounded?` refuses
what does not fit below a bound. `Decimal.signed?` also takes a plus sign in front.
-/

namespace Parley.Decimal

/-- The decimal digits of a number, without leading zeros. -/
def digits (n : Nat) : List Char := Nat.toDigits 10 n

/-- The number that a non-empty run of decimal digits stands for. -/
def value? (cs : List Char) : Option Nat :=
  if !cs.isEmpty && cs.all Char.isDigit then some (Nat.ofDigitChars 10 cs 0) else none

/-- The number that a run of decimal digits stands for, if it is below the bound. -/
def bounded? (bound : Nat) (cs : List Char) : Option Nat := (value? cs).filter (· < bound)

/-- Like `bounded?`, but a plus sign may stand in front of the digits. -/
def signed? (bound : Nat) : List Char → Option Nat
  | '+' :: cs => bounded? bound cs
  | cs => bounded? bound cs

/-- The numeral of a number reads back. -/
theorem value?_digits (n : Nat) : value? (digits n) = some n := by
  have h : (digits n).all Char.isDigit = true := by
    simp only [List.all_eq_true]
    exact fun c hc => Nat.isDigit_of_mem_toDigits (by decide) (by decide) hc
  have h' : (digits n).isEmpty = false := by
    simp [digits, List.isEmpty_eq_false_iff, Nat.toDigits_ne_nil]
  rw [value?, h, h']
  simp [digits, Nat.ofDigitChars_toDigits]

end Parley.Decimal
