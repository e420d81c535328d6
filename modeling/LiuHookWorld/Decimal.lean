/-
# Decimal numerals

A numeral determines its number.  Numerals written one after the other with nothing
between them do not determine the numbers, unless it is known how long each of them is.
-/
import Mathlib.Data.Nat.Notation

namespace Decimal

/-- The digits of a number, most significant first. -/
def digits (n : ℕ) : List Char := Nat.toDigits 10 n

theorem toList_toString (n : ℕ) : (toString n).toList = digits n := by
  rw [Nat.toString_eq_repr, Nat.repr_eq_ofList_toDigits, String.toList_ofList, digits]

theorem digits_inj {m n : ℕ} (h : digits m = digits n) : m = n := by
  have hread := congrArg (fun ds => Nat.ofDigitChars 10 ds 0) h
  simpa [digits] using hread

/-- A character that is no digit is in no numeral. -/
theorem notMem_digits {c : Char} (hc : c.isDigit = false) (n : ℕ) : c ∉ digits n := by
  intro h
  rw [Nat.isDigit_of_mem_toDigits (by decide) (by decide) h] at hc
  cases hc

/-! ## Numerals without separators -/

/-- The numerals of a list of numbers, one after the other. -/
def concat (ns : List ℕ) : List Char := ns.flatMap digits

end Decimal
