-- SUMMARY: Decimal numbers of a fixed width: printing with leading zeros, and reading back.
import Mathlib.Algebra.Group.Nat.Defs
import Mathlib.Data.List.Basic

/-!
# Decimal numbers of a fixed width

The parts of a date are numbers of a fixed number of digits. A number that fits
into the width is read back from its digits, whatever follows them.
-/

namespace Decimal

/-- `n` in decimal, with zeros up to `width`. -/
def padded (width n : ℕ) : List Char := (Nat.toDigits 10 n).leftpad width '0'

/-- The number that a text of `width` digits begins with. -/
def read (width : ℕ) (v : List Char) : Option (ℕ × List Char) :=
  if (v.take width).length = width ∧ (v.take width).all Char.isDigit then
    some (Nat.ofDigitChars 10 (v.take width) 0, v.drop width)
  else none

variable {width n : ℕ}

theorem length_padded (hwidth : 0 < width) (h : n < 10 ^ width) :
    (padded width n).length = width := by
  rw [padded, List.length_leftpad, Nat.max_eq_left]
  exact (Nat.length_toDigits_le_iff (by decide) hwidth).mpr h

theorem isDigit_of_mem_padded {c : Char} (h : c ∈ padded width n) : c.isDigit = true := by
  rcases List.mem_append.mp h with hzero | hdigit
  · rw [List.eq_of_mem_replicate hzero]
    rfl
  · exact Nat.isDigit_of_mem_toDigits (by decide) (by decide) hdigit

theorem all_isDigit_padded : (padded width n).all Char.isDigit = true :=
  List.all_eq_true.mpr fun _ h => isDigit_of_mem_padded h

/-- Leading zeros do not count. -/
theorem ofDigitChars_padded : Nat.ofDigitChars 10 (padded width n) 0 = n := by
  rw [padded, List.leftpad, Nat.ofDigitChars_append, Nat.ofDigitChars_replicate_zero, Nat.mul_zero,
    Nat.ofDigitChars_ten_toDigits]

/-- All that a reader needs to know of the digits of a number that fits. -/
theorem exists_digits (hwidth : 0 < width) (h : n < 10 ^ width) :
    ∃ digits, padded width n = digits ∧ digits.length = width ∧
      digits.all Char.isDigit = true ∧ Nat.ofDigitChars 10 digits 0 = n :=
  ⟨_, rfl, length_padded hwidth h, all_isDigit_padded, ofDigitChars_padded⟩

/-- A number that fits is read back. -/
theorem read_padded (hwidth : 0 < width) (h : n < 10 ^ width) (v : List Char) :
    read width (padded width n ++ v) = some (n, v) := by
  have hlength := length_padded hwidth h
  rw [read, List.take_left' hlength, List.drop_left' hlength,
    if_pos ⟨hlength, all_isDigit_padded⟩, ofDigitChars_padded]

variable (width n)

/-- The digits of a number end where something else follows. -/
theorem takeWhile_padded {c : Char} (hc : c.isDigit = false) (v : List Char) :
    (padded width n ++ c :: v).takeWhile Char.isDigit = padded width n := by
  rw [List.takeWhile_append_of_pos fun d hd => isDigit_of_mem_padded hd,
    List.takeWhile_cons_of_neg (Bool.eq_false_iff.mp hc), List.append_nil]

theorem dropWhile_padded {c : Char} (hc : c.isDigit = false) (v : List Char) :
    (padded width n ++ c :: v).dropWhile Char.isDigit = c :: v := by
  rw [List.dropWhile_append_of_pos fun d hd => isDigit_of_mem_padded hd,
    List.dropWhile_cons_of_neg (Bool.eq_false_iff.mp hc)]

end Decimal
