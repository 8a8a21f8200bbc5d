import Mathlib.Algebra.GroupWithZero.Nat
import BackgroundJobs.Number.Decimal

/-!
# Proofs — decimal digits

What is written of a number is a run of digits that stand for it, with leading
zeros or not, and a reader takes such a run off the front of a text.

Main results:

* `ofDigits_padded`        — leading zeros change nothing.
* `takeWhile_isDigit_append` — where a run of digits ends.
-/

namespace BackgroundJobs.Number

variable {c : Char} {width n : Nat} {ds rest : List Char}

theorem isDigit_eq (c : Char) : isDigit c = c.isDigit := rfl

theorem isDigit_of_mem_digits (h : c ∈ digits n) : isDigit c = true := by
  rw [isDigit_eq]
  exact Nat.isDigit_of_mem_toDigits (by decide) (by decide) h

theorem isDigit_of_mem_padded (h : c ∈ padded width n) : isDigit c = true := by
  rcases List.mem_append.mp h with hZero | hDigit
  · rw [List.eq_of_mem_replicate hZero]
    rfl
  · exact isDigit_of_mem_digits hDigit

theorem padded_ne_nil : padded width n ≠ [] := by
  simp [padded, digits, Nat.toDigits_ne_nil]

/-- A number that is short enough is written with exactly so many digits. -/
theorem length_padded (hWidth : 0 < width) (h : n < 10 ^ width) :
    (padded width n).length = width := by
  have hShort : (digits n).length ≤ width := (Nat.length_toDigits_le_iff (by decide) hWidth).mpr h
  rw [padded, List.length_append, List.length_replicate]
  omega

/-- Leading zeros change nothing. -/
theorem ofDigits_padded (width n : Nat) : ofDigits (padded width n) = n := by
  rw [ofDigits, padded, Nat.ofDigitChars_append, Nat.ofDigitChars_replicate_zero, Nat.mul_zero]
  exact ofDigits_digits n

/-- A run of digits is read, whatever number it denotes, and nothing else is. -/
theorem read?_eq_some_iff : read? ds = some n ↔
    ds ≠ [] ∧ (∀ c ∈ ds, isDigit c = true) ∧ ofDigits ds = n := by
  rw [← List.all_eq_true, read?]
  by_cases hNone : ds = []
  · simp [hNone]
  · by_cases hDigits : ds.all isDigit = true <;> simp [hNone, hDigits]

/-- Does no digit come next? -/
def Ends (rest : List Char) : Prop :=
  ∀ c ∈ rest.head?, isDigit c = false

theorem takeWhile_isDigit_of_ends (h : Ends rest) : rest.takeWhile isDigit = [] := by
  cases rest with
  | nil => rfl
  | cons c rest => rw [List.takeWhile_cons_of_neg (by simpa using h c rfl)]

/-- A run of digits ends where no digit comes next. -/
theorem takeWhile_isDigit_append (hDigits : ∀ c ∈ ds, isDigit c = true) (hEnds : Ends rest) :
    (ds ++ rest).takeWhile isDigit = ds := by
  rw [List.takeWhile_append_of_pos hDigits, takeWhile_isDigit_of_ends hEnds, List.append_nil]

end BackgroundJobs.Number
