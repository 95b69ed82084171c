import FuzzyInference.Connective
import Mathlib.Algebra.Order.Field.Rat

/-!
# Exact numbers

The rational numbers, together with the result of operations that have none. What inference computes
on them it computes without rounding.

* `Exact`: a rational number, or none;
* the operations, on numbers those of `ℚ`; a division by zero has no result, and neither has any
  operation without an operand;
* the comparisons, which hold between numbers only;
* `toRat`: the number that there is;
* `smaller_number`, `greater_number`: the degrees of joined clauses are those of a linear order.
-/

namespace FuzzyInference

/-- A rational number, or the result of an operation that has none. -/
inductive Exact where
  | number (q : ℚ)
  | nan
  deriving DecidableEq, Repr

namespace Exact

/-- An operation on numbers. -/
def map₂ (f : ℚ → ℚ → Exact) : Exact → Exact → Exact
  | number a, number b => f a b
  | _, _ => nan

/-- A comparison of numbers. -/
def test (f : ℚ → ℚ → Bool) : Exact → Exact → Bool
  | number a, number b => f a b
  | _, _ => false

instance : Scalar Exact where
  add := map₂ fun a b => number (a + b)
  sub := map₂ fun a b => number (a - b)
  mul := map₂ fun a b => number (a * b)
  div := map₂ fun a b => if b = 0 then nan else number (a / b)
  zero := number 0
  one := number 1
  half := number (1 / 2)
  nan := nan
  abs
    | number a => number |a|
    | nan => nan
  ofInt i := number i
  inRange _ := true
  lt := test fun a b => a < b
  le := test fun a b => a ≤ b
  eq := test fun a b => a = b

/-- The number, zero if there is none. -/
def toRat : Exact → ℚ
  | number q => q
  | nan => 0

theorem zero_eq : (Scalar.zero : Exact) = number 0 := rfl

variable {a b : ℚ}

theorem sub_number : number a - number b = number (a - b) := rfl

theorem mul_number : number a * number b = number (a * b) := rfl

theorem div_number (h : b ≠ 0) : number a / number b = number (a / b) := if_neg h

theorem lt_number : Scalar.lt (number a) (number b) = true ↔ a < b := decide_eq_true_iff

theorem le_number : Scalar.le (number a) (number b) = true ↔ a ≤ b := decide_eq_true_iff

theorem smaller_number (a b : ℚ) :
    Connective.smaller (number a) (number b) = number (min a b) := by
  unfold Connective.smaller
  by_cases h : b < a
  · rw [if_pos (lt_number.mpr h), min_eq_right h.le]
  · rw [if_neg fun hlt => h (lt_number.mp hlt), min_eq_left (not_lt.mp h)]

theorem greater_number (a b : ℚ) :
    Connective.greater (number a) (number b) = number (max a b) := by
  unfold Connective.greater
  by_cases h : a < b
  · rw [if_pos (lt_number.mpr h), max_eq_right h.le]
  · rw [if_neg fun hlt => h (lt_number.mp hlt), max_eq_left (not_lt.mp h)]

/-- Only numbers are ordered. -/
theorem numbers_of_le {x y : Exact} (h : Scalar.le x y = true) :
    ∃ a b, x = number a ∧ y = number b ∧ a ≤ b := by
  cases x with
  | nan => cases h
  | number a =>
    cases y with
    | nan => cases h
    | number b => exact ⟨a, b, rfl, rfl, le_number.mp h⟩

end Exact

end FuzzyInference
