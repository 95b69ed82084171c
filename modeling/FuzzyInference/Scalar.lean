import FuzzyInference.Decimal.Numeral

/-!
# Scalars

Degrees, corners and crisp values are scalars. Inference asks of them only what `Scalar` names, so
that the same definitions run on doubles and can be studied on exact numbers.

* `Scalar`: the four operations, three constants, the comparisons, and the whole numbers;
* the instance for doubles.
-/

namespace FuzzyInference

/-- What inference asks of its numbers. -/
class Scalar (α : Type) extends Add α, Sub α, Mul α, Div α where
  zero : α
  one : α
  half : α
  /-- The result where there is none. -/
  nan : α
  abs : α → α
  /-- The number nearest to a whole number. -/
  ofInt : Int → α
  /-- Whether a whole number lies within the range of the scalars. -/
  inRange (α) : Int → Bool
  lt : α → α → Bool
  le : α → α → Bool
  eq : α → α → Bool

/-- Doubles hold whole numbers below `2 ^ 53` exactly; of greater ones they hold the nearest. -/
instance : Scalar Float where
  zero := 0.0
  one := 1.0
  half := 0.5
  nan := 0.0 / 0.0
  abs := Float.abs
  ofInt i :=
    if i.natAbs < Decimal.twoTo 53 then Float.ofInt i else (Decimal.ofInt? i).getD (0.0 / 0.0)
  inRange i := i.natAbs < Decimal.twoTo 53 || (Decimal.ofInt? i).isSome
  lt a b := a < b
  le a b := a ≤ b
  eq a b := a == b

end FuzzyInference
