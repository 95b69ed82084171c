/-!
# Powers

Doubles count in powers of two and decimal numbers in powers of ten.
-/

namespace FuzzyInference.Decimal

/-- The power of two. -/
def twoTo (n : Nat) : Nat := Nat.pow 2 n

/-- The power of ten. -/
def tenTo (n : Nat) : Nat := Nat.pow 10 n

/-- A power of two is positive, so that fractions may have it below. -/
theorem twoTo_pos (n : Nat) : 0 < twoTo n := Nat.pow_pos (by decide)

end FuzzyInference.Decimal
