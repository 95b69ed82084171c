import FuzzyInference.Decimal.Places

/-!
# Membership functions

A membership function is a trapezoid over the line: zero up to `start`, rising to its height at
`leftTop`, level up to `rightTop`, and falling back to zero at `finish`. A triangle is a trapezoid
whose tops coincide.

* `Membership`: the four corners and the height;
* `Membership.describe`: the function as it stands in messages.
-/

namespace FuzzyInference

/-- A trapezoid over the line. A height of one belongs to a term, a smaller one to a conclusion. -/
structure Membership (α : Type) where
  start : α
  leftTop : α
  rightTop : α
  finish : α
  height : α
  deriving Repr, DecidableEq

/-- The function with two places for each of its numbers. -/
def Membership.describe (f : Membership Float) : String :=
  let two := Decimal.fixed 2
  "MF \x7b start = " ++ two f.start ++ ", left_top = " ++ two f.leftTop ++ ", right_top = " ++
    two f.rightTop ++ ", end = " ++ two f.finish ++ ", height = " ++ two f.height ++ " \x7d"

end FuzzyInference
