import FuzzyInference.Scalar

/-!
# Connectives

* `Connective`: the two ways of joining clauses;
* `Connective.combine`: the degree of a joined clause from the degrees of its parts.
-/

namespace FuzzyInference

/-- A way of joining clauses. -/
inductive Connective where
  | and
  | or
  deriving Repr, DecidableEq

namespace Connective

/-- The connective as it stands in postfix texts and messages. -/
def name : Connective → String
  | .and => "AND"
  | .or => "OR"

variable {α : Type} [Scalar α]

/-- The smaller of two scalars; the first one where neither is smaller. -/
def smaller (a b : α) : α := if Scalar.lt b a then b else a

/-- The greater of two scalars; the first one where neither is greater. -/
def greater (a b : α) : α := if Scalar.lt a b then b else a

/-- The degree of two parts that are joined. -/
def join : Connective → α → α → α
  | .and => smaller
  | .or => greater

/-- The degree of no parts. -/
def unit : Connective → α
  | .and => Scalar.one
  | .or => Scalar.zero

/-- The degree of any number of parts that are joined. -/
def combine (c : Connective) : List α → α
  | [] => c.unit
  | x :: xs => xs.foldl c.join x

end Connective

end FuzzyInference
