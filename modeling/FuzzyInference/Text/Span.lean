/-!
# Spans of code points

A property of characters is kept as a list of closed spans of code points.

* `Span`, `Span.covers`: one span and the code points it holds;
* `Span.anyCovers`: membership in a list of spans.
-/

namespace FuzzyInference.Text

/-- The code points from `first` to `last`, both included. -/
structure Span where
  first : Nat
  last : Nat
  deriving Repr, DecidableEq

namespace Span

/-- Whether the code point `n` lies in the span. -/
def covers (s : Span) (n : Nat) : Bool := s.first ≤ n && n ≤ s.last

/-- Whether some span of the list holds the code point `n`. -/
def anyCovers (spans : List Span) (n : Nat) : Bool := spans.any (·.covers n)

theorem covers_iff (s : Span) (n : Nat) : s.covers n = true ↔ s.first ≤ n ∧ n ≤ s.last := by
  simp [covers]

end Span

end FuzzyInference.Text
