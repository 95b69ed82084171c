import FuzzyInference.Connective

/-!
# Postfix form

A clause `x is a` is written `x a IS`, and a connective stands behind what it joins.

* `Entry`: what a postfix form is made of;
* `Entry.text`: the entries as they stand in answers.
-/

namespace FuzzyInference.Rule

/-- What a postfix form is made of. -/
inductive Entry where
  | name (s : Text)
  | is
  | connective (c : Connective)
  deriving Repr, DecidableEq

/-- The entry as it stands in answers; names are in lower case and the others in upper case. -/
def Entry.text : Entry → Text
  | name s => s
  | is => "IS"
  | connective c => c.name

end FuzzyInference.Rule
