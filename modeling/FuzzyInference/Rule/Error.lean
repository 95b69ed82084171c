import FuzzyInference.Rule.Token

/-!
# Errors in rules

* `Error`: why a rule cannot be read;
* `Error.message`: the wording.
-/

namespace FuzzyInference.Rule

/-- Why a rule cannot be read. -/
inductive Error where
  /-- A character that begins no token, by its place in the text. -/
  | illegalName (index : Nat)
  | expected (token : Token)
  /-- A group of clauses goes on with a connective. -/
  | connectiveExpected
  /-- A premise goes on with a connective or ends with `then`. -/
  | connectiveOrThenExpected
  | undefined (name : Text)
  /-- A name is asked for before any has been read. -/
  | nameMissing
  deriving Repr, DecidableEq

/-- The wording of the error. -/
def Error.message : Error → Text
  | illegalName index => s!"Illegal name @{index}"
  | expected token => "Syntax error: " ++ token.name ++ " expected"
  | connectiveExpected => "Syntax error: AND or OR expected"
  | connectiveOrThenExpected => "Syntax error: AND, OR or THEN expected"
  | undefined name => "Symbol '" ++ name ++ "' is not defined"
  | nameMissing => "A name is missing"

end FuzzyInference.Rule
