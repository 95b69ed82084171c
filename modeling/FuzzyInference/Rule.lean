import FuzzyInference.Rule.Reading
import FuzzyInference.Rule.Status

/-!
# Rules

A rule is known by its text in lower case. Reading it adds to its postfix forms and tokens, and
settles its status the first time.

* `Rule`: a rule with what has been read of it;
* `Rule.parse`: one reading of the rule.
-/

namespace FuzzyInference

/-- A rule with what has been read of it so far. An attached rule is evaluated over the symbol
table at hand; a loose one cannot be evaluated. -/
structure Rule where
  text : Text
  attached : Bool
  premise : List Rule.Entry
  conclusion : List Rule.Entry
  tokens : List Rule.Token
  error : Option Rule.Error
  status : Rule.Status
  deriving Repr, DecidableEq

namespace Rule

/-- A rule that has not been read. -/
def ofText (text : Text) (attached : Bool) : Rule :=
  ⟨Text.lowercase text, attached, [], [], [], none, .idle⟩

/-- Reads the rule. What is read is added even if the status is settled; so is an error. -/
def parse (v : Option Vocabulary) (r : Rule) : Rule :=
  let (reading, error) := Reading.ofText v r.text
  { r with
    premise := r.premise ++ reading.premise
    conclusion := r.conclusion ++ reading.conclusion
    tokens := r.tokens ++ reading.tokens
    error := error.or r.error
    status := r.status.set (if error.isSome then .erroneous else .done) }

/-- The wording of the last error. -/
def errorText (r : Rule) : Text := (r.error.map Error.message).getD "n/a"

/-- The postfix form of the premise on one line. -/
def premiseText (r : Rule) : Text := Text.join " " (r.premise.map Entry.text)

/-- The variable that the rule concludes on. -/
def conclusionVariable? (r : Rule) : Option Text := r.conclusion[0]?.map Entry.text

/-- The term that the rule concludes. -/
def conclusionTerm? (r : Rule) : Option Text := r.conclusion[1]?.map Entry.text

end Rule

end FuzzyInference
