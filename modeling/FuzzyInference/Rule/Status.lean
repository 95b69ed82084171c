/-!
# Rule status

* `Status`: how far a rule has come;
* `Status.set`: a status that has left `idle` never changes again.
-/

namespace FuzzyInference.Rule

/-- How far a rule has come. -/
inductive Status where
  | idle
  | done
  | erroneous
  deriving Repr, DecidableEq

namespace Status

/-- The status as it stands in messages. -/
def name : Status → String
  | .idle => "IDLE"
  | .done => "DONE"
  | .erroneous => "ERRONEOUS"

/-- The status after an attempt to change it to `new`. -/
def set (old new : Status) : Status := if old = .idle then new else old

end Status

end FuzzyInference.Rule
