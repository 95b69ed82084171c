import FuzzyInference.Engine.Input
import FuzzyInference.Membership.Basic
import FuzzyInference.Rule.Status

/-!
# Faults

Why inference over variables and rules gives no result.

* `Fault`: the causes;
* `Fault.severity`: whether a cause is reported to the user as an error of the model, or breaks
  what a caller promised;
* `Fault.message`: the wording.
-/

namespace FuzzyInference

/-- What is asked of a rule that has been read. -/
inductive Inquiry where
  | relevance
  | conclusion
  deriving Repr, DecidableEq

/-- The inquiry as it stands in messages. -/
def Inquiry.name : Inquiry → String
  | .relevance => "degree of relevance"
  | .conclusion => "conclusion"

/-- Why inference gives no result. -/
inductive Fault (α : Type) where
  /-- The corners of a membership function do not ascend. -/
  | corners (start leftTop rightTop finish : α)
  /-- The height of a membership function lies outside the unit interval. -/
  | height (h : α)
  /-- A conclusion cannot be reasoned again. -/
  | alreadyReasoned (f : Membership α)
  | tooFewFunctions
  /-- A window cannot be cut into no steps. -/
  | noSteps
  | stepsOutOfRange (steps : Int)
  /-- A curve has fewer ordinates than abscissas. -/
  | curveTooShort
  | unknownUsage (usage name : Text)
  | variableTaken (name : Text)
  | tableFrozen (name : Text)
  | tableNotFrozen
  | termTaken (term name : Text)
  /-- A term whose function is asked for is not there. -/
  | termNotFound (term name : Text)
  /-- A term whose degree is asked for is not there. -/
  | termNotFuzzified (term name : Text)
  /-- A variable that a rule or result names is not there. -/
  | variableMissing
  /-- A stack of a rule holds too little. -/
  | stackEmpty
  | ruleNotDone (inquiry : Inquiry) (rule : Text) (status : Rule.Status)
  | ruleWithoutTable (inquiry : Inquiry) (rule : Text)
  | ruleTaken (rule : Text)
  | rulesNotDone (status : Rule.Status)
  | stepsNotPositive (steps : Int)
  | outputCount (model : Text) (found : Nat)
  | notAnInput (name : Text)
  /-- An input is named by something that is no text. -/
  | namelessInput
  | input (fault : InputFault)
  deriving Repr

namespace Fault

variable {α : Type}

/-- How a fault is met. -/
inductive Severity where
  /-- A function is defined wrongly; this is reported. -/
  | definition
  /-- A model or rule cannot be used in the way that is asked; this is reported. -/
  | inference
  /-- A promise of the caller is broken; the whole run ends. -/
  | breach
  deriving Repr, DecidableEq

/-- How the fault is met. -/
def severity : Fault α → Severity
  | .corners .. | .height .. => .definition
  | .noSteps | .stepsOutOfRange .. | .curveTooShort | .variableMissing | .stackEmpty
  | .namelessInput | .input .. => .breach
  | _ => .inference

/-- A name between double quotes. -/
def named (s : Text) : Text := "\"" ++ s ++ "\""

/-- The wording of the fault. -/
def message : Fault Float → Text
  | .corners a b c d =>
    let corners := ", ".intercalate ([a, b, c, d].map Decimal.write)
    s!"Membership function requires start <= left_top <= right_top <= end (got {corners})"
  | .height h =>
    "Membership function height must be in [0, 1] (got " ++ Decimal.write h ++ ")"
  | .alreadyReasoned f =>
    "Cannot compute reasoning because the membership function " ++ f.describe ++
      " was reasoned already"
  | .tooFewFunctions => "Cannot compute superposition for less than two membership functions."
  | .noSteps => "float division by zero"
  | .stepsOutOfRange _ => "int too large to convert to float"
  | .curveTooShort => "list index out of range"
  | .unknownUsage usage name =>
    "Unknown usage " ++ named usage ++ " of linguistic variable " ++ named name ++ "."
  | .variableTaken name =>
    "Cannot register linguistic variable " ++ named name ++
      " with symbol table because the variable is registered already."
  | .tableFrozen name =>
    "Cannot register linguistic variable " ++ named name ++
      " because the symbol table is frozen."
  | .tableNotFrozen => "Cannot parse rules concurrently because the symbol table is not frozen."
  | .termTaken term name =>
    "Cannot add linguistic term " ++ named term ++
      " because it is already a member of the term set of linguistic variable " ++
      named name ++ "."
  | .termNotFound term name =>
    "Cannot retrieve membership function because linguistic term " ++ named term ++
      " is not a member of the term set of linguistic variable " ++ named name ++ "."
  | .termNotFuzzified term name =>
    "Cannot compute fuzzification for linguistic term " ++ named term ++
      " because it is not a member of the term set of linguistic variable " ++
      named name ++ "."
  | .variableMissing => "no such variable"
  | .stackEmpty => "a stack is empty"
  | .ruleNotDone inquiry rule status =>
    "Cannot compute " ++ inquiry.name ++ " of rule " ++ named rule ++ " because its status is " ++
      named status.name ++ "."
  | .ruleWithoutTable inquiry rule =>
    "Cannot compute " ++ inquiry.name ++ " of rule " ++ named rule ++ " without a symbol table."
  | .ruleTaken rule =>
    "Cannot add rule " ++ named rule ++ " to the rule set because it is present already."
  | .rulesNotDone status =>
    "Cannot evaluate rule set because its status is " ++ named status.name ++ "."
  | .stepsNotPositive steps =>
    s!"Number of discretization steps must be positive (got {steps})."
  | .outputCount model found =>
    "Model " ++ named model ++
      s!" must declare exactly one output variable (found {found})."
  | .notAnInput name => named name ++ " is not a valid input variable."
  | .namelessInput => "a name must be a text"
  | .input f => f.message

end Fault

end FuzzyInference
