import FuzzyInference.Membership
import FuzzyInference.Text.Lowercase

/-!
# Variables

A linguistic variable describes its values by terms, each with a membership function, and holds one
crisp value. Its name and the names of its terms are kept in lower case and found in any case.

* `Usage`: whether values go in or come out;
* `Variable.make`, `Variable.addTerm`: a variable and its terms, which have different names;
* `Variable.function`, `Variable.fuzzify`: a term's function, and its degree at the crisp value.
-/

namespace FuzzyInference

/-- Whether the values of a variable go in or come out. -/
inductive Usage where
  | input
  | output
  deriving Repr, DecidableEq

/-- The usage as it is written. -/
def Usage.name : Usage → String
  | .input => "input"
  | .output => "output"

/-- The usage that a word stands for. -/
def Usage.ofName? (s : Text) : Option Usage :=
  if s == "input" then some .input else if s == "output" then some .output else none

/-- A variable with its terms, in the order in which they were added. -/
structure Variable (α : Type) where
  name : Text
  usage : Usage
  terms : List (Text × Membership α)
  value : α
  deriving Repr, DecidableEq

namespace Variable

variable {α : Type}

/-- A variable without terms; its crisp value is zero. -/
def make [Scalar α] (name usage : Text) : Except (Fault α) (Variable α) :=
  let name := Text.lowercase name
  match Usage.ofName? usage with
  | some usage => .ok ⟨name, usage, [], Scalar.zero⟩
  | none => .error (.unknownUsage usage name)

/-- The function of a term, named in any letter case. -/
def term? (v : Variable α) (label : Text) : Option (Membership α) :=
  v.terms.lookup (Text.lowercase label)

def hasTerm (v : Variable α) (label : Text) : Bool := (v.term? label).isSome

/-- The variable with one more term. -/
def addTerm (v : Variable α) (label : Text) (f : Membership α) :
    Except (Fault α) (Variable α) :=
  let label := Text.lowercase label
  if v.hasTerm label then .error (.termTaken label v.name)
  else .ok { v with terms := v.terms ++ [(label, f)] }

/-- The function of a term that has to be there. -/
def function (v : Variable α) (label : Text) : Except (Fault α) (Membership α) :=
  match v.term? label with
  | some f => .ok f
  | none => .error (.termNotFound (Text.lowercase label) v.name)

/-- The degree of the crisp value in a term that has to be there. -/
def fuzzify [Scalar α] (v : Variable α) (label : Text) : Except (Fault α) α :=
  match v.term? label with
  | some f => .ok (f.degree v.value)
  | none => .error (.termNotFuzzified (Text.lowercase label) v.name)

/-- Whether the variable goes by a name, in any letter case. -/
def answersTo (v : Variable α) (name : Text) : Bool :=
  Text.lowercase v.name == Text.lowercase name

/-- The names of the terms. -/
def termNames (v : Variable α) : List Text := v.terms.map (·.1)

/-- The variable with its terms, as it is shown. -/
def describe (v : Variable α) : Text :=
  "T(" ++ v.name ++ ") = \x7b" ++ Text.join ", " v.termNames ++ "\x7d"

end Variable

end FuzzyInference
