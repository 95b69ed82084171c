import FuzzyInference.Membership
import FuzzyInference.Text.Lowercase

/-!
# Models

A model declares variables with their terms, states rules as texts, and says into how many steps
results are cut. It is data: whether it can be run is found out when an engine is set up.

* `Term`, `Declaration`, `Model`;
* `Model.find?`: the declaration of a name, in any letter case;
* `Model.inputs`, `Model.outputs`, `Model.outputName?`, `Model.isInput`.
-/

namespace FuzzyInference

/-- A term by its name and corners. -/
structure Term (α : Type) where
  name : Text
  start : α
  leftTop : α
  rightTop : α
  finish : α
  deriving Repr, DecidableEq

/-- The two ways of writing the corners of a term. -/
inductive Shape where
  | triangle
  | trapezoid
  deriving Repr, DecidableEq

/-- A variable as a model declares it; the usage is a word that may turn out to be wrong. -/
structure Declaration (α : Type) where
  usage : Text
  name : Text
  terms : List (Term α)
  deriving Repr, DecidableEq

/-- Variables, rules, and the number of steps. -/
structure Model (α : Type) where
  name : Text
  declarations : List (Declaration α)
  rules : List Text
  steps : Int
  deriving Repr, DecidableEq

/-- The shape as it is written. -/
def Shape.name : Shape → String
  | .triangle => "tri"
  | .trapezoid => "trap"

/-- How many corners are written. -/
def Shape.cornerCount : Shape → Nat
  | .triangle => 3
  | .trapezoid => 4

variable {α : Type}

namespace Term

/-- A term whose tops coincide. -/
def triangle (name : Text) (start top finish : α) : Term α := ⟨name, start, top, top, finish⟩

/-- The shape in which the term is written: a triangle if its tops are equal. -/
def shape [Scalar α] (t : Term α) : Shape :=
  if Scalar.eq t.leftTop t.rightTop then .triangle else .trapezoid

/-- The corners that are written. -/
def corners [Scalar α] (t : Term α) : List α :=
  match t.shape with
  | .triangle => [t.start, t.leftTop, t.finish]
  | .trapezoid => [t.start, t.leftTop, t.rightTop, t.finish]

/-- The function of the term. -/
def function [Scalar α] (t : Term α) : Except (Fault α) (Membership α) :=
  Membership.trapezoid t.start t.leftTop t.rightTop t.finish

/-- The term of a shape with the corners that are written, if their number is right. -/
def ofCorners? (name : Text) : Shape → List α → Option (Term α)
  | .triangle, [a, b, c] => some (.triangle name a b c)
  | .trapezoid, [a, b, c, d] => some ⟨name, a, b, c, d⟩
  | _, _ => none

end Term

/-- Whether the declaration goes by a name, in any letter case. -/
def Declaration.answersTo (d : Declaration α) (name : Text) : Bool :=
  Text.lowercase d.name == Text.lowercase name

namespace Model

/-- The number of steps where none is given. -/
def defaultSteps : Int := 1000

/-- A model without variables and rules. -/
def empty : Model α := ⟨"model", [], [], defaultSteps⟩

/-- The first declaration of a name. -/
def find? (m : Model α) (name : Text) : Option (Declaration α) :=
  m.declarations.find? (·.answersTo name)

def inputs (m : Model α) : List (Declaration α) := m.declarations.filter (·.usage == "input")

def outputs (m : Model α) : List (Declaration α) := m.declarations.filter (·.usage == "output")

/-- The name of the first output. -/
def outputName? (m : Model α) : Option Text := m.outputs.head?.map (·.name)

/-- Whether an input goes by the name. -/
def isInput (m : Model α) (name : Text) : Bool := m.inputs.any (·.answersTo name)

end Model

end FuzzyInference
