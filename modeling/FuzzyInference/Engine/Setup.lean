import FuzzyInference.Model
import FuzzyInference.RuleSet

/-!
# Setting up a model

* `Setup.buildVariable`, `Setup.buildTable`: the variables of a model in a frozen table;
* `Setup.collectRules`: its rules in a rule set, each text once;
* `Setup.build`: both, with the rules read over the table.
-/

namespace FuzzyInference

/-- What inference over a model works on. -/
structure Setup (α : Type) where
  table : SymbolTable α
  rules : RuleSet
  deriving Repr, DecidableEq

namespace Setup

variable {α : Type} [Scalar α]

/-- A variable with more terms. -/
def addTerms (v : Variable α) : List (Term α) → Except (Fault α) (Variable α)
  | [] => .ok v
  | t :: rest =>
    match t.function with
    | .error e => .error e
    | .ok f =>
      match v.addTerm t.name f with
      | .error e => .error e
      | .ok v => addTerms v rest

/-- The variable that a declaration describes. -/
def buildVariable (d : Declaration α) : Except (Fault α) (Variable α) :=
  match Variable.make d.name d.usage with
  | .error e => .error e
  | .ok v => addTerms v d.terms

/-- A table with more variables. -/
def addVariables (t : SymbolTable α) : List (Declaration α) → Except (Fault α) (SymbolTable α)
  | [] => .ok t
  | d :: rest =>
    match buildVariable d with
    | .error e => .error e
    | .ok v =>
      match t.insert v with
      | .error e => .error e
      | .ok t => addVariables t rest

/-- The variables of a model in a table. -/
def buildTable (m : Model α) : Except (Fault α) (SymbolTable α) :=
  (addVariables .empty m.declarations).map (·.freeze)

/-- A rule set with more rules, whose texts have to be new. -/
def addRules (s : RuleSet) : List Text → Except (Fault α) RuleSet
  | [] => .ok s
  | text :: rest =>
    match s.add (Rule.ofText text true) with
    | (_, false) => .error (.ruleTaken text)
    | (s, true) => addRules s rest

/-- The table and the rules of a model, which must declare exactly one output. -/
def build (m : Model α) (workers : Option Int) : Except (Fault α) (Setup α) :=
  if m.outputs.length ≠ 1 then .error (.outputCount m.name m.outputs.length)
  else
    match buildTable m with
    | .error e => .error e
    | .ok table =>
      match addRules .empty m.rules with
      | .error e => .error e
      | .ok rules =>
        match rules.parse (some table) workers with
        | .error e => .error e
        | .ok rules => .ok ⟨table, rules⟩

end Setup

end FuzzyInference
