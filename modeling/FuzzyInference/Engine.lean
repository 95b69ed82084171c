import FuzzyInference.Decimal.Places
import FuzzyInference.Engine.Setup

/-!
# Engines

An engine runs a model: it takes crisp inputs, finds the degree of relevance of each rule, cuts
their conclusions down, superposes them and takes the centre. It is set up when it is first used;
from then on its table and rules stay, while names are looked up in the model as it is.

* `Engine.make`: an engine over a model;
* `Engine.setup`: the engine with its table and rules;
* `Engine.setInputs`: the engine with new crisp values, all of whose names have to be inputs;
* `Engine.evaluate`, `Engine.explain`: the result, and what each rule has to do with it.

What changes an engine gives it back also when it fails.
-/

namespace FuzzyInference

/-- A model with the number of steps, and its table and rules once they are built. -/
structure Engine (α : Type) where
  model : Model α
  steps : Int
  workers : Option Int
  built : Option (Setup α)
  deriving Repr

/-- What a rule without error says for the given inputs. -/
structure Firing (α : Type) where
  degree : α
  variableName : Option Text
  term : Option Text
  deriving Repr, DecidableEq

/-- A rule with what it has to do with the result; only one without error fires. -/
structure Explanation (α : Type) where
  rule : Rule
  firing : Option (Firing α)
  deriving Repr, DecidableEq

namespace Engine

variable {α : Type} [Scalar α]

/-- An engine over a model, with the model's steps unless others are given. -/
def make (m : Model α) (steps workers : Option Int) : Except (Fault α) (Engine α) :=
  let steps := steps.getD m.steps
  if steps < 1 then .error (.stepsNotPositive steps) else .ok ⟨m, steps, workers, none⟩

/-- The table and rules of the engine, built if they are not there yet. -/
def current (e : Engine α) : Except (Fault α) (Setup α) :=
  match e.built with
  | some s => .ok s
  | none => Setup.build e.model e.workers

/-- The engine with its table and rules. -/
def setup (e : Engine α) : Except (Fault α) (Engine α) :=
  match e.current with
  | .error f => .error f
  | .ok s => .ok { e with built := some s }

/-- Whether all names are those of inputs of the model. -/
def checkNames (m : Model α) : Readings α → Except (Fault α) Unit
  | [] => .ok ()
  | (none, _) :: _ => .error .namelessInput
  | (some name, _) :: rest =>
    if m.isInput name then checkNames m rest else .error (.notAnInput name)

/-- The table with new crisp values, up to a name that it lacks. -/
def assign (t : SymbolTable α) : Readings α → SymbolTable α × Except (Fault α) Unit
  | [] => (t, .ok ())
  | (name, x) :: rest =>
    match t.setValue (name.getD "") x with
    | .error e => (t, .error e)
    | .ok t => assign t rest

/-- Sets crisp values. Nothing is set unless every item can be read and names an input. -/
def setInputs (e : Engine α) (inputs : Except InputFault (Readings α)) :
    Engine α × Except (Fault α) (Setup α) :=
  match e.current with
  | .error f => (e, .error f)
  | .ok s =>
    let e := { e with built := some s }
    match inputs with
    | .error f => (e, .error (.input f))
    | .ok readings =>
      match checkNames e.model readings with
      | .error f => (e, .error f)
      | .ok () =>
        let (table, result) := assign s.table readings
        let s := { s with table }
        ({ e with built := some s }, result.map fun () => s)

/-- Sets the output of the model to a result. -/
def storeResult (e : Engine α) (s : Setup α) (x : α) :
    Engine α × Except (Fault α) (Text × α) :=
  match e.model.outputName? with
  | none => (e, .error .variableMissing)
  | some name =>
    match s.table.setValue name x with
    | .error f => (e, .error f)
    | .ok table => ({ e with built := some { s with table } }, .ok (name, x))

/-- The name and the value of the output for the given inputs. -/
def evaluate (e : Engine α) (inputs : Except InputFault (Readings α)) :
    Engine α × Except (Fault α) (Text × α) :=
  match e.setInputs inputs with
  | (e, .error f) => (e, .error f)
  | (e, .ok s) =>
    match s.rules.evaluate s.table e.steps with
    | .error f => (e, .error f)
    | .ok x => e.storeResult s x

/-- What a rule has to do with the result. -/
def explainRule (t : SymbolTable α) (r : Rule) : Except (Fault α) (Explanation α) :=
  if r.status = .done then
    match r.relevance t with
    | .error f => .error f
    | .ok degree => .ok ⟨r, some ⟨degree, r.conclusionVariable?, r.conclusionTerm?⟩⟩
  else .ok ⟨r, none⟩

/-- What each rule has to do with the result for the given inputs. -/
def explain (e : Engine α) (inputs : Except InputFault (Readings α)) :
    Engine α × Except (Fault α) (List (Explanation α)) :=
  match e.setInputs inputs with
  | (e, .error f) => (e, .error f)
  | (e, .ok s) => (e, s.rules.rules.mapM (explainRule s.table))

/-- The variables and rules of an engine, as they are shown. -/
def describe (s : Setup α) : Text :=
  let title : List Text := ["--- Linguistic Variables"]
  let rules : List Text := ["", "--- Fuzzy Rules", s.rules.describe]
  Text.join "\n" (title ++ s.table.entries.map (·.describe) ++ rules) ++ "\n"

/-- An input and an output on one line. A field is at least `padding` characters wide, the sign of
which does not count; there is none for fewer than no places. -/
def resultLine? (input output : Text × Float) (padding precision : Int) : Option Text :=
  if precision < 0 then none
  else
    let shown (x : Float) : Text :=
      Decimal.padLeft padding.natAbs (Decimal.fixed precision.toNat x)
    some (input.1 ++ ".input = " ++ shown input.2 ++ " -> " ++
      output.1 ++ ".output = " ++ shown output.2)

end Engine

end FuzzyInference
