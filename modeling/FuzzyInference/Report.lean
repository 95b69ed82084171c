import FuzzyInference.Document.Json.Writer
import FuzzyInference.Engine

/-!
# Reports

What is shown of models and results.

* `Report.summary`: whether all rules could be read;
* `Report.overview`: variables, terms and rules, with degrees where crisp values are given;
* `Report.explanation`, `Report.explanationDocument`: what each rule has to do with a result.
-/

namespace FuzzyInference.Report

open FuzzyInference.Decimal
open FuzzyInference.Document

/-! ### Validation -/

/-- How many rules are in error. -/
def errorCount (s : Setup Float) : Nat := s.rules.rules.countP (·.status = .erroneous)

/-- Whether all rules could be read, and how much the model holds. -/
def summary (e : Engine Float) (s : Setup Float) : Except NumeralFault Text :=
  let total := s.rules.rules.length
  if errorCount s = 0 then
    (writeInteger e.steps).map fun steps =>
      s!"OK: inputs={e.model.inputs.length}, outputs={e.model.outputs.length}, " ++
        s!"rules={total}, steps=" ++ steps
  else .ok s!"FAILED: {errorCount s} of {total} rules are erroneous"

/-! ### Overview -/

/-- The terminal's colour for a degree: green from a half on, yellow from a fifth on, else grey. -/
def colour (degree : Float) : Text :=
  if 0.5 ≤ degree then "\x1b[32m" else if 0.2 ≤ degree then "\x1b[33m" else "\x1b[90m"

/-- A term with a degree. -/
def termDegree (coloured : Bool) (name : Text) (degree : Float) : Text :=
  let shown := name ++ "(" ++ fixed 2 degree ++ ")"
  if coloured then colour degree ++ shown ++ "\x1b[0m" else shown

/-- A variable with its crisp value and the degrees of its terms. -/
def degrees (coloured : Bool) (v : Variable Float) : Text :=
  "  " ++ v.name ++ " = " ++ general 6 v.value ++ " -> " ++
    Text.join ", " (v.terms.map fun (name, f) => termDegree coloured name (f.degree v.value))

/-- An input, with its degrees if its value is given. -/
def inputLine (coloured : Bool) (given : List Text) (v : Variable Float) : Text :=
  if given.contains v.name then degrees coloured v else "  " ++ v.describe

/-- The degree of relevance of a rule, if values are given and the rule is not in error. -/
def relevanceNote (given : List Text) (s : Setup Float) (r : Rule) : Text :=
  if given.isEmpty || r.status ≠ .done then ""
  else match r.relevance s.table with
    | .ok h => "  H=" ++ fixed 4 h
    | .error _ => ""

/-- The name of a rule by its place. -/
def ruleName (i : Nat) : Text := "R" ++ toString (i + 1)

/-- Variables and rules; `given` are the names, in lower case, of inputs whose values are given. -/
def overview (coloured : Bool) (given : List Text) (e : Engine Float) (s : Setup Float) :
    Except NumeralFault (List Text) :=
  let built (ds : List (Declaration Float)) : List (Variable Float) :=
    ds.filterMap fun d => s.table.find? d.name
  let title (steps : Text) : Text := "Model: " ++ e.model.name ++ " (steps=" ++ steps ++ ")"
  let heading (t : Text) : List Text := [t]
  let output (v : Variable Float) : Text := "  " ++ v.describe
  let rule (i : Nat) (r : Rule) : Text :=
    "  " ++ ruleName i ++ ": " ++ r.text ++ " [" ++ r.status.name ++ "]" ++ relevanceNote given s r
  (writeInteger e.steps).map fun steps =>
    heading (title steps) ++
      heading "Inputs:" ++ (built e.model.inputs).map (inputLine coloured given) ++
      heading "Outputs:" ++ (built e.model.outputs).map output ++
      heading "Rules:" ++ s.rules.rules.mapIdx rule

/-! ### Results -/

/-- The output with its value. -/
def result (name : Text) (x : Float) : Text := name ++ ": " ++ general 6 x

/-- A name that may be missing. -/
def nameOr (name : Option Text) : Text := name.getD "None"

/-- A rule with its degree and conclusion, or with its error. -/
def explanationLine (i : Nat) (e : Explanation Float) : Text :=
  "  " ++ ruleName i ++ ": " ++ e.rule.text ++
    match e.firing with
    | some f =>
      "  H=" ++ fixed 4 f.degree ++ " -> " ++ nameOr f.variableName ++ " is " ++ nameOr f.term
    | none => "  [" ++ e.rule.status.name ++ "] " ++ e.rule.errorText

/-- What each rule has to do with the output. -/
def explanation (m : Model Float) (rows : List (Explanation Float)) : List Text :=
  ("Output: " ++ nameOr m.outputName?) :: rows.mapIdx explanationLine

/-- A rule with what it has to do with the output, as a document. -/
def explanationRecord (e : Explanation Float) : Value :=
  .ofFields [
    ("rule", .text e.rule.text), ("status", .text e.rule.status.name),
    ("premise", .text e.rule.premiseText),
    ("degree", match e.firing with
      | some f => .float f.degree
      | none => .null),
    ("conclusion", match e.firing with
      | some f => .ofFields [("var", .ofText? f.variableName), ("term", .ofText? f.term)]
      | none => .null),
    ("error", match e.firing with
      | some _ => .null
      | none => .text e.rule.errorText)]

/-- What each rule has to do with the output, as a document. -/
def explanationDocument (rows : List (Explanation Float)) : Value :=
  .list (rows.map explanationRecord)

end FuzzyInference.Report
