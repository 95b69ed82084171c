import FuzzyInference.Command.Console
import FuzzyInference.Report

/-!
# Commands

Each command takes its settings by name and gives an exit code.

* `Command.validate`: are all rules of a model in order?
* `Command.overview`: variables, terms and rules of a model;
* `Command.predict`, `Command.explain`: the result for one point, and why;
* `Command.apply`: the results for all records of a table.
-/

namespace FuzzyInference.Command

open FuzzyInference.Document

/-- An engine with its table and rules. -/
def setUp (e : Engine Float) : Command (Engine Float × Setup Float) := do
  note (Journal.setupOnce e)
  let s ← require .engine e.current
  return ({ e with built := some s }, s)

/-- Are all rules of a model in order? -/
def validate (settings : Settings) : Command Nat := do
  let m ← loadModel settings
  let (e, s) ← setUp (← makeEngine m [])
  printLines [s.rules.describe]
  printLines [← requireText (Report.summary e s)]
  return if Report.errorCount s = 0 then 0 else 1

/-! ### Overview -/

/-- The crisp values of a point, under names in lower case. -/
def point (v : Value) : Command (List (Text × Float)) := do
  let given ← assignments v
  let entries := given.foldl
    (fun es (name, x) => Value.put (.text (Text.lowercase name)) x es) []
  return entries.map fun (name, x) => (name.display, x)

/-- Names and numbers as readings. -/
def readings (given : List (Text × Float)) : Readings Float :=
  given.map fun (name, x) => (some name, x)

/-- The engine with the values of a point. -/
def setPoint (e : Engine Float) (s : Setup Float) (given : List (Text × Float)) :
    Command (Engine Float × Setup Float) := do
  if given.isEmpty then return (e, s)
  let inputs := .ok (readings given)
  noteAction e fun () => Journal.setInputs e inputs
  let (e, s) := e.setInputs inputs
  let s ← require .engine s
  noteAction e fun () => Journal.explaining s.table s.rules.rules
  return (e, s)

/-- Variables, terms and rules of a model, with degrees if a point is given. -/
def overview (settings : Settings) : Command Nat := do
  let m ← loadModel settings
  if settings.isSet "json" then
    print ((← require .written m.toDocument.writeIndented) ++ "\n")
  else
    let (e, s) ← setUp (← makeEngine m [])
    let given ← point ((settings.get? "at").getD .null)
    let (e, s) ← setPoint e s given
    printLines (← requireText (Report.overview (← get).outlet.isTerminal (given.map (·.1)) e s))
  return 0

/-! ### One point -/

/-- The result of a model for one point. -/
def predict (settings : Settings) : Command Nat := do
  let m ← loadModel settings
  let e ← makeEngine m settings
  let inputs := .ok (readings (← assignments (← setting settings "kv")))
  noteAction e fun () => Journal.evaluate e inputs
  let (name, x) ← require .engine (e.evaluate inputs).2
  printLines [Report.result name x]
  return 0

/-- What each rule of a model has to do with the result for one point. -/
def explain (settings : Settings) : Command Nat := do
  let m ← loadModel settings
  let e ← makeEngine m []
  let inputs := .ok (readings (← assignments (← setting settings "kv")))
  noteAction e fun () => Journal.explain e inputs
  let rows ← require .engine (e.explain inputs).2
  if settings.isSet "json" then
    print ((Report.explanationDocument rows).indented ++ "\n")
  else
    printLines (Report.explanation m rows)
  return 0

/-! ### Tables -/

/-- The columns that are said outright, unless they are of a wrong kind, which matters only where
they are needed. -/
def columns (settings : Settings) : Command (Option (List (Value × Value))) :=
  match (settings.get? "map").getD .null with
  | .text s => some <$> require .assignment (Assignment.readColumns s)
  | .map entries => pure (some entries)
  | v => pure (if v.isTruthy then none else some [])

/-- Replaces the text of a file. -/
def write (names : List Text) (text : Text) : Command Unit := do
  let some s := text.string? | throw .halfInFile
  modify fun c => { c with directory := c.directory.store names s }

/-- The file that results go to, as a path and names, and emptied; none if none is set. -/
def target (settings : Settings) : Command (Option (Text × List Text)) := do
  let v := (settings.get? "out").getD .null
  if !v.isTruthy then return none
  let path ← pathOf "out" v
  let names ← require .file ((← get).directory.writable path)
  write names ""
  return some (path, names)

/-- The table in a file. -/
def readTable (path : Text) : Command Table := do
  let text ← require .file ((← get).directory.read path)
  let (records, isCut) := Csv.readable text
  match Table.ofRecords? isCut records with
  | some t => return t
  | none => throw (if isCut then .fieldTooLong else .emptyTable path)

/-- Puts the lines of a batch where results go, the first line in front of them. -/
def deliver (target : Option (Text × List Text)) (header : Text) (outcome : Batch.Outcome) :
    Command Unit := do
  match target with
  | some (_, names) => write names header
  | none => print header
  for (e, inputs) in outcome.visits do
    noteAction e fun () => Journal.evaluate e (.ok inputs)
  match target with
  | some (_, names) => write names (Text.concat (header :: outcome.lines))
  | none => print (Text.concat outcome.lines)

/-- Ends with the fault of the first record that has no result, if there is one; else tells how many
results a file holds. -/
def finish (target : Option (Text × List Text)) (outcome : Batch.Outcome) (isCut : Bool) :
    Command Nat := do
  if let some f := outcome.fault then throw (.batch f)
  if isCut then throw .fieldTooLong
  if let some (path, _) := target then
    printLines [s!"[apply] {outcome.lines.length} results written to " ++ path]
  return 0

/-- The results for all records of a table. Those before a record that has none are kept. -/
def apply (settings : Settings) : Command Nat := do
  let m ← loadModel settings
  let e ← makeEngine m settings
  let columns ← columns settings
  let target ← target settings
  let table ← readTable (← pathOf "csv" (← setting settings "csv"))
  let some columns := columns | throw .columnsKind
  let sources ← require .batch (Batch.resolve table columns (m.inputs.map (·.name)))
  note (Batch.columnRecords table sources)
  let header ← require .batch (Batch.headerLine sources m.outputName?)
  let outcome := Batch.run e sources table.rows
  deliver target header outcome
  finish target outcome table.isCut

end FuzzyInference.Command
