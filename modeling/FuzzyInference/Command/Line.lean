import FuzzyInference.Command.Pipeline
import FuzzyInference.Options

/-!
# The command line

`fuzzyrules` takes options for the journal, the name of a command, and the arguments of the command.

* `Entry`, `Entry.all`: the commands with their arguments;
* `Command.execute`: what a command line does to a console, and how it ends.
-/

namespace FuzzyInference.Command

open FuzzyInference.Document
open FuzzyInference.Options

/-- The name of the program. -/
def program : Text := "fuzzyrules"

/-! ### Arguments -/

/-- Any argument is fine. -/
def anyText : Reading := fun s => .ok (.text s)

/-- A whole number. -/
def wholeNumber : Reading := fun s =>
  match Decimal.readInteger s with
  | .ok i => .ok (.int i)
  | .error _ => .error ("invalid int value: " ++ Text.quote s)

/-- A name with a number. -/
def nameWithNumber : Reading := fun s =>
  match Assignment.read s with
  | .ok (name, x) => .ok (.list [.text name, .float x])
  | .error f => .error f.message

/-- Columns of variables. -/
def columnsOfNames : Reading := fun s =>
  match Assignment.readColumns s with
  | .ok entries => .ok (.map entries)
  | .error f =>
    .error (if f.isReported then f.message
      else "invalid parse_var_col_map value: " ++ Text.quote s)

/-- An option with one argument. -/
def valued (name : Text) (required : Bool) : Named :=
  ⟨name, ["--" ++ name], .one, required, anyText⟩

/-- An option that is there or not. -/
def switch (key : Text) (names : List Text) : Named := ⟨key, names, .none, false, anyText⟩

def modelOption : Named := valued "model" true

def stepsOption : Named := { valued "steps" false with read := wholeNumber }

def jsonOption : Named := switch "json" ["--json"]

def pointOperand : Operand := ⟨"kv", .values, nameWithNumber⟩

/-! ### Commands -/

/-- A command with its arguments. -/
structure Entry where
  name : Text
  named : List Named
  operand : Option Operand
  action : Settings → Command Nat

/-- All commands. -/
def Entry.all : List Entry := [
  ⟨"validate", [modelOption], none, validate⟩,
  ⟨"show", [modelOption, { valued "at" false with arity := .many }, jsonOption], none, overview⟩,
  ⟨"predict", [modelOption, stepsOption], some pointOperand, predict⟩,
  ⟨"explain", [modelOption, jsonOption], some pointOperand, explain⟩,
  ⟨"apply", [modelOption, valued "csv" true, valued "out" false, stepsOption,
    ⟨"map", ["--col-map"], .one, false, columnsOfNames⟩], none, apply⟩,
  ⟨"run", [valued "config" true], none, pipeline⟩]

/-- What the arguments of a command may be. -/
def Entry.grammar (e : Entry) : Grammar :=
  ⟨program ++ " " ++ e.name, helpOption :: e.named, e.operand⟩

/-- The name of a command. -/
def commandName : Reading := fun s =>
  if Entry.all.any (·.name == s) then .ok (.text s)
  else
    .error ("invalid choice: " ++ Text.quote s ++ " (choose from " ++
      Text.join ", " (Entry.all.map fun e => Text.quote e.name) ++ ")")

/-- What a command line may be. -/
def grammar : Grammar :=
  ⟨program, [helpOption, switch "verbose" ["-v", "--verbose"], switch "quiet" ["-q", "--quiet"]],
    some ⟨"cmd", .command, commandName⟩⟩

/-- The level from which on records are told. -/
def levelOf (found : Found) : Level :=
  if found.any (·.1 == "quiet") then .error
  else if found.any (·.1 == "verbose") then .debug
  else .warning

/-- The command with its own arguments, as they are found in a command line. -/
def commandIn (found : Found) : Option (Entry × List Text) :=
  match Settings.get? found "cmd" with
  | some (.list (.text name :: args)) =>
    (Entry.all.find? (·.name == name)).map fun e => (e, args.filterMap (·.text?))
  | _ => none

/-- A command that is called: the level of the journal and the settings. -/
structure Call where
  entry : Entry
  level : Level
  settings : Settings

/-- The call that a command line stands for. -/
def readCall (args : List Text) : Except Refusal Call := do
  let (found, extras) ← grammar.parse args
  match commandIn found with
  | none => .error (.help grammar.usage)
  | some (entry, own) =>
    let (settings, more) ← entry.grammar.parse own
    match extras ++ more with
    | [] => return ⟨entry, levelOf found, settings⟩
    | unknown =>
      .error (.error program ("unrecognized arguments: " ++ Text.join " " unknown))

/-! ### Running -/

/-- How a run ends. -/
inductive Ending where
  | exit (code : Nat)
  /-- The command line makes no sense. -/
  | refused (message : Text)
  /-- The run breaks off. -/
  | broken (stop : Stop)
  deriving Repr

/-- Runs a call; a cause that is reported gives an exit code. -/
def Call.run (call : Call) (c : Console) : Ending × Console :=
  match (call.entry.action call.settings).run.run { c with level := call.level } with
  | (.ok code, c) => (.exit code, c)
  | (.error stop, c) =>
    if stop.isReported then
      (.exit 1, { c with told := c.told ++ "error: " ++ stop.message ++ "\n" })
    else (.broken stop, c)

/-- Runs a command line. -/
def execute (args : List Text) (c : Console) : Ending × Console :=
  match readCall args with
  | .error (.error program text) => (.refused (program ++ ": error: " ++ text), c)
  | .error (.help usage) => (.exit 0, { c with printed := c.printed ++ usage })
  | .ok call => call.run c

end FuzzyInference.Command
