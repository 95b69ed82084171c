import FuzzyInference.Command.Line

/-!
# The program

Runs a command line over the files of the machine. The files that may be needed are those whose
paths stand in the command line or in configurations that it names; they are read first, the
command runs over them, and what it changed is written back.
-/

namespace FuzzyInference.Program

open FuzzyInference.Document

/-- The paths that may stand in an argument: all of it, or what follows an equals sign. -/
def pathsIn (arg : Text) : List Text := arg :: (Options.splitEquals arg).2.toList

mutual

/-- The texts that a value is made of. -/
def textsOf : Value → List Text
  | .text s => [s]
  | .list items => textsOfItems items
  | .map entries => textsOfEntries entries
  | _ => []

/-- The texts that a list is made of. -/
def textsOfItems : List Value → List Text
  | [] => []
  | v :: rest => textsOf v ++ textsOfItems rest

/-- The texts that the values of a mapping are made of. -/
def textsOfEntries : List (Value × Value) → List Text
  | [] => []
  | (_, v) :: rest => textsOf v ++ textsOfEntries rest

end

/-- The texts of a configuration, if there is one under the path. -/
def configured (d : Directory) (path : Text) : List Text :=
  match loadConfiguration d path with
  | .ok entries => textsOfEntries entries
  | .error _ => []

/-- The names that lead to a path from the root. -/
def absolute (place : List Text) (path : Text) : List Text :=
  (if path.startsWith "/" then [] else place) ++ Directory.names path

/-- The path of names that lead from the root. -/
def pathOf (names : List Text) : String := ("/" ++ Text.join "/" names).shown

/-- The directory with the file under a path, if it can be read. -/
def load (d : Directory) (path : Text) : IO Directory := do
  let names := absolute d.place path
  if names.isEmpty || names.contains ".." then return d
  let d := { d with folders := names.dropLast :: d.folders }
  try
    return d.store names (← IO.FS.readFile (pathOf names))
  catch _ => return d

/-- The files that a command line may need, seen from the working directory. -/
def gather (args : List Text) : IO Directory := do
  let place := Directory.names (← IO.currentDir).toString
  let paths := args.flatMap pathsIn
  let d ← paths.foldlM load ⟨place, [], []⟩
  (paths.flatMap (configured d)).foldlM load d

/-- Writes the files that are new or have a new text. -/
def keep (before after : Directory) : IO Unit := do
  for (names, text) in after.files do
    if before.file? names != some text then IO.FS.writeFile (pathOf names) text

/-- Runs a command line and gives its exit code. -/
def run (args : List String) : IO UInt32 := do
  let args := args.map Text.ofString
  let before ← gather args
  let console : Console := ⟨before, "", "", .warning, .stream (← (← IO.getStdout).isTty)⟩
  let (ending, after) := Command.execute args console
  keep before after.directory
  IO.print after.printed.shown
  IO.eprint after.told.shown
  match ending with
  | .exit code => return code.toUInt32
  | .refused message =>
    IO.eprintln message.shown
    return 2
  | .broken stop =>
    IO.eprintln ("fatal: " ++ stop.message).shown
    return 1

end FuzzyInference.Program

/-- Runs the command line. -/
def main (args : List String) : IO UInt32 := FuzzyInference.Program.run args
