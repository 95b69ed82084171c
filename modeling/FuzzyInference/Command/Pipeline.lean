import FuzzyInference.Command.Action

/-!
# Pipelines

A configuration has a section for each command to be run, with its settings. The commands run in a
fixed order; the exit code is the greatest of theirs. Sections of other names are ignored.

* `Section`, `Section.all`: the commands that can be run;
* `Command.pipeline`: runs the sections of a configuration.
-/

namespace FuzzyInference.Command

open FuzzyInference.Document

/-- A command that a configuration can run, with the settings that need not be given. -/
structure Section where
  name : Text
  defaults : Settings
  action : Settings → Command Nat

/-- All sections, in the order in which they are run. -/
def Section.all : List Section := [
  ⟨"validate", [], validate⟩,
  ⟨"show", [("at", .null), ("json", .bool false)], overview⟩,
  ⟨"predict", [("kv", .list []), ("steps", .null)], predict⟩,
  ⟨"explain", [("kv", .list []), ("json", .bool false)], explain⟩,
  ⟨"apply", [("out", .null), ("map", .null), ("steps", .null)], apply⟩]

/-- The name of a setting; dashes and underscores are the same. Dates have parts that could be
replaced, but not by underscores. -/
def settingName (key : Value) : Command Text :=
  match key with
  | .text s => pure (s.map fun c => if c = .char '-' then '_' else c)
  | .date _ | .moment _ => throw (.settingKind key.display)
  | _ => throw .settingName

/-- The settings with one more; one of the same name is replaced in its place. -/
def Settings.put (name : Text) (v : Value) : Settings → Settings
  | [] => [(name, v)]
  | s :: rest => if s.1 = name then (name, v) :: rest else s :: Settings.put name v rest

/-- The settings with `col_map` under the name `map`, which it then counts for. -/
def Settings.renameColumns (s : Settings) : Settings :=
  match s.get? "col_map" with
  | some v => Settings.put "map" v (s.filter (·.1 ≠ "col_map"))
  | none => s

/-- The entries of a mapping that have the names of settings. -/
def Settings.ofEntries (entries : List (Value × Value)) : Settings :=
  entries.filterMap fun (key, v) => key.text?.map fun name => (name, v)

/-- The settings after one more is made. A few names are reserved: the kind of the settings cannot
be changed, references to them are not kept, and all of them together can be given as a mapping,
which replaces those made before. -/
def Settings.assign (s : Settings) (name : Text) (v : Value) : Command Settings :=
  if name = "__class__" then throw (.settingKind name)
  else if name = "__weakref__" then throw .settingName
  else if name = "__dict__" then
    match v with
    | .map entries => pure (Settings.ofEntries entries)
    | _ => throw (.settingKind name)
  else pure (Settings.put name v s)

/-- The settings of a section, made one after the other. The columns may also be set as
`col_map`. -/
def Section.settings (sec : Section) (v : Value) : Command Settings := do
  match v with
  | .map entries =>
    let given ← entries.mapM fun (key, v) => return (← settingName key, v)
    let all := Settings.renameColumns
      (given.foldl (fun s (name, v) => Settings.put name v s) sec.defaults)
    if (Settings.get? all "self").isSome then throw (.settingKind "self")
    all.foldlM (fun s (name, v) => Settings.assign s name v) []
  | _ => throw (.sectionKind sec.name)

/-- The names of sections that are ignored, in order. -/
def unknownSections (entries : List (Value × Value)) : Command (List Text) := do
  let known (key : Value) : Bool := Section.all.any fun sec => key.sameKey (.text sec.name)
  let unknown ← (entries.filter fun e => !known e.1).mapM fun (key, _) =>
    match key with
    | .text s => pure s
    | _ => throw .sectionName
  return unknown.mergeSort Text.le

/-- Runs one section after those that ended with `code`. -/
def runSection (entries : List (Value × Value)) (code : Nat) (sec : Section) : Command Nat := do
  match Value.lookup? (.text sec.name) entries with
  | none => return code
  | some v =>
    print ("[run] " ++ sec.name ++ "\n")
    return max code (← sec.action (← sec.settings v))

/-- Runs the sections of a configuration. -/
def pipeline (settings : Settings) : Command Nat := do
  let path ← pathOf "config" (← setting settings "config")
  let entries ← require .load (loadConfiguration (← get).directory path)
  let unknown ← unknownSections entries
  if !unknown.isEmpty then
    note [Journal.warning
      ("Ignoring unknown config sections: " ++ Text.join ", " unknown)]
  Section.all.foldlM (runSection entries) 0

end FuzzyInference.Command
