import FuzzyInference.Assignment
import FuzzyInference.Batch
import FuzzyInference.Document.Json.Writer
import FuzzyInference.Model.File

/-!
# The console

A command reads and writes files of a directory, prints, keeps a journal, and ends with an exit
code or stops.

* `Stop`: why a command stops, and whether that is reported to the user or ends the whole run;
* `Outlet`: where printed texts go, and which of them can;
* `Console`: what a command works on;
* `Command`: a step of a command, with `Command.print`, `Command.note` and `Command.require`.
-/

namespace FuzzyInference

open FuzzyInference.Document

/-- Why a command stops. -/
inductive Stop where
  | load (fault : LoadFault)
  | engine (fault : Fault Float)
  | batch (fault : Batch.Fault)
  | file (fault : FileFault)
  | assignment (fault : Assignment.Fault)
  | number (fault : NumberFault)
  /-- What should be printed as a document has no such form. -/
  | written (fault : Value.WriteFault)
  /-- A table without records. -/
  | emptyTable (path : Text)
  /-- A table with a field that is too long. -/
  | fieldTooLong
  /-- A text that a file or a stream should hold has a half, which is no character. -/
  | halfInFile
  /-- A file is given by a number, under which no file is open. -/
  | notOpen (number : Int)
  /-- A section of a configuration is no mapping. -/
  | sectionKind (name : Text)
  /-- The name of a section is no text. -/
  | sectionName
  /-- The name of a setting in a section is no text. -/
  | settingName
  | settingMissing (name : Text)
  | settingKind (name : Text)
  /-- The columns are neither a text nor a mapping. -/
  | columnsKind
  deriving Repr

namespace Stop

/-- The wording of the cause. -/
def message : Stop → Text
  | .load f => f.message
  | .engine f => f.message
  | .batch f => f.message
  | .file f => f.message
  | .assignment f => f.message
  | .number f => f.message
  | .written f => f.message
  | .emptyTable path => "Empty CSV file: " ++ path
  | .fieldTooLong => s!"field larger than field limit ({Csv.maxFieldSize})"
  | .halfInFile => "files and streams hold characters only"
  | .notOpen i =>
    if i < 0 then "negative file descriptor" else "[Errno 9] Bad file descriptor"
  | .sectionKind name => "Config section '" ++ name ++ "' must be a mapping"
  | .sectionName => "the name of a section must be a text"
  | .settingName => "the name of a setting must be a text"
  | .settingMissing name => "setting '" ++ name ++ "' is missing"
  | .settingKind name => "setting '" ++ name ++ "' is of a wrong kind"
  | .columnsKind => "columns must be a text or a mapping"

/-- Whether the cause is reported to the user; the others end the whole run. -/
def isReported : Stop → Bool
  | .load f => f.isReported
  | .engine f | .batch (.engine f) => f.severity != .breach
  | .batch (.numeral _) => false
  | .file f => f.isReported
  | .batch _ | .emptyTable _ | .sectionKind _ => true
  | .assignment f => f.isReported
  | .notOpen i => 0 ≤ i
  | _ => false

end Stop

/-- Where printed texts go, and whether a terminal shows them: a buffer takes texts as they are, a
stream encodes them in UTF-8, in which a half has no form. -/
inductive Outlet where
  | buffer (isTerminal : Bool)
  | stream (isTerminal : Bool)
  deriving Repr, DecidableEq

namespace Outlet

/-- A buffer is given by whether a terminal shows it. -/
instance : Coe Bool Outlet := ⟨buffer⟩

def isTerminal : Outlet → Bool
  | buffer isTerminal => isTerminal
  | stream isTerminal => isTerminal

/-- Whether the text can be printed. -/
def takes : Outlet → Text → Bool
  | buffer _, _ => true
  | stream _, text => text.string?.isSome

end Outlet

/-- What a command works on: files, what was printed and told so far, from which level on records
are told, and where printed texts go. What is told goes elsewhere, where halves are no hindrance. -/
structure Console where
  directory : Directory
  printed : Text
  told : Text
  level : Level
  outlet : Outlet
  deriving Repr

/-- A step of a command. -/
abbrev Command := ExceptT Stop (StateM Console)

namespace Command

/-- Prints a text, all of it or, if it cannot be printed, nothing. -/
def print (text : Text) : Command Unit := do
  if !(← get).outlet.takes text then throw .halfInFile
  modify fun c => { c with printed := c.printed ++ text }

/-- Prints lines one after the other. -/
def printLines (lines : List Text) : Command Unit :=
  lines.forM fun line => print (line ++ "\n")

/-- Tells the records that matter at the console's level. -/
def note (records : List Record) : Command Unit :=
  modify fun c =>
    let lines := (records.filter fun r => c.level.rank ≤ r.level.rank).map (·.line)
    { c with told := c.told ++ Text.concat lines }

/-- Tells the records of an action of an engine. -/
def noteAction (e : Engine Float) (action : Unit → List Record) : Command Unit := do
  note (Journal.atLevel (← get).level e action)

/-- The result of a step that has to succeed. -/
def require {ε β : Type} (stop : ε → Stop) : Except ε β → Command β
  | .ok x => pure x
  | .error f => throw (stop f)

/-! ### Settings -/

/-- Values by the names of settings; of equal names the last one counts. -/
abbrev Settings := List (Text × Value)

/-- The value of a setting. -/
def Settings.get? (s : Settings) (name : Text) : Option Value := s.reverse.lookup name

/-- Whether a setting is given and counts. -/
def Settings.isSet (s : Settings) (name : Text) : Bool := (s.get? name).any (·.isTruthy)

/-- The value of a setting that has to be there. -/
def setting (s : Settings) (name : Text) : Command Value :=
  match s.get? name with
  | some v => pure v
  | none => throw (.settingMissing name)

/-- The most that the number of a file can be. -/
def maxFileNumber : Nat := Decimal.twoTo 31 - 1

/-- A setting as the path of a file. No files are open under numbers. -/
def pathOf (name : Text) (v : Value) : Command Text :=
  match v with
  | .text path => pure path
  | v =>
    match v.asWhole? with
    | some i =>
      if -(maxFileNumber : Int) - 1 ≤ i ∧ i ≤ maxFileNumber then throw (.notOpen i)
      else throw (.settingKind name)
    | none => throw (.settingKind name)

/-- The assignments of a setting. -/
def assignments (v : Value) : Command (List (Text × Float)) :=
  require .assignment (Assignment.readItems v)

/-- The model that the settings name. -/
def loadModel (s : Settings) : Command (Model Float) := do
  match ← setting s "model" with
  | .text path =>
    note [Journal.debug ("Loading model from " ++ path)]
    require .load (Model.load (← get).directory path)
  | _ => throw (.settingKind "model")

/-- The result of writing numbers out. -/
def requireText {β : Type} (r : Except Decimal.NumeralFault β) : Command β :=
  require (.number ∘ .numeral) r

/-- An engine over a model, with the steps that the settings name. Those that are too few are
shown. -/
def makeEngine (m : Model Float) (s : Settings) : Command (Engine Float) := do
  let steps ← match s.get? "steps" with
    | none | some .null => pure none
    | some v => some <$> require .number v.toInteger
  if (steps.getD m.steps) < 1 then
    discard (requireText (Decimal.writeInteger (steps.getD m.steps)))
  require .engine (Engine.make m steps none)

end Command

end FuzzyInference
