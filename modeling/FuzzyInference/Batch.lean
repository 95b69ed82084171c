import FuzzyInference.Csv
import FuzzyInference.Document.Display
import FuzzyInference.Journal
import FuzzyInference.Text.Blank

/-!
# Batches

A batch evaluates a model for each record of a table. The first record is a header if one of its
fields is no number; columns without a header are named `c0`, `c1` and so on. Which column a
variable takes its values from is said outright, or else found in the header, or else by the order
of the variables.

* `Table`: the columns and the numbered records of a file;
* `Batch.resolve`: the column of each variable;
* `Batch.run`: the line of each record, up to the first record that has no result.
-/

namespace FuzzyInference

open FuzzyInference.Decimal
open FuzzyInference.Document

/-- A table with the names of its columns. It may be cut short before a record that cannot be
read. -/
structure Table where
  hasHeader : Bool
  columns : List Text
  records : List (List Text)
  isCut : Bool
  deriving Repr, DecidableEq

namespace Table

/-- Whether a field is a number. -/
def isNumber (field : Text) : Bool := (readFloat? field).isSome

/-- The name of a column that has none. -/
def columnName (i : Nat) : Text := "c" ++ toString i

/-- The table of the records of a file, which has to have some. -/
def ofRecords? (isCut : Bool) : List (List Text) → Option Table
  | [] => none
  | first :: rest =>
    if first.all isNumber then
      some ⟨false, (List.range first.length).map columnName, first :: rest, isCut⟩
    else some ⟨true, first.map Text.trim, rest, isCut⟩

/-- The number of the first record behind the header; records are counted from one. -/
def firstNumber (t : Table) : Nat := if t.hasHeader then 2 else 1

/-- The records that have fields, each with its number. -/
def rows (t : Table) : List (List Text × Nat) :=
  (t.records.zipIdx t.firstNumber).filter fun row => !row.1.isEmpty

/-- The first column that the header names so. -/
def columnNamed? (t : Table) (name : Text) : Option Nat :=
  if t.hasHeader then t.columns.findIdx? (· == name) else none

/-- The first column that the header names so, in any letter case. -/
def columnLike? (t : Table) (name : Text) : Option Nat :=
  if t.hasHeader then t.columns.findIdx? (Text.lowercase · == Text.lowercase name) else none

end Table

namespace Batch

/-- The variables that get a value from each record, with their columns. -/
abbrev Sources := List (Value × Nat)

/-- Why a batch stops. -/
inductive Fault where
  | columnOutOfRange (column name : Value) (count : Nat)
  | noSuchColumn (column name : Value) (columns : List Text)
  | tooFewColumns (found needed : Nat)
  | notNumber (row : Nat) (field : Text) (name : Value)
  /-- A value that should be shown has no text. -/
  | numeral (fault : NumeralFault)
  | engine (fault : FuzzyInference.Fault Float)
  deriving Repr

/-- The wording of the fault. -/
def Fault.message : Fault → Text
  | .columnOutOfRange column name count =>
    "Column index " ++ column.display ++ " (for " ++ name.display ++
      s!") out of range (columns: {count})"
  | .noSuchColumn column name columns =>
    "Column '" ++ column.display ++ "' (for " ++ name.display ++
      ") does not exist (available: " ++ (Value.list (columns.map .text)).display ++ ")"
  | .tooFewColumns found needed =>
    s!"Not enough columns: available={found}, needed={needed}."
  | .notNumber row field name =>
    s!"Row {row}: value '" ++ field ++ "' for " ++ name.display ++ " is not a number"
  | .numeral f => f.message
  | .engine f => f.message

/-- A fault that shows values, which have to have a text. -/
def Fault.showing (values : List Value) (fault : Fault) : Fault :=
  if values.all (·.isWritable) then fault else .numeral .tooLong

/-! ### Columns -/

/-- The column that is said outright for a variable: a whole number or the name in the header. -/
def locate (t : Table) (name column : Value) : Except Fault (Value × Nat) :=
  match column.asWhole? with
  | some i =>
    if 0 ≤ i ∧ i < t.columns.length then .ok (name, i.toNat)
    else .error (.showing [column, name] (.columnOutOfRange column name t.columns.length))
  | none =>
    match column.text?.bind t.columnNamed? with
    | some i => .ok (name, i)
    | none => .error (.showing [column, name] (.noSuchColumn column name t.columns))

/-- Variables with their columns; of equal variables the last column counts. -/
def gather (columns : List (Text × Nat)) : Sources :=
  columns.foldl (fun sources (name, i) => Value.put (.text name) i sources) []

/-- The inputs that the header names. -/
def fromHeader (t : Table) (inputs : List Text) : Sources :=
  gather (inputs.filterMap fun name => (t.columnLike? name).map fun i => (name, i))

/-- The inputs in the order of the columns. -/
def byOrder (inputs : List Text) : Sources := gather inputs.zipIdx

/-- The column of each variable, by the columns that are said outright if there are some. -/
def resolve (t : Table) (columns : List (Value × Value)) (inputs : List Text) :
    Except Fault Sources :=
  if !columns.isEmpty then columns.mapM fun (name, column) => locate t name column
  else
    let named := fromHeader t inputs
    if !named.isEmpty then .ok named
    else if t.columns.length < inputs.length then
      .error (.tooFewColumns t.columns.length inputs.length)
    else .ok (byOrder inputs)

/-! ### Rows -/

/-- The field of a record in a column, without blanks around it; it may be missing. -/
def field (record : List Text) (column : Nat) : Text :=
  Text.trim (record[column]?.getD "")

/-- The values of a record for the variables. -/
def values (sources : Sources) (row : List Text × Nat) : Except Fault (List Float) :=
  sources.mapM fun (name, column) =>
    match readFloat? (field row.1 column) with
    | some x => .ok x
    | none => .error (.notNumber row.2 (field row.1 column) name)

/-- The values with their variables. -/
def readings (sources : Sources) (xs : List Float) : Readings Float :=
  sources.zipWith (fun source x => (some source.1.display, x)) xs

/-- A name in the first line; null is written as nothing. -/
def label : Value → Text
  | .null => ""
  | name => name.display

/-- The first line: the variables and the output. -/
def headerLine (sources : Sources) (output : Option Text) : Except Fault Text :=
  if sources.all (·.1.isWritable) then
    .ok (Csv.line (sources.map (label ·.1) ++ [output.getD ""]))
  else .error (.numeral .tooLong)

/-- The line of a record: the values and the result, which is left out if it is no number. -/
def resultLine (xs : List Float) (result : Float) : Text :=
  let shown := xs.map (general 6) ++ [if result.isNaN then "" else general 6 result]
  Csv.line (shown.map .ofString)

/-- What a batch did: its lines, the engine as it was before each evaluation with what went into
it, and why it stopped before the end. -/
structure Outcome where
  lines : List Text
  visits : List (Engine Float × Readings Float)
  fault : Option Fault

/-- Evaluates rows one after the other, up to the first one that has no result. -/
def run (e : Engine Float) (sources : Sources) : List (List Text × Nat) → Outcome
  | [] => ⟨[], [], none⟩
  | row :: rest =>
    match values sources row with
    | .error f => ⟨[], [], some f⟩
    | .ok xs =>
      let inputs := readings sources xs
      match e.evaluate (.ok inputs) with
      | (_, .error f) => ⟨[], [(e, inputs)], some (.engine f)⟩
      | (next, .ok (_, result)) =>
        let later := run next sources rest
        ⟨resultLine xs result :: later.lines, (e, inputs) :: later.visits, later.fault⟩

/-! ### Records of the journal -/

/-- Which column each variable takes its values from. -/
def columnRecords (t : Table) (sources : Sources) : List Record :=
  sources.map fun (name, i) =>
    ⟨.info, "[apply] " ++ name.display ++ s!" <- [{i}] " ++ t.columns[i]?.getD ""⟩

end Batch

end FuzzyInference
