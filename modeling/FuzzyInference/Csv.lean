import FuzzyInference.Text.Basic

/-!
# Comma-separated values

A field may stand between double quotes, which are then no part of it; between quotes, commas and
line ends are part of the field, and a quote is written twice. A line ends with a carriage return,
a line feed, or both.

* `Csv.records`: the records of a text; an empty line is a record without fields;
* `Csv.readable`: the records of a text up to one with a field that is too long;
* `Csv.line`: a record as a line.
-/

namespace FuzzyInference.Csv

/-! ### Reading -/

/-- Where the reading stands. -/
inductive Mode where
  | recordStart
  | fieldStart
  | inField
  | inQuotes
  /-- Behind a quote between quotes: it ends them unless another one follows. -/
  | afterQuote
  deriving Repr, DecidableEq

/-- The record so far: its fields, and the characters of the current one, last one first. -/
structure Partial where
  mode : Mode
  fields : List Text
  current : List Char
  deriving Repr, DecidableEq

namespace Partial

def init : Partial := ⟨.recordStart, [], []⟩

/-- Ends the current field. -/
def closeField (p : Partial) (mode : Mode) : Partial :=
  ⟨mode, Text.ofChars p.current.reverse :: p.fields, []⟩

def push (p : Partial) (mode : Mode) (c : Char) : Partial :=
  { p with mode, current := c :: p.current }

/-- The record that ends here; a line without characters has no fields. -/
def finish (p : Partial) : List Text :=
  match p.mode with
  | .recordStart => []
  | _ => (p.closeField .recordStart).fields.reverse

/-- The record after one more character that ends no line. -/
def step (p : Partial) (c : Char) : Partial :=
  match p.mode with
  | .recordStart | .fieldStart =>
    if c = '"' then { p with mode := .inQuotes }
    else if c = ',' then p.closeField .fieldStart
    else p.push .inField c
  | .inField => if c = ',' then p.closeField .fieldStart else p.push .inField c
  | .inQuotes => if c = '"' then { p with mode := .afterQuote } else p.push .inQuotes c
  | .afterQuote =>
    if c = '"' then p.push .inQuotes c
    else if c = ',' then p.closeField .fieldStart
    else p.push .inField c

end Partial

/-- The records of a text that follows the beginning of a record. -/
def recordsFrom (p : Partial) : List Char → List (List Text)
  | [] => if p.mode = .recordStart then [] else [p.finish]
  | '\r' :: '\n' :: rest =>
    if p.mode = .inQuotes then recordsFrom ((p.step '\r').step '\n') rest
    else p.finish :: recordsFrom .init rest
  | c :: rest =>
    if p.mode ≠ .inQuotes ∧ (c = '\n' ∨ c = '\r') then p.finish :: recordsFrom .init rest
    else recordsFrom (p.step c) rest

/-- The records of a text. -/
def records (text : String) : List (List Text) := recordsFrom .init text.toList

/-- How many characters a field may have. -/
def maxFieldSize : Nat := 131072

/-- Whether a record can be read. -/
def isReadable (record : List Text) : Bool := record.all (·.length ≤ maxFieldSize)

/-- The records of a text up to one that cannot be read, and whether there is such a one. -/
def readable (text : String) : List (List Text) × Bool :=
  let all := records text
  (all.takeWhile isReadable, !all.all isReadable)

/-! ### Writing -/

/-- Whether a field has to stand between quotes. -/
def needsQuotes (field : Text) : Bool :=
  field.contains ',' || field.contains '"' || field.contains '\r' || field.contains '\n'

/-- A field between quotes. -/
def quoteField (field : Text) : Text :=
  let quote : CodePoint := '"'
  .ofList (quote :: field.toList.flatMap (fun c => if c = quote then [c, c] else [c]) ++ [quote])

/-- A field as it is written. -/
def writeField (field : Text) : Text := if needsQuotes field then quoteField field else field

/-- A record as a line with its end. A lone empty field stands between quotes, so that the line is
no empty one. -/
def line (fields : List Text) : Text :=
  if fields = [Text.empty] then "\"\"\r\n"
  else Text.join "," (fields.map writeField) ++ "\r\n"

end FuzzyInference.Csv
