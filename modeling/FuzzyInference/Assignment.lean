import FuzzyInference.Document.Display
import FuzzyInference.Document.Number
import FuzzyInference.Text.Blank
import FuzzyInference.Text.Digit

/-!
# Assignments

Values for variables are given as `name=number`, and columns for variables as `name=column`, with
commas between several of them.

* `Assignment.read`: one `name=number`;
* `Assignment.readItems`: all of a value, which may be a text, or a list of texts and pairs;
* `Assignment.readColumns`: the columns of a text.
-/

namespace FuzzyInference.Assignment

open FuzzyInference.Decimal
open FuzzyInference.Document

/-- Why a text is no assignment. -/
inductive Fault where
  | noAssignment (item : Text)
  | nameless (item : Text)
  | notNumber (value item : Text)
  | noColumn (item : Text)
  | incomplete (item : Text)
  /-- A column of digits that are no number; this is no fault of form. -/
  | column (fault : NumeralFault)
  /-- A pair without two parts. -/
  | shortPair
  /-- A pair whose value is no number, or a number too long to be a text. -/
  | value (fault : NumberFault)
  /-- A value that is neither a text nor made up of others. -/
  | notItems
  deriving Repr, DecidableEq

/-- The wording of the fault. -/
def Fault.message : Fault → Text
  | .noAssignment item => "Invalid item: '" ++ item ++ "' (expected 'var=value')."
  | .nameless item => "Empty variable name in: '" ++ item ++ "'."
  | .notNumber given item => "Not a number: '" ++ given ++ "' (in '" ++ item ++ "')."
  | .noColumn item => "Invalid item: '" ++ item ++ "' (expected 'var=column')."
  | .incomplete item => "Empty key or value in: '" ++ item ++ "'."
  | .column f => f.message
  | .shortPair => "a pair needs a name and a value"
  | .value f => f.message
  | .notItems => "a list of assignments is needed"

/-- Whether the fault is one of form, which is reported. -/
def Fault.isReported : Fault → Bool
  | .column _ | .shortPair | .value _ | .notItems => false
  | _ => true

/-- The texts before and behind the first equals sign, without blanks around them. -/
def halves? (item : Text) : Option (Text × Text) :=
  match item.toList.span (· != .char '=') with
  | (_, []) => none
  | (k, _ :: v) => some ((Text.ofList k).trim, (Text.ofList v).trim)

/-- The name and the number of an assignment. -/
def read (item : Text) : Except Fault (Text × Float) :=
  match halves? item with
  | none => .error (.noAssignment item)
  | some (k, v) =>
    if k.isEmpty then .error (.nameless item)
    else match readFloat? v with
      | some x => .ok (k, x)
      | none => .error (.notNumber v item)

/-- The items between commas that are not blank. -/
def items (text : Text) : List Text :=
  ((text.splitOn ',').map (·.trim)).filter (!·.isEmpty)

/-- The assignments of a text. -/
def readText (text : Text) : Except Fault (List (Text × Float)) := (items text).mapM read

/-- A value as a name. -/
def nameOf (v : Value) : Except Fault Text := v.toName.mapError fun f => .value (.numeral f)

/-- A pair of a name and a value. -/
def readPair : List Value → Except Fault (Text × Float)
  | [] => .error .shortPair
  | name :: rest => do
    let name ← nameOf name
    match rest with
    | [] => .error .shortPair
    | value :: _ => return (name, ← value.toFloat.mapError .value)

/-- The assignments of one element of a list. -/
def readElement : Value → Except Fault (List (Text × Float))
  | .list parts => (readPair parts).map ([·])
  | v => do readText (← nameOf v)

/-- The assignments of several elements, in order. -/
def readElements : List Value → Except Fault (List (Text × Float))
  | [] => .ok []
  | v :: rest =>
    match readElement v with
    | .error f => .error f
    | .ok here =>
      match readElements rest with
      | .error f => .error f
      | .ok more => .ok (here ++ more)

/-- The assignments of a value. What counts as not given has none; of a mapping the keys are
taken. -/
def readItems (v : Value) : Except Fault (List (Text × Float)) :=
  if !v.isTruthy then .ok []
  else
    match v with
    | .text s => readElements [.text s]
    | .list vs => readElements vs
    | .map entries => readElements (entries.map (·.1))
    | _ => .error .notItems

/-! ### Columns -/

/-- A column: digits are its number, any other text its name. -/
def readColumn (v : Text) : Except Fault Value :=
  if v.toList.all (·.is Text.isDigitLike) then
    match readInteger v with
    | .ok i => .ok (.int i)
    | .error f => .error (.column f)
  else .ok (.text v)

/-- The variable and the column of an item. -/
def readColumnItem (item : Text) : Except Fault (Text × Value) :=
  match halves? item with
  | none => .error (.noColumn item)
  | some (k, v) =>
    if k.isEmpty || v.isEmpty then .error (.incomplete item)
    else (readColumn v).map fun c => (k, c)

/-- The columns of a text; of equal variables the last one counts. -/
def readColumns (text : Text) : Except Fault (List (Value × Value)) := do
  let pairs ← (items text).mapM readColumnItem
  return pairs.foldl (fun es (k, c) => Value.put (.text k) c es) []

end FuzzyInference.Assignment
