import FuzzyInference.Document.Display
import FuzzyInference.Document.Number
import FuzzyInference.Model

/-!
# Models as documents

A model is written as a mapping with the entries `name`, `steps`, `variables` and `rules`. A
variable is a mapping with `usage`, `name` and `terms`, a term one with `name` and its corners
under `tri` or `trap`.

* `Model.DocumentFault`: why a document is no model;
* `Model.ofDocument`: the model of a document; entries that are missing have default values;
* `Model.toDocument`: the document of a model;
* `Model.agrees`: whether two models are equal, taking a number that is none for equal to itself.
-/

namespace FuzzyInference.Model

open FuzzyInference.Document

/-- What the entries of a list have to be. -/
inductive EntryKind where
  | mapping
  | text
  deriving Repr, DecidableEq

/-- The kind as messages name it. -/
def EntryKind.name : EntryKind → String
  | .mapping => "mapping"
  | .text => "string"

/-- Whether a value is of the kind. -/
def EntryKind.admits : EntryKind → Value → Bool
  | .mapping, .map _ => true
  | .text, .text _ => true
  | _, _ => false

/-- Why a document is no model. -/
inductive DocumentFault where
  | notMapping
  | notNumber (what : Text) (value : Value)
  /-- A number that no scalar, step count or text holds. -/
  | outOfRange (fault : NumberFault)
  | stepsNotPositive (steps : Int)
  | notList (key owner : Text) (value : Value)
  | wrongEntry (key owner : Text) (place : Nat) (kind : EntryKind) (value : Value)
  | unknownUsage (usage variableName : Text)
  | variableNameless
  | termNameless (variableName : Text)
  | cornersNotList (what : Text) (value : Value)
  | cornerCount (shape : Shape) (termName : Text)
  | cornersMissing (termName : Text)
  deriving Repr

/-- Whether the fault is reported as one of the document. A number out of range ends the run. -/
def DocumentFault.isReported : DocumentFault → Bool
  | .outOfRange _ => false
  | _ => true

/-- The names of the corners of a shape. -/
def cornerNames : Shape → String
  | .triangle => "start top end"
  | .trapezoid => "start left_top right_top end"

/-- The wording of the fault. -/
def DocumentFault.message : DocumentFault → Text
  | .notMapping => "Model document must be a mapping"
  | .notNumber what value => what ++ ": expected a number, got " ++ value.literal
  | .outOfRange f => f.message
  | .stepsNotPositive steps => s!"steps: positive number required (got {steps})"
  | .notList key owner value =>
    "'" ++ key ++ "' of " ++ owner ++ " must be a list, got " ++ value.typeName
  | .wrongEntry key owner place kind value =>
    "'" ++ key ++ s!"' entry {place} of " ++ owner ++ " must be a " ++ kind.name ++ ", got " ++
      value.literal
  | .unknownUsage usage name => "Unknown usage '" ++ usage ++ "' for variable '" ++ name ++ "'"
  | .variableNameless => "Variable without name"
  | .termNameless name => "Term without name in variable '" ++ name ++ "'"
  | .cornersNotList what value => what ++ ": expected a list, got " ++ value.literal
  | .cornerCount shape name =>
    shape.name ++ s!": expected {shape.cornerCount} parameters (" ++ cornerNames shape ++
      ") for '" ++ name ++ "'"
  | .cornersMissing name => "Term '" ++ name ++ "' needs 'tri' or 'trap' parameters"

/-! ### Reading -/

/-- A value that has no text, since a whole number in it is too long. -/
def DocumentFault.unwritable : DocumentFault := .outOfRange (.numeral .tooLong)

/-- A fault that shows a value, which has to have a text. -/
def DocumentFault.showing (value : Value) (fault : DocumentFault) : DocumentFault :=
  if value.isWritable then fault else .unwritable

/-- A value as a name. -/
def nameOf (value : Value) : Except DocumentFault Text :=
  value.toName.mapError fun f => .outOfRange (.numeral f)

/-- A value read as a number: a value that is none is a fault of `what`. -/
def asNumber {β : Type} (what : Text) (value : Value) (read : Value → Except NumberFault β) :
    Except DocumentFault β :=
  match read value with
  | .ok x => .ok x
  | .error .wholeOfInfinity => .error (.outOfRange .wholeOfInfinity)
  | .error .tooLarge => .error (.outOfRange .tooLarge)
  | .error _ => .error (.showing value (.notNumber what value))

/-- The first entry of a wrong kind, with its place counted from `place`. -/
def firstWrong? (kind : EntryKind) (place : Nat) : List Value → Option (Nat × Value)
  | [] => none
  | v :: rest => if kind.admits v then firstWrong? kind (place + 1) rest else some (place, v)

/-- The list under a key, whose entries are of one kind; a list that is missing is empty. -/
def listUnder (d : Value) (key : Text) (kind : EntryKind) (owner : Text) :
    Except DocumentFault (List Value) :=
  match d.get? key with
  | none | some .null => .ok []
  | some (.list items) =>
    match firstWrong? kind 1 items with
    | some (place, v) => .error (.showing v (.wrongEntry key owner place kind v))
    | none => .ok items
  | some v => .error (.notList key owner v)

/-- The corners under the name of a shape, read as numbers. -/
def readCorners (full : Text) (shape : Shape) (raw : Value) :
    Except DocumentFault (List Float) :=
  let what := shape.name ++ " parameters of '" ++ full ++ "'"
  match raw with
  | .list items => items.mapM fun v => asNumber what v Value.toFloat
  | v => .error (.showing v (.cornersNotList what v))

/-- A term of a shape from its corners. -/
def shapedTerm (full name : Text) (shape : Shape) (raw : Value) :
    Except DocumentFault (Term Float) :=
  match readCorners full shape raw with
  | .error e => .error e
  | .ok corners =>
    match Term.ofCorners? name shape corners with
    | some t => .ok t
    | none => .error (.cornerCount shape full)

/-- A term of a variable. -/
def readTerm (variableName : Text) (d : Value) : Except DocumentFault (Term Float) :=
  match d.get? "name" with
  | none => .error (.termNameless variableName)
  | some name => do
    let name ← nameOf name
    let full := variableName ++ "." ++ name
    match d.get? "tri", d.get? "trap" with
    | some raw, _ => shapedTerm full name .triangle raw
    | none, some raw => shapedTerm full name .trapezoid raw
    | none, none => .error (.cornersMissing full)

/-- The usage of a variable; it is an input where nothing is said. -/
def readUsage (d : Value) : Except DocumentFault Text := do
  let usage := Text.lowercase (← nameOf ((d.get? "usage").getD (.text "input")))
  if usage == "input" || usage == "output" then return usage
  else .error (.unknownUsage usage (← nameOf ((d.get? "name").getD .null)))

/-- A variable of a model. -/
def readVariable (d : Value) : Except DocumentFault (Declaration Float) := do
  let usage ← readUsage d
  match d.get? "name" with
  | none => .error .variableNameless
  | some name =>
    let name ← nameOf name
    let terms ← listUnder d "terms" .mapping ("variable '" ++ name ++ "'")
    return ⟨usage, name, ← terms.mapM (readTerm name)⟩

/-- The number of steps, which is positive. -/
def readSteps (d : Value) : Except DocumentFault Int := do
  let steps ← asNumber "steps" ((d.get? "steps").getD (.int defaultSteps)) Value.toInteger
  if steps < 1 then .error (.showing (.int steps) (.stepsNotPositive steps)) else .ok steps

/-- A text as it is; other values do not come here. -/
def ruleText : Value → Text
  | .text s => s
  | _ => ""

/-- The model of a document. -/
def ofDocument (d : Value) : Except DocumentFault (Model Float) :=
  match d with
  | .map _ => do
    let steps ← readSteps d
    let name ← nameOf ((d.get? "name").getD (.text "model"))
    let declarations ← (← listUnder d "variables" .mapping "model").mapM readVariable
    let rules ← listUnder d "rules" .text "model"
    return ⟨name, declarations, rules.map ruleText, steps⟩
  | _ => .error .notMapping

/-! ### Writing -/

/-- The document of a term. -/
def termDocument (t : Term Float) : Value :=
  .ofFields [("name", .text t.name), (t.shape.name, .list (t.corners.map .float))]

/-- The document of a variable. -/
def variableDocument (d : Declaration Float) : Value :=
  .ofFields [("usage", .text d.usage), ("name", .text d.name),
    ("terms", .list (d.terms.map termDocument))]

/-- The document of a model. -/
def toDocument (m : Model Float) : Value :=
  .ofFields [("name", .text m.name), ("steps", .int m.steps),
    ("variables", .list (m.declarations.map variableDocument)),
    ("rules", .list (m.rules.map .text))]

/-! ### Comparing -/

/-- Whether two doubles are equal or both no numbers. -/
def sameNumber (x y : Float) : Bool := x == y || (x.isNaN && y.isNaN)

/-- Whether two lists agree item by item. -/
def agreeAll {β : Type} (p : β → β → Bool) : List β → List β → Bool
  | [], [] => true
  | a :: as, b :: bs => p a b && agreeAll p as bs
  | _, _ => false

/-- Whether two terms have the same name and corners. -/
def sameTerm (t u : Term Float) : Bool :=
  t.name == u.name && sameNumber t.start u.start && sameNumber t.leftTop u.leftTop &&
    sameNumber t.rightTop u.rightTop && sameNumber t.finish u.finish

/-- Whether two models agree in all that they declare. -/
def agrees (m n : Model Float) : Bool :=
  m.name == n.name && m.steps == n.steps && m.rules == n.rules &&
    agreeAll
      (fun d e => d.usage == e.usage && d.name == e.name && agreeAll sameTerm d.terms e.terms)
      m.declarations n.declarations

end FuzzyInference.Model
