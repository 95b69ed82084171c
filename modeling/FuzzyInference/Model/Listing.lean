import FuzzyInference.Decimal.Numeral
import FuzzyInference.Model
import FuzzyInference.Text.Lines
import FuzzyInference.Text.Words

/-!
# Models as listings

A listing has one directive a line, its first word telling which: `model <name>`, `steps <n>`,
`var (input|output) <name>`, `mf <variable> <term> (tri a b c | trap a b c d)`, and `rule <text>`.
Words may be quoted, and `#` starts a comment. A rule is what stands behind its directive as it is
written, up to a `#`.

* `Listing.Cause`, `Listing.Fault`: what is wrong with a line, and the line;
* `Listing.directive`: the model after one more line;
* `Listing.read`: the model of a listing, which must declare an output.
-/

namespace FuzzyInference.Listing

open FuzzyInference.Decimal

/-- What is wrong with a line. -/
inductive Cause where
  | words (fault : Text.Words.Fault)
  | modelForm
  | stepsForm
  | variableForm
  | functionForm
  | ruleForm
  | cornersForm (shape : Shape)
  | numeral (fault : NumeralFault)
  | stepsNotPositive (steps : Int)
  | unknownUsage (word : Text)
  | variableTaken (name : Text)
  | variableMissing (name : Text)
  | termTaken (label variableName : Text)
  | unknownShape (word : Text)
  | cornersOutOfOrder (shape : Shape)
  | unknownDirective (word : Text)
  | noOutput
  deriving Repr, DecidableEq

/-- How the corners of a shape are called in a listing. -/
def cornerLetters : Shape → List Text
  | .triangle => ["a", "b", "c"]
  | .trapezoid => ["a", "b", "c", "d"]

/-- The wording of the cause. -/
def Cause.message : Cause → Text
  | .words f => f.message
  | .modelForm => "model: expected 'model <name>'"
  | .stepsForm => "steps: expected 'steps <n>'"
  | .variableForm => "var: expected 'var (input|output) <name>'"
  | .functionForm => "mf: expected 'mf <var> <term> <shape> [params...]'"
  | .ruleForm => "rule: expected 'rule if ... then ...'"
  | .cornersForm shape =>
    shape.name ++ s!": expected {shape.cornerCount} parameters: " ++
      Text.join " " (cornerLetters shape)
  | .numeral f => f.message
  | .stepsNotPositive steps => s!"steps: positive number required (got {steps})"
  | .unknownUsage word => "Unknown var kind: " ++ word
  | .variableTaken name => "Duplicate variable: " ++ name
  | .variableMissing name => "MF for unknown variable: " ++ name
  | .termTaken label name => "Duplicate MF label '" ++ label ++ "' in variable '" ++ name ++ "'"
  | .unknownShape word => "Unknown MF shape: " ++ word
  | .cornersOutOfOrder shape =>
    shape.name ++ ": " ++ Text.join " <= " (cornerLetters shape) ++ " required"
  | .unknownDirective word => "Unknown directive: " ++ word
  | .noOutput => "No output variable (var output ...)"

/-- A line that is wrong, by its number and text. -/
structure Fault where
  cause : Cause
  line : Nat
  content : Text
  deriving Repr, DecidableEq

/-- The wording of the fault, with the line below it. -/
def Fault.message (f : Fault) : Text :=
  s!"[.fz:{f.line}] " ++ f.cause.message ++ "\n  >> " ++ f.content

/-! ### Directives -/

/-- The directive that names the model. -/
def nameModel (m : Model Float) : List Text → Except Cause (Model Float)
  | [name] => .ok { m with name }
  | _ => .error .modelForm

/-- The directive that sets the number of steps. -/
def setSteps (m : Model Float) : List Text → Except Cause (Model Float)
  | [word] =>
    match readInteger word with
    | .error f => .error (.numeral f)
    | .ok steps => if steps < 1 then .error (.stepsNotPositive steps) else .ok { m with steps }
  | _ => .error .stepsForm

/-- The directive that declares a variable. -/
def declareVariable (m : Model Float) : List Text → Except Cause (Model Float)
  | [word, name] =>
    let usage := Text.lowercase word
    if !(usage == "input" || usage == "output") then .error (.unknownUsage usage)
    else if (m.find? name).isSome then .error (.variableTaken name)
    else .ok { m with declarations := m.declarations ++ [⟨usage, name, []⟩] }
  | _ => .error .variableForm

/-- The shape of a word in small letters. -/
def shapeOf? (word : Text) : Option Shape :=
  if word == "tri" then some .triangle else if word == "trap" then some .trapezoid else none

/-- Words read as numbers, up to the first that is none. -/
def readNumbers (words : List Text) : Except Cause (List Float) :=
  words.mapM fun w => (readFloat w).mapError .numeral

/-- Whether numbers ascend. -/
def ascends : List Float → Bool
  | a :: b :: rest => a ≤ b && ascends (b :: rest)
  | _ => true

/-- A term from the words behind its shape. -/
def readTerm (label : Text) (shape : Shape) (words : List Text) :
    Except Cause (Term Float) :=
  if words.length ≠ shape.cornerCount then .error (.cornersForm shape)
  else
    match readNumbers words with
    | .error c => .error c
    | .ok corners =>
      if !ascends corners then .error (.cornersOutOfOrder shape)
      else
        match Term.ofCorners? label shape corners with
        | some t => .ok t
        | none => .error (.cornersForm shape)

/-- Changes the first variable of a name. -/
def changeFirst (name : Text) (f : Declaration Float → Declaration Float) :
    List (Declaration Float) → List (Declaration Float)
  | [] => []
  | d :: rest => if d.answersTo name then f d :: rest else d :: changeFirst name f rest

/-- The directive that defines a term. -/
def defineTerm (m : Model Float) : List Text → Except Cause (Model Float)
  | name :: label :: word :: params =>
    match m.find? name with
    | none => .error (.variableMissing name)
    | some d =>
      if d.terms.any fun t => Text.lowercase t.name == Text.lowercase label then
        .error (.termTaken label name)
      else
        match shapeOf? (Text.lowercase word) with
        | none => .error (.unknownShape (Text.lowercase word))
        | some shape =>
          match readTerm label shape params with
          | .error c => .error c
          | .ok t =>
            .ok { m with
              declarations := changeFirst name (fun d => { d with terms := d.terms ++ [t] })
                m.declarations }
  | _ => .error .functionForm

/-- The text of a rule in a line: what stands behind the four characters of its directive, up to
a comment. -/
def ruleText (line : Text) : Text :=
  let behind := (Text.trim line).toList.drop 4
  Text.trim (Text.ofList (behind.takeWhile (· != '#')))

/-- The directive that states a rule. -/
def stateRule (m : Model Float) (line : Text) : Except Cause (Model Float) :=
  let text := ruleText line
  if text.isEmpty then .error .ruleForm else .ok { m with rules := m.rules ++ [text] }

/-- The model after one more line. -/
def directive (m : Model Float) (line : Text) : Except Cause (Model Float) :=
  match Text.Words.split line with
  | .error f => .error (.words f)
  | .ok [] => .ok m
  | .ok (head :: rest) =>
    let word := Text.lowercase head
    if word == "model" then nameModel m rest
    else if word == "steps" then setSteps m rest
    else if word == "var" then declareVariable m rest
    else if word == "mf" then defineTerm m rest
    else if word == "rule" then stateRule m line
    else .error (.unknownDirective head)

/-- The model after more lines, the first of which has the given number. -/
def readFrom (m : Model Float) (number : Nat) : List Text → Except Fault (Model Float)
  | [] => .ok m
  | line :: rest =>
    match directive m line with
    | .error cause => .error ⟨cause, number, line⟩
    | .ok m => readFrom m (number + 1) rest

/-- The model of a listing. -/
def read (text : Text) : Except Fault (Model Float) :=
  let lines := Text.lines text
  match readFrom .empty 1 lines with
  | .error f => .error f
  | .ok m => if m.outputs.isEmpty then .error ⟨.noOutput, lines.length, "<eof>"⟩ else .ok m

end FuzzyInference.Listing
