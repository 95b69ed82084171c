import FuzzyInference.Engine

/-!
# The journal

What an engine does is told step by step in records of three levels. The records of an action are
a function of what the action starts from, and break off where the action does.

* `Level`, `Record`: a line of the journal;
* `Journal.setup`, `Journal.setInputs`, `Journal.evaluate`, `Journal.explain`: the records of the
  actions of an engine.
-/

namespace FuzzyInference

/-- How much a record matters. -/
inductive Level where
  | debug
  | info
  | warning
  | error
  deriving Repr, DecidableEq

namespace Level

/-- The level as it is written. -/
def name : Level → String
  | .debug => "DEBUG"
  | .info => "INFO"
  | .warning => "WARNING"
  | .error => "ERROR"

def rank : Level → Nat
  | .debug => 0
  | .info => 1
  | .warning => 2
  | .error => 3

end Level

/-- A line of the journal. -/
structure Record where
  level : Level
  text : Text
  deriving Repr, DecidableEq

/-- The record with its level. -/
def Record.line (r : Record) : Text := r.level.name ++ ": " ++ r.text ++ "\n"

namespace Journal

def debug (text : Text) : Record := ⟨.debug, text⟩

def warning (text : Text) : Record := ⟨.warning, text⟩

def quoted (s : Text) : Text := "\"" ++ s ++ "\""

def two (x : Float) : String := Decimal.fixed 2 x

def four (x : Float) : String := Decimal.fixed 4 x

/-! ### Setting up -/

/-- The variables that a table takes in, up to the first fault. -/
def registered (t : SymbolTable Float) : List (Declaration Float) → List Record
  | [] => []
  | d :: rest =>
    match Setup.buildVariable d with
    | .error _ => []
    | .ok v =>
      match t.insert v with
      | .error _ => []
      | .ok t => debug ("Created linguistic variable " ++ v.describe) :: registered t rest

/-- The first rule whose text is there already. -/
def takenRule (s : RuleSet) : List Text → List Record
  | [] => []
  | text :: rest =>
    let r := Rule.ofText text true
    match s.add r with
    | (_, false) =>
      [warning ("Cannot add rule " ++ quoted r.text ++
        " to the rule set because it is already present.")]
    | (s, true) => takenRule s rest

/-- A rule that has been read. -/
def parsed (r : Rule) : List Record := [
  debug ("Parsed rule " ++ quoted r.text ++ "."),
  debug ("parsing status = " ++ r.status.name ++ ", parsing error: " ++ r.errorText)]

/-- The rules that are in error. -/
def erroneous (rules : List Rule) : List Record :=
  (rules.filter (·.status = .erroneous)).map fun r =>
    warning ("Rule " ++ quoted r.text ++ " is erroneous: " ++ r.errorText)

/-- The setup of a model. -/
def setup (m : Model Float) (workers : Option Int) : List Record :=
  if m.outputs.length ≠ 1 then []
  else
    registered .empty m.declarations ++
      match Setup.buildTable m with
      | .error _ => []
      | .ok _ =>
        takenRule .empty m.rules ++
          match Setup.build m workers with
          | .error _ => []
          | .ok s => s.rules.rules.flatMap parsed ++ erroneous s.rules.rules

/-- The setup of an engine that has not been set up yet. -/
def setupOnce (e : Engine Float) : List Record :=
  match e.built with
  | some _ => []
  | none => setup e.model e.workers

/-! ### Inputs -/

/-- A crisp value that is set. -/
def crispValue (v : Variable Float) (x : Float) : Record :=
  debug ("Set crisp value = " ++ four x ++ " for linguistic variable " ++ quoted v.name ++ ".")

/-- The values that are set in a table, up to a name that it lacks. -/
def assigned (t : SymbolTable Float) : Readings Float → List Record
  | [] => []
  | (name, x) :: rest =>
    match t.find? (name.getD "") with
    | none => []
    | some v => crispValue v x :: assigned t rest

/-- New crisp values for an engine. -/
def setInputs (e : Engine Float) (inputs : Except InputFault (Readings Float)) : List Record :=
  setupOnce e ++
    match e.current, inputs with
    | .ok s, .ok readings =>
      match Engine.checkNames e.model readings with
      | .ok () => assigned s.table readings
      | .error _ => []
    | _, _ => []

/-! ### Results -/

/-- A rule that fires: its degree is positive. -/
def fires (r : Rule) (h : Float) : List Record :=
  if 0.0 < h then
    [debug ("Rule " ++ quoted r.text ++ " fires. Degree of relevance H = " ++ four h)]
  else []

/-- The rules that fire, up to one that cannot conclude. -/
def concluding (t : SymbolTable Float) : List Rule → List Record
  | [] => []
  | r :: rest =>
    match r.relevance t with
    | .error _ => []
    | .ok h =>
      fires r h ++
        match r.concludeAt t h with
        | .error _ => []
        | .ok _ => concluding t rest

/-- The rules without error that fire, up to one that cannot be evaluated. -/
def explaining (t : SymbolTable Float) : List Rule → List Record
  | [] => []
  | r :: rest =>
    if r.status = .done then
      match r.relevance t with
      | .error _ => []
      | .ok h => fires r h ++ explaining t rest
    else explaining t rest

/-- A function that is sampled. -/
def sampled (low high : Float) (steps : Int) (f : Membership Float) : Record :=
  debug ("discretisation of " ++ f.describe ++ ": from " ++ four low ++ " to " ++ four high ++
    " | increment = " ++ four (Curve.increment low high steps) ++ s!" | steps = {steps}")

/-- A row of numbers behind a label. -/
def row (label : Text) (xs : List Float) : Record :=
  debug (label ++ String.join (xs.map fun x => Decimal.padLeft 12 (four x)))

/-- The superposition of functions. -/
def superposition (fs : List (Membership Float)) (steps : Int) : List Record :=
  if fs.length < 2 then []
  else
    let (low, high) := Curve.window fs
    debug ("Superposition is computed from " ++ two low ++ " to " ++ two high) ::
      match Curve.superpose fs steps with
      | .error _ => []
      | .ok c =>
        fs.map (sampled low high steps) ++
          [debug "--- superposition", row "x -->" c.xs, row "y -->" c.ys]

/-- The result of a rule set. -/
def rulesResult (s : Setup Float) (steps : Int) : List Record :=
  if s.rules.status ≠ .done then []
  else
    concluding s.table s.rules.rules ++
      match s.rules.conclusions s.table with
      | .error _ => []
      | .ok fs => superposition fs steps

/-- The output of a model that is set to a result. -/
def stored (e : Engine Float) (s : Setup Float) (x : Float) : List Record :=
  match e.model.outputName?.bind s.table.find? with
  | some v => [crispValue v x]
  | none => []

/-- The evaluation of an engine. -/
def evaluate (e : Engine Float) (inputs : Except InputFault (Readings Float)) : List Record :=
  debug ("Evaluating model " ++ quoted e.model.name) :: setInputs e inputs ++
    match e.setInputs inputs with
    | (_, .error _) => []
    | (_, .ok s) =>
      rulesResult s e.steps ++
        match s.rules.evaluate s.table e.steps with
        | .error _ => []
        | .ok x =>
          debug "--- defuzzification" :: debug ("x = " ++ Decimal.write x) :: stored e s x

/-- The explanation of a result. -/
def explain (e : Engine Float) (inputs : Except InputFault (Readings Float)) : List Record :=
  setInputs e inputs ++
    match e.setInputs inputs with
    | (_, .error _) => []
    | (_, .ok s) => explaining s.table s.rules.rules

/-- The records of an action of an engine that matter at a level. Only setting up gives warnings;
all else is for the lowest level, where the records of the whole action are wanted. -/
def atLevel (level : Level) (e : Engine Float) (action : Unit → List Record) : List Record :=
  if level = .debug then action () else setupOnce e

end Journal

end FuzzyInference
