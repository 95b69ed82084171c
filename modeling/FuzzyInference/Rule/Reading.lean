import FuzzyInference.Rule.Lexer
import FuzzyInference.Rule.Postfix

/-!
# Reading rules

A rule `if P then C` is read token by token. Each side is a row of operands, an operand being a
clause `x is a` or a group of operands in parentheses that connectives join. Both sides are put
into postfix form on the way:

* a clause is written at once;
* a connective between the operands of a group is held back, and all that are held, whatever
  groups they belong to, are written newest first where the next group closes;
* what stands between the operands outside all groups is dropped.

On the premise's side that has to be a connective; behind `then` any token will do.

Groups may be nested to any depth: the groups that are open are kept as a list, and a list has no
bound. Where groups are read by functions that call each other, a machine may let only so many calls
stand open; that limit is a setting of the machine and no part of the reading.

* `Vocabulary`: the names that a rule may use;
* `Reading`: what has been read, and what has to come next;
* `Reading.step`: one more token;
* `Reading.ofText`: the reading of a rule and the error that stopped it.
-/

namespace FuzzyInference.Rule

/-- The names that a rule may use: variables, and terms of variables. -/
structure Vocabulary where
  hasVariable : Text → Bool
  hasTerm : Text → Text → Bool

/-- What has to come next. -/
inductive Expected where
  | start
  | ifWord
  | operand
  /-- `is`, after the variable of a clause. -/
  | isWord
  /-- The term of a clause. -/
  | term
  /-- What follows an operand. -/
  | joint
  | nothing
  deriving Repr, DecidableEq

/-- The two sides of a rule. -/
inductive Side where
  | premise
  | conclusion
  deriving Repr, DecidableEq

/-- What has been read of a rule. A group that is open is noted by whether a connective has been
seen in it, innermost group first; connectives are held newest first. -/
structure Reading where
  expected : Expected
  side : Side
  groups : List Bool
  held : List Connective
  premise : List Entry
  conclusion : List Entry
  tokens : List Token
  deriving Repr, DecidableEq

namespace Reading

/-- Nothing has been read. -/
def init : Reading := ⟨.start, .premise, [], [], [], [], []⟩

/-- Adds entries to the postfix form of the side that is being read. -/
def write (r : Reading) (es : List Entry) : Reading :=
  match r.side with
  | .premise => { r with premise := r.premise ++ es }
  | .conclusion => { r with conclusion := r.conclusion ++ es }

/-- Takes a token in and goes on to what has to come next. -/
def accept (r : Reading) (t : Token) (expected : Expected) : Reading :=
  { r with tokens := r.tokens ++ [t], expected }

/-- Writes all that is held, newest first. -/
def release (r : Reading) : Reading := { r.write (r.held.map .connective) with held := [] }

/-- Takes in the variable of a clause. -/
def variableStep (v : Option Vocabulary) (r : Reading) (name : Option Text) :
    Except Error Reading :=
  match name with
  | none => .error .nameMissing
  | some x =>
    if v.all (·.hasVariable x) then .ok ((r.write [.name x]).accept .ident .isWord)
    else .error (.undefined x)

/-- Takes in the term of a clause, which must be one of the clause's variable. -/
def termStep (v : Option Vocabulary) (r : Reading) (variableName termName : Option Text) :
    Except Error Reading :=
  match termName, variableName with
  | some a, some x =>
    if v.all (·.hasTerm x a) then .ok ((r.write [.name a, .is]).accept .ident .joint)
    else .error (.undefined a)
  | _, _ => .error .nameMissing

/-- Takes in what follows an operand of a group. A group of one operand cannot be closed. -/
def groupStep (r : Reading) (joined : Bool) (outer : List Bool) (t : Token) :
    Except Error Reading :=
  match t with
  | .connective c =>
    .ok (({ r with held := c :: r.held, groups := true :: outer }).accept t .operand)
  | .rightPar =>
    if joined then .ok (({ r.release with groups := outer }).accept t .joint)
    else .error .connectiveExpected
  | _ => .error (if joined then .expected .rightPar else .connectiveExpected)

/-- Takes in what follows an operand outside all groups. -/
def outerStep (r : Reading) (t : Token) : Except Error Reading :=
  match r.side, t with
  | .premise, .connective _ => .ok (r.accept t .operand)
  | .premise, .thenWord => .ok (({ r with side := .conclusion }).accept t .operand)
  | .premise, _ => .error .connectiveOrThenExpected
  | .conclusion, .finish => .ok (r.accept t .nothing)
  | .conclusion, _ => .ok (r.accept t .operand)

/-- Takes in one token; the lexer behind it knows the newest names. -/
def step (v : Option Vocabulary) (r : Reading) (t : Token) (l : Lexer) : Except Error Reading :=
  match r.expected with
  | .start => if t = .start then .ok (r.accept t .ifWord) else .error (.expected .start)
  | .ifWord => if t = .ifWord then .ok (r.accept t .operand) else .error (.expected .ifWord)
  | .operand =>
    match t with
    | .leftPar => .ok (({ r with groups := false :: r.groups }).accept t .operand)
    | .ident => r.variableStep v l.identifier?
    | _ => .error (.expected .ident)
  | .isWord => if t = .isWord then .ok (r.accept t .term) else .error (.expected .isWord)
  | .term =>
    if t = .ident then r.termStep v l.lastIdentifier? l.identifier?
    else .error (.expected .ident)
  | .joint =>
    match r.groups with
    | joined :: outer => r.groupStep joined outer t
    | [] => r.outerStep t
  | .nothing => .error (.expected .finish)

/-- Takes in tokens until one is in error. -/
def run (v : Option Vocabulary) (r : Reading) : List (Token × Lexer) → Reading × Option Error
  | [] => (r, none)
  | (t, l) :: rest =>
    match r.step v t l with
    | .error e => (r, some e)
    | .ok r => r.run v rest

/-- The reading of a rule, up to the first error if there is one. Without a vocabulary every name
is allowed. -/
def ofText (v : Option Vocabulary) (text : Text) : Reading × Option Error :=
  let (tokens, lexical) := (Lexer.ofText text).tokens
  let (r, error) := init.run v tokens
  (r, error.or lexical)

end Reading

end FuzzyInference.Rule
