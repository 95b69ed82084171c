import FuzzyInference.RuleSet

/-!
# Sessions

A session holds one symbol table and one rule set, and the variables and rules that are known by
handles. A variable that has been registered lives in the table and keeps its handle; rules are
numbered in the order in which they are made, and the rule set is a list of such numbers.

* `Session.declare`, `Session.register`, `Session.changeVariable`: making and changing variables;
* `Session.makeRule`, `Session.changeRule`, `Session.addRule`, `Session.parseAll`: the same for
  rules and the rule set.
-/

namespace FuzzyInference

/-- Where the variable of a handle lives. -/
inductive Holding (α : Type) where
  | loose (v : Variable α)
  | registered (name : Text)
  deriving Repr

/-- A table, a rule set, and what is known by handles. -/
structure Session (α : Type) where
  table : SymbolTable α
  holdings : List (Text × Holding α)
  rules : List Rule
  ruleHandles : List (Text × Nat)
  members : List Nat
  deriving Repr

namespace Session

variable {α : Type} [Scalar α]

def empty : Session α := ⟨.empty, [], [], [], []⟩

/-! ### Variables -/

/-- The variable of a handle. -/
def variableAt? (s : Session α) (handle : Text) : Option (Variable α) :=
  match s.holdings.lookup handle with
  | some (.loose v) => some v
  | some (.registered name) => s.table.find? name
  | none => none

def hold (s : Session α) (handle : Text) (h : Holding α) : Session α :=
  { s with holdings := (handle, h) :: s.holdings }

/-- Makes a variable and gives it the handle; it may be registered at once. -/
def declare (s : Session α) (handle name usage : Text) (register : Bool) :
    Except (Fault α) (Session α × Variable α) :=
  match Variable.make name usage with
  | .error e => .error e
  | .ok v =>
    if register then
      match s.table.insert v with
      | .error e => .error e
      | .ok table => .ok ({ s with table }.hold handle (.registered v.name), v)
    else .ok (s.hold handle (.loose v), v)

/-- Changes the variable of a handle, wherever it lives. -/
def changeVariable (s : Session α) (handle : Text) (v : Variable α) : Session α :=
  match s.holdings.lookup handle with
  | some (.registered name) => { s with table := s.table.modify name fun _ => v }
  | _ => s.hold handle (.loose v)

/-- Registers the variable of a handle, and tells whether its name was free. -/
def register (s : Session α) (handle : Text) (v : Variable α) :
    Except (Fault α) (Session α × Bool) :=
  match s.table.register v with
  | .error e => .error e
  | .ok (table, true) => .ok ({ s with table }.hold handle (.registered v.name), true)
  | .ok (_, false) => .ok (s, false)

/-! ### Rules -/

/-- Makes a rule and gives it the handle. -/
def makeRule (s : Session α) (handle text : Text) (attached : Bool) : Session α × Rule :=
  let r := Rule.ofText text attached
  ({ s with rules := s.rules ++ [r], ruleHandles := (handle, s.rules.length) :: s.ruleHandles }, r)

/-- The number of the rule of a handle, and the rule. -/
def rule? (s : Session α) (handle : Text) : Option (Nat × Rule) := do
  let n ← s.ruleHandles.lookup handle
  let r ← s.rules[n]?
  return (n, r)

def changeRule (s : Session α) (n : Nat) (r : Rule) : Session α :=
  { s with rules := s.rules.set n r }

/-- The vocabulary of the table, if it is asked for. -/
def vocabulary? (s : Session α) (withTable : Bool) : Option Rule.Vocabulary :=
  if withTable then some s.table.vocabulary else none

/-! ### The rule set -/

/-- The rule set as it stands. -/
def ruleSet (s : Session α) : RuleSet := ⟨s.members.filterMap (s.rules[·]?)⟩

/-- Adds a rule to the rule set, and tells whether its text was new. -/
def addRule (s : Session α) (n : Nat) (r : Rule) : Session α × Bool :=
  let (_, added) := s.ruleSet.add r
  (if added then { s with members := s.members ++ [n] } else s, added)

/-- Reads all rules of the rule set that are idle. -/
def parseAll (s : Session α) (withTable : Bool) (workers : Option Int) :
    Except (Fault α) (Session α) :=
  match s.ruleSet.parse (if withTable then some s.table else none) workers with
  | .error e => .error e
  | .ok set => .ok ((s.members.zip set.rules).foldl (fun s (n, r) => s.changeRule n r) s)

end Session

end FuzzyInference
