import FuzzyInference.Curve
import FuzzyInference.Rule.Evaluation

/-!
# Rule sets

Rules in the order in which they were added; no two of them have the same text.

* `RuleSet.add`, `RuleSet.parse`: one more rule, and the reading of all rules that are idle;
* `RuleSet.status`: the worst status of a rule;
* `RuleSet.conclusions`, `RuleSet.evaluate`: what the rules conclude, and the centre of it.
-/

namespace FuzzyInference

/-- Rules in the order in which they were added. -/
structure RuleSet where
  rules : List Rule
  deriving Repr, DecidableEq

namespace RuleSet

variable {α : Type}

def empty : RuleSet := ⟨[]⟩

/-- Whether a rule with the text is there. -/
def hasText (s : RuleSet) (text : Text) : Bool := s.rules.any (·.text == text)

/-- Adds a rule, and tells whether its text was new. -/
def add (s : RuleSet) (r : Rule) : RuleSet × Bool :=
  if s.hasText r.text then (s, false) else (⟨s.rules ++ [r]⟩, true)

/-- Reads all rules that are idle. -/
def parseIdle (v : Option Rule.Vocabulary) (s : RuleSet) : RuleSet :=
  ⟨s.rules.map fun r => if r.status = .idle then r.parse v else r⟩

/-- Reads all rules that are idle over a symbol table or without one. Several workers can share
only a table that no longer changes. Each of their readings touches its own rule and nothing else,
so what they read side by side is taken to be what is read one rule after the other. -/
def parse (t : Option (SymbolTable α)) (workers : Option Int) (s : RuleSet) :
    Except (Fault α) RuleSet :=
  if workers.any (1 < ·) && t.any (!·.frozen) then .error .tableNotFrozen
  else .ok (s.parseIdle (t.map (·.vocabulary)))

/-- The worst status of a rule: an error counts more than a rule not read. -/
def status (s : RuleSet) : Rule.Status :=
  if s.rules.any (·.status = .erroneous) then .erroneous
  else if s.rules.any (·.status = .idle) then .idle
  else .done

/-- The conclusions of all rules in order. -/
def conclusions [Scalar α] (t : SymbolTable α) (s : RuleSet) :
    Except (Fault α) (List (Membership α)) :=
  s.rules.mapM (·.conclude t)

/-- The centre of the superposed conclusions of all rules, which must have been read. -/
def evaluate [Scalar α] (t : SymbolTable α) (s : RuleSet) (steps : Int) : Except (Fault α) α :=
  if s.status ≠ .done then .error (.rulesNotDone s.status)
  else
    match s.conclusions t with
    | .error e => .error e
    | .ok fs =>
      match Curve.superpose fs steps with
      | .error e => .error e
      | .ok c => c.center

/-- A rule with its status, as it is shown. -/
def describeRule (r : Rule) : Text :=
  r.text ++ " | status = " ++ r.status.name ++
    (if r.status = .erroneous then " | message = " ++ r.errorText else "")

/-- The rules with their status, one a line. -/
def describe (s : RuleSet) : Text := Text.join "\n" (s.rules.map describeRule)

end RuleSet

end FuzzyInference
