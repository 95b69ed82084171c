import FuzzyInference.Rule.Reading
import FuzzyInference.Variable

/-!
# Symbol tables

The variables that rules may name, in the order of their registration. Names are found in any
letter case, and no two variables share one. A frozen table takes no more variables.

* `SymbolTable.register`: one more variable, unless its name is taken;
* `SymbolTable.find?`: the variable of a name;
* `SymbolTable.modify`: a change of the variable of a name;
* `SymbolTable.vocabulary`: what rules may name.
-/

namespace FuzzyInference

/-- The variables that rules may name, in the order of their registration. -/
structure SymbolTable (α : Type) where
  entries : List (Variable α)
  frozen : Bool
  deriving Repr, DecidableEq

namespace SymbolTable

variable {α : Type}

def empty : SymbolTable α := ⟨[], false⟩

/-- The variable of a name. -/
def find? (t : SymbolTable α) (name : Text) : Option (Variable α) :=
  t.entries.find? (·.answersTo name)

def hasVariable (t : SymbolTable α) (name : Text) : Bool := (t.find? name).isSome

/-- Whether a name is that of a variable with the given term. -/
def hasTerm (t : SymbolTable α) (name label : Text) : Bool :=
  (t.find? name).any (·.hasTerm label)

/-- Registers a variable, and tells whether its name was free. -/
def register (t : SymbolTable α) (v : Variable α) : Except (Fault α) (SymbolTable α × Bool) :=
  if t.frozen then .error (.tableFrozen v.name)
  else if t.hasVariable v.name then .ok (t, false)
  else .ok ({ t with entries := t.entries ++ [v] }, true)

/-- Registers a variable whose name has to be free. -/
def insert (t : SymbolTable α) (v : Variable α) : Except (Fault α) (SymbolTable α) :=
  match t.register v with
  | .error e => .error e
  | .ok (t, true) => .ok t
  | .ok (_, false) => .error (.variableTaken v.name)

/-- The table closed to further variables. -/
def freeze (t : SymbolTable α) : SymbolTable α := { t with frozen := true }

/-- Changes the first variable of a list that goes by a name. -/
def modifyFirst (name : Text) (f : Variable α → Variable α) :
    List (Variable α) → List (Variable α)
  | [] => []
  | v :: rest => if v.answersTo name then f v :: rest else v :: modifyFirst name f rest

/-- Changes the variable of a name, if it is there. -/
def modify (t : SymbolTable α) (name : Text) (f : Variable α → Variable α) : SymbolTable α :=
  { t with entries := modifyFirst name f t.entries }

/-- Sets the crisp value of the variable of a name, which has to be there. -/
def setValue (t : SymbolTable α) (name : Text) (x : α) : Except (Fault α) (SymbolTable α) :=
  if t.hasVariable name then .ok (t.modify name fun v => { v with value := x })
  else .error .variableMissing

/-- What rules may name. -/
def vocabulary (t : SymbolTable α) : Rule.Vocabulary := ⟨t.hasVariable, t.hasTerm⟩

end SymbolTable

end FuzzyInference
