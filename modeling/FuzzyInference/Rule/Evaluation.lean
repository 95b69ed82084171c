import FuzzyInference.Rule
import FuzzyInference.SymbolTable

/-!
# Evaluating rules

* `Rule.evaluate`: a postfix form as a program over a stack of degrees;
* `Rule.relevance`: the degree of relevance of a rule, which is the last degree of its premise;
* `Rule.conclude`: the term that a rule concludes, cut down to a degree.
-/

namespace FuzzyInference.Rule

variable {α : Type} [Scalar α]

/-- The degree of a clause at the crisp values of the table. -/
def clauseDegree (t : SymbolTable α) (name label : Text) : Except (Fault α) α :=
  match t.find? name with
  | some v => v.fuzzify label
  | none => .error .variableMissing

/-- Runs a postfix form: a clause puts its degree on the stack, a connective joins the two degrees
on top. The entries that came before are given newest first. -/
def evaluate (t : SymbolTable α) (before : List Entry) (stack : List α) :
    List Entry → Except (Fault α) (List α)
  | [] => .ok stack
  | .name s :: rest => evaluate t (.name s :: before) stack rest
  | .is :: rest =>
    match before with
    | .name label :: .name name :: _ =>
      match clauseDegree t name label with
      | .error e => .error e
      | .ok d => evaluate t (.is :: before) (d :: stack) rest
    | _ => .error .stackEmpty
  | .connective c :: rest =>
    match stack with
    | b :: a :: stack => evaluate t (.connective c :: before) (c.combine [a, b] :: stack) rest
    | _ => .error .stackEmpty

/-- The rule can be asked only if it has been read without error and stands over a table. -/
def ready (r : Rule) (inquiry : Inquiry) : Except (Fault α) Unit :=
  if r.status ≠ .done then .error (.ruleNotDone inquiry r.text r.status)
  else if !r.attached then .error (.ruleWithoutTable inquiry r.text)
  else .ok ()

/-- The degree of relevance: of the degrees that the premise leaves on the stack, the last one. -/
def relevance (t : SymbolTable α) (r : Rule) : Except (Fault α) α :=
  match r.ready .relevance with
  | .error e => .error e
  | .ok () =>
    match evaluate t [] [] r.premise with
    | .error e => .error e
    | .ok [] => .error .stackEmpty
    | .ok (h :: _) => .ok h

/-- The term that the rule concludes, cut down to the degree `h`. -/
def concludeAt (t : SymbolTable α) (r : Rule) (h : α) : Except (Fault α) (Membership α) :=
  match r.ready .conclusion with
  | .error e => .error e
  | .ok () =>
    match r.conclusion with
    | [] => .error .stackEmpty
    | x :: rest =>
      match t.find? x.text with
      | none => .error .variableMissing
      | some v =>
        match rest with
        | [] => .error .stackEmpty
        | a :: _ =>
          match v.function a.text with
          | .error e => .error e
          | .ok f => f.reason h

/-- The term that the rule concludes, cut down to the rule's degree of relevance. -/
def conclude (t : SymbolTable α) (r : Rule) : Except (Fault α) (Membership α) :=
  match r.ready .conclusion with
  | .error e => .error e
  | .ok () =>
    match r.relevance t with
    | .error e => .error e
    | .ok h => r.concludeAt t h

end FuzzyInference.Rule
