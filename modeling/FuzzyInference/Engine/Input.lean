import FuzzyInference.Document.Display
import FuzzyInference.Document.Number

/-!
# Inputs

Crisp values come in three shapes: a record with a name and a value, a pair, and a mapping from
names to values.

* `Input`: one item of input;
* `Readings`: names with their scalars, in the order given;
* `Input.read`, `Input.readAll`: the readings of one item and of a list of items.
-/

namespace FuzzyInference

open FuzzyInference.Document

/-- One item of input. -/
inductive Input where
  /-- A record with a name and a value. -/
  | record (name value : Value)
  /-- A pair, or a mapping from names to values. -/
  | item (v : Value)
  deriving Repr

/-- Why an item of input has no readings. -/
inductive InputFault where
  | number (fault : NumberFault)
  | tooFewParts (found : Nat)
  | tooManyParts
  | noParts
  deriving Repr, DecidableEq

/-- The wording of the fault. -/
def InputFault.message : InputFault → Text
  | .number f => f.message
  | .tooFewParts found => s!"not enough values to unpack (expected 2, got {found})"
  | .tooManyParts => "too many values to unpack (expected 2)"
  | .noParts => "a name and a value are needed"

/-- Names with their scalars. A name that is no text is `none`. -/
abbrev Readings (α : Type) := List (Option Text × α)

/-- A value as a name, if it is a text. -/
def Document.Value.text? : Value → Option Text
  | .text s => some s
  | _ => none

/-- A name with its value. -/
def reading (name : Option Text) (value : Value) :
    Except InputFault (Option Text × Float) :=
  match value.toFloat with
  | .ok x => .ok (name, x)
  | .error f => .error (.number f)

/-- A name and its value as the two parts of an item. -/
def readPair : List Value → Except InputFault (Readings Float)
  | [name, value] => (reading (some name.display) value).map ([·])
  | [] => .error (.tooFewParts 0)
  | [_] => .error (.tooFewParts 1)
  | _ => .error .tooManyParts

/-- The readings of one item. A record keeps its name as it is; the names of pairs and mappings are
made into texts. -/
def Input.read : Input → Except InputFault (Readings Float)
  | .record name value => (reading name.text? value).map ([·])
  | .item (.map entries) => entries.mapM fun e => reading (some e.1.display) e.2
  | .item (.list parts) => readPair parts
  | .item (.text s) => readPair (s.toList.map fun c => .text (.ofList [c]))
  | .item _ => .error .noParts

/-- The readings of all items, in order. -/
def Input.readAll : List Input → Except InputFault (Readings Float)
  | [] => .ok []
  | i :: rest =>
    match i.read with
    | .error f => .error f
    | .ok here =>
      match readAll rest with
      | .error f => .error f
      | .ok more => .ok (here ++ more)

end FuzzyInference
