import FuzzyInference.Calendar
import FuzzyInference.Decimal.Binary
import FuzzyInference.Text.Basic

/-!
# Document values

The values that a model document or a configuration is made of. Whole numbers have any size, and
mappings keep the order in which their keys first came.

* `Value`: null, truth values, whole and decimal numbers, text, dates, moments, lists and mappings;
* `Value.ofFields`, `Value.get?`: a mapping with text keys, and the entry under one;
* `Value.put`: an entry added or replaced;
* `Value.isTruthy`, `Value.typeName`: whether a value counts as given, and what kind it is of.
-/

namespace FuzzyInference.Document

/-- A value of a document. -/
inductive Value where
  | null
  | bool (b : Bool)
  | int (i : Int)
  | float (x : Float)
  | text (s : Text)
  | date (d : Calendar.Date)
  | moment (m : Calendar.Moment)
  | list (items : List Value)
  | map (entries : List (Value × Value))
  deriving Repr, Inhabited

namespace Value

/-- A mapping with text keys. -/
def ofFields (fields : List (Text × Value)) : Value :=
  .map (fields.map fun (k, v) => (.text k, v))

/-- A text, or null where there is none. -/
def ofText? (s : Option Text) : Value :=
  match s with
  | some s => .text s
  | none => .null

/-- A truth value or whole number as a whole number. -/
def asWhole? : Value → Option Int
  | .bool b => some (if b then 1 else 0)
  | .int i => some i
  | _ => none

/-- Whether a double is exactly the whole number `i`. -/
def isWhole (x : Float) (i : Int) : Bool :=
  match Decimal.Binary.ofFloat x with
  | .finite negative m q =>
    let f := Decimal.Fraction.ofBinary m q
    f.num == i.natAbs * f.den && (i == 0 || negative == decide (i < 0))
  | _ => false

/-- Whether two keys name the same entry. Truth values, whole and decimal numbers are compared by
their value; one that is no number is the same as itself. -/
def sameKey (a b : Value) : Bool :=
  match a, b with
  | .null, .null => true
  | .text s, .text t => s == t
  | .date d, .date e => d == e
  | .moment m, .moment n => m.sameAs n
  | .float x, .float y => x == y || (x.isNaN && y.isNaN)
  | .float x, b => b.asWhole?.any (isWhole x)
  | a, .float y => a.asWhole?.any (isWhole y)
  | a, b => match a.asWhole?, b.asWhole? with
    | some i, some j => i == j
    | _, _ => false

/-- The entry under `key`. -/
def lookup? {β : Type} (key : Value) (entries : List (Value × β)) : Option β :=
  (entries.find? fun e => e.1.sameKey key).map (·.2)

/-- The entries with `value` under `key`; a key that is there keeps its place. -/
def put {β : Type} (key : Value) (value : β) : List (Value × β) → List (Value × β)
  | [] => [(key, value)]
  | e :: rest => if e.1.sameKey key then (e.1, value) :: rest else e :: put key value rest

/-- The entry of a mapping under a text key. -/
def get? (v : Value) (key : Text) : Option Value :=
  match v with
  | .map entries => lookup? (.text key) entries
  | _ => none

/-- Whether the value counts as given: not null, false, zero or empty. -/
def isTruthy : Value → Bool
  | .null => false
  | .bool b => b
  | .int i => i != 0
  | .float x => !(x == 0.0)
  | .text s => !s.isEmpty
  | .date _ | .moment _ => true
  | .list items => !items.isEmpty
  | .map entries => !entries.isEmpty

/-- The kind of the value as messages name it. -/
def typeName : Value → String
  | .null => "NoneType"
  | .bool _ => "bool"
  | .int _ => "int"
  | .float _ => "float"
  | .text _ => "str"
  | .date _ => "date"
  | .moment _ => "datetime"
  | .list _ => "list"
  | .map _ => "dict"

end Value

end FuzzyInference.Document
