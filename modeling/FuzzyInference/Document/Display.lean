import FuzzyInference.Decimal.Numeral
import FuzzyInference.Decimal.Shortest
import FuzzyInference.Document.Value
import FuzzyInference.Text.Quoted

/-!
# Values in messages

* `Value.literal`: a value as it stands in a message, text between quotes;
* `Value.display`: the same, but a text, date or moment as it is; this is how values become names;
* `Value.isWritable`: whether no whole number in a value is too long to be written out;
* `Value.toName`: the name that a value becomes, if it can be written.
-/

namespace FuzzyInference.Document.Value

open FuzzyInference

mutual

/-- The value as it stands in a message. -/
def literal : Value → String
  | .null => "None"
  | .bool b => if b then "True" else "False"
  | .int i => toString i
  | .float x => Decimal.write x
  | .text s => Text.quote s
  | .date d => d.literal
  | .moment m => m.literal
  | .list items => "[" ++ ", ".intercalate (literalItems items) ++ "]"
  | .map entries => "\x7b" ++ ", ".intercalate (literalEntries entries) ++ "\x7d"

/-- The items of a list as they stand in a message. -/
def literalItems : List Value → List String
  | [] => []
  | v :: rest => literal v :: literalItems rest

/-- The entries of a mapping as they stand in a message. -/
def literalEntries : List (Value × Value) → List String
  | [] => []
  | (k, v) :: rest => (literal k ++ ": " ++ literal v) :: literalEntries rest

end

/-- The value as a name: a text, date or moment as it is, any other value as in a message. -/
def display : Value → Text
  | .text s => s
  | .date d => d.display
  | .moment m => m.display
  | v => literal v

mutual

/-- Whether no whole number in the value is too long to be written out. -/
def isWritable : Value → Bool
  | .int i => Decimal.isWritable i
  | .list items => allWritable items
  | .map entries => entriesWritable entries
  | _ => true

/-- Whether no whole number in the values is too long to be written out. -/
def allWritable : List Value → Bool
  | [] => true
  | v :: rest => isWritable v && allWritable rest

/-- Whether no whole number in the entries is too long to be written out. -/
def entriesWritable : List (Value × Value) → Bool
  | [] => true
  | (k, v) :: rest => isWritable k && isWritable v && entriesWritable rest

end

/-- The name that the value becomes. -/
def toName (v : Value) : Except Decimal.NumeralFault Text :=
  if v.isWritable then .ok v.display else .error .tooLong

end FuzzyInference.Document.Value
