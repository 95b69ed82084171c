import FuzzyInference.Document.Value
import FuzzyInference.Decimal.Binary
import FuzzyInference.Decimal.Numeral

/-!
# Values as numbers

Truth values, numbers and numerals count as numbers; all other values do not.

* `NumberFault`: why a value is no number of the wanted kind;
* `Value.toFloat`, `Value.toInteger`: the number.
-/

namespace FuzzyInference.Document

open FuzzyInference.Decimal

/-- Why a value is no number of the wanted kind. -/
inductive NumberFault where
  | numeral (fault : NumeralFault)
  | notNumeric
  | wholeOfNaN
  | wholeOfInfinity
  | tooLarge
  deriving Repr, DecidableEq

/-- The wording of the fault. -/
def NumberFault.message : NumberFault → String
  | .numeral f => f.message
  | .notNumeric => "a number is needed"
  | .wholeOfNaN => "cannot convert float NaN to integer"
  | .wholeOfInfinity => "cannot convert float infinity to integer"
  | .tooLarge => "int too large to convert to float"

/-- The whole part of a double. -/
def truncate (x : Float) : Except NumberFault Int :=
  match Binary.ofFloat x with
  | .notANumber => .error .wholeOfNaN
  | .infinite _ => .error .wholeOfInfinity
  | .finite negative m q =>
    let whole : Nat := m * twoTo q.toNat / twoTo (-q).toNat
    .ok (if negative then -(whole : Int) else whole)

namespace Value

/-- The value as a double. -/
def toFloat : Value → Except NumberFault Float
  | .bool b => .ok (if b then 1.0 else 0.0)
  | .int i => match ofInt? i with
    | some x => .ok x
    | none => .error .tooLarge
  | .float x => .ok x
  | .text s => (readFloat s).mapError .numeral
  | _ => .error .notNumeric

/-- The value as a whole number; decimal numbers lose their places. -/
def toInteger : Value → Except NumberFault Int
  | .bool b => .ok (if b then 1 else 0)
  | .int i => .ok i
  | .float x => truncate x
  | .text s => (readInteger s).mapError .numeral
  | _ => .error .notNumeric

end Value

end FuzzyInference.Document
