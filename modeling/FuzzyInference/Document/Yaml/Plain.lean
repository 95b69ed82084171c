import FuzzyInference.Document.Yaml.Time

/-!
# The values of plain scalars

Plain scalars that look like truth values, nulls, numbers, dates or moments are such; all others
are texts.

* `wholeForm?`: whole numbers to the bases two, eight, ten and sixteen, and with parts of sixty;
* `decimalForm?`: decimal numbers, which need a point, also with parts of sixty;
* `plainValue`: the value of a plain scalar.
-/

namespace FuzzyInference.Document.Yaml

open FuzzyInference.Decimal

/-! ### Whole numbers -/

/-- A whole number to a base; low lines alone are none. -/
def based (base : Nat) (cs : List Char) : Except Fault Nat :=
  if (withoutLowLines cs).isEmpty then .error (.digitless base) else .ok (digitsValue base cs)

/-- A whole number to the base ten, the digits of which are limited. -/
def limited (cs : List Char) : Except Fault Nat :=
  let count := (withoutLowLines cs).length
  if count > maxDigits then .error (.numeral (.tooManyDigits count)) else .ok (digitsValue 10 cs)

/-- The magnitude of a whole number. -/
def wholeMagnitude? (cs : List Char) : Option (Except Fault Nat) :=
  match cs with
  | '0' :: 'b' :: rest =>
    if areDigits (fun c => c == '0' || c == '1') rest then some (based 2 rest) else none
  | '0' :: 'x' :: rest =>
    if areDigits (fun c => isDigit c || ('a' ≤ c && c ≤ 'f') || ('A' ≤ c && c ≤ 'F')) rest then
      some (based 16 rest)
    else none
  | '0' :: rest =>
    if rest.all fun c => ('0' ≤ c && c ≤ '7') || c == '_' then some (.ok (digitsValue 8 rest))
    else none
  | cs =>
    match colonParts cs with
    | first :: rest =>
      if leads isDigit first && rest.all isSixtieth then
        some ((limited first).map fun n =>
          rest.foldl (fun n part => 60 * n + digitsValue 10 part) n)
      else none
    | [] => none

/-- The whole number that a scalar looks like. -/
def wholeForm? (cs : List Char) : Option (Except Fault Int) :=
  let (negative, rest) := splitSign cs
  (wholeMagnitude? rest).map fun r =>
    r.map fun (n : Nat) => if negative then -(n : Int) else n

/-! ### Decimal numbers -/

/-- Whether the characters are nothing or an exponent, which has a sign. -/
def isExponent : List Char → Bool
  | [] => true
  | e :: sign :: digits =>
    (e == 'e' || e == 'E') && (sign == '+' || sign == '-') && !digits.isEmpty && digits.all isDigit
  | _ => false

/-- Whether the characters are digits and low lines with an exponent behind them or without. -/
def isFraction (cs : List Char) : Bool :=
  isExponent (cs.dropWhile fun c => isDigit c || c == '_')

/-- The double that the characters stand for, low lines left out. -/
def readPlain (cs : List Char) : Float :=
  (readFloat? (String.ofList (withoutLowLines cs))).getD (0.0 / 0.0)

/-- The value of parts of sixty, last one first, the last of which has a point; `base` is what a
one of the next part counts. -/
def sixtiethsValue (total : Float) (base : Int) : List (List Char) → Except Fault Float
  | [] => .ok total
  | part :: rest =>
    match ofInt? base with
    | none => .error .tooLarge
    | some b => sixtiethsValue (total + readPlain part * b) (base * 60) rest

/-- The magnitude of a decimal number. -/
def decimalMagnitude? (cs : List Char) : Option (Except Fault Float) :=
  let (whole, rest) := cs.span (· != '.')
  match rest with
  | _ :: places =>
    if leads isDigit whole && isFraction places then some (.ok (readPlain cs))
    else
      match colonParts whole with
      | first :: second :: more =>
        if leads isDigit first && (second :: more).all isSixtieth &&
            places.all fun c => isDigit c || c == '_' then
          some (sixtiethsValue 0.0 1 (colonParts cs).reverse)
        else none
      | _ => none
  | [] => none

/-- The decimal number that a scalar looks like. A number that begins with its point has no
sign. -/
def decimalForm? (cs : List Char) : Option (Except Fault Float) :=
  let (negative, rest) := splitSign cs
  let word := String.ofList rest
  if word == ".inf" || word == ".Inf" || word == ".INF" then
    some (.ok (if negative then -(1.0 / 0.0) else 1.0 / 0.0))
  else
    match cs with
    | '.' :: places =>
      if String.ofList places == "nan" || String.ofList places == "NaN" ||
          String.ofList places == "NAN" then some (.ok (0.0 / 0.0))
      else if places.head?.any isDigit && isFraction places then some (.ok (readPlain cs))
      else none
    | _ => (decimalMagnitude? rest).map fun r => r.map fun x => if negative then -x else x

/-! ### Values -/

/-- The words for the truth values. -/
def truthWords : List (String × Bool) := [
  ("yes", true), ("Yes", true), ("YES", true), ("no", false), ("No", false), ("NO", false),
  ("true", true), ("True", true), ("TRUE", true), ("false", false), ("False", false),
  ("FALSE", false), ("on", true), ("On", true), ("ON", true), ("off", false), ("Off", false),
  ("OFF", false)]

/-- The words for null. -/
def nullWords : List String := ["", "~", "null", "Null", "NULL"]

/-- The value of a plain scalar. -/
def plainValue (s : String) : Except Fault Value :=
  match truthWords.lookup s with
  | some b => .ok (.bool b)
  | none =>
    if nullWords.contains s then .ok .null
    else match decimalForm? s.toList with
      | some x => x.map .float
      | none => match wholeForm? s.toList with
        | some i => i.map .int
        | none => match timeForm? s.toList with
          | some v => v
          | none => .ok (.text s)

end FuzzyInference.Document.Yaml
