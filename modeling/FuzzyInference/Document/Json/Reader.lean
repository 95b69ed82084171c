import FuzzyInference.Document.Value
import FuzzyInference.Decimal.Numeral

/-!
# Reading JSON

A JSON text is read into a document value. Beyond the standard, `NaN`, `Infinity` and `-Infinity`
are numbers; of equal keys the last one counts.

* `Fault`: what is wrong with a text and at which character;
* `Cursor`: the text that is left, and how many characters came before it;
* `value`: one value from a cursor;
* `read`: the value of a whole text.
-/

namespace FuzzyInference.Document.Json

open FuzzyInference.Decimal (NumeralFault nearest maxDigits)

/-- What is wrong with a JSON text. -/
inductive Fault where
  | byteOrderMark
  | value (index : Nat)
  | propertyName (index : Nat)
  | colon (index : Nat)
  | comma (index : Nat)
  | extraData (index : Nat)
  | openString (index : Nat)
  | controlCharacter (index : Nat)
  | escape (index : Nat)
  | hexEscape (index : Nat)
  /-- A whole number that is too long. -/
  | numeral (fault : NumeralFault)
  deriving Repr, DecidableEq

/-- The number of the line that holds the character at `index`, and its place in that line, both
counted from one. -/
def position (text : Text) (index : Nat) : Nat × Nat :=
  let before := text.toList.take index
  (before.count (.char '\n') + 1, (before.reverse.takeWhile (· != .char '\n')).length + 1)

/-- The wording of a fault at a place of the text. -/
def located (text : Text) (what : String) (index : Nat) : String :=
  let (line, column) := position text index
  s!"{what}: line {line} column {column} (char {index})"

/-- The wording of the fault. -/
def Fault.message (text : Text) : Fault → String
  | .byteOrderMark => located text "Unexpected UTF-8 BOM (decode using utf-8-sig)" 0
  | .value i => located text "Expecting value" i
  | .propertyName i => located text "Expecting property name enclosed in double quotes" i
  | .colon i => located text "Expecting ':' delimiter" i
  | .comma i => located text "Expecting ',' delimiter" i
  | .extraData i => located text "Extra data" i
  | .openString i => located text "Unterminated string starting at" i
  | .controlCharacter i => located text "Invalid control character at" i
  | .escape i => located text "Invalid \\escape" i
  | .hexEscape i => located text "Invalid \\uXXXX escape" i
  | .numeral f => f.message

/-- Whether the text is no JSON; a number that is too long is no fault of that kind. -/
def Fault.isSyntax : Fault → Bool
  | .numeral _ => false
  | _ => true

/-- A place in a text. -/
structure Cursor where
  rest : List CodePoint
  index : Nat

namespace Cursor

/-- The cursor `n` characters further. -/
def drop (c : Cursor) (n : Nat) : Cursor := ⟨c.rest.drop n, c.index + n⟩

def isSpace (c : Char) : Bool := c == ' ' || c == '\t' || c == '\n' || c == '\r'

/-- The cursor at the next character that is no space. -/
def skip (c : Cursor) : Cursor := c.drop (c.rest.takeWhile (·.is isSpace)).length

end Cursor

/-! ### Strings -/

/-- The value of a hexadecimal digit. -/
def hexDigit? (c : Char) : Option Nat :=
  if '0' ≤ c ∧ c ≤ '9' then some (c.toNat - 48)
  else if 'a' ≤ c ∧ c ≤ 'f' then some (c.toNat - 87)
  else if 'A' ≤ c ∧ c ≤ 'F' then some (c.toNat - 55)
  else none

/-- The value of hexadecimal digits. -/
def hexValue? (cs : List CodePoint) : Option Nat :=
  cs.foldlM (fun n c => do return 16 * n + (← hexDigit? (← c.char?))) 0

/-- The value of four hexadecimal digits at the front. -/
def fourHex? (cs : List CodePoint) : Option Nat :=
  if cs.length < 4 then none else hexValue? (cs.take 4)

/-- The character that a letter behind a backslash stands for. -/
def shortEscape? (c : CodePoint) : Option CodePoint :=
  if c = '"' || c = '\\' || c = '/' then some c
  else if c = 'b' then some '\x08'
  else if c = 'f' then some '\x0c'
  else if c = 'n' then some '\n'
  else if c = 'r' then some '\r'
  else if c = 't' then some '\t'
  else none

/-- The code point of a numbered escape whose digits start at the cursor, and the cursor behind it.
The two escapes of a pair are read together. -/
def numberedEscape (c : Cursor) : Except Fault (CodePoint × Cursor) :=
  if c.rest.length ≤ 4 then .error (.hexEscape (c.index - 1))
  else match fourHex? c.rest with
    | none => .error (.hexEscape (c.index - 1))
    | some high =>
      let single := (CodePoint.ofNumber high, c.drop 4)
      if CodePoint.isFirstHalf high && c.rest.length > 10 then
        match c.rest.drop 4 with
        | .char '\\' :: .char 'u' :: digits =>
          match fourHex? digits with
          | none => .error (.hexEscape (c.index + 5))
          | some low =>
            if CodePoint.isSecondHalf low then .ok (CodePoint.joinHalves high low, c.drop 10)
            else .ok single
        | _ => .ok single
      else .ok single

/-- The rest of a string that was opened at `start`; `done` holds its code points, last one
first. -/
def stringFrom (start : Nat) (fuel : Nat) (done : List CodePoint) (c : Cursor) :
    Except Fault (Text × Cursor) :=
  match fuel, c.rest with
  | 0, _ | _, [] => .error (.openString start)
  | fuel + 1, ch :: _ =>
    if ch = '"' then .ok (.ofList done.reverse, c.drop 1)
    else if ch = '\\' then
      match c.rest.drop 1 with
      | [] => .error (.openString start)
      | .char 'u' :: _ =>
        match numberedEscape (c.drop 2) with
        | .error f => .error f
        | .ok (decoded, c) => stringFrom start fuel (decoded :: done) c
      | e :: _ =>
        match shortEscape? e with
        | none => .error (.escape c.index)
        | some decoded => stringFrom start fuel (decoded :: done) (c.drop 2)
    else if ch.number ≤ 0x1f then .error (.controlCharacter c.index)
    else stringFrom start fuel (ch :: done) (c.drop 1)

/-! ### Numbers -/

def isDigit (c : Char) : Bool := '0' ≤ c && c ≤ '9'

def digitsValue (ds : List CodePoint) : Nat :=
  ds.foldl (fun n d => 10 * n + (d.number - 48)) 0

/-- The digits at the front. -/
def digitsOf (cs : List CodePoint) : List CodePoint := cs.takeWhile (·.is isDigit)

/-- The digits of a whole number at the front: a zero stands alone. -/
def wholeDigits : List CodePoint → List CodePoint
  | .char '0' :: _ => ['0']
  | cs => digitsOf cs

/-- An exponent at the front: its value and its length. -/
def exponentPart? : List CodePoint → Option (Int × Nat)
  | c :: rest =>
    if c = 'e' || c = 'E' then
      let signLength := match rest with
        | .char '-' :: _ | .char '+' :: _ => 1
        | _ => 0
      let digits := digitsOf (rest.drop signLength)
      let size : Int := digitsValue digits
      let exponent := if rest.head? = some (.char '-') then -size else size
      if digits.isEmpty then none else some (exponent, 1 + signLength + digits.length)
    else none
  | [] => none

/-- A number at the cursor. -/
def number (c : Cursor) : Except Fault (Value × Cursor) :=
  let negative := c.rest.head? = some (.char '-')
  let body := if negative then c.drop 1 else c
  let whole := wholeDigits body.rest
  if whole.isEmpty then .error (.value c.index)
  else
    let c1 := body.drop whole.length
    let places := match c1.rest with
      | .char '.' :: rest => digitsOf rest
      | _ => []
    let c2 := if places.isEmpty then c1 else c1.drop (places.length + 1)
    match exponentPart? c2.rest with
    | some (e, n) =>
      let x := nearest (digitsValue (whole ++ places)) (e - places.length)
      .ok (.float (if negative then -x else x), c2.drop n)
    | none =>
      if places.isEmpty then
        if whole.length > maxDigits then .error (.numeral (.tooManyDigits whole.length))
        else
          let i : Int := digitsValue whole
          .ok (.int (if negative then -i else i), c2)
      else
        let x := nearest (digitsValue (whole ++ places)) (-(places.length : Int))
        .ok (.float (if negative then -x else x), c2)

/-! ### Values -/

/-- The words that stand for values. -/
def words : List (Text × Value) := [
  ("null", .null), ("true", .bool true), ("false", .bool false), ("NaN", .float (0.0 / 0.0)),
  ("Infinity", .float (1.0 / 0.0)), ("-Infinity", .float (-(1.0 / 0.0)))]

/-- A word or a number at the cursor. -/
def simple (c : Cursor) : Except Fault (Value × Cursor) :=
  match words.find? fun w => w.1.toList.isPrefixOf c.rest with
  | some (w, v) => .ok (v, c.drop w.length)
  | none => number c

mutual

/-- One value at the cursor, and the cursor behind it. -/
def value (fuel : Nat) (c : Cursor) : Except Fault (Value × Cursor) :=
  match fuel, c.rest with
  | 0, _ | _, [] => .error (.value c.index)
  | fuel + 1, ch :: _ =>
    if ch = '"' then
      (stringFrom c.index (c.rest.length + 1) [] (c.drop 1)).map fun (s, c) => (.text s, c)
    else if ch = '\x7b' then
      let inner := (c.drop 1).skip
      if inner.rest.head? = some (.char '\x7d') then .ok (.map [], inner.drop 1)
      else entries fuel [] inner
    else if ch = '[' then
      let inner := (c.drop 1).skip
      if inner.rest.head? = some (.char ']') then .ok (.list [], inner.drop 1)
      else items fuel [] inner
    else simple c

/-- The rest of a list; `done` holds its items, last one first. -/
def items (fuel : Nat) (done : List Value) (c : Cursor) : Except Fault (Value × Cursor) :=
  match fuel with
  | 0 => .error (.value c.index)
  | fuel + 1 =>
    match value fuel c with
    | .error f => .error f
    | .ok (v, c) =>
      let c := c.skip
      match c.rest with
      | .char ']' :: _ => .ok (.list (v :: done).reverse, c.drop 1)
      | .char ',' :: _ => items fuel (v :: done) (c.drop 1).skip
      | _ => .error (.comma c.index)

/-- The rest of a mapping after the entries `done`. -/
def entries (fuel : Nat) (done : List (Value × Value)) (c : Cursor) :
    Except Fault (Value × Cursor) :=
  match fuel, c.rest with
  | 0, _ => .error (.value c.index)
  | fuel + 1, .char '"' :: _ =>
    match stringFrom c.index (c.rest.length + 1) [] (c.drop 1) with
    | .error f => .error f
    | .ok (key, c) =>
      let c := c.skip
      match c.rest with
      | .char ':' :: _ =>
        match value fuel (c.drop 1).skip with
        | .error f => .error f
        | .ok (v, c) =>
          let c := c.skip
          let done := Value.put (.text key) v done
          match c.rest with
          | .char '\x7d' :: _ => .ok (.map done, c.drop 1)
          | .char ',' :: _ => entries fuel done (c.drop 1).skip
          | _ => .error (.comma c.index)
      | _ => .error (.colon c.index)
  | _ + 1, _ => .error (.propertyName c.index)

end

/-- The value of a JSON text. -/
def read (text : Text) : Except Fault Value :=
  let cs := text.toList
  if cs.head? = some (.char '\ufeff') then .error .byteOrderMark
  else
    match value (2 * cs.length + 2) (Cursor.skip ⟨cs, 0⟩) with
    | .error f => .error f
    | .ok (v, c) =>
      let c := c.skip
      if c.rest.isEmpty then .ok v else .error (.extraData c.index)

end FuzzyInference.Document.Json
