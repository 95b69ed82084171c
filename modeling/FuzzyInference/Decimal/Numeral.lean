import FuzzyInference.Decimal.Power
import FuzzyInference.Text.Blank
import FuzzyInference.Text.Digit
import FuzzyInference.Text.Quoted

/-!
# Numerals

The texts that are read as numbers. Digits may be those of any script, a single low line may stand
between two digits, and blanks may stand around the numeral.

* `plainForm`: digits and blanks of all scripts replaced by those of ASCII;
* `digitGroup?`: a run of digits with low lines between them;
* `nearest`, `ofInt?`: the double nearest to a decimal, and to a whole number;
* `readInteger`: whole numbers, with the faults of a text that is none;
* `isWritable`, `writeInteger`: whole numbers that are short enough to be written out;
* `readFloat`: decimal numbers, infinities and not-a-number.
-/

namespace FuzzyInference.Decimal

open FuzzyInference.Text

/-- Why a text is no number, or a number has no text. -/
inductive NumeralFault where
  | notInteger (text : Text)
  | tooManyDigits (count : Nat)
  | notDecimal (text : Text)
  /-- A whole number that is not written out. -/
  | tooLong
  deriving Repr, DecidableEq

/-- How many digits the longest whole numbers have that are read and written. -/
def maxDigits : Nat := 4300

/-- The wording of the fault. A long text is cut when it is shown as no whole number. -/
def NumeralFault.message : NumeralFault → String
  | .notInteger text =>
    "invalid literal for int() with base 10: " ++ String.ofList ((quote text).toList.take 200)
  | .tooManyDigits count =>
    s!"Exceeds the limit ({maxDigits} digits) for integer string conversion: value has {count} " ++
      "digits; use sys.set_int_max_str_digits() to increase the limit"
  | .tooLong =>
    s!"Exceeds the limit ({maxDigits} digits) for integer string conversion; use " ++
      "sys.set_int_max_str_digits() to increase the limit"
  | .notDecimal text => s!"could not convert string to float: {quote text}"

/-- What is no part of a numeral and has no character. -/
def misfit : Char := '?'

/-- A character with its ASCII equivalent in numerals; other characters stay as they are. -/
def plainChar (c : Char) : Char :=
  if c.toNat < 127 then c
  else if isBlank c then ' '
  else match digitValue? c with
    | some d => Char.ofNat (48 + d)
    | none => c

/-- The blanks that may stand around a numeral. -/
def isNumeralBlank (c : Char) : Bool := c == ' ' || (9 ≤ c.toNat && c.toNat ≤ 13)

/-- The numeral without the blanks around it, in ASCII. -/
def plainForm (t : Text) : List Char :=
  trimWith isNumeralBlank (t.toList.map fun c => (c.char?.map plainChar).getD misfit)

/-- The value of an ASCII digit. -/
def asciiDigit? (c : Char) : Option Nat :=
  if '0' ≤ c ∧ c ≤ '9' then some (c.toNat - 48) else none

/-- A run of digits read so far: how many there are and their value. -/
structure DigitGroup where
  count : Nat
  value : Nat
  deriving Repr, DecidableEq

def DigitGroup.push (g : DigitGroup) (d : Nat) : DigitGroup := ⟨g.count + 1, 10 * g.value + d⟩

/-- The longest run of digits at the front, a low line being part of it only between two digits,
and the text behind it. -/
def digitRun (g : DigitGroup) : List Char → DigitGroup × List Char
  | [] => (g, [])
  | '_' :: c :: rest =>
    match asciiDigit? c with
    | some d => if g.count = 0 then (g, '_' :: c :: rest) else digitRun (g.push d) rest
    | none => (g, '_' :: c :: rest)
  | c :: rest =>
    match asciiDigit? c with
    | some d => digitRun (g.push d) rest
    | none => (g, c :: rest)

/-- A sign at the front: whether it is a minus, and the text behind it. -/
def splitSign : List Char → Bool × List Char
  | '-' :: rest => (true, rest)
  | '+' :: rest => (false, rest)
  | cs => (false, cs)

/-- The whole number that a text stands for. That its digits are too many is noticed before what
stands behind them, unless that is a low line. -/
def readInteger (s : Text) : Except NumeralFault Int :=
  let (negative, digits) := splitSign (plainForm s)
  let (g, rest) := digitRun ⟨0, 0⟩ digits
  if g.count = 0 || rest.head? = some '_' then .error (.notInteger s)
  else if g.count > maxDigits then .error (.tooManyDigits g.count)
  else if !rest.isEmpty then .error (.notInteger s)
  else .ok (if negative then -(g.value : Int) else g.value)

/-- Whether a whole number is short enough to be written out. -/
def isWritable (i : Int) : Bool := i.natAbs < tenTo maxDigits

/-- The digits of a whole number with its sign. -/
def writeInteger (i : Int) : Except NumeralFault String :=
  if isWritable i then .ok (toString i) else .error .tooLong

/-- A decimal numeral without its sign. -/
inductive Magnitude where
  | notANumber
  | infinite
  /-- The number `mantissa · 10 ^ exponent`. -/
  | scaled (mantissa : Nat) (exponent : Int)
  deriving Repr, DecidableEq

/-- The exponent at the end of a decimal numeral; without one it is zero. -/
def readExponent? : List Char → Option Int
  | [] => some 0
  | c :: rest =>
    if c = 'e' || c = 'E' then
      let (negative, digits) := splitSign rest
      let (g, rest) := digitRun ⟨0, 0⟩ digits
      if g.count = 0 || !rest.isEmpty then none
      else some (if negative then -(g.value : Int) else g.value)
    else none

/-- The names of the values that have no digits, in small letters. -/
def namedMagnitude? (cs : List Char) : Option Magnitude :=
  let name := String.ofList (cs.map Char.toLower)
  if name == "inf" || name == "infinity" then some .infinite
  else if name == "nan" then some .notANumber
  else none

/-- A decimal numeral without sign: digits, a point among them, an exponent behind them. -/
def readMagnitude? (cs : List Char) : Option Magnitude :=
  match namedMagnitude? cs with
  | some m => some m
  | none =>
    let (whole, rest) := digitRun ⟨0, 0⟩ cs
    match rest with
    | '.' :: rest =>
      let (part, rest) := digitRun ⟨0, 0⟩ rest
      if whole.count + part.count = 0 then none
      else (readExponent? rest).map fun e =>
        .scaled (whole.value * tenTo part.count + part.value) (e - part.count)
    | rest =>
      if whole.count = 0 then none else (readExponent? rest).map (.scaled whole.value)

/-- The double nearest to `mantissa · 10 ^ exponent`. Numbers far outside the range of doubles are
told by their length. -/
def nearest (mantissa : Nat) (exponent : Int) : Float :=
  if mantissa = 0 then 0.0
  else
    let size := (Nat.toDigits 10 mantissa).length + exponent
    if size > 310 then 1.0 / 0.0
    else if size < -400 then 0.0
    else Float.ofScientific mantissa (exponent < 0) exponent.natAbs

/-- The double nearest to a whole number, if there is a finite one. -/
def ofInt? (i : Int) : Option Float :=
  let x := nearest i.natAbs 0
  if x.isInf then none else some (if i < 0 then -x else x)

/-- The double that a numeral stands for. -/
def Magnitude.toFloat (negative : Bool) : Magnitude → Float
  | .notANumber => 0.0 / 0.0
  | .infinite => if negative then -(1.0 / 0.0) else 1.0 / 0.0
  | .scaled m e => if negative then -(nearest m e) else nearest m e

/-- The double that a text stands for, if it is a numeral. -/
def readFloat? (s : Text) : Option Float :=
  let (negative, cs) := splitSign (plainForm s)
  (readMagnitude? cs).map (·.toFloat negative)

/-- The double that a text stands for. -/
def readFloat (s : Text) : Except NumeralFault Float :=
  match readFloat? s with
  | some x => .ok x
  | none => .error (.notDecimal s)

end FuzzyInference.Decimal
