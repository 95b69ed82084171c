import FuzzyInference.Document.Value
import FuzzyInference.Document.Yaml.Digit
import FuzzyInference.Document.Yaml.Fault

/-!
# Dates and moments in plain scalars

A date is written `2001-02-03`. Behind a date, the month and day of which may then have one digit,
stands the time of a moment: `T`, `t` or blanks, and `4:05:06`, which may go on with a fraction and
with the offset of the clock, `Z` or `+1:30`.

* `dayForm?`, `clockForm?`, `offsetForm?`: the parts, with the text behind them;
* `timeForm?`: the date or moment that a scalar looks like.
-/

namespace FuzzyInference.Document.Yaml

open FuzzyInference.Calendar

/-- A number of at least `least` and at most `most` digits, and the text behind it. -/
def digits? (least most : Nat) (cs : List Char) : Option (Nat × List Char) :=
  let ds := (cs.take most).takeWhile isDigit
  if ds.length < least then none else some (digitsValue 10 ds, cs.drop ds.length)

/-- The text behind a character that has to come first. -/
def behind? (c : Char) : List Char → Option (List Char)
  | ch :: rest => if ch = c then some rest else none
  | [] => none

/-- A year, a month and a day. -/
def dayForm? (cs : List Char) : Option ((Nat × Nat × Nat) × List Char) := do
  let (year, cs) ← digits? 4 4 cs
  let (month, cs) ← digits? 1 2 (← behind? '-' cs)
  let (day, cs) ← digits? 1 2 (← behind? '-' cs)
  return ((year, month, day), cs)

/-- Behind a date, what separates it from a time. -/
def separated? : List Char → Option (List Char)
  | c :: rest =>
    if c = 'T' ∨ c = 't' then some rest
    else if c = ' ' ∨ c = '\t' then some (rest.dropWhile fun c => c == ' ' || c == '\t')
    else none
  | [] => none

/-- Millionths of a second behind a point; further digits do not count. -/
def fractionForm (cs : List Char) : Nat × List Char :=
  match cs with
  | '.' :: rest =>
    let ds := (rest.takeWhile isDigit).take 6
    (digitsValue 10 (ds ++ List.replicate (6 - ds.length) '0'), rest.dropWhile isDigit)
  | cs => (0, cs)

/-- Hours, minutes, seconds and millionths of a second. -/
def clockForm? (cs : List Char) : Option ((Nat × Nat × Nat × Nat) × List Char) := do
  let (hour, cs) ← digits? 1 2 cs
  let (minute, cs) ← digits? 2 2 (← behind? ':' cs)
  let (second, cs) ← digits? 2 2 (← behind? ':' cs)
  let (fraction, cs) := fractionForm cs
  return ((hour, minute, second, fraction), cs)

/-- The offset of a clock in minutes, which may be left out; nothing follows it. -/
def offsetForm? (cs : List Char) : Option (Option Int) :=
  match cs with
  | [] => some none
  | cs =>
    match cs.dropWhile fun c => c == ' ' || c == '\t' with
    | ['Z'] => some (some 0)
    | sign :: rest => do
      if sign ≠ '+' ∧ sign ≠ '-' then none
      else
        let (hours, rest) ← digits? 1 2 rest
        let (minutes, rest) ← match rest with
          | [] => some (0, [])
          | rest => do digits? 2 2 (← behind? ':' rest)
        let total : Int := 60 * hours + minutes
        if rest.isEmpty then some (some (if sign = '-' then -total else total)) else none
    | [] => none

/-- The moment of a day, a time and an offset in minutes. -/
def momentOf (day : Nat × Nat × Nat) (clock : Nat × Nat × Nat × Nat) (minutes : Option Int) :
    Except Calendar.Fault Moment := do
  let offset ← minutes.mapM Offset.make
  let date ← Date.make day.1 day.2.1 day.2.2
  Moment.make date clock.1 clock.2.1 clock.2.2.1 clock.2.2.2 offset

/-- The date or moment that a scalar looks like. -/
def timeForm? (cs : List Char) : Option (Except Fault Value) :=
  match dayForm? cs with
  | none => none
  | some (day, []) =>
    if cs.length = 10 then
      some (((Date.make day.1 day.2.1 day.2.2).mapError .time).map .date)
    else none
  | some (day, rest) => do
    let (clock, rest) ← clockForm? (← separated? rest)
    let minutes ← offsetForm? rest
    return ((momentOf day clock minutes).mapError .time).map .moment

end FuzzyInference.Document.Yaml
