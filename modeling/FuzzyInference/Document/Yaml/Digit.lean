/-!
# Digits in plain scalars

Low lines may stand among the digits of a number; they do not count.

* `isDigit`, `digitOf`, `digitsValue`: the digits and the values of several of them;
* `areDigits`, `leads`: what a run of digits looks like;
* `colonParts`, `isSixtieth`: the parts of a number that counts in sixties.
-/

namespace FuzzyInference.Document.Yaml

def isDigit (c : Char) : Bool := '0' ≤ c && c ≤ '9'

/-- The value of a digit to any base up to sixteen. -/
def digitOf (c : Char) : Nat :=
  if isDigit c then c.toNat - 48
  else if 'a' ≤ c && c ≤ 'f' then c.toNat - 87
  else c.toNat - 55

/-- The characters without low lines. -/
def withoutLowLines (cs : List Char) : List Char := cs.filter (· != '_')

/-- The value of digits, low lines left out. -/
def digitsValue (base : Nat) (cs : List Char) : Nat :=
  (withoutLowLines cs).foldl (fun n c => base * n + digitOf c) 0

/-- Whether the characters are of a class or low lines, and there are some. -/
def areDigits (p : Char → Bool) (cs : List Char) : Bool :=
  !cs.isEmpty && cs.all fun c => p c || c == '_'

/-- Whether the characters are digits and low lines that begin with a digit of a class. -/
def leads (p : Char → Bool) : List Char → Bool
  | [] => false
  | c :: rest => p c && rest.all fun c => isDigit c || c == '_'

/-- A sign at the front and the characters behind it. -/
def splitSign : List Char → Bool × List Char
  | '-' :: rest => (true, rest)
  | '+' :: rest => (false, rest)
  | cs => (false, cs)

/-- The parts between colons. -/
def colonParts (cs : List Char) : List (List Char) := cs.splitOn ':'

/-- Whether the characters are a number below sixty in one or two digits. -/
def isSixtieth : List Char → Bool
  | [a] => isDigit a
  | [a, b] => '0' ≤ a && a ≤ '5' && isDigit b
  | _ => false

end FuzzyInference.Document.Yaml
