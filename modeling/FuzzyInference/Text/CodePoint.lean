/-!
# Code points

A text is made of characters and of halves. A character beyond U+FFFF may be written as two numbers,
the halves of a pair; where one of them stands without the other it makes up no character, but a
text may hold it all the same. A character and a half are never the same code point.

* `CodePoint`: a character or a half;
* `CodePoint.number`, `CodePoint.ofNumber`: code points as numbers below 0x110000;
* `CodePoint.is`: whether a code point is a character of some class;
* `isFirstHalf`, `isSecondHalf`, `joinHalves`: the numbers of a pair and the character that it makes
  up.
-/

namespace FuzzyInference

/-- Half of a pair, by its place among the numbers 0xd800 to 0xdfff. -/
abbrev Half := Fin 0x800

/-- What a text is made of. -/
inductive CodePoint where
  | char (c : Char)
  /-- Half of a pair. -/
  | half (h : Half)
  deriving Repr, DecidableEq

namespace CodePoint

instance : Coe Char CodePoint := ⟨.char⟩

/-- The number of the first half. -/
def firstHalf : Nat := 0xd800

/-- The number of a code point. -/
def number : CodePoint → Nat
  | .char c => c.toNat
  | .half h => firstHalf + h

/-- The code point of a number below 0x110000. -/
def ofNumber (n : Nat) : CodePoint :=
  if h : firstHalf ≤ n ∧ n - firstHalf < 0x800 then .half ⟨n - firstHalf, h.2⟩
  else .char (Char.ofNat n)

/-- The character that a code point is. -/
def char? : CodePoint → Option Char
  | .char c => some c
  | .half _ => none

/-- Whether the code point is a character of the class. -/
def is (p : Char → Bool) : CodePoint → Bool
  | .char c => p c
  | .half _ => false

def isFirstHalf (n : Nat) : Bool := 0xd800 ≤ n && n < 0xdc00

def isSecondHalf (n : Nat) : Bool := 0xdc00 ≤ n && n < 0xe000

/-- The character that a first and a second half make up. -/
def joinHalves (first second : Nat) : Char :=
  Char.ofNat (0x10000 + (first - 0xd800) * 0x400 + (second - 0xdc00))

end CodePoint

end FuzzyInference
