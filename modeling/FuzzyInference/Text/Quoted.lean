import FuzzyInference.Text.Basic
import FuzzyInference.Text.Printable

/-!
# Quoted text

Text shown in messages stands between quotes and has no character that the reader could not see.
So it is a string, whatever the text.

* `quoteFor`: the quote that is chosen, a double one only where that saves escaping;
* `escapeChar`, `escape`: what is written for one character and for one code point;
* `quote`: the quoted text.
-/

namespace FuzzyInference.Text

/-- The digits of `n` in base sixteen, at least `width` of them. -/
def hexDigits (width n : Nat) : List Char :=
  let digits := Nat.toDigits 16 n
  List.replicate (width - digits.length) '0' ++ digits

/-- Text is put between single quotes, and between double ones if it holds single quotes only. -/
def quoteFor (t : Text) : Char :=
  if t.contains '\'' && !t.contains '"' then '"' else '\''

/-- What is written for `c` between two quotes `q`. -/
def escapeChar (q c : Char) : List Char :=
  if c = '\\' || c = q then ['\\', c]
  else if c = '\n' then ['\\', 'n']
  else if c = '\r' then ['\\', 'r']
  else if c = '\t' then ['\\', 't']
  else if c.toNat < 0x20 || c.toNat = 0x7f then '\\' :: 'x' :: hexDigits 2 c.toNat
  else if c.toNat < 0x7f || isPrintable c then [c]
  else if c.toNat < 0x100 then '\\' :: 'x' :: hexDigits 2 c.toNat
  else if c.toNat < 0x10000 then '\\' :: 'u' :: hexDigits 4 c.toNat
  else '\\' :: 'U' :: hexDigits 8 c.toNat

/-- What is written for a code point between two quotes `q`. -/
def escape (q : Char) : CodePoint → List Char
  | .char c => escapeChar q c
  | c => '\\' :: 'u' :: hexDigits 4 c.number

/-- The quoted form of a text. -/
def quote (t : Text) : String :=
  let q := quoteFor t
  String.ofList (q :: t.toList.flatMap (escape q) ++ [q])

end FuzzyInference.Text
