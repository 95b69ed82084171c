/-!
# Layout of decimal digits

A positive decimal number is a run of digits and a power of ten. It is written with a point among
its digits or, where that would take too many zeros, with one digit before the point and the power
of ten behind it.

* `Digits`: digits without trailing zeros and the exponent of the first of them;
* `Layout`: from which exponents on the second form is used, and how whole numbers end;
* `Layout.write`: the text.
-/

namespace FuzzyInference.Decimal

/-- The number `d₀.d₁d₂… · 10 ^ exponent`. -/
structure Digits where
  digits : List Char
  exponent : Int
  deriving Repr, DecidableEq

/-- The list without zeros at its end; one digit is kept. -/
def stripZeros (ds : List Char) : List Char :=
  match (ds.reverse.dropWhile (· == '0')).reverse with
  | [] => ds.take 1
  | kept => kept

/-- The number `c · 10 ^ unit`. -/
def Digits.ofGrid (c : Nat) (unit : Int) : Digits :=
  let ds := Nat.toDigits 10 c
  ⟨stripZeros ds, (ds.length : Int) - 1 + unit⟩

/-- How numbers are laid out. -/
structure Layout where
  /-- The least exponent of the form with a point among the digits. -/
  least : Int
  /-- The first exponent that is too large for it. -/
  limit : Int
  /-- What follows a whole number in that form. -/
  wholeEnd : List Char
  deriving Repr, DecidableEq

/-- Numbers in documents and messages: `1.0`, `1e+16`, `1e-05`. -/
def Layout.document : Layout := ⟨-4, 16, ['.', '0']⟩

/-- Numbers in tables, written with `precision` digits at most: `70`, `1e+06`. -/
def Layout.general (precision : Nat) : Layout := ⟨-4, precision, []⟩

/-- A power of ten: sign and at least two digits. -/
def writeExponent (e : Int) : List Char :=
  let ds := Nat.toDigits 10 e.natAbs
  'e' :: (if e < 0 then '-' else '+') :: (List.replicate (2 - ds.length) '0' ++ ds)

/-- The text of a positive number. -/
def Layout.write (layout : Layout) (x : Digits) : List Char :=
  if x.exponent < layout.least || layout.limit ≤ x.exponent then
    (match x.digits with
      | [] => []
      | [d] => [d]
      | d :: ds => d :: '.' :: ds) ++ writeExponent x.exponent
  else if x.exponent < 0 then
    '0' :: '.' :: (List.replicate (x.exponent.natAbs - 1) '0' ++ x.digits)
  else
    let whole := x.exponent.toNat + 1
    if x.digits.length ≤ whole then
      x.digits ++ List.replicate (whole - x.digits.length) '0' ++ layout.wholeEnd
    else x.digits.take whole ++ '.' :: x.digits.drop whole

end FuzzyInference.Decimal
