import FuzzyInference.Decimal.Binary
import FuzzyInference.Decimal.Layout

/-!
# Decimals of a given length

Reports show doubles with a fixed number of places or with a fixed number of significant digits.
Both are rounded from the exact binary value, a half to the even neighbour.

* `fixed`: so many places behind the point;
* `general`: so many significant digits, without trailing zeros;
* `padLeft`: text moved to the right end of a field.
-/

namespace FuzzyInference.Decimal

/-- The text with blanks before it up to the width. -/
def padLeft (width : Nat) (s : String) : String :=
  String.ofList (List.replicate (width - s.length) ' ' ++ s.toList)

/-- A sign in front of the text, where there is one. -/
def withSign (negative : Bool) (ds : List Char) : String :=
  String.ofList (if negative then '-' :: ds else ds)

/-- The digits of `n / 10 ^ places` with a point before the last `places` digits. -/
def pointed (places n : Nat) : List Char :=
  let ds := Nat.toDigits 10 n
  let ds := List.replicate (places + 1 - ds.length) '0' ++ ds
  let whole := ds.length - places
  if places = 0 then ds else ds.take whole ++ '.' :: ds.drop whole

/-- The double with so many places behind the point. -/
def fixed (places : Nat) (x : Float) : String :=
  match Binary.ofFloat x with
  | .notANumber => "nan"
  | .infinite negative => withSign negative "inf".toList
  | .finite negative m q =>
    let v := Fraction.ofBinary m q
    withSign negative (pointed places (roundDiv (v.num * tenTo places) v.den))

/-- The positive fraction rounded to so many significant digits. -/
def significant (precision : Nat) (v : Fraction) : Digits :=
  let unit := v.magnitude - precision + 1
  Digits.ofGrid (roundDiv (v.num * tenTo (-unit).toNat) (v.den * tenTo unit.toNat)) unit

/-- The double with so many significant digits at most. -/
def general (precision : Nat) (x : Float) : String :=
  match Binary.ofFloat x with
  | .notANumber => "nan"
  | .infinite negative => withSign negative "inf".toList
  | .finite negative m q =>
    if m = 0 then withSign negative ['0']
    else
      withSign negative
        ((Layout.general precision).write (significant precision (Fraction.ofBinary m q)))

end FuzzyInference.Decimal
