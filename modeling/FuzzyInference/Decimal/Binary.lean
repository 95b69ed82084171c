import FuzzyInference.Decimal.Power

/-!
# Binary values of doubles

A double is decoded into a sign, a whole mantissa and a power of two, so that its decimal digits
can be computed exactly.

* `Binary`: not a number, an infinity, or `± mantissa · 2 ^ exponent`;
* `Binary.ofFloat`: the decoding;
* `Fraction`: the magnitude of a finite value as a quotient of two natural numbers.
-/

namespace FuzzyInference.Decimal

/-- What a double stands for. -/
inductive Binary where
  | notANumber
  | infinite (negative : Bool)
  | finite (negative : Bool) (mantissa : Nat) (exponent : Int)
  deriving Repr, DecidableEq

/-- The decoding of a double. The smallest exponent is shared by the values without a leading one
bit. -/
def Binary.ofFloat (x : Float) : Binary :=
  let bits : Nat := x.toBits.toNat
  let negative := bits / twoTo 63 == 1
  let field : Nat := bits / twoTo 52 % twoTo 11
  let fraction : Nat := bits % twoTo 52
  if field = 2047 then
    if fraction = 0 then .infinite negative else .notANumber
  else if field = 0 then .finite negative fraction (-1074)
  else .finite negative (fraction + twoTo 52) ((field : Int) - 1075)

/-- A quotient of two natural numbers. -/
structure Fraction where
  num : Nat
  den : Nat

/-- The fraction `m · 2 ^ q`. -/
def Fraction.ofBinary (m : Nat) (q : Int) : Fraction := ⟨m * twoTo q.toNat, twoTo (-q).toNat⟩

/-- The quotient rounded to the nearest whole number, a half to the even one. -/
def roundDiv (num den : Nat) : Nat :=
  let whole := num / den
  let rest := 2 * (num % den)
  if rest > den || (rest = den && whole % 2 = 1) then whole + 1 else whole

/-- How many decimal digits `n` has; zero has one. -/
def digitCount (n : Nat) : Nat := (Nat.toDigits 10 n).length

/-- The exponent `k` with `10 ^ k ≤ x < 10 ^ (k + 1)` for a positive fraction `x`. -/
def Fraction.magnitude (x : Fraction) : Int :=
  if x.den ≤ x.num then (digitCount (x.num / x.den) : Int) - 1
  else
    let d := digitCount (x.den / x.num)
    if x.den ≤ x.num * tenTo (d - 1) then 1 - (d : Int) else -(d : Int)

end FuzzyInference.Decimal
