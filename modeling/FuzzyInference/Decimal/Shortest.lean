import FuzzyInference.Decimal.Binary
import FuzzyInference.Decimal.Layout

/-!
# Shortest decimals

Documents and messages show a double by the fewest digits that read back as the same double, and
among those by the digits nearest to it.

* `Interval`: the decimals that read back as a given double, in units of a quarter of its last
  place;
* `onGrid?`: a point of the grid of one power of ten in that interval;
* `shortest`: the first grid that has one;
* `write`: the text of a double.
-/

namespace FuzzyInference.Decimal

/-- The interval of reals that round to `m · 2 ^ q`, in units of `2 ^ (q - 2)`. The gap below a
power of two is half as wide, and the ends belong to the interval if `m` is even. -/
structure Interval where
  low : Nat
  middle : Nat
  high : Nat
  closed : Bool

def Interval.ofBinary (m : Nat) (q : Int) : Interval where
  low := if m = twoTo 52 ∧ -1074 < q then 4 * m - 1 else 4 * m - 2
  middle := 4 * m
  high := 4 * m + 2
  closed := m % 2 = 0

/-- Whether `a / b` lies in the interval whose unit is one. -/
def Interval.holds (i : Interval) (a b : Nat) : Bool :=
  if i.closed then i.low * b ≤ a && a ≤ i.high * b else i.low * b < a && a < i.high * b

/-- A multiple of `10 ^ unit` in the interval of `m · 2 ^ q`, as its factor. Of two candidates the
nearer one is taken, and the even one if they are equally near. -/
def onGrid? (m : Nat) (q : Int) (unit : Int) : Option Nat :=
  let i := Interval.ofBinary m q
  let e := q - 2
  let a := tenTo unit.toNat * twoTo (-e).toNat
  let b := twoTo e.toNat * tenTo (-unit).toNat
  let c := i.middle * b / a
  let below := i.holds (c * a) b
  let above := i.holds ((c + 1) * a) b
  if below && above then some (roundDiv (i.middle * b) a)
  else if below then some c
  else if above then some (c + 1)
  else none

/-- The shortest decimal that reads back as `m · 2 ^ q`; seventeen digits always suffice. -/
def shortest (m : Nat) (q : Int) : Digits :=
  let k := (Fraction.ofBinary m q).magnitude
  let grids := (List.range 17).map fun n : Nat => k - (n : Int)
  match grids.findSome? fun unit => (onGrid? m q unit).map (Digits.ofGrid · unit) with
  | some d => d
  | none => Digits.ofGrid m 0

/-- The sign of a number in front of its digits. -/
def signed (negative : Bool) (ds : List Char) : String :=
  String.ofList (if negative then '-' :: ds else ds)

/-- The text of a double in a document or message. -/
def write (x : Float) : String :=
  match Binary.ofFloat x with
  | .notANumber => "nan"
  | .infinite negative => signed negative "inf".toList
  | .finite negative m q =>
    if m = 0 then signed negative "0.0".toList
    else signed negative (Layout.document.write (shortest m q))

end FuzzyInference.Decimal
