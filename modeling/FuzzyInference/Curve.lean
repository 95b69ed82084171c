import FuzzyInference.Connective
import FuzzyInference.Membership

/-!
# Curves

* `Curve`: a piecewise linear curve as its points;
* `Curve.sample`: a membership function over a window;
* `Curve.superpose`: the greatest of several functions, over a window that holds their supports
  and zero;
* `Curve.center`: the abscissa of the centre of the area below a curve.
-/

namespace FuzzyInference

/-- The abscissas and ordinates of the points of a curve. -/
structure Curve (α : Type) where
  xs : List α
  ys : List α
  deriving Repr, DecidableEq

namespace Curve

variable {α : Type} [Scalar α]

/-! ### Sampling -/

/-- The distance between two samples when a window is cut into so many steps. -/
def increment (low high : α) (steps : Int) : α :=
  Scalar.abs ((high - low) / Scalar.ofInt steps)

/-- The points at which a window is sampled, one more than there are steps. -/
def grid (low high : α) (steps : Int) : List α :=
  let d := increment low high steps
  (List.range (steps + 1).toNat).map fun i : Nat => low + d * Scalar.ofInt i

/-- The function sampled over the window from `low` to `high`. -/
def sample (low high : α) (steps : Int) (f : Membership α) : Except (Fault α) (Curve α) :=
  if steps = 0 then .error .noSteps
  else if !Scalar.inRange α steps then .error (.stepsOutOfRange steps)
  else
    let xs := grid low high steps
    .ok ⟨xs, xs.map f.degree⟩

/-! ### Superposition -/

/-- The smallest window that holds zero and the supports of all functions. -/
def window (fs : List (Membership α)) : α × α :=
  fs.foldl
    (fun (low, high) f =>
      (if Scalar.lt f.start low then f.start else low,
        if Scalar.lt high f.finish then f.finish else high))
    (Scalar.zero, Scalar.zero)

/-- The curve raised to the ordinates of more functions, one after the other. -/
def raise (low high : α) (steps : Int) (c : Curve α) :
    List (Membership α) → Except (Fault α) (Curve α)
  | [] => .ok c
  | f :: fs =>
    match sample low high steps f with
    | .error e => .error e
    | .ok d => raise low high steps ⟨c.xs, List.zipWith Connective.greater c.ys d.ys⟩ fs

/-- The greatest of at least two functions, sampled over their common window. -/
def superpose (fs : List (Membership α)) (steps : Int) : Except (Fault α) (Curve α) :=
  match fs with
  | [] | [_] => .error .tooFewFunctions
  | f :: rest =>
    let (low, high) := window fs
    match sample low high steps f with
    | .error e => .error e
    | .ok c => raise low high steps c rest

/-! ### The centre -/

/-- The moment and the area of a curve, added to those of what came before it. Each pair of
neighbouring points contributes a trapezoid, its moment taken about the middle of the pair. -/
def moments (moment area : α) : List α → List α → Except (Fault α) (α × α)
  | x₁ :: x₂ :: xs, y₁ :: y₂ :: ys =>
    let middle := Scalar.half * (x₁ + x₂)
    let part := Scalar.half * (y₁ + y₂) * (x₂ - x₁)
    moments (moment + middle * part) (area + part) (x₂ :: xs) (y₂ :: ys)
  | _ :: _ :: _, _ => .error .curveTooShort
  | _, _ => .ok (moment, area)

/-- The abscissa of the centre of the area below the curve; without area there is none. -/
def center (c : Curve α) : Except (Fault α) α :=
  match moments Scalar.zero Scalar.zero c.xs c.ys with
  | .error e => .error e
  | .ok (moment, area) =>
    .ok (if Scalar.eq area Scalar.zero then Scalar.nan else moment / area)

end Curve

end FuzzyInference
