import FuzzyInference.Curve
import FuzzyInference.Proofs.Exact
import Mathlib.Algebra.BigOperators.Ring.Finset
import Mathlib.Algebra.Order.BigOperators.Group.Finset
import Mathlib.Tactic.Ring

/-!
# The centre of a curve of exact numbers

The moment and the area of a curve are sums over the pairs of neighbouring points. Where the points
are evenly spaced and the curve is zero at both ends, each point has the same share of both sums,
so the centre is the mean of the abscissas, each weighted with its ordinate.

* `Curve.overPairs`, `Curve.area`, `Curve.moment`: sums over neighbouring points;
* `center_number`: the centre of a curve;
* `center_evenly`: the centre of a curve of evenly spaced points that is zero at both ends;
* `weighted_mean_between`: a weighted mean lies strictly between bounds of what has weight.
-/

namespace FuzzyInference.Curve

open Exact (number nan)

/-! ### Sums over neighbouring points -/

/-- The sum of a term over all pairs of neighbouring points. -/
def overPairs (term : ℚ → ℚ → ℚ → ℚ → ℚ) : List ℚ → List ℚ → ℚ
  | x₁ :: x₂ :: xs, y₁ :: y₂ :: ys => term x₁ x₂ y₁ y₂ + overPairs term (x₂ :: xs) (y₂ :: ys)
  | _, _ => 0

/-- The area of a trapezoid. -/
def trapezoidArea (x₁ x₂ y₁ y₂ : ℚ) : ℚ := 1 / 2 * (y₁ + y₂) * (x₂ - x₁)

/-- The moment of a trapezoid, taken about its middle. -/
def trapezoidMoment (x₁ x₂ y₁ y₂ : ℚ) : ℚ := 1 / 2 * (x₁ + x₂) * trapezoidArea x₁ x₂ y₁ y₂

/-- The area below a curve. -/
def area : List ℚ → List ℚ → ℚ := overPairs trapezoidArea

/-- The moment of the area below a curve. -/
def moment : List ℚ → List ℚ → ℚ := overPairs trapezoidMoment

theorem moments_number : ∀ (xs ys : List ℚ) (m a : ℚ), xs.length = ys.length →
    moments (number m) (number a) (xs.map number) (ys.map number) =
      .ok (number (m + moment xs ys), number (a + area xs ys))
  | [], [], m, a, _ | [_], [_], m, a, _ => by
    show _ = Except.ok (number (m + 0), number (a + 0))
    rw [add_zero, add_zero]
    rfl
  | x₁ :: x₂ :: xs, y₁ :: y₂ :: ys, m, a, h => by
    have hstep : moments (number m) (number a) ((x₁ :: x₂ :: xs).map number)
        ((y₁ :: y₂ :: ys).map number) =
          moments (number (m + trapezoidMoment x₁ x₂ y₁ y₂))
            (number (a + trapezoidArea x₁ x₂ y₁ y₂)) ((x₂ :: xs).map number)
            ((y₂ :: ys).map number) := rfl
    rw [hstep, moments_number (x₂ :: xs) (y₂ :: ys) _ _ (Nat.succ.inj h), add_assoc, add_assoc]
    rfl

/-- **The centre of a curve** is the quotient of moment and area; without area there is none. -/
theorem center_number {xs ys : List ℚ} (h : xs.length = ys.length) :
    center ⟨xs.map number, ys.map number⟩ =
      .ok (if area xs ys = 0 then nan else number (moment xs ys / area xs ys)) := by
  have hmoments : moments Scalar.zero Scalar.zero (xs.map number) (ys.map number) =
      .ok (number (0 + moment xs ys), number (0 + area xs ys)) := moments_number xs ys 0 0 h
  rw [zero_add, zero_add] at hmoments
  unfold center
  dsimp only
  rw [hmoments]
  dsimp only
  by_cases harea : area xs ys = 0
  · have heq : Scalar.eq (number (area xs ys)) Scalar.zero = true := decide_eq_true harea
    rw [if_pos harea, if_pos heq]
    rfl
  · have heq : ¬ Scalar.eq (number (area xs ys)) Scalar.zero = true := fun h =>
      harea (of_decide_eq_true h)
    rw [if_neg harea, if_neg heq, Exact.div_number harea]

/-! ### Evenly spaced points -/

/-- The pairs of neighbours among the points `0, …, n` of two sequences. -/
theorem overPairs_range (term : ℚ → ℚ → ℚ → ℚ → ℚ) (n : ℕ) : ∀ x y : ℕ → ℚ,
    overPairs term ((List.range (n + 1)).map x) ((List.range (n + 1)).map y) =
      ∑ i ∈ Finset.range n, term (x i) (x (i + 1)) (y i) (y (i + 1)) := by
  induction n with
  | zero =>
    intro x y
    rfl
  | succ n ih =>
    intro x y
    have hsplit : ∀ (k : ℕ) (f : ℕ → ℚ), (List.range (k + 1)).map f =
        f 0 :: (List.range k).map fun i => f (i + 1) := by
      intro k f
      rw [List.range_succ_eq_map, List.map_cons, List.map_map]
      rfl
    have hrest := ih (fun i => x (i + 1)) fun i => y (i + 1)
    rw [hsplit n, hsplit n] at hrest
    rw [hsplit (n + 1), hsplit (n + 1), hsplit n, hsplit n, overPairs, hrest,
      Finset.sum_range_succ', add_comm]

section
variable {a d : ℚ} {y : ℕ → ℚ}

/-- The area below points at a distance of `d`: what the ends lack is half of their share. -/
theorem area_evenly (a d : ℚ) (y : ℕ → ℚ) (n : ℕ) :
    area ((List.range (n + 1)).map fun i : ℕ => a + d * i) ((List.range (n + 1)).map y) =
      d * (∑ i ∈ Finset.range (n + 1), y i - (y 0 + y n) / 2) := by
  unfold area
  rw [overPairs_range]
  unfold trapezoidArea
  induction n with
  | zero =>
    rw [Finset.sum_range_zero, Finset.sum_range_one]
    ring
  | succ n ih =>
    rw [Finset.sum_range_succ, ih, Finset.sum_range_succ _ (n + 1)]
    push_cast
    ring

/-- The moment about points at a distance of `d`, likewise. -/
theorem moment_evenly (a d : ℚ) (y : ℕ → ℚ) (n : ℕ) :
    moment ((List.range (n + 1)).map fun i : ℕ => a + d * i) ((List.range (n + 1)).map y) =
      d * (∑ i ∈ Finset.range (n + 1), (a + d * i) * y i -
        (y 0 * (a / 2 - d / 4) + y n * ((a + d * n) / 2 + d / 4))) := by
  unfold moment
  rw [overPairs_range]
  unfold trapezoidMoment trapezoidArea
  induction n with
  | zero =>
    rw [Finset.sum_range_zero, Finset.sum_range_one]
    push_cast
    ring
  | succ n ih =>
    rw [Finset.sum_range_succ, ih, Finset.sum_range_succ _ (n + 1)]
    push_cast
    ring

/-- **The centre of evenly spaced points** that is zero at both ends: the mean of the abscissas, each
weighted with its ordinate. Points that all coincide have no weight. -/
theorem center_evenly {n : ℕ} (hfirst : y 0 = 0) (hlast : y n = 0)
    (hdistinct : d = 0 → ∑ i ∈ Finset.range (n + 1), y i = 0) :
    center ⟨((List.range (n + 1)).map fun i : ℕ => a + d * i).map number,
        ((List.range (n + 1)).map y).map number⟩ =
      .ok (if ∑ i ∈ Finset.range (n + 1), y i = 0 then nan
        else number ((∑ i ∈ Finset.range (n + 1), (a + d * i) * y i) /
          ∑ i ∈ Finset.range (n + 1), y i)) := by
  have hlength : ((List.range (n + 1)).map fun i : ℕ => a + d * i).length =
      ((List.range (n + 1)).map y).length := by
    rw [List.length_map, List.length_map]
  rw [center_number hlength, area_evenly, moment_evenly, hfirst, hlast]
  simp only [add_zero, zero_div, zero_mul, sub_zero]
  by_cases hsum : ∑ i ∈ Finset.range (n + 1), y i = 0
  · rw [if_pos hsum, if_pos (by rw [hsum, mul_zero])]
  · have hd : d ≠ 0 := fun hd => hsum (hdistinct hd)
    rw [if_neg hsum, if_neg (mul_ne_zero hd hsum), mul_div_mul_left _ _ hd]

end

/-! ### Weighted means -/

/-- **A weighted mean** lies strictly between bounds of what has weight. -/
theorem weighted_mean_between {ι : Type} {s : Finset ι} {x y : ι → ℚ} {lo hi : ℚ}
    (hy : ∀ i ∈ s, 0 ≤ y i) (hsum : ∑ i ∈ s, y i ≠ 0)
    (hx : ∀ i ∈ s, 0 < y i → lo < x i ∧ x i < hi) :
    lo < (∑ i ∈ s, x i * y i) / ∑ i ∈ s, y i ∧ (∑ i ∈ s, x i * y i) / ∑ i ∈ s, y i < hi := by
  obtain ⟨j, hj, hne⟩ := Finset.exists_ne_zero_of_sum_ne_zero hsum
  have hjpos : 0 < y j := lt_of_le_of_ne (hy j hj) (Ne.symm hne)
  have hpos : 0 < ∑ i ∈ s, y i := Finset.sum_pos' hy ⟨j, hj, hjpos⟩
  have hcases : ∀ i ∈ s, y i = 0 ∨ 0 < y i := fun i hi => (hy i hi).eq_or_lt'
  constructor
  · rw [lt_div_iff₀ hpos, Finset.mul_sum]
    refine Finset.sum_lt_sum (fun i hi => ?_) ⟨j, hj, ?_⟩
    · rcases hcases i hi with h | h
      · rw [h, mul_zero, mul_zero]
      · exact mul_le_mul_of_nonneg_right (hx i hi h).1.le h.le
    · exact mul_lt_mul_of_pos_right (hx j hj hjpos).1 hjpos
  · rw [div_lt_iff₀ hpos, Finset.mul_sum]
    refine Finset.sum_lt_sum (fun i hi => ?_) ⟨j, hj, ?_⟩
    · rcases hcases i hi with h | h
      · rw [h, mul_zero, mul_zero]
      · exact mul_le_mul_of_nonneg_right (hx i hi h).2.le h.le
    · exact mul_lt_mul_of_pos_right (hx j hj hjpos).2 hjpos

end FuzzyInference.Curve
