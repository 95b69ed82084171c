import FuzzyInference.Proofs.Curve.Center
import FuzzyInference.Proofs.Pairing
import Mathlib.Tactic.Linarith

/-!
# The centre of a curve in other units

If the abscissas of a curve are measured from another origin and in another unit, and its ordinates in
another unit, its area and moment change by the same factors, so that the centre is measured like an
abscissa. And the centre of a curve that runs to the right and lies above the axis is one of the
abscissas between its ends.

* `overPairs_map`, `overPairs_mul_left`, `overPairs_add`, `overPairs_le`: sums over neighbouring points;
* `area_affine`, `moment_affine`: area and moment in other units;
* `area_nonneg`, `moment_between`: area and moment of a curve that runs to the right and lies above the
  axis;
* `affine`, `center_affine`: **the centre in other units, and where it lies**.
-/

namespace FuzzyInference.Curve

open Exact (number nan)

/-! ### Sums over neighbouring points -/

section
variable {term : ℚ → ℚ → ℚ → ℚ → ℚ}

theorem overPairs_map (f g : ℚ → ℚ) : ∀ xs ys : List ℚ,
    overPairs term (xs.map f) (ys.map g) =
      overPairs (fun x₁ x₂ y₁ y₂ => term (f x₁) (f x₂) (g y₁) (g y₂)) xs ys
  | x₁ :: x₂ :: xs, y₁ :: y₂ :: ys =>
    congrArg (term (f x₁) (f x₂) (g y₁) (g y₂) + ·) (overPairs_map f g (x₂ :: xs) (y₂ :: ys))
  | [], _ | [_], _ | _ :: _ :: _, [] | _ :: _ :: _, [_] => rfl

theorem overPairs_mul_left (p : ℚ) : ∀ xs ys : List ℚ,
    overPairs (fun x₁ x₂ y₁ y₂ => p * term x₁ x₂ y₁ y₂) xs ys = p * overPairs term xs ys
  | x₁ :: x₂ :: xs, y₁ :: y₂ :: ys => by
    rw [overPairs, overPairs, overPairs_mul_left p (x₂ :: xs) (y₂ :: ys), mul_add]
  | [], _ | [_], _ | _ :: _ :: _, [] | _ :: _ :: _, [_] => (mul_zero p).symm

theorem overPairs_add {term' : ℚ → ℚ → ℚ → ℚ → ℚ} : ∀ xs ys : List ℚ,
    overPairs (fun x₁ x₂ y₁ y₂ => term x₁ x₂ y₁ y₂ + term' x₁ x₂ y₁ y₂) xs ys =
      overPairs term xs ys + overPairs term' xs ys
  | x₁ :: x₂ :: xs, y₁ :: y₂ :: ys => by
    rw [overPairs, overPairs, overPairs, overPairs_add (x₂ :: xs) (y₂ :: ys), add_add_add_comm]
  | [], _ | [_], _ | _ :: _ :: _, [] | _ :: _ :: _, [_] => (add_zero 0).symm

/-- Terms are compared pair by pair, where the abscissas ascend between bounds and the ordinates are
not below zero. -/
theorem overPairs_le {term' : ℚ → ℚ → ℚ → ℚ → ℚ} {lo hi : ℚ}
    (h : ∀ x₁ x₂ y₁ y₂, lo ≤ x₁ → x₁ ≤ x₂ → x₂ ≤ hi → 0 ≤ y₁ → 0 ≤ y₂ →
      term x₁ x₂ y₁ y₂ ≤ term' x₁ x₂ y₁ y₂) : ∀ {xs ys : List ℚ}, xs.Pairwise (· ≤ ·) →
    (∀ x ∈ xs, lo ≤ x ∧ x ≤ hi) → (∀ y ∈ ys, 0 ≤ y) →
      overPairs term xs ys ≤ overPairs term' xs ys
  | x₁ :: x₂ :: xs, y₁ :: y₂ :: ys, hsorted, hxs, hys => by
    obtain ⟨hx₁, hxs'⟩ := List.forall_mem_cons.mp hxs
    obtain ⟨hy₁, hys'⟩ := List.forall_mem_cons.mp hys
    obtain ⟨hfirst, hsorted'⟩ := List.pairwise_cons.mp hsorted
    have hpair := h x₁ x₂ y₁ y₂ hx₁.1 (hfirst x₂ (by simp)) (hxs' x₂ (by simp)).2 hy₁
      (hys' y₂ (by simp))
    exact add_le_add hpair (overPairs_le h hsorted' hxs' hys')
  | [], _, _, _, _ | [_], _, _, _, _ | _ :: _ :: _, [], _, _, _ | _ :: _ :: _, [_], _, _, _ => le_rfl

end

/-! ### Other units -/

theorem area_affine (a b c : ℚ) (xs ys : List ℚ) :
    area (xs.map fun x => a * x + b) (ys.map fun y => c * y) = a * c * area xs ys := by
  have hterm : (fun x₁ x₂ y₁ y₂ => trapezoidArea (a * x₁ + b) (a * x₂ + b) (c * y₁) (c * y₂)) =
      fun x₁ x₂ y₁ y₂ => a * c * trapezoidArea x₁ x₂ y₁ y₂ := by
    funext x₁ x₂ y₁ y₂
    unfold trapezoidArea
    ring
  unfold area
  rw [overPairs_map, hterm, overPairs_mul_left]

theorem moment_affine (a b c : ℚ) (xs ys : List ℚ) :
    moment (xs.map fun x => a * x + b) (ys.map fun y => c * y) =
      a * c * (a * moment xs ys + b * area xs ys) := by
  have hterm : (fun x₁ x₂ y₁ y₂ => trapezoidMoment (a * x₁ + b) (a * x₂ + b) (c * y₁) (c * y₂)) =
      fun x₁ x₂ y₁ y₂ =>
        a * c * (a * trapezoidMoment x₁ x₂ y₁ y₂ + b * trapezoidArea x₁ x₂ y₁ y₂) := by
    funext x₁ x₂ y₁ y₂
    unfold trapezoidMoment trapezoidArea
    ring
  unfold moment area
  rw [overPairs_map, hterm, overPairs_mul_left, overPairs_add, overPairs_mul_left,
    overPairs_mul_left]

/-! ### Curves that run to the right -/

theorem trapezoidArea_nonneg {x₁ x₂ y₁ y₂ : ℚ} (hx : x₁ ≤ x₂) (hy₁ : 0 ≤ y₁) (hy₂ : 0 ≤ y₂) :
    0 ≤ trapezoidArea x₁ x₂ y₁ y₂ :=
  mul_nonneg (by linarith) (sub_nonneg.mpr hx)

section
variable {xs ys : List ℚ} {lo hi : ℚ} (hsorted : xs.Pairwise (· ≤ ·))
  (hxs : ∀ x ∈ xs, lo ≤ x ∧ x ≤ hi) (hys : ∀ y ∈ ys, 0 ≤ y)
include hsorted hxs hys

theorem area_nonneg : 0 ≤ area xs ys := by
  have hle : overPairs (fun x₁ x₂ y₁ y₂ => 0 * trapezoidArea x₁ x₂ y₁ y₂) xs ys ≤ area xs ys := by
    refine overPairs_le (fun x₁ x₂ y₁ y₂ _ hx _ hy₁ hy₂ => ?_) hsorted hxs hys
    rw [zero_mul]
    exact trapezoidArea_nonneg hx hy₁ hy₂
  rwa [overPairs_mul_left, zero_mul] at hle

/-- The moment lies between what it would be if all of the area were at one bound of the abscissas. -/
theorem moment_between : lo * area xs ys ≤ moment xs ys ∧ moment xs ys ≤ hi * area xs ys := by
  unfold area moment
  rw [← overPairs_mul_left, ← overPairs_mul_left]
  constructor
  · refine overPairs_le (fun x₁ x₂ y₁ y₂ hlo hx _ hy₁ hy₂ => ?_) hsorted hxs hys
    exact mul_le_mul_of_nonneg_right (by linarith) (trapezoidArea_nonneg hx hy₁ hy₂)
  · refine overPairs_le (fun x₁ x₂ y₁ y₂ _ hx hhi hy₁ hy₂ => ?_) hsorted hxs hys
    exact mul_le_mul_of_nonneg_right (by linarith) (trapezoidArea_nonneg hx hy₁ hy₂)

end

/-! ### The centre -/

/-- The curve in other units: its abscissas are multiplied by `a` and moved by `b`, its ordinates are
multiplied by `c`. -/
def affine (a b c : ℚ) (k : Curve Exact) : Curve Exact :=
  ⟨k.xs.map fun x => number a * x + number b, k.ys.map fun y => number c * y⟩

theorem affine_number (a b c : ℚ) (xs ys : List ℚ) :
    affine a b c ⟨xs.map number, ys.map number⟩ =
      ⟨(xs.map fun x => a * x + b).map number, (ys.map fun y => c * y).map number⟩ := by
  unfold affine
  rw [List.map_map, List.map_map, List.map_map, List.map_map]
  rfl

/-- **The centre in other units** is the centre, multiplied and moved like an abscissa, and there is
none in other units exactly if there is none. If the curve runs to the right and lies above the axis,
its centre lies between its first and its last abscissa. -/
theorem center_affine {xs ys : List ℚ} (hlength : xs.length = ys.length) {a c : ℚ} (b : ℚ)
    (ha : a ≠ 0) (hc : c ≠ 0) :
    ∃ y, center ⟨xs.map number, ys.map number⟩ = .ok y ∧
      center (affine a b c ⟨xs.map number, ys.map number⟩) = .ok (number a * y + number b) ∧
      (number a * y + number b = nan ↔ y = nan) ∧
      (xs.Pairwise (· ≤ ·) → (∀ y ∈ ys, 0 ≤ y) → y ≠ nan →
        ∃ first last q, xs.head? = some first ∧ xs.getLast? = some last ∧ y = number q ∧
          first ≤ q ∧ q ≤ last) := by
  have hlength' : (xs.map fun x => a * x + b).length = (ys.map fun y => c * y).length := by simpa
  refine ⟨_, center_number hlength, ?_, ?_, fun hsorted hys hy => ?_⟩
  · rw [affine_number, center_number hlength', area_affine, moment_affine]
    by_cases harea : area xs ys = 0
    · rw [if_pos harea, if_pos (by rw [harea, mul_zero])]
      rfl
    · have hac : a * c ≠ 0 := mul_ne_zero ha hc
      rw [if_neg harea, if_neg (mul_ne_zero hac harea), mul_div_mul_left _ _ hac, add_div,
        mul_div_assoc, mul_div_cancel_right₀ _ harea]
      rfl
  · split_ifs with harea
    · exact iff_of_true rfl rfl
    · exact iff_of_false (fun h => by cases h) (fun h => by cases h)
  · have harea : area xs ys ≠ 0 := fun harea => hy (if_pos harea)
    have hne : xs ≠ [] := by
      rintro rfl
      exact harea rfl
    have hxs : ∀ x ∈ xs, xs.head hne ≤ x ∧ x ≤ xs.getLast hne := fun x hx =>
      ⟨hsorted.rel_head hx, hsorted.rel_getLast hx⟩
    obtain ⟨hfirst, hlast⟩ := moment_between hsorted hxs hys
    have hpos : 0 < area xs ys := lt_of_le_of_ne (area_nonneg hsorted hxs hys) (Ne.symm harea)
    refine ⟨xs.head hne, xs.getLast hne, _, List.head?_eq_some_head hne,
      List.getLast?_eq_some_getLast hne, if_neg harea, ?_, ?_⟩
    · rwa [le_div_iff₀ hpos]
    · rwa [div_le_iff₀ hpos]

/-- A curve that falls upright, turned about zero, moved, and turned upside down. -/
theorem center_affine_of_step :
    ∃ k : Curve Exact, k = ⟨[0, 1, 1, 3].map number, [1, 1, 0, 0].map number⟩ ∧
      k.center = .ok (number (1 / 2)) ∧ (affine (-2) 1 (-3) k).center = .ok (number 0) ∧
      ∃ first last : ℚ, [0, 1, 1, 3].head? = some first ∧ [0, 1, 1, 3].getLast? = some last ∧
        first ≤ 1 / 2 ∧ 1 / 2 ≤ last := by
  have hcenter : center ⟨[0, 1, 1, 3].map number, [1, 1, 0, 0].map number⟩ =
      .ok (number (1 / 2)) := ok_of_toOption (by decide +kernel)
  obtain ⟨y, hy, haffine, -, hbetween⟩ := @center_affine [0, 1, 1, 3] [1, 1, 0, 0] rfl (-2) (-3) 1
    (by decide) (by decide)
  obtain rfl : number (1 / 2) = y := Except.ok.inj (hcenter.symm.trans hy)
  obtain ⟨first, last, q, hfirst, hlast, hq, hle, hge⟩ :=
    hbetween (by decide) (by decide) Exact.noConfusion
  cases hq
  have hmoved : number (-2) * number (1 / 2) + number 1 = number 0 := by decide +kernel
  rw [hmoved] at haffine
  exact ⟨_, rfl, hcenter, haffine, first, last, hfirst, hlast, hle, hge⟩

end FuzzyInference.Curve
