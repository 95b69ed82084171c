import FuzzyInference.Proofs.Curve.Superposition
import FuzzyInference.Proofs.Pairing

/-!
# The envelope of several functions

A superposition in terms of its functions alone. Its points divide the window, from the least of zero
and all starts to the greatest of zero and all finishes, into parts of one width. The ordinate at a
point is the greatest of the degrees there, and the centre is the mean of the points, each weighted
with its ordinate: although the area is summed up part by part, each point has the same share of it,
since both end points have none.

* `Curve.Envelope`: such points, with the greatest degrees at them; `Envelope.curve`;
* `exists_degreeAt_eq_top`: the greatest of several degrees is one of them;
* `superpose_envelope`: **the superposition of valid functions is their envelope, and its centre is
  a weighted mean.**
-/

namespace FuzzyInference.Curve

open Exact (number nan)

/-- Points `x 0, …, x n` that divide the window of functions into `n` parts of one width, each with
the greatest of the degrees there. -/
structure Envelope (fs : List (Membership Exact)) (n : ℕ) where
  x : ℕ → ℚ
  y : ℕ → ℚ
  first : IsLeast (insert 0 (starts fs)) (x 0)
  last : IsGreatest (insert 0 (finishes fs)) (x n)
  even : ∀ i < n, x (i + 1) - x i = (x n - x 0) / n
  attained : ∀ i ≤ n, ∃ f ∈ fs, f.degree (number (x i)) = number (y i)
  above : ∀ i ≤ n, ∀ f ∈ fs, ∃ d ≤ y i, f.degree (number (x i)) = number d

variable {fs : List (Membership Exact)}

/-- The curve through the points of an envelope. -/
def Envelope.curve {n : ℕ} (e : Envelope fs n) : Curve Exact :=
  ⟨(List.range (n + 1)).map fun i => number (e.x i),
    (List.range (n + 1)).map fun i => number (e.y i)⟩

/-- The greatest of several degrees is one of them. -/
theorem exists_degreeAt_eq_top : ∀ {fs : List (Membership Exact)}, (∀ f ∈ fs, f.Valid) →
    fs ≠ [] → ∀ x : ℚ, ∃ f ∈ fs, f.degreeAt x = top fs x
  | [f], hfs, _, x =>
    ⟨f, List.mem_cons_self, (max_eq_left ((hfs f List.mem_cons_self).degreeAt_nonneg x)).symm⟩
  | f :: g :: fs, hfs, _, x => by
    obtain ⟨k, hk, hkx⟩ := exists_degreeAt_eq_top
      (fun k hk => hfs k (List.mem_cons_of_mem f hk)) (List.cons_ne_nil g fs) x
    rcases max_choice (f.degreeAt x) (top (g :: fs) x) with hfirst | hrest
    · exact ⟨f, List.mem_cons_self, hfirst.symm⟩
    · exact ⟨k, List.mem_cons_of_mem f hk, hkx.trans hrest.symm⟩

/-- **The superposition of at least two valid functions is their envelope.** Its centre is the mean of
the points, each weighted with its ordinate; there is none exactly if no point has a weight. -/
theorem superpose_envelope {steps : Int} (hfs : ∀ f ∈ fs, f.Valid) (hlen : 2 ≤ fs.length)
    (hsteps : 1 ≤ steps) :
    ∃ (e : Envelope fs steps.toNat) (m : Exact), superpose fs steps = .ok e.curve ∧
      e.curve.center = .ok m ∧ (m = nan ↔ ∀ i ≤ steps.toNat, e.y i = 0) ∧
      (m ≠ nan → m = number ((∑ i ∈ Finset.range (steps.toNat + 1), e.x i * e.y i) /
        ∑ i ∈ Finset.range (steps.toNat + 1), e.y i)) := by
  obtain ⟨lo, hi, hlo, hhi, hridge⟩ := exists_ridge hfs hlen hsteps
  have hne : fs ≠ [] := List.ne_nil_of_length_pos (by omega)
  let e : Envelope fs steps.toNat :=
    { x := point lo hi steps
      y := fun i => top fs (point lo hi steps i)
      first := by rwa [point_zero]
      last := by rwa [point_last lo hi hsteps]
      even := fun i _ => by
        rw [point_succ_sub, point_last lo hi hsteps, point_zero, cast_toNat hsteps]
      attained := fun i _ => by
        obtain ⟨f, hf, htop⟩ := exists_degreeAt_eq_top hfs hne (point lo hi steps i)
        exact ⟨f, hf, by rw [(hfs f hf).degree_eq, htop]⟩
      above := fun i _ f hf =>
        ⟨_, (top_le_iff.mp le_rfl).2 f hf, (hfs f hf).degree_eq (point lo hi steps i)⟩ }
  have hcurve : ridge fs lo hi steps = e.curve := by
    unfold ridge Envelope.curve
    rw [List.map_map, List.map_map]
    rfl
  rw [hcurve] at hridge
  refine ⟨e, _, hridge, hcurve ▸ center_ridge hfs hlo hhi hsteps, ?_, fun hm => ?_⟩
  · have hweight : ∑ i ∈ Finset.range (steps.toNat + 1), top fs (point lo hi steps i) = 0 ↔
        ∀ i ≤ steps.toNat, e.y i = 0 := by
      rw [Finset.sum_eq_zero_iff_of_nonneg fun i _ => top_nonneg _ _]
      exact forall_congr' fun i => by rw [Finset.mem_range, Nat.lt_succ_iff]
    rw [← hweight]
    split_ifs with hsum
    · exact iff_of_true rfl hsum
    · exact iff_of_false (fun h => by cases h) hsum
  · exact if_neg fun hsum => hm (if_pos hsum)

/-- A triangle and a function with an upright flank, sampled at four points. -/
theorem superpose_envelope_of_two :
    let fs : List (Membership Exact) := [⟨number 0, number 1, number 1, number 2, number 1⟩,
      ⟨number (-1), number (-1), number 0, number 1, number (1 / 2)⟩]
    (∀ f ∈ fs, f.Valid) ∧ ∃ e : Envelope fs 3, superpose fs 3 = .ok e.curve ∧
      e.curve.center = .ok (number (2 / 3)) ∧ e.x 0 = -1 ∧ e.x 3 = 2 := by
  intro fs
  have hfs : ∀ f ∈ fs, f.Valid := List.forall_mem_cons.mpr ⟨rfl,
    List.forall_mem_singleton.mpr (Membership.valid_iff.mpr
      ⟨⟨rfl, rfl, rfl⟩, by decide +kernel, by decide +kernel⟩)⟩
  obtain ⟨e, m, he, hm, hnan, hmean⟩ := superpose_envelope hfs le_rfl (show 1 ≤ (3 : Int) by decide)
  have hpoints : superpose fs 3 = .ok ⟨[number (-1), number 0, number 1, number 2],
      [number 0, number (1 / 2), number 1, number 0]⟩ := ok_of_toOption (by decide +kernel)
  have hcurve := Except.ok.inj (he.symm.trans hpoints)
  obtain ⟨hx₀, hx₁, hx₂, hx₃⟩ : e.x 0 = -1 ∧ e.x 1 = 0 ∧ e.x 2 = 1 ∧ e.x 3 = 2 := by
    simpa [Envelope.curve, List.range_succ] using congrArg Curve.xs hcurve
  obtain ⟨hy₀, hy₁, hy₂, hy₃⟩ : e.y 0 = 0 ∧ e.y 1 = 1 / 2 ∧ e.y 2 = 1 ∧ e.y 3 = 0 := by
    simpa [Envelope.curve, List.range_succ] using congrArg Curve.ys hcurve
  have hweight : m ≠ nan := fun h => by
    have hzero := hnan.mp h 2 (by decide)
    rw [hy₂] at hzero
    exact one_ne_zero hzero
  refine ⟨hfs, e, he, ?_, hx₀, hx₃⟩
  simp only [Finset.sum_range_succ, Finset.sum_range_zero, Int.reduceToNat, hx₀, hx₁, hx₂, hx₃,
    hy₀, hy₁, hy₂, hy₃] at hmean
  rw [hm, hmean hweight]
  norm_num

end FuzzyInference.Curve
