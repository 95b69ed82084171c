import FuzzyInference.Proofs.Membership

/-!
# The shape of a membership function

A valid function reaches a level in an interval, whichever of its corners coincide. So it is zero
outside its support, of its height on its level part, and nowhere else either; and between two points
it is never below the smaller of their degrees.

* `le_degreeAt_iff`: where a valid function reaches a level;
* `degreeAt_eq_zero_iff`, `degreeAt_eq_height_iff`: where it is zero and where it has its height;
* `Valid.min_degreeAt_le`: between two points;
* `Valid.degree_shape`: **the shape of a valid function**.
-/

namespace FuzzyInference.Membership

open Exact (number)

/-! ### Levels -/

/-- **Where a function reaches a level.** It is below its height, inside the support, and neither
flank is crossed; flanks are compared without division, so that upright ones need no case. -/
theorem le_degreeAt_iff {s l r e h q : ℚ} (hsl : s ≤ l) (hlr : l ≤ r) (hre : r ≤ e) (h0 : 0 ≤ h)
    (hq : 0 < q) (x : ℚ) :
    q ≤ degreeAt ⟨number s, number l, number r, number e, number h⟩ x ↔
      q ≤ h ∧ (s < x ∧ x < e) ∧ q * (l - s) ≤ h * (x - s) ∧ q * (e - r) ≤ h * (e - x) := by
  unfold degreeAt
  rw [degree_number]
  show q ≤ ite _ _ _ ↔ _
  by_cases hin : s < x ∧ x < e
  · rw [if_pos hin]
    -- Each of the two flanks is met by a level that is not above the height, on its inner side.
    have hrising : q ≤ h → l ≤ x → q * (l - s) ≤ h * (x - s) := fun hqh hlx =>
      mul_le_mul hqh (sub_le_sub_right hlx s) (sub_nonneg.mpr hsl) h0
    have hfalling : q ≤ h → x ≤ r → q * (e - r) ≤ h * (e - x) := fun hqh hxr =>
      mul_le_mul hqh (sub_le_sub_left hxr e) (sub_nonneg.mpr hre) h0
    split_ifs with htop hl
    · constructor
      · intro hqh
        exact ⟨hqh, hin, hrising hqh htop.1, hfalling hqh htop.2⟩
      · intro hall
        exact hall.1
    · have hwidth : 0 < l - s := sub_pos.mpr (hin.1.trans hl)
      rw [le_div_iff₀ hwidth]
      constructor
      · intro hflank
        have hqh : q ≤ h := le_of_mul_le_mul_right
          (hflank.trans (mul_le_mul_of_nonneg_left (sub_le_sub_right hl.le s) h0)) hwidth
        exact ⟨hqh, hin, hflank, hfalling hqh (hl.le.trans hlr)⟩
      · intro hall
        exact hall.2.2.1
    · have hr : r < x := not_le.mp fun hr => htop ⟨not_lt.mp hl, hr⟩
      have hwidth : 0 < e - r := sub_pos.mpr (hr.trans hin.2)
      rw [le_div_iff₀ hwidth]
      constructor
      · intro hflank
        have hqh : q ≤ h := le_of_mul_le_mul_right
          (hflank.trans (mul_le_mul_of_nonneg_left (sub_le_sub_left hr.le e) h0)) hwidth
        exact ⟨hqh, hin, hrising hqh (hlr.trans hr.le), hflank⟩
      · intro hall
        exact hall.2.2.2
  · rw [if_neg hin]
    constructor
    · intro hle
      exact absurd hq (not_lt.mpr hle)
    · intro hall
      exact absurd hall.2.1 hin

section
variable {s l r e h : ℚ} (hf : Valid ⟨number s, number l, number r, number e, number h⟩)
include hf

/-- **Where a function is zero**: outside its support. -/
theorem degreeAt_eq_zero_iff (hpos : 0 < h) (x : ℚ) :
    degreeAt ⟨number s, number l, number r, number e, number h⟩ x = 0 ↔ ¬ (s < x ∧ x < e) := by
  have hinside := hf.degreeAt_pos_iff x
  rw [Exact.zero_eq, Exact.lt_number, Exact.lt_number, Exact.lt_number] at hinside
  rw [← (hf.degreeAt_nonneg x).not_lt_iff_eq', hinside]
  simp [hpos]

theorem degreeAt_le_height (x : ℚ) :
    degreeAt ⟨number s, number l, number r, number e, number h⟩ x ≤ h := by
  obtain ⟨k, q, hk, hq, -, hqk, -⟩ := hf.degree_within (number x)
  cases hk
  unfold degreeAt
  rw [hq]
  exact hqk

/-- **Where a function has its height**: on its level part, as far as it lies inside the support. -/
theorem degreeAt_eq_height_iff (hpos : 0 < h) (x : ℚ) :
    degreeAt ⟨number s, number l, number r, number e, number h⟩ x = h ↔
      (l ≤ x ∧ x ≤ r) ∧ s < x ∧ x < e := by
  obtain ⟨⟨hsl, hlr, hre⟩, h0, -⟩ := valid_number_iff.mp hf
  rw [← (degreeAt_le_height hf x).ge_iff_eq, le_degreeAt_iff hsl hlr hre h0 hpos,
    mul_le_mul_iff_right₀ hpos, mul_le_mul_iff_right₀ hpos, sub_le_sub_iff_right,
    sub_le_sub_iff_left]
  tauto

end

/-- **Between two points** a function is not below the smaller of their degrees. -/
theorem Valid.min_degreeAt_le {f : Membership Exact} (hf : f.Valid) {x y z : ℚ} (hxz : x ≤ z)
    (hzy : z ≤ y) : min (f.degreeAt x) (f.degreeAt y) ≤ f.degreeAt z := by
  rcases le_or_gt (min (f.degreeAt x) (f.degreeAt y)) 0 with hzero | hpos
  · exact hzero.trans (hf.degreeAt_nonneg z)
  · have hx := min_le_left (f.degreeAt x) (f.degreeAt y)
    have hy := min_le_right (f.degreeAt x) (f.degreeAt y)
    obtain ⟨s, l, r, e, h, rfl, hsl, hlr, hre, h0, -⟩ := hf.exists_numbers
    generalize min (degreeAt _ x) (degreeAt _ y) = q at hpos hx hy ⊢
    -- The rising flank is not crossed on the right of `x`, nor the falling one on the left of `y`.
    rw [le_degreeAt_iff hsl hlr hre h0 hpos] at hx hy ⊢
    obtain ⟨hqh, ⟨hsx, -⟩, hrising, -⟩ := hx
    obtain ⟨-, ⟨-, hye⟩, -, hfalling⟩ := hy
    have hleft : h * (x - s) ≤ h * (z - s) :=
      mul_le_mul_of_nonneg_left (sub_le_sub_right hxz s) h0
    have hright : h * (e - y) ≤ h * (e - z) :=
      mul_le_mul_of_nonneg_left (sub_le_sub_left hzy e) h0
    exact ⟨hqh, ⟨hsx.trans_le hxz, hzy.trans_lt hye⟩, hrising.trans hleft, hfalling.trans hright⟩

/-- **The shape of a valid function** that has a height. Its degrees are numbers, so that nothing is
divided by zero, and lie between zero and the height. It is zero exactly outside its support, has its
height exactly on its level part inside the support, and between two points it is not below the
smaller of their degrees. -/
theorem Valid.degree_shape {f : Membership Exact} (hf : f.Valid)
    (hheight : Scalar.lt Scalar.zero f.height = true) :
    ∃ s l r e h : ℚ, f = ⟨number s, number l, number r, number e, number h⟩ ∧
      (∀ x, f.degree (number x) = number (f.degreeAt x) ∧
        (0 ≤ f.degreeAt x ∧ f.degreeAt x ≤ h) ∧
        (f.degreeAt x = 0 ↔ ¬ (s < x ∧ x < e)) ∧
        (f.degreeAt x = h ↔ (l ≤ x ∧ x ≤ r) ∧ s < x ∧ x < e)) ∧
      ∀ x z y, x ≤ z → z ≤ y → min (f.degreeAt x) (f.degreeAt y) ≤ f.degreeAt z := by
  obtain ⟨s, l, r, e, h, rfl, -⟩ := hf.exists_numbers
  have hpos : 0 < h := Exact.lt_number.mp hheight
  refine ⟨s, l, r, e, h, rfl, fun x => ?_, fun x z y hxz hzy => hf.min_degreeAt_le hxz hzy⟩
  exact ⟨hf.degree_eq x, ⟨hf.degreeAt_nonneg x, degreeAt_le_height hf x⟩,
    degreeAt_eq_zero_iff hf hpos x, degreeAt_eq_height_iff hf hpos x⟩

/-- A function with an upright flank, cut down to a half: it is zero at the foot of the flank and of
its height right behind it. -/
theorem degree_shape_of_upright :
    ∃ f : Membership Exact, f = ⟨number 0, number 0, number 1, number 3, number (1 / 2)⟩ ∧
      f.Valid ∧ Scalar.lt Scalar.zero f.height = true ∧ f.degreeAt 0 = 0 ∧
      f.degreeAt (1 / 8) = 1 / 2 ∧ f.degreeAt 2 ≠ 1 / 2 ∧
      min (f.degreeAt 1) (f.degreeAt 3) ≤ f.degreeAt 2 := by
  have hvalid : Valid ⟨number 0, number 0, number 1, number 3, number (1 / 2)⟩ :=
    valid_number_iff.mpr (by norm_num)
  have hheight : Scalar.lt Scalar.zero (number (1 / 2)) = true := Exact.lt_number.mpr (by norm_num)
  obtain ⟨s, l, r, e, h, hf, hdegree, hbetween⟩ := hvalid.degree_shape hheight
  cases hf
  refine ⟨_, rfl, hvalid, hheight, ?_, ?_, ?_, hbetween 1 2 3 (by norm_num) (by norm_num)⟩
  · exact (hdegree 0).2.2.1.mpr (by norm_num)
  · exact (hdegree (1 / 8)).2.2.2.mpr (by norm_num)
  · exact mt (hdegree 2).2.2.2.mp (by norm_num)

end FuzzyInference.Membership
