import FuzzyInference.Proofs.Curve.Cover
import FuzzyInference.Proofs.Pairing
import Mathlib.Algebra.BigOperators.Intervals
import Mathlib.Order.Bounds.Image

/-!
# Change of unit

The corners of functions are given in some unit, and from some side. Another unit multiplies all
corners by a factor; a negative factor also exchanges left and right. Everything on the way from
terms to a centre goes along: the degree at a point is that of the point it comes from, terms are cut
down before or after, the window is that of the functions, and its points are those of the old
window, for a negative factor from the other end. So the centre is multiplied by the same factor.

* `Membership.scale`: the function in another unit; `degreeAt_scale`;
* `Cut.scale`, `Cut.function_scale`: terms cut down in another unit;
* `Curve.point_reverse`, `Curve.exists_window_scale`: the window and its points;
* `Curve.center_scale`: the centre of a superposition;
* `Cut.center`, `center_of_scaled_cuts`: **terms in another unit, cut down, superposed and reduced to
  their centre.**
-/

namespace FuzzyInference

open Exact (number nan)

namespace Membership

/-! ### Functions -/

/-- The function with its corners multiplied. A negative factor exchanges left and right. -/
def scale (c : ℚ) (f : Membership Exact) : Membership Exact :=
  if 0 ≤ c then
    ⟨number c * f.start, number c * f.leftTop, number c * f.rightTop, number c * f.finish, f.height⟩
  else
    ⟨number c * f.finish, number c * f.rightTop, number c * f.leftTop, number c * f.start, f.height⟩

section
variable {c : ℚ}

theorem scale_of_nonneg (hc : 0 ≤ c) (s l r e h : ℚ) :
    scale c ⟨number s, number l, number r, number e, number h⟩ =
      ⟨number (c * s), number (c * l), number (c * r), number (c * e), number h⟩ :=
  if_pos hc

theorem scale_of_neg (hc : c < 0) (s l r e h : ℚ) :
    scale c ⟨number s, number l, number r, number e, number h⟩ =
      ⟨number (c * e), number (c * r), number (c * l), number (c * s), number h⟩ :=
  if_neg hc.not_ge

theorem start_scale_of_nonneg (hc : 0 ≤ c) (f : Membership Exact) :
    (f.scale c).start = number c * f.start :=
  congrArg start (if_pos hc)

theorem finish_scale_of_nonneg (hc : 0 ≤ c) (f : Membership Exact) :
    (f.scale c).finish = number c * f.finish :=
  congrArg finish (if_pos hc)

/-- With a negative factor the start comes from the finish, and the finish from the start. -/
theorem start_scale_of_neg (hc : c < 0) (f : Membership Exact) :
    (f.scale c).start = number c * f.finish :=
  congrArg start (if_neg hc.not_ge)

theorem finish_scale_of_neg (hc : c < 0) (f : Membership Exact) :
    (f.scale c).finish = number c * f.start :=
  congrArg finish (if_neg hc.not_ge)

theorem height_scale (c : ℚ) (f : Membership Exact) : (f.scale c).height = f.height := by
  unfold scale
  split_ifs
  · rfl
  · rfl

theorem scale_nought (c : ℚ) : nought.scale c = nought := by
  rcases le_or_gt 0 c with hc | hc
  · unfold nought
    rw [scale_of_nonneg hc, mul_zero]
  · unfold nought
    rw [scale_of_neg hc, mul_zero]

/-- A function stays valid in another unit. -/
theorem Valid.scale {f : Membership Exact} (hf : f.Valid) (c : ℚ) : (f.scale c).Valid := by
  obtain ⟨s, l, r, e, h, rfl, hsl, hlr, hre, h0, h1⟩ := hf.exists_numbers
  rcases le_or_gt 0 c with hc | hc
  · rw [scale_of_nonneg hc, valid_number_iff]
    exact ⟨⟨mul_le_mul_of_nonneg_left hsl hc, mul_le_mul_of_nonneg_left hlr hc,
      mul_le_mul_of_nonneg_left hre hc⟩, h0, h1⟩
  · rw [scale_of_neg hc, valid_number_iff]
    exact ⟨⟨mul_le_mul_of_nonpos_left hre hc.le, mul_le_mul_of_nonpos_left hlr hc.le,
      mul_le_mul_of_nonpos_left hsl hc.le⟩, h0, h1⟩

theorem IsTerm.scale {f : Membership Exact} (hf : f.IsTerm) (c : ℚ) : (f.scale c).IsTerm :=
  ⟨hf.1.scale c, (height_scale c f).trans hf.2⟩

/-- Flanks are compared in any unit alike. -/
theorem flank_scale (hc : 0 < c) (q h a b x y : ℚ) :
    q * (c * a - c * b) ≤ h * (c * x - c * y) ↔ q * (a - b) ≤ h * (x - y) := by
  rw [← mul_sub, ← mul_sub, mul_left_comm, mul_left_comm h, mul_le_mul_iff_right₀ hc]

/-- With a negative factor a flank is met from the other side. -/
theorem flank_scale_of_neg (hc : c < 0) (q h a b x y : ℚ) :
    q * (c * a - c * b) ≤ h * (c * x - c * y) ↔ q * (b - a) ≤ h * (y - x) := by
  have hflank := flank_scale (neg_pos.mpr hc) q h b a y x
  rwa [neg_mul, neg_mul, neg_mul, neg_mul, neg_sub_neg, neg_sub_neg] at hflank

/-- **The degree in another unit** is the degree in the old one. -/
theorem Valid.degreeAt_scale {f : Membership Exact} (hf : f.Valid) (hc : c ≠ 0) (x : ℚ) :
    (f.scale c).degreeAt (c * x) = f.degreeAt x := by
  refine eq_of_forall_le_iff fun q => ?_
  rcases le_or_gt q 0 with hq | hq
  · exact iff_of_true (hq.trans ((hf.scale c).degreeAt_nonneg _)) (hq.trans (hf.degreeAt_nonneg x))
  · obtain ⟨s, l, r, e, h, rfl, hsl, hlr, hre, h0, -⟩ := hf.exists_numbers
    rw [le_degreeAt_iff hsl hlr hre h0 hq]
    rcases hc.lt_or_gt with hneg | hpos
    · rw [scale_of_neg hneg, le_degreeAt_iff (mul_le_mul_of_nonpos_left hre hneg.le)
        (mul_le_mul_of_nonpos_left hlr hneg.le) (mul_le_mul_of_nonpos_left hsl hneg.le) h0 hq,
        mul_lt_mul_left_of_neg hneg, mul_lt_mul_left_of_neg hneg, flank_scale_of_neg hneg,
        flank_scale_of_neg hneg]
      constructor
      · rintro ⟨hqh, ⟨hxe, hsx⟩, hfalling, hrising⟩
        exact ⟨hqh, ⟨hsx, hxe⟩, hrising, hfalling⟩
      · rintro ⟨hqh, ⟨hsx, hxe⟩, hrising, hfalling⟩
        exact ⟨hqh, ⟨hxe, hsx⟩, hfalling, hrising⟩
    · rw [scale_of_nonneg hpos.le, le_degreeAt_iff (mul_le_mul_of_nonneg_left hsl hpos.le)
        (mul_le_mul_of_nonneg_left hlr hpos.le) (mul_le_mul_of_nonneg_left hre hpos.le) h0 hq,
        mul_lt_mul_iff_right₀ hpos, mul_lt_mul_iff_right₀ hpos, flank_scale hpos, flank_scale hpos]

end

/-! ### Terms cut down -/

namespace Cut

/-- The term in another unit, with the same degree. -/
def scale (k : ℚ) (c : Cut) : Cut :=
  ⟨c.term.scale k, c.degree, c.isTerm.scale k, c.nonneg, c.le_one⟩

/-- **A term in another unit, cut down**, is the term cut down, in the other unit. -/
theorem function_scale (k : ℚ) (c : Cut) : (c.scale k).function = c.function.scale k := by
  obtain ⟨s, l, r, e, -, -, -, hterm, hfunction⟩ := c.exists_numbers
  obtain ⟨s', l', r', e', -, -, -, hterm', hfunction'⟩ := (c.scale k).exists_numbers
  have hdegree : (c.scale k).degree = c.degree := rfl
  have hscaled : c.term.scale k = ⟨number s', number l', number r', number e', number 1⟩ := hterm'
  rw [hfunction, hfunction', hdegree]
  by_cases hzero : c.degree = 0
  · rw [if_pos hzero, if_pos hzero, scale_nought]
  · rw [if_neg hzero, if_neg hzero]
    rcases le_or_gt 0 k with hk | hk
    · rw [hterm, scale_of_nonneg hk] at hscaled
      cases hscaled
      rw [scale_of_nonneg hk]
      congr 2
      · ring
      · ring
    · rw [hterm, scale_of_neg hk] at hscaled
      cases hscaled
      rw [scale_of_neg hk]
      congr 2
      · ring
      · ring

end Cut

end Membership

/-! ### Superpositions -/

namespace Curve

variable {fs : List (Membership Exact)} {lo hi c : ℚ} {steps : Int}

/-- The ends of functions in another unit. -/
theorem ends_scale {g g' : Membership Exact → Exact}
    (h : ∀ f ∈ fs, g' (f.scale c) = number c * g f) :
    {b | ∃ f ∈ fs.map (·.scale c), g' f = number b} =
      (c * ·) '' {a | ∃ f ∈ fs, g f = number a} := by
  ext b
  constructor
  · rintro ⟨f', hf', hb⟩
    obtain ⟨f, hf, rfl⟩ := List.mem_map.mp hf'
    rw [h f hf] at hb
    cases ha : g f with
    | nan =>
      rw [ha] at hb
      cases hb
    | number a =>
      rw [ha, Exact.mul_number] at hb
      exact ⟨a, ⟨f, hf, ha⟩, Exact.number.inj hb⟩
  · rintro ⟨a, ⟨f, hf, ha⟩, rfl⟩
    exact ⟨f.scale c, List.mem_map_of_mem hf, by rw [h f hf, ha, Exact.mul_number]⟩

/-- Zero is an end of the window in any unit. -/
theorem insert_ends_scale {g g' : Membership Exact → Exact}
    (h : ∀ f ∈ fs, g' (f.scale c) = number c * g f) :
    insert 0 {b | ∃ f ∈ fs.map (·.scale c), g' f = number b} =
      (c * ·) '' insert 0 {a | ∃ f ∈ fs, g f = number a} := by
  rw [ends_scale h, Set.image_insert_eq, mul_zero]

theorem point_scale (lo hi c : ℚ) (steps : Int) (i : ℕ) :
    point (c * lo) (c * hi) steps i = c * point lo hi steps i := by
  unfold point
  ring

/-- The points of a window from its other end. -/
theorem point_reverse (lo hi : ℚ) (hsteps : 1 ≤ steps) {i : ℕ} (hi' : i ≤ steps.toNat) :
    point hi lo steps i = point lo hi steps (steps.toNat - i) := by
  have hne : (steps : ℚ) ≠ 0 := Int.cast_ne_zero.mpr (by omega)
  unfold point
  rw [Nat.cast_sub hi', cast_toNat hsteps, mul_sub, div_mul_cancel₀ _ hne]
  ring

/-- **The window in another unit**, and its points: those of the old window in the other unit, for a
negative factor from the other end. -/
theorem exists_window_scale (hc : c ≠ 0) (hsteps : 1 ≤ steps)
    (hlo : IsLeast (insert 0 (starts fs)) lo) (hhi : IsGreatest (insert 0 (finishes fs)) hi) :
    ∃ lo' hi' : ℚ, IsLeast (insert 0 (starts (fs.map (·.scale c)))) lo' ∧
      IsGreatest (insert 0 (finishes (fs.map (·.scale c)))) hi' ∧
      ∀ y : ℚ → ℚ, ∑ i ∈ Finset.range (steps.toNat + 1), y (point lo' hi' steps i) =
        ∑ i ∈ Finset.range (steps.toNat + 1), y (c * point lo hi steps i) := by
  rcases hc.lt_or_gt with hneg | hpos
  · have hstarts : insert 0 (starts (fs.map (·.scale c))) =
        (c * ·) '' insert 0 (finishes fs) :=
      insert_ends_scale fun f _ => Membership.start_scale_of_neg hneg f
    have hfinishes : insert 0 (finishes (fs.map (·.scale c))) =
        (c * ·) '' insert 0 (starts fs) :=
      insert_ends_scale fun f _ => Membership.finish_scale_of_neg hneg f
    rw [hstarts, hfinishes]
    refine ⟨c * hi, c * lo, (strictAnti_mul_left hneg).map_isLeast.mpr hhi,
      (strictAnti_mul_left hneg).map_isGreatest.mpr hlo, fun y => ?_⟩
    rw [← Finset.sum_range_reflect fun i => y (c * point lo hi steps i)]
    refine Finset.sum_congr rfl fun i hi' => ?_
    have hle : i ≤ steps.toNat := Nat.lt_succ_iff.mp (Finset.mem_range.mp hi')
    rw [point_reverse _ _ hsteps hle, point_scale, Nat.add_sub_cancel]
  · have hstarts : insert 0 (starts (fs.map (·.scale c))) =
        (c * ·) '' insert 0 (starts fs) :=
      insert_ends_scale fun f _ => Membership.start_scale_of_nonneg hpos.le f
    have hfinishes : insert 0 (finishes (fs.map (·.scale c))) =
        (c * ·) '' insert 0 (finishes fs) :=
      insert_ends_scale fun f _ => Membership.finish_scale_of_nonneg hpos.le f
    rw [hstarts, hfinishes]
    refine ⟨c * lo, c * hi, (strictMono_mul_left_of_pos hpos).map_isLeast.mpr hlo,
      (strictMono_mul_left_of_pos hpos).map_isGreatest.mpr hhi, fun y => ?_⟩
    exact Finset.sum_congr rfl fun i _ => by rw [point_scale]

/-- The greatest degree in another unit. -/
theorem top_scale (hc : c ≠ 0) (x : ℚ) : ∀ {fs : List (Membership Exact)},
    (∀ f ∈ fs, f.Valid) → top (fs.map (·.scale c)) (c * x) = top fs x
  | [], _ => rfl
  | f :: fs, hfs => by
    show max ((f.scale c).degreeAt (c * x)) (top (fs.map (·.scale c)) (c * x)) = _
    rw [(hfs f List.mem_cons_self).degreeAt_scale hc,
      top_scale hc x fun g hg => hfs g (List.mem_cons_of_mem f hg)]
    rfl

/-- **The centre of a superposition in another unit.** -/
theorem center_scale (hfs : ∀ f ∈ fs, f.Valid) (hlen : 2 ≤ fs.length) (hsteps : 1 ≤ steps)
    (hc : c ≠ 0) :
    ∃ y, superpose fs steps >>= center = .ok y ∧
      superpose (fs.map (·.scale c)) steps >>= center = .ok (number c * y) := by
  have hscaled : ∀ f ∈ fs.map (·.scale c), f.Valid := by
    intro f hf
    obtain ⟨g, hg, rfl⟩ := List.mem_map.mp hf
    exact (hfs g hg).scale c
  obtain ⟨lo, hi, hlo, hhi, hridge⟩ := exists_ridge hfs hlen hsteps
  obtain ⟨a, b, ha, hb, hridge'⟩ :=
    exists_ridge hscaled ((List.length_map _).symm ▸ hlen) hsteps
  obtain ⟨lo', hi', hlo', hhi', hsum⟩ := exists_window_scale hc hsteps hlo hhi
  obtain rfl := ha.unique hlo'
  obtain rfl := hb.unique hhi'
  refine ⟨_, bind_ok_iff.mpr ⟨_, hridge, center_ridge hfs hlo hhi hsteps⟩,
    bind_ok_iff.mpr ⟨_, hridge', ?_⟩⟩
  have harea := hsum (top (fs.map (·.scale c)))
  have hmoment := hsum fun x => x * top (fs.map (·.scale c)) x
  simp only [top_scale hc _ hfs, mul_assoc, ← Finset.mul_sum] at harea hmoment
  rw [center_ridge hscaled ha hb hsteps, harea, hmoment]
  split_ifs with hzero
  · rfl
  · rw [Exact.mul_number, mul_div_assoc]

end Curve

/-! ### From terms to the centre -/

namespace Membership.Cut

/-- Terms cut down, superposed and reduced to their centre. -/
def center (cuts : List Cut) (steps : Int) : Except (Fault Exact) Exact := do
  let fs ← cuts.mapM fun c => c.term.reason (number c.degree)
  let curve ← Curve.superpose fs steps
  curve.center

theorem center_eq (cuts : List Cut) (steps : Int) :
    center cuts steps = Curve.superpose (cuts.map function) steps >>= Curve.center := by
  have hreason : cuts.mapM (fun c => c.term.reason (number c.degree)) = .ok (cuts.map function) :=
    mapM_ok_iff.mpr (List.forall₂_map_right_iff.mpr
      (List.forall₂_same.mpr fun c _ => c.reason_eq))
  unfold center
  rw [hreason]
  rfl

/-- **Terms in another unit** have their centre there: the old one times the factor, if there is one,
and otherwise none either. -/
theorem center_of_scaled_cuts {cuts : List Cut} {k : ℚ} {steps : Int} (hlen : 2 ≤ cuts.length)
    (hsteps : 1 ≤ steps) (hk : k ≠ 0) :
    ∃ y, center cuts steps = .ok y ∧ center (cuts.map (scale k)) steps = .ok (number k * y) ∧
      (number k * y = nan ↔ y = nan) := by
  have hscaled : (cuts.map (scale k)).map function = (cuts.map function).map (·.scale k) := by
    rw [List.map_map, List.map_map]
    exact List.map_congr_left fun c _ => function_scale k c
  have hlen' : 2 ≤ (cuts.map function).length := by rwa [List.length_map]
  obtain ⟨y, hy, hy'⟩ := Curve.center_scale (valid_functions cuts) hlen' hsteps hk
  refine ⟨y, (center_eq cuts steps).trans hy, ?_, ?_⟩
  · rw [center_eq, hscaled]
    exact hy'
  · cases y with
    | nan => exact iff_of_true rfl rfl
    | number q => exact iff_of_false (fun h => by cases h) (fun h => by cases h)

/-- A triangle and a function with an upright flank, the one taken whole and the other cut down to a
half, turned about zero and doubled. -/
theorem center_of_turned_cuts :
    ∃ a b : Cut, a.term = ⟨number 0, number 1, number 1, number 2, number 1⟩ ∧
      b.term = ⟨number (-1), number (-1), number 0, number 1, number 1⟩ ∧ b.degree = 1 / 2 ∧
      center [a, b] 3 = .ok (number (2 / 3)) ∧
      center [a.scale (-2), b.scale (-2)] 3 = .ok (number (-4 / 3)) := by
  let a : Cut := ⟨⟨number 0, number 1, number 1, number 2, number 1⟩, 1, ⟨rfl, rfl⟩, by decide +kernel,
    by decide +kernel⟩
  let b : Cut := ⟨⟨number (-1), number (-1), number 0, number 1, number 1⟩, 1 / 2, ⟨rfl, rfl⟩,
    by decide +kernel, by decide +kernel⟩
  have hcenter : center [a, b] 3 = .ok (number (2 / 3)) := ok_of_toOption (by decide +kernel)
  obtain ⟨y, hy, hturned, -⟩ := @center_of_scaled_cuts [a, b] (-2) 3 le_rfl (by decide) (by decide)
  obtain rfl : number (2 / 3) = y := Except.ok.inj (hcenter.symm.trans hy)
  refine ⟨a, b, rfl, rfl, rfl, hcenter, hturned.trans ?_⟩
  rw [Exact.mul_number]
  norm_num

end Membership.Cut

end FuzzyInference
