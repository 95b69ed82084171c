import FuzzyInference.Proofs.Curve.Cut
import FuzzyInference.Proofs.Membership.Shape

/-!
# Functions that cover each other

A superposition reads of its functions no more than the outermost of their ends and their greatest
degrees. So it stays the same when its functions are exchanged for others, if each function of the
one side lies below one with the same ends on the other side, or is zero everywhere.

* `Cut.degreeAt_function`: a term that is cut down to a degree is the smaller of the two;
* `Membership.reason_clips`: **to what a term can be cut down, and what it is then**;
* `Membership.Below`, `Membership.CoveredBy`: functions below others with the same ends;
  `Cut.coveredBy`: a term cut down to a smaller degree;
* `Curve.superpose_of_covered`: **functions that cover each other have the same superposition.**
-/

namespace FuzzyInference

open Exact (number nan)

namespace Membership

/-! ### Functions below others -/

/-- The function that is zero everywhere and ends at zero. -/
def nought : Membership Exact := ⟨number 0, number 0, number 0, number 0, number 0⟩

theorem degreeAt_nought (x : ℚ) : nought.degreeAt x = 0 := by
  have hvalid : nought.Valid := rfl
  refine le_antisymm (not_lt.mp fun hpos => ?_) (hvalid.degreeAt_nonneg x)
  exact lt_irrefl 0 (Exact.lt_number.mp ((hvalid.degreeAt_pos_iff x).mp hpos).1)

/-- One function lies below another with the same ends. -/
structure Below (f g : Membership Exact) : Prop where
  start : f.start = g.start
  finish : f.finish = g.finish
  degree : ∀ x, f.degreeAt x ≤ g.degreeAt x

theorem Below.refl (f : Membership Exact) : f.Below f := ⟨rfl, rfl, fun _ => le_rfl⟩

/-- The function is `nought` or lies below one of the functions. -/
def CoveredBy (f : Membership Exact) (gs : List (Membership Exact)) : Prop :=
  f = nought ∨ ∃ g ∈ gs, f.Below g

/-! ### Terms cut down -/

namespace Cut

/-- The numbers of a term and of the term cut down: flanks shrink in the proportion of the degree. -/
theorem exists_numbers (c : Cut) : ∃ s l r e : ℚ, s ≤ l ∧ l ≤ r ∧ r ≤ e ∧
    c.term = ⟨number s, number l, number r, number e, number 1⟩ ∧
    c.function = if c.degree = 0 then nought else
      ⟨number s, number (c.degree * (l - s) + s), number (e - c.degree * (e - r)), number e,
        number c.degree⟩ := by
  have hreason := c.reason_eq
  obtain ⟨s, l, r, e, k, hterm, hsl, hlr, hre, -, -⟩ := c.isTerm.1.exists_numbers
  obtain rfl : k = 1 := by
    have hheight := c.isTerm.2
    rw [hterm] at hheight
    exact Exact.number.inj hheight
  rw [hterm, reason_number hsl hlr hre c.nonneg c.le_one] at hreason
  exact ⟨s, l, r, e, hsl, hlr, hre, hterm, (Except.ok.inj hreason).symm⟩

theorem function_of_degree_zero {c : Cut} (h : c.degree = 0) : c.function = nought := by
  obtain ⟨s, l, r, e, -, -, -, -, hfunction⟩ := c.exists_numbers
  rw [hfunction, if_pos h]

/-- **A term that is cut down to a degree** is, at each point, the smaller of the two. -/
theorem degreeAt_function (c : Cut) (x : ℚ) :
    c.function.degreeAt x = min c.degree (c.term.degreeAt x) := by
  rcases c.nonneg.eq_or_lt with hzero | hpos
  · rw [function_of_degree_zero hzero.symm, degreeAt_nought, ← hzero,
      min_eq_left (c.isTerm.1.degreeAt_nonneg x)]
  · refine eq_of_forall_le_iff fun q => ?_
    rcases le_or_gt q 0 with hq | hq
    · exact iff_of_true (hq.trans (c.valid.degreeAt_nonneg x))
        (le_min (hq.trans hpos.le) (hq.trans (c.isTerm.1.degreeAt_nonneg x)))
    · have hle := c.le_one
      obtain ⟨s, l, r, e, hsl, hlr, hre, hterm, hfunction⟩ := c.exists_numbers
      -- The tops of the cut lie between the ends and in order.
      have hleft := mul_nonneg hpos.le (sub_nonneg.mpr hsl)
      have hright := mul_nonneg hpos.le (sub_nonneg.mpr hre)
      have hleft' := mul_le_of_le_one_left (sub_nonneg.mpr hsl) hle
      have hright' := mul_le_of_le_one_left (sub_nonneg.mpr hre) hle
      -- Its flanks are those of the term, in the proportion of the degree.
      have hrising : q * (c.degree * (l - s) + s - s) = c.degree * (q * (l - s)) := by ring
      have hfalling : q * (e - (e - c.degree * (e - r))) = c.degree * (q * (e - r)) := by ring
      rw [le_min_iff, hfunction, if_neg hpos.ne', hterm,
        le_degreeAt_iff (by linarith) (by linarith) (by linarith) hpos.le hq,
        le_degreeAt_iff hsl hlr hre zero_le_one hq, hrising, hfalling,
        mul_le_mul_iff_right₀ hpos, mul_le_mul_iff_right₀ hpos, one_mul, one_mul]
      constructor
      · rintro ⟨hqh, hin, hflanks⟩
        exact ⟨hqh, hqh.trans hle, hin, hflanks⟩
      · rintro ⟨hqh, -, hin, hflanks⟩
        exact ⟨hqh, hin, hflanks⟩

/-- The ends of a term that is not cut down to zero. -/
theorem ends_of_pos {c : Cut} (h : 0 < c.degree) :
    c.function.start = c.term.start ∧ c.function.finish = c.term.finish := by
  obtain ⟨g, hg, -, -, hends⟩ := c.isTerm.reason_ok c.nonneg c.le_one
  obtain rfl : c.function = g := Except.ok.inj (c.reason_eq.symm.trans hg)
  exact hends h

/-- **A term cut down to a smaller degree** lies below the same term cut down to a greater one. -/
theorem coveredBy {c c' : Cut} {gs : List (Membership Exact)} (hterm : c.term = c'.term)
    (hle : c.degree ≤ c'.degree) (hmem : c'.function ∈ gs) : c.function.CoveredBy gs := by
  rcases c.nonneg.eq_or_lt with hzero | hpos
  · exact Or.inl (function_of_degree_zero hzero.symm)
  · obtain ⟨hstart, hfinish⟩ := ends_of_pos hpos
    obtain ⟨hstart', hfinish'⟩ := ends_of_pos (hpos.trans_le hle)
    refine Or.inr ⟨_, hmem, ?_, ?_, fun x => ?_⟩
    · rw [hstart, hstart', hterm]
    · rw [hfinish, hfinish', hterm]
    · rw [degreeAt_function, degreeAt_function, hterm]
      exact min_le_min_right _ hle

end Cut

/-- **Cutting down is clipping.** A function that is made with the full height can be cut down to
`h` exactly if `h` is a degree, and is then the smaller of `h` and its own degree at each point,
however steep its flanks are, and also where `h` is zero. -/
theorem reason_clips {start leftTop rightTop finish : Exact} {f : Membership Exact}
    (hf : make start leftTop rightTop finish Scalar.one = .ok f) (h : Exact) :
    ((∃ e, f.reason h = .error e) ↔ ¬ ∃ q : ℚ, h = number q ∧ 0 ≤ q ∧ q ≤ 1) ∧
    ∀ q : ℚ, h = number q → 0 ≤ q → q ≤ 1 → ∃ g, f.reason h = .ok g ∧
      ∀ x, ∃ d, f.degree x = number d ∧ g.degree x = number (min q d) := by
  have hterm : f.IsTerm := by
    obtain rfl := make_ok hf
    exact ⟨hf, rfl⟩
  refine ⟨hterm.reason_error_iff, fun q hq h0 h1 => ?_⟩
  let c : Cut := ⟨f, q, hterm, h0, h1⟩
  refine ⟨c.function, hq ▸ c.reason_eq, fun x => ?_⟩
  cases x with
  | nan => exact ⟨0, f.degree_nan, by rw [degree_nan, min_eq_right h0]⟩
  | number x =>
    refine ⟨f.degreeAt x, hterm.1.degree_eq x, ?_⟩
    rw [c.valid.degree_eq, c.degreeAt_function]

/-- A term with an upright flank, cut down to a half, and to two. -/
theorem upright_clips :
    let f : Membership Exact := ⟨number 0, number 0, number 1, number 3, number 1⟩
    make (number 0) (number 0) (number 1) (number 3) Scalar.one = .ok f ∧
      (∃ e, f.reason (number 2) = .error e) ∧
      ∃ g, f.reason (number (1 / 2)) = .ok g ∧ g.degree (number (1 / 4)) = number (1 / 2) ∧
        g.degree (number (5 / 2)) = number (1 / 4) := by
  intro f
  have hf : make (number 0) (number 0) (number 1) (number 3) Scalar.one = .ok f := by rfl
  have hhigh : f.degree (number (1 / 4)) = number 1 := by decide +kernel
  have hlow : f.degree (number (5 / 2)) = number (1 / 4) := by decide +kernel
  obtain ⟨hrefused, -⟩ := reason_clips hf (number 2)
  obtain ⟨-, hclips⟩ := reason_clips hf (number (1 / 2))
  obtain ⟨g, hg, hclipped⟩ := hclips (1 / 2) rfl (by decide +kernel) (by decide +kernel)
  refine ⟨hf, hrefused.mpr ?_, g, hg, ?_, ?_⟩
  · rintro ⟨q, hq, -, h1⟩
    rw [← Exact.number.inj hq] at h1
    exact absurd h1 (by decide +kernel)
  · obtain ⟨d, hd, hgd⟩ := hclipped (number (1 / 4))
    rw [hgd, ← Exact.number.inj (hhigh.symm.trans hd)]
    decide +kernel
  · obtain ⟨d, hd, hgd⟩ := hclipped (number (5 / 2))
    rw [hgd, ← Exact.number.inj (hlow.symm.trans hd)]
    decide +kernel

end Membership

/-! ### Superpositions -/

namespace Curve

variable {fs gs : List (Membership Exact)} {steps : Int}

theorem top_le_of_covered (h : ∀ f ∈ fs, f.CoveredBy gs) (x : ℚ) : top fs x ≤ top gs x := by
  obtain ⟨hnonneg, hall⟩ := top_le_iff.mp (le_refl (top gs x))
  refine top_le_iff.mpr ⟨hnonneg, fun f hf => ?_⟩
  rcases h f hf with rfl | ⟨g, hg, hbelow⟩
  · rw [Membership.degreeAt_nought]
    exact hnonneg
  · exact (hbelow.degree x).trans (hall g hg)

theorem starts_subset_of_covered (h : ∀ f ∈ fs, f.CoveredBy gs) :
    insert 0 (starts fs) ⊆ insert 0 (starts gs) := by
  rintro a (rfl | ⟨f, hf, hstart⟩)
  · exact Set.mem_insert 0 _
  · rcases h f hf with rfl | ⟨g, hg, hbelow⟩
    · exact Or.inl (Exact.number.inj hstart).symm
    · exact Or.inr ⟨g, hg, hbelow.start.symm.trans hstart⟩

theorem finishes_subset_of_covered (h : ∀ f ∈ fs, f.CoveredBy gs) :
    insert 0 (finishes fs) ⊆ insert 0 (finishes gs) := by
  rintro a (rfl | ⟨f, hf, hfinish⟩)
  · exact Set.mem_insert 0 _
  · rcases h f hf with rfl | ⟨g, hg, hbelow⟩
    · exact Or.inl (Exact.number.inj hfinish).symm
    · exact Or.inr ⟨g, hg, hbelow.finish.symm.trans hfinish⟩

/-- **Functions that cover each other have the same superposition**: it is sampled over the same
window and has the same degrees there. -/
theorem superpose_of_covered (hfs : ∀ f ∈ fs, f.Valid) (hgs : ∀ g ∈ gs, g.Valid)
    (hlen : 2 ≤ fs.length) (hlen' : 2 ≤ gs.length) (hsteps : 1 ≤ steps)
    (hfg : ∀ f ∈ fs, f.CoveredBy gs) (hgf : ∀ g ∈ gs, g.CoveredBy fs) :
    superpose gs steps = superpose fs steps := by
  obtain ⟨lo, hi, hlo, hhi, hridge⟩ := exists_ridge hfs hlen hsteps
  obtain ⟨lo', hi', hlo', hhi', hridge'⟩ := exists_ridge hgs hlen' hsteps
  rw [← (starts_subset_of_covered hfg).antisymm (starts_subset_of_covered hgf)] at hlo'
  rw [← (finishes_subset_of_covered hfg).antisymm (finishes_subset_of_covered hgf)] at hhi'
  obtain rfl := hlo.unique hlo'
  obtain rfl := hhi.unique hhi'
  have htop : top gs = top fs := funext fun x =>
    le_antisymm (top_le_of_covered hgf x) (top_le_of_covered hfg x)
  rw [hridge', hridge]
  unfold ridge
  rw [htop]

/-- The centre of a superposition of valid functions is there. -/
theorem exists_center (hfs : ∀ f ∈ fs, f.Valid) (hlen : 2 ≤ fs.length) (hsteps : 1 ≤ steps) :
    ∃ c y, superpose fs steps = .ok c ∧ c.center = .ok y := by
  obtain ⟨lo, hi, hlo, hhi, hridge⟩ := exists_ridge hfs hlen hsteps
  exact ⟨_, _, hridge, center_ridge hfs hlo hhi hsteps⟩

end Curve

end FuzzyInference
