import FuzzyInference.Proofs.Curve.Superposition

/-!
# Superposition of terms cut down

What rules conclude are terms cut down to degrees. A term that is cut down to zero adds nothing to a
superposition; any other keeps its support. So the centre lies strictly between the ends of the
supports of the terms that are not cut down to zero, if any of these holds a point of the window
inside.

* `Membership.Cut`: a term with a degree; `Cut.function`: the term cut down to it;
* `Cut.fired`: the terms that are not cut down to zero;
* `center_cuts`: the centre of a superposition of terms cut down.
-/

namespace FuzzyInference

open Exact (number nan)

/-- A term with the degree to which it is cut down. -/
structure Membership.Cut where
  term : Membership Exact
  degree : ℚ
  isTerm : term.IsTerm
  nonneg : 0 ≤ degree
  le_one : degree ≤ 1

namespace Membership.Cut

/-- The term cut down to the degree. -/
def function (c : Cut) : Membership Exact :=
  match c.term.reason (number c.degree) with
  | .ok g => g
  | .error _ => c.term

theorem reason_eq (c : Cut) : c.term.reason (number c.degree) = .ok c.function := by
  obtain ⟨g, hg, -⟩ := c.isTerm.reason_ok c.nonneg c.le_one
  unfold function
  rw [hg]

theorem valid (c : Cut) : c.function.Valid := valid_of_reason c.reason_eq

theorem valid_functions (cuts : List Cut) : ∀ f ∈ cuts.map function, f.Valid := by
  intro f hf
  obtain ⟨c, -, rfl⟩ := List.mem_map.mp hf
  exact c.valid

/-- **Where a term that is cut down is above zero**: strictly between its ends, unless it is cut down
to zero. -/
theorem degreeAt_pos_iff (c : Cut) (x : ℚ) : 0 < c.function.degreeAt x ↔ 0 < c.degree ∧
    Scalar.lt c.term.start (number x) = true ∧ Scalar.lt (number x) c.term.finish = true := by
  obtain ⟨g, hg, -, hheight, hends⟩ := c.isTerm.reason_ok c.nonneg c.le_one
  obtain rfl : c.function = g := Except.ok.inj (c.reason_eq.symm.trans hg)
  rw [c.valid.degreeAt_pos_iff, hheight, Exact.zero_eq, Exact.lt_number]
  refine and_congr_right fun hpos => ?_
  rw [(hends hpos).1, (hends hpos).2]

/-- The terms that are not cut down to zero. -/
def fired (cuts : List Cut) : List (Membership Exact) :=
  (cuts.filter (0 < ·.degree)).map term

theorem mem_fired {cuts : List Cut} {f : Membership Exact} :
    f ∈ fired cuts ↔ ∃ c ∈ cuts, 0 < c.degree ∧ c.term = f := by
  simp [fired, and_assoc]

theorem valid_fired {cuts : List Cut} : ∀ f ∈ fired cuts, f.Valid := by
  intro f hf
  obtain ⟨c, -, -, rfl⟩ := mem_fired.mp hf
  exact c.isTerm.1

end Membership.Cut

namespace Curve

open FuzzyInference.Membership (Cut)

/-- The point lies strictly inside the support of the function. -/
def Inside (x : Exact) (f : Membership Exact) : Prop :=
  Scalar.lt f.start x = true ∧ Scalar.lt x f.finish = true

theorem top_cuts_pos_iff {cuts : List Cut} {x : ℚ} :
    0 < top (cuts.map Cut.function) x ↔ ∃ f ∈ Cut.fired cuts, Inside (number x) f := by
  rw [top_pos_iff]
  constructor
  · rintro ⟨g, hg, hpos⟩
    obtain ⟨c, hc, rfl⟩ := List.mem_map.mp hg
    obtain ⟨hdegree, hinside⟩ := (c.degreeAt_pos_iff x).mp hpos
    exact ⟨c.term, Cut.mem_fired.mpr ⟨c, hc, hdegree, rfl⟩, hinside⟩
  · rintro ⟨f, hf, hinside⟩
    obtain ⟨c, hc, hdegree, rfl⟩ := Cut.mem_fired.mp hf
    exact ⟨c.function, List.mem_map_of_mem hc, (c.degreeAt_pos_iff x).mpr ⟨hdegree, hinside⟩⟩

theorem between_of_inside {fs : List (Membership Exact)} (hfs : ∀ f ∈ fs, f.Valid) {lo hi x : ℚ}
    (hlo : IsLeast (starts fs) lo) (hhi : IsGreatest (finishes fs) hi) {f : Membership Exact}
    (hf : f ∈ fs) (hx : Inside (number x) f) : lo < x ∧ x < hi := by
  obtain ⟨s, l, r, e, h, hnumbers, -⟩ := (hfs f hf).exists_numbers
  obtain ⟨hstart, hfinish⟩ := hx
  rw [hnumbers] at hstart hfinish
  have hs : lo ≤ s := hlo.2 ⟨f, hf, by rw [hnumbers]⟩
  have he : e ≤ hi := hhi.2 ⟨f, hf, by rw [hnumbers]⟩
  exact ⟨hs.trans_lt (Exact.lt_number.mp hstart), (Exact.lt_number.mp hfinish).trans_le he⟩

/-- **Where a superposition has no weight**: if no point of its window lies inside a term that is not
cut down to zero. -/
theorem sum_top_eq_zero_iff {cuts : List Cut} {lo hi : ℚ} {steps : Int} :
    ∑ i ∈ Finset.range (steps.toNat + 1), top (cuts.map Cut.function) (point lo hi steps i) = 0 ↔
      ¬ ∃ x ∈ (ridge (cuts.map Cut.function) lo hi steps).xs,
        ∃ f ∈ Cut.fired cuts, Inside x f := by
  rw [Finset.sum_eq_zero_iff_of_nonneg fun i _ => top_nonneg _ _]
  constructor
  · rintro hzero ⟨x, hx, hinside⟩
    obtain ⟨p, hp, rfl⟩ := List.mem_map.mp hx
    obtain ⟨i, hmem, rfl⟩ := List.mem_map.mp hp
    have hpos := top_cuts_pos_iff.mpr hinside
    rw [hzero i (Finset.mem_range.mpr (List.mem_range.mp hmem))] at hpos
    exact lt_irrefl 0 hpos
  · intro hnone i hmem
    refine le_antisymm (not_lt.mp fun hpos => hnone ?_) (top_nonneg _ _)
    have hpoint := List.mem_map_of_mem (f := point lo hi steps)
      (List.mem_range.mpr (Finset.mem_range.mp hmem))
    exact ⟨_, List.mem_map_of_mem hpoint, top_cuts_pos_iff.mp hpos⟩

/-- **The centre of a superposition of terms cut down.** There is none if no point of the window lies
inside the support of a term that is not cut down to zero. Otherwise it lies strictly between the
first start and the last finish of these terms. -/
theorem center_cuts {cuts : List Cut} {steps : Int} (hlen : 2 ≤ cuts.length)
    (hsteps : 1 ≤ steps) :
    ∃ c y, superpose (cuts.map Cut.function) steps = .ok c ∧
      c.xs = grid (window (cuts.map Cut.function)).1 (window (cuts.map Cut.function)).2 steps ∧
      c.center = .ok y ∧
      (y = nan ↔ ¬ ∃ x ∈ c.xs, ∃ f ∈ Cut.fired cuts, Inside x f) ∧
      (y ≠ nan → ∃ q lo hi, y = number q ∧ IsLeast (starts (Cut.fired cuts)) lo ∧
        IsGreatest (finishes (Cut.fired cuts)) hi ∧ lo < q ∧ q < hi) := by
  have hvalid := Cut.valid_functions cuts
  have hlen' : 2 ≤ (cuts.map Cut.function).length := by rwa [List.length_map]
  obtain ⟨a, b, hwindow, ha, hb⟩ := window_number hvalid
  have hab : a ≤ b := (ha.2 (Set.mem_insert 0 _)).trans (hb.2 (Set.mem_insert 0 _))
  refine ⟨_, _, superpose_number hvalid hlen' hwindow hab hsteps, ?_,
    center_ridge hvalid ha hb hsteps, ?_, ?_⟩
  · rw [hwindow]
    exact (grid_number hab hsteps).symm
  · rw [← sum_top_eq_zero_iff]
    split_ifs with hsum
    · exact iff_of_true rfl hsum
    · exact iff_of_false (fun h => by cases h) hsum
  · intro hy
    have hsum : ∑ i ∈ Finset.range (steps.toNat + 1),
        top (cuts.map Cut.function) (point a b steps i) ≠ 0 := fun hsum => hy (if_pos hsum)
    obtain ⟨x, -, f, hf, -⟩ := not_not.mp (mt sum_top_eq_zero_iff.mpr hsum)
    obtain ⟨lo, hi, hlo, hhi⟩ := exists_first_start Cut.valid_fired (List.ne_nil_of_mem hf)
    have hinside : ∀ i ∈ Finset.range (steps.toNat + 1),
        0 < top (cuts.map Cut.function) (point a b steps i) →
          lo < point a b steps i ∧ point a b steps i < hi := by
      intro i _ hpos
      obtain ⟨f, hf, hinside⟩ := top_cuts_pos_iff.mp hpos
      exact between_of_inside Cut.valid_fired hlo hhi hf hinside
    exact ⟨_, lo, hi, if_neg hsum, hlo, hhi,
      weighted_mean_between (fun i _ => top_nonneg _ _) hsum hinside⟩

end Curve

end FuzzyInference
