import FuzzyInference.Proofs.Curve.Center
import FuzzyInference.Proofs.Membership
import Mathlib.Order.Bounds.Basic

/-!
# Superposition of exact functions

Superposition samples functions at evenly spaced points of a window that holds zero and all supports,
and takes the greatest degree at each point. No function is above zero at an end of the window, so
the centre of a superposition is a weighted mean of the points.

* `superpose_eq`: a superposition point by point, on any scalars;
* `window_number`: the ends of the window;
* `point`, `grid_number`: the points of the window; `point_succ_sub`: their distance;
* `Curve.top`: the greatest degree of several functions; `top_pos_iff`, `top_eq_zero`: where it is
  above zero and where it is not;
* `Curve.ridge`, `superpose_number`, `exists_ridge`: the superposition of valid functions;
  `center_ridge`: its centre.
-/

namespace FuzzyInference.Curve

open Exact (number nan)

/-! ### Point by point -/

section
variable {α : Type} [Scalar α] {low high : α} {steps : Int}

theorem sample_eq (hzero : steps ≠ 0) (hrange : Scalar.inRange α steps = true)
    (f : Membership α) : sample low high steps f =
      .ok ⟨grid low high steps, (grid low high steps).map f.degree⟩ := by
  unfold sample
  rw [if_neg hzero, hrange, Bool.not_true, if_neg Bool.false_ne_true]

/-- **Raising a curve** raises each of its ordinates. -/
theorem raise_eq (hzero : steps ≠ 0) (hrange : Scalar.inRange α steps = true) :
    ∀ (fs : List (Membership α)) (y : α → α),
      raise low high steps ⟨grid low high steps, (grid low high steps).map y⟩ fs =
        .ok ⟨grid low high steps, (grid low high steps).map fun x =>
          fs.foldl (fun y f => Connective.greater y (f.degree x)) (y x)⟩
  | [], _ => rfl
  | f :: fs, y => by
    rw [raise, sample_eq hzero hrange]
    dsimp only
    rw [List.zipWith_map, List.zipWith_self]
    exact raise_eq hzero hrange fs fun x => Connective.greater (y x) (f.degree x)

/-- **A superposition point by point.** -/
theorem superpose_eq (hzero : steps ≠ 0) (hrange : Scalar.inRange α steps = true)
    {f : Membership α} {fs : List (Membership α)} (hlen : fs ≠ []) :
    superpose (f :: fs) steps =
      .ok ⟨grid (window (f :: fs)).1 (window (f :: fs)).2 steps,
        (grid (window (f :: fs)).1 (window (f :: fs)).2 steps).map fun x =>
          fs.foldl (fun y f => Connective.greater y (f.degree x)) (f.degree x)⟩ := by
  obtain ⟨g, gs, rfl⟩ := List.exists_cons_of_ne_nil hlen
  unfold superpose
  dsimp only
  rw [sample_eq hzero hrange]
  exact raise_eq hzero hrange (g :: gs) f.degree

end

/-! ### The window -/

/-- The starts of functions, as far as they are numbers. -/
def starts (fs : List (Membership Exact)) : Set ℚ := {a | ∃ f ∈ fs, f.start = number a}

/-- The finishes of functions, as far as they are numbers. -/
def finishes (fs : List (Membership Exact)) : Set ℚ := {b | ∃ f ∈ fs, f.finish = number b}

theorem isLeast_insert_min {β : Type} [LinearOrder β] {a b c : β} {S : Set β}
    (h : IsLeast (insert (min a b) S) c) : IsLeast (insert a (insert b S)) c := by
  obtain ⟨hmem, hlower⟩ := h
  have hmin : c ≤ min a b := hlower (Set.mem_insert _ _)
  constructor
  · rcases hmem with rfl | hmem
    · rcases min_choice a b with h | h
      · rw [h]
        exact Set.mem_insert a _
      · rw [h]
        exact Set.mem_insert_of_mem a (Set.mem_insert b S)
    · exact Set.mem_insert_of_mem a (Set.mem_insert_of_mem b hmem)
  · rintro x (rfl | rfl | hx)
    · exact hmin.trans (min_le_left _ _)
    · exact hmin.trans (min_le_right _ _)
    · exact hlower (Set.mem_insert_of_mem _ hx)

section
variable {fs : List (Membership Exact)} {f : Membership Exact} {s e : ℚ}

theorem starts_cons (hs : f.start = number s) : starts (f :: fs) = insert s (starts fs) := by
  ext x
  simp [starts, hs, eq_comm]

theorem finishes_cons (he : f.finish = number e) :
    finishes (f :: fs) = insert e (finishes fs) := by
  ext x
  simp [finishes, he, eq_comm]

/-- A window that is widened by functions one after the other. -/
theorem foldl_window (hfs : ∀ f ∈ fs, f.Valid) : ∀ a b : ℚ, ∃ lo hi : ℚ,
    fs.foldl (fun (low, high) f =>
      (if Scalar.lt f.start low then f.start else low,
        if Scalar.lt high f.finish then f.finish else high)) (number a, number b) =
      (number lo, number hi) ∧
    IsLeast (insert a (starts fs)) lo ∧ IsGreatest (insert b (finishes fs)) hi := by
  induction fs with
  | nil =>
    intro a b
    refine ⟨a, b, rfl, ?_, ?_⟩
    · simp [starts]
    · simp [finishes]
  | cons f fs ih =>
    intro a b
    obtain ⟨s, l, r, e, h, hf, -⟩ := (hfs f List.mem_cons_self).exists_numbers
    obtain ⟨lo, hi, hwindow, hlo, hhi⟩ := ih (fun g hg => hfs g (List.mem_cons_of_mem f hg))
      (min a s) (max b e)
    have hlow : (if Scalar.lt f.start (number a) then f.start else number a) =
        number (min a s) := by
      rw [hf]
      exact Exact.smaller_number a s
    have hhigh : (if Scalar.lt (number b) f.finish then f.finish else number b) =
        number (max b e) := by
      rw [hf]
      exact Exact.greater_number b e
    refine ⟨lo, hi, ?_, ?_, ?_⟩
    · rw [List.foldl_cons]
      dsimp only
      rw [hlow, hhigh]
      exact hwindow
    · rw [starts_cons (s := s) (by rw [hf])]
      exact isLeast_insert_min hlo
    · rw [finishes_cons (e := e) (by rw [hf])]
      exact isLeast_insert_min (β := ℚᵒᵈ) hhi

/-- **The window** reaches from the least of zero and all starts to the greatest of zero and all
finishes. -/
theorem window_number (hfs : ∀ f ∈ fs, f.Valid) :
    ∃ lo hi : ℚ, window fs = (number lo, number hi) ∧ IsLeast (insert 0 (starts fs)) lo ∧
      IsGreatest (insert 0 (finishes fs)) hi :=
  foldl_window hfs 0 0

/-- Of several functions one starts first, and one finishes last. -/
theorem exists_first_start (hfs : ∀ f ∈ fs, f.Valid) (hne : fs ≠ []) :
    ∃ lo hi : ℚ, IsLeast (starts fs) lo ∧ IsGreatest (finishes fs) hi := by
  obtain ⟨f, rest, rfl⟩ := List.exists_cons_of_ne_nil hne
  obtain ⟨s, l, r, e, h, hf, -⟩ := (hfs f List.mem_cons_self).exists_numbers
  obtain ⟨lo, hi, -, hlo, hhi⟩ :=
    foldl_window (fun g hg => hfs g (List.mem_cons_of_mem f hg)) s e
  refine ⟨lo, hi, ?_, ?_⟩
  · rw [starts_cons (s := s) (by rw [hf])]
    exact hlo
  · rw [finishes_cons (e := e) (by rw [hf])]
    exact hhi

end

/-! ### The points -/

/-- The points of a window, from the lower end on. -/
def point (lo hi : ℚ) (steps : Int) (i : ℕ) : ℚ := lo + (hi - lo) / steps * i

theorem point_zero (lo hi : ℚ) (steps : Int) : point lo hi steps 0 = lo := by
  unfold point
  rw [Nat.cast_zero, mul_zero, add_zero]

theorem cast_toNat {steps : Int} (hsteps : 1 ≤ steps) : ((steps.toNat : ℕ) : ℚ) = steps := by
  rw [← Int.cast_natCast, Int.toNat_of_nonneg (by omega)]

theorem point_last (lo hi : ℚ) {steps : Int} (hsteps : 1 ≤ steps) :
    point lo hi steps steps.toNat = hi := by
  have hne : (steps : ℚ) ≠ 0 := Int.cast_ne_zero.mpr (by omega)
  unfold point
  rw [cast_toNat hsteps, div_mul_cancel₀ _ hne, add_sub_cancel]

/-- The points are evenly spaced. -/
theorem point_succ_sub (lo hi : ℚ) (steps : Int) (i : ℕ) :
    point lo hi steps (i + 1) - point lo hi steps i = (hi - lo) / steps := by
  unfold point
  push_cast
  ring

/-- **The points at which a window is sampled.** -/
theorem grid_number {lo hi : ℚ} {steps : Int} (hlohi : lo ≤ hi) (hsteps : 1 ≤ steps) :
    grid (number lo) (number hi) steps =
      ((List.range (steps.toNat + 1)).map (point lo hi steps)).map number := by
  have hpos : (0 : ℚ) < steps := Int.cast_pos.mpr (by omega)
  have hincrement : increment (number lo) (number hi) steps = number ((hi - lo) / steps) := by
    have hdiv : (number hi - number lo) / Scalar.ofInt steps = number ((hi - lo) / steps) :=
      Exact.div_number hpos.ne'
    unfold increment
    rw [hdiv]
    exact congrArg number (abs_of_nonneg (div_nonneg (sub_nonneg.mpr hlohi) hpos.le))
  have hcount : (steps + 1).toNat = steps.toNat + 1 := by omega
  unfold grid
  dsimp only
  rw [hincrement, hcount, List.map_map]
  refine List.map_congr_left fun i _ => ?_
  show number (lo + (hi - lo) / steps * ((i : ℤ) : ℚ)) = number (point lo hi steps i)
  rw [Int.cast_natCast]
  rfl

/-! ### The greatest degree -/

/-- The greatest degree of several functions. -/
def top (fs : List (Membership Exact)) (x : ℚ) : ℚ := (fs.map (·.degreeAt x)).foldr max 0

theorem top_nonneg : ∀ (fs : List (Membership Exact)) (x : ℚ), 0 ≤ top fs x
  | [], _ => le_rfl
  | _ :: fs, x => (top_nonneg fs x).trans (le_max_right _ _)

/-- **Where the greatest degree is above zero**: where one of the degrees is. -/
theorem top_pos_iff : ∀ {fs : List (Membership Exact)} {x : ℚ},
    0 < top fs x ↔ ∃ f ∈ fs, 0 < f.degreeAt x
  | [], x => by
    simp [top]
  | f :: fs, x => by
    show 0 < max (f.degreeAt x) (top fs x) ↔ _
    rw [lt_max_iff, top_pos_iff, List.exists_mem_cons_iff]

/-- **What the greatest degree is not above**: what is not below zero or any of the degrees. -/
theorem top_le_iff {fs : List (Membership Exact)} {x q : ℚ} :
    top fs x ≤ q ↔ 0 ≤ q ∧ ∀ f ∈ fs, f.degreeAt x ≤ q := by
  induction fs with
  | nil => simp [top]
  | cons f fs ih =>
    show max (f.degreeAt x) (top fs x) ≤ q ↔ _
    rw [max_le_iff, ih, List.forall_mem_cons]
    exact and_left_comm

/-- The greater of a number and the degrees of functions, one after the other. -/
theorem foldl_greater : ∀ {fs : List (Membership Exact)}, (∀ f ∈ fs, f.Valid) →
    ∀ {y : ℚ} (x : ℚ), 0 ≤ y →
      fs.foldl (fun y f => Connective.greater y (f.degree (number x))) (number y) =
        number (max y (top fs x))
  | [], _, y, x, hy => congrArg number (max_eq_left hy).symm
  | f :: fs, hfs, y, x, hy => by
    have hf : f.Valid := hfs f List.mem_cons_self
    rw [List.foldl_cons, hf.degree_eq, Exact.greater_number,
      foldl_greater (fun g hg => hfs g (List.mem_cons_of_mem f hg)) x (hy.trans (le_max_left _ _)),
      max_assoc]
    rfl

/-! ### The curve and its centre -/

/-- The curve of the greatest degrees at the points of a window. -/
def ridge (fs : List (Membership Exact)) (lo hi : ℚ) (steps : Int) : Curve Exact :=
  ⟨((List.range (steps.toNat + 1)).map (point lo hi steps)).map number,
    ((List.range (steps.toNat + 1)).map fun i => top fs (point lo hi steps i)).map number⟩

section
variable {fs : List (Membership Exact)} {lo hi : ℚ} {steps : Int}

/-- **A superposition of valid functions** is the curve of their greatest degrees. -/
theorem superpose_number (hfs : ∀ f ∈ fs, f.Valid) (hlen : 2 ≤ fs.length)
    (hwindow : window fs = (number lo, number hi)) (hlohi : lo ≤ hi) (hsteps : 1 ≤ steps) :
    superpose fs steps = .ok (ridge fs lo hi steps) := by
  obtain ⟨f, rest, rfl⟩ : ∃ f rest, fs = f :: rest := List.exists_cons_of_length_pos (by omega)
  have hrest : rest ≠ [] := by
    rintro rfl
    exact Nat.not_succ_le_self 1 hlen
  unfold ridge
  rw [superpose_eq (by omega) rfl hrest, hwindow]
  dsimp only
  rw [grid_number hlohi hsteps, List.map_map, List.map_map, List.map_map]
  refine congrArg (fun ys => Except.ok (Curve.mk _ ys)) (List.map_congr_left fun i _ => ?_)
  have hf : f.Valid := hfs f List.mem_cons_self
  show rest.foldl _ (f.degree (number (point lo hi steps i))) = _
  rw [hf.degree_eq]
  exact foldl_greater (fun g hg => hfs g (List.mem_cons_of_mem f hg)) _ (hf.degreeAt_nonneg _)

/-- **The superposition of at least two valid functions** over the window that they span. -/
theorem exists_ridge (hfs : ∀ f ∈ fs, f.Valid) (hlen : 2 ≤ fs.length) (hsteps : 1 ≤ steps) :
    ∃ lo hi : ℚ, IsLeast (insert 0 (starts fs)) lo ∧ IsGreatest (insert 0 (finishes fs)) hi ∧
      superpose fs steps = .ok (ridge fs lo hi steps) := by
  obtain ⟨lo, hi, hwindow, hlo, hhi⟩ := window_number hfs
  have hlohi : lo ≤ hi := (hlo.2 (Set.mem_insert 0 _)).trans (hhi.2 (Set.mem_insert 0 _))
  exact ⟨lo, hi, hlo, hhi, superpose_number hfs hlen hwindow hlohi hsteps⟩

/-- **No function is above zero at an end of the window**, or outside it. -/
theorem top_eq_zero (hfs : ∀ f ∈ fs, f.Valid) (hlo : IsLeast (insert 0 (starts fs)) lo)
    (hhi : IsGreatest (insert 0 (finishes fs)) hi) {x : ℚ} (hx : x ≤ lo ∨ hi ≤ x) :
    top fs x = 0 := by
  refine le_antisymm (not_lt.mp fun hpos => ?_) (top_nonneg fs x)
  obtain ⟨f, hf, hdegree⟩ := top_pos_iff.mp hpos
  obtain ⟨s, l, r, e, h, hnumbers, -⟩ := (hfs f hf).exists_numbers
  obtain ⟨-, hstart, hfinish⟩ := ((hfs f hf).degreeAt_pos_iff x).mp hdegree
  rw [hnumbers] at hstart hfinish
  have hs : lo ≤ s := hlo.2 (Set.mem_insert_of_mem 0 ⟨f, hf, by rw [hnumbers]⟩)
  have he : e ≤ hi := hhi.2 (Set.mem_insert_of_mem 0 ⟨f, hf, by rw [hnumbers]⟩)
  rcases hx with hx | hx
  · exact absurd (Exact.lt_number.mp hstart) (not_lt.mpr (hx.trans hs))
  · exact absurd (Exact.lt_number.mp hfinish) (not_lt.mpr (he.trans hx))

/-- **The centre of a superposition** is the mean of the points, each weighted with the greatest
degree there. -/
theorem center_ridge (hfs : ∀ f ∈ fs, f.Valid) (hlo : IsLeast (insert 0 (starts fs)) lo)
    (hhi : IsGreatest (insert 0 (finishes fs)) hi) (hsteps : 1 ≤ steps) :
    (ridge fs lo hi steps).center =
      .ok (if ∑ i ∈ Finset.range (steps.toNat + 1), top fs (point lo hi steps i) = 0 then nan
        else number ((∑ i ∈ Finset.range (steps.toNat + 1),
            point lo hi steps i * top fs (point lo hi steps i)) /
          ∑ i ∈ Finset.range (steps.toNat + 1), top fs (point lo hi steps i))) := by
  have hfirst : top fs (point lo hi steps 0) = 0 :=
    top_eq_zero hfs hlo hhi (Or.inl (point_zero lo hi steps).le)
  have hlast : top fs (point lo hi steps steps.toNat) = 0 :=
    top_eq_zero hfs hlo hhi (Or.inr (point_last lo hi hsteps).ge)
  refine center_evenly hfirst hlast fun hd => ?_
  -- A window without width is nothing but its ends.
  refine Finset.sum_eq_zero fun i _ => top_eq_zero hfs hlo hhi (Or.inl (le_of_eq ?_))
  unfold point
  rw [hd, zero_mul, add_zero]

end

end FuzzyInference.Curve
