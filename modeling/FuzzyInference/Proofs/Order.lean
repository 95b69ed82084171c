import FuzzyInference.Proofs.Double
import FuzzyInference.Proofs.Exact

/-!
# Ordered scalars

Degrees are joined by comparing them. That makes sense among scalars that are in order, as exact
numbers are and doubles that are numbers; what is no number has no place there.

* `Connective.join_mem`: what is joined is one of the two parts;
* `Scalar.Ordered`: the scalars of a class are in a linear order, but for equal ones;
* `Scalar.ordered_of_rank`: they are if they are compared by their ranks; `Exact.ordered`,
  `ordered_doubles`: exact numbers and doubles;
* `Ordered.le_smaller_iff`, `Ordered.greater_le_iff`: **what is joined by `and` is the greatest lower
  bound, and what is joined by `or` the least upper bound**;
* `Ordered.join_le_join`: the degree of a joined clause rises with those of its parts;
* `Scalar.IsLeast`, `Scalar.IsGreatest`: the least and the greatest of several scalars.
-/

namespace FuzzyInference

section
variable {α : Type} [Scalar α] {S : α → Prop}

/-- What is joined is one of the two parts. -/
theorem Connective.join_mem {a b : α} (k : Connective) (ha : S a) (hb : S b) : S (k.join a b) := by
  cases k with
  | and =>
    show S (if Scalar.lt b a then b else a)
    split_ifs
    · exact hb
    · exact ha
  | or =>
    show S (if Scalar.lt a b then b else a)
    split_ifs
    · exact hb
    · exact ha

namespace Scalar

/-- The scalars of the class are in a linear order, but that equal ones need not be the same. -/
structure Ordered (S : α → Prop) : Prop where
  total {a b : α} (ha : S a) (hb : S b) : le a b = true ∨ le b a = true
  trans {a b c : α} (ha : S a) (hb : S b) (hc : S c) (hab : le a b = true) (hbc : le b c = true) :
    le a c = true
  lt_iff {a b : α} (ha : S a) (hb : S b) : lt a b = true ↔ ¬ le b a = true

/-- **Scalars that are compared by their ranks are in order.** -/
theorem ordered_of_rank {β : Type} [LinearOrder β] (rank : α → β)
    (hle : ∀ {a b}, S a → S b → (le a b = true ↔ rank a ≤ rank b))
    (hlt : ∀ {a b}, S a → S b → (lt a b = true ↔ rank a < rank b)) : Ordered S where
  total ha hb := by
    rw [hle ha hb, hle hb ha]
    exact le_total _ _
  trans ha hb hc hab hbc := by
    rw [hle ha hb] at hab
    rw [hle hb hc] at hbc
    rw [hle ha hc]
    exact hab.trans hbc
  lt_iff ha hb := by
    rw [hlt ha hb, hle hb ha]
    exact not_le.symm

/-- The least of several scalars: one of them, and none of them is less. -/
def IsLeast (xs : List α) (a : α) : Prop := a ∈ xs ∧ ∀ x ∈ xs, le a x = true

/-- The greatest of several scalars: one of them, and none of them is greater. -/
def IsGreatest (xs : List α) (a : α) : Prop := a ∈ xs ∧ ∀ x ∈ xs, le x a = true

namespace Ordered

variable {a b c a' b' : α}

theorem refl (h : Ordered S) (ha : S a) : le a a = true := (h.total ha ha).elim id id

/-- The smaller of two scalars is their greatest lower bound. -/
theorem le_smaller_iff (h : Ordered S) (ha : S a) (hb : S b) (hc : S c) :
    le c (Connective.smaller a b) = true ↔ le c a = true ∧ le c b = true := by
  unfold Connective.smaller
  split_ifs with hlt
  · have hba : le b a = true := (h.total hb ha).resolve_right ((h.lt_iff hb ha).mp hlt)
    exact ⟨fun hcb => ⟨h.trans hc hb ha hcb hba, hcb⟩, And.right⟩
  · have hab : le a b = true := not_not.mp (mt (h.lt_iff hb ha).mpr hlt)
    exact ⟨fun hca => ⟨hca, h.trans hc ha hb hca hab⟩, And.left⟩

/-- The greater of two scalars is their least upper bound. -/
theorem greater_le_iff (h : Ordered S) (ha : S a) (hb : S b) (hc : S c) :
    le (Connective.greater a b) c = true ↔ le a c = true ∧ le b c = true := by
  unfold Connective.greater
  split_ifs with hlt
  · have hab : le a b = true := (h.total ha hb).resolve_right ((h.lt_iff ha hb).mp hlt)
    exact ⟨fun hbc => ⟨h.trans ha hb hc hab hbc, hbc⟩, And.right⟩
  · have hba : le b a = true := not_not.mp (mt (h.lt_iff ha hb).mpr hlt)
    exact ⟨fun hac => ⟨hac, h.trans hb ha hc hba hac⟩, And.left⟩

/-- **What is joined rises with its parts.** -/
theorem join_le_join (h : Ordered S) (k : Connective) (ha : S a) (hb : S b) (ha' : S a')
    (hb' : S b') (haa' : le a a' = true) (hbb' : le b b' = true) :
    le (k.join a b) (k.join a' b') = true := by
  cases k with
  | and =>
    have hmem : S (Connective.smaller a b) := Connective.and.join_mem ha hb
    obtain ⟨hleft, hright⟩ := (h.le_smaller_iff ha hb hmem).mp (h.refl hmem)
    exact (h.le_smaller_iff ha' hb' hmem).mpr
      ⟨h.trans hmem ha ha' hleft haa', h.trans hmem hb hb' hright hbb'⟩
  | or =>
    have hmem : S (Connective.greater a' b') := Connective.or.join_mem ha' hb'
    obtain ⟨hleft, hright⟩ := (h.greater_le_iff ha' hb' hmem).mp (h.refl hmem)
    exact (h.greater_le_iff ha hb hmem).mpr
      ⟨h.trans ha ha' hmem haa' hleft, h.trans hb hb' hmem hbb' hright⟩

end Ordered

end Scalar

end

/-- **Exact numbers are in order.** -/
theorem Exact.ordered : Scalar.Ordered fun x : Exact => ∃ q, x = .number q := by
  refine Scalar.ordered_of_rank toRat ?_ ?_
  · rintro _ _ ⟨a, rfl⟩ ⟨b, rfl⟩
    exact le_number
  · rintro _ _ ⟨a, rfl⟩ ⟨b, rfl⟩
    exact lt_number

/-- **Doubles that are numbers are in order.** -/
theorem ordered_doubles : Scalar.Ordered fun x : Float => x.isNaN = false := by
  refine Scalar.ordered_of_rank (fun x => rank x.toModel.unpack) ?_ ?_
  · intro x y hx hy
    rw [le_eq_unpack]
    unfold Float.Model.UnpackedFloat.le
    rw [compare_eq_rank hx hy, Option.any_some, Ordering.isLE_iff_ne_gt, cmp_eq_gt_iff,
      not_lt]
  · intro x y hx hy
    rw [lt_eq_unpack]
    unfold Float.Model.UnpackedFloat.lt
    rw [compare_eq_rank hx hy, beq_iff_eq, Option.some.injEq, cmp_eq_lt_iff]

end FuzzyInference
