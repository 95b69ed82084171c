import FuzzyInference.Model.Document
import FuzzyInference.Proofs.Double
import FuzzyInference.Proofs.Pairing

/-!
# Equal models

Models are equal if all that they declare is. Corners are doubles, so that zeros of both signs are
equal, and a corner that is no number is not even equal to itself.

* `Term.Equals`, `Declaration.Equals`, `Model.Equals`: equality field by field;
* `Term.tops_of_shape`: the tops of a triangle;
* `Term.HasNumbers`, `Model.HasNumbers`: no corner is undefined;
* `Model.Equals.agrees`: equal models agree.
-/

namespace FuzzyInference

/-- The terms have the same name and equal corners. -/
structure Term.Equals (t u : Term Float) : Prop where
  name : t.name = u.name
  start : (t.start == u.start) = true
  leftTop : (t.leftTop == u.leftTop) = true
  rightTop : (t.rightTop == u.rightTop) = true
  finish : (t.finish == u.finish) = true

/-- The variables have the same usage and name, and equal terms in the same order. -/
structure Declaration.Equals (d e : Declaration Float) : Prop where
  usage : d.usage = e.usage
  name : d.name = e.name
  terms : List.Forall₂ Term.Equals d.terms e.terms

/-- The models have the same name, rules and number of steps, and equal variables in the same
order. -/
structure Model.Equals (m n : Model Float) : Prop where
  name : m.name = n.name
  declarations : List.Forall₂ Declaration.Equals m.declarations n.declarations
  rules : m.rules = n.rules
  steps : m.steps = n.steps

/-- The tops of a term that is written as a triangle are equal. -/
theorem Term.tops_of_shape {t : Term Float} (h : t.shape = .triangle) :
    (t.leftTop == t.rightTop) = true := by
  unfold Term.shape at h
  split_ifs at h with heq
  exact heq

/-- The corners of the term are numbers. -/
def Term.HasNumbers (t : Term Float) : Prop :=
  ∀ x ∈ [t.start, t.leftTop, t.rightTop, t.finish], x.isNaN = false

/-- The corners of all terms are numbers. -/
def Model.HasNumbers (m : Model Float) : Prop := ∀ d ∈ m.declarations, ∀ t ∈ d.terms, t.HasNumbers

namespace Model

/-- A model that equals one with an output has one, too. -/
theorem Equals.outputs_ne_nil {n m : Model Float} (h : n.Equals m) (hm : m.outputs ≠ []) :
    n.outputs ≠ [] := by
  obtain ⟨d, hd⟩ := List.exists_mem_of_ne_nil _ hm
  obtain ⟨hd, husage⟩ := List.mem_filter.mp hd
  obtain ⟨e, he, hed⟩ := exists_of_forall₂_right h.declarations d hd
  exact List.ne_nil_of_mem (List.mem_filter.mpr ⟨he, hed.usage ▸ husage⟩)

/-! ### Agreement -/

theorem sameNumber_of_beq {x y : Float} (h : (x == y) = true) : sameNumber x y = true := by
  unfold sameNumber
  rw [h, Bool.true_or]

theorem agreeAll_of_forall₂ {β : Type} {R : β → β → Prop} {p : β → β → Bool} {xs ys : List β}
    (hp : ∀ x y, R x y → p x y = true) (h : List.Forall₂ R xs ys) : agreeAll p xs ys = true := by
  induction h with
  | nil => rfl
  | cons hxy _ ih => rw [agreeAll, hp _ _ hxy, ih, Bool.and_self]

theorem sameTerm_of_equals (t u : Term Float) (h : t.Equals u) : sameTerm t u = true := by
  unfold sameTerm
  rw [h.name, beq_self_eq_true, sameNumber_of_beq h.start, sameNumber_of_beq h.leftTop,
    sameNumber_of_beq h.rightTop, sameNumber_of_beq h.finish]
  rfl

/-- **Equal models agree.** -/
theorem Equals.agrees {m n : Model Float} (h : m.Equals n) : m.agrees n = true := by
  have hdeclarations := agreeAll_of_forall₂
    (p := fun d e => d.usage == e.usage && d.name == e.name && agreeAll sameTerm d.terms e.terms)
    (fun d e hde => by
      rw [hde.usage, hde.name, beq_self_eq_true, beq_self_eq_true,
        agreeAll_of_forall₂ sameTerm_of_equals hde.terms]
      rfl) h.declarations
  unfold Model.agrees
  rw [h.name, h.steps, h.rules, hdeclarations]
  simp

end Model

end FuzzyInference
