import FuzzyInference.Proofs.Engine.Call

/-!
# The roles of variables

A model says of each variable whether its values go in or come out. Inputs are checked against this;
rules are not, for a table tells names and terms only. So a premise may ask for the output, which has
the value that the last evaluation left, and a rule may conclude on an input.

* `Model.Declares`: a clause names a variable of the model and a term of it, in whatever role;
* `value_of_concluded_terms`: what rules name is declared, the result is made of the terms that they
  conclude, and it depends on the last one only if a premise asks for the output;
* `roles_not_respected`: a model whose rules do not keep to the roles, and whose results differ for
  the same input.
-/

namespace FuzzyInference

variable {α : Type} [Scalar α]

/-- The clause names a variable that the model declares, as input or output, and a term of it, which
has the function `f`. -/
def Model.Declares (m : Model α) (x : Text × Text) (f : Membership α) : Prop :=
  ∃ d ∈ m.declarations, d.answersTo x.1 = true ∧ (d.usage = "input" ∨ d.usage = "output") ∧
    ∃ t ∈ d.terms, Text.lowercase t.name = Text.lowercase x.2 ∧ t.function = .ok f

namespace Model.Underlies

variable {m : Model α} {s : Setup α}

/-- **What the table has is declared.** -/
theorem declares (h : m.Underlies s) {x : Text × Text} {v : Variable α} {f : Membership α}
    (hv : s.table.find? x.1 = some v) (hf : v.term? x.2 = some f) : m.Declares x f := by
  obtain ⟨d, hd, hname, hdescribes⟩ := h.exists_declaration hv
  refine ⟨d, hd, hname, ?_, hdescribes.exists_term hf⟩
  rw [hdescribes.usage_name]
  cases v.usage with
  | input => exact Or.inl rfl
  | output => exact Or.inr rfl

theorem declares_of_premise (h : m.Underlies s) {r : Rule} (hr : r ∈ s.rules.rules)
    (hdone : r.status = .done) : ∀ x ∈ Rule.clausesOf r.premise, ∃ f, m.Declares x f := by
  obtain ⟨text, -, p, c, -, rfl, hdef⟩ := h.exists_readAs hr hdone
  have hpremise : Rule.clausesOf (Rule.readAs text true p c).premise = p.clauses :=
    p.clausesOf_postfixForm
  rw [hpremise]
  intro x hx
  obtain ⟨v, hv, hterm⟩ := hdef x (List.mem_append_left _ hx)
  obtain ⟨f, hf⟩ := Option.isSome_iff_exists.mp hterm
  exact ⟨f, h.declares hv hf⟩

theorem declares_of_concludes (h : m.Underlies s) {r : Rule} {x : Text × Text} {f : Membership α}
    {d : α} (hx : r.Concludes s.table x f d) : m.Declares x f := by
  obtain ⟨v, hv, hf⟩ := hx.function
  exact h.declares hv hf

/-- What the rules conclude, one by one. -/
theorem declares_of_conclusions (h : m.Underlies s) (hdone : ∀ r ∈ s.rules.rules, r.status = .done)
    {gs : List (Membership α)}
    (hgs : List.Forall₂ (fun r g => r.conclude s.table = .ok g) s.rules.rules gs) :
    List.Forall₂ (fun r g => ∃ x f d, r.Concludes s.table x f d ∧ m.Declares x f ∧
      f.reason d = .ok g) s.rules.rules gs := by
  have hmem := (List.forall₂_and_left _ _).mpr ⟨fun r (hr : r ∈ s.rules.rules) => hr, hgs⟩
  refine hmem.imp fun r g ⟨hr, hg⟩ => ?_
  obtain ⟨x, f, d, hconcludes, hreason⟩ := Rule.exists_concludes h hr (hdone r hr)
  exact ⟨x, f, d, hconcludes, h.declares_of_concludes hconcludes, hreason.symm.trans hg⟩

end Model.Underlies

namespace Engine

/-- A value of the table set from outside changes nothing but this value. -/
theorem current_withValue {e : Engine α} {s : Setup α} (hs : e.current = .ok s) (name : Text)
    (x : α) : ∃ t, (e.withValue name x).current = .ok { s with table := t } ∧
      s.table.AgreeOn (fun k => Text.lowercase k ≠ Text.lowercase name) t := by
  have hsame : s.table.AgreeOn (fun k => Text.lowercase k ≠ Text.lowercase name) s.table :=
    ⟨rfl, fun _ _ => rfl⟩
  unfold withValue
  cases hbuilt : e.built with
  | none => exact ⟨s.table, hs, hsame⟩
  | some s₁ =>
    have heq : e.current = .ok s₁ := by
      unfold current
      rw [hbuilt]
    cases hs.symm.trans heq
    dsimp only
    cases h : s.table.setValue name x with
    | error f => exact ⟨s.table, hs, hsame⟩
    | ok t => exact ⟨t, rfl, SymbolTable.agreeOn_setValue h⟩

theorem withValue_steps (e : Engine α) (name : Text) (x : α) :
    (e.withValue name x).steps = e.steps := by
  rcases withValue_keeps e name x with h | ⟨s, t, -, -, h⟩
  · rw [h]
  · rw [h]

/-- **What a result is made of.** Over a model that can be set up, whatever the engine has been
called for:

* each clause of the premise of a rule without error, and the clause that the rule concludes, name a
  variable of the model with a term of it, though the variable may be input or output;
* the result, which is stored as the value of the output, is the centre of the terms that the rules
  conclude, each cut down to the degree of its rule;
* if no premise asks for the output, the result is the same whatever value the output has. -/
theorem value_of_concluded_terms {m : Model α} {steps workers : Option Int} {e₀ : Engine α}
    (hmake : make m steps workers = .ok e₀) (calls : List (Call α)) {s : Setup α}
    (hs : (e₀.after calls).current = .ok s) :
    let e := e₀.after calls
    (∀ r ∈ s.rules.rules, r.status = .done →
      (∀ x ∈ Rule.clausesOf r.premise, ∃ f, m.Declares x f) ∧
      ∃ x f, r.conclusionVariable? = some x.1 ∧ r.conclusionTerm? = some x.2 ∧
        m.Declares x f) ∧
    (∀ inputs name y, (e.evaluate inputs).2 = .ok (name, y) → m.outputName? = some name ∧
      (∃ u v, (e.evaluate inputs).1.built = some ⟨u, s.rules⟩ ∧ u.find? name = some v ∧
        v.value = y) ∧
      ∃ t gs c, (e.setInputs inputs).2 = .ok ⟨t, s.rules⟩ ∧
        List.Forall₂ (fun r g => ∃ x f h, r.Concludes t x f h ∧ m.Declares x f ∧
          f.reason h = .ok g) s.rules.rules gs ∧
        Curve.superpose gs e.steps = .ok c ∧ c.center = .ok y) ∧
    ((∀ r ∈ s.rules.rules, r.status = .done → ∀ x ∈ Rule.clausesOf r.premise,
        ∀ name, m.outputName? = some name → Text.lowercase x.1 ≠ Text.lowercase name) →
      ∀ name z inputs, m.outputName? = some name →
        ((e.call (.setValue name z)).evaluate inputs).2 = (e.evaluate inputs).2) := by
  intro e
  obtain ⟨he, hmodel⟩ := underlies_after hmake calls
  have hm : m.Underlies s := hmodel ▸ he.underlies hs
  refine ⟨fun r hr hdone => ⟨hm.declares_of_premise hr hdone, ?_⟩, ?_, ?_⟩
  · obtain ⟨x, f, d, hconcludes, -⟩ := Rule.exists_concludes hm hr hdone
    exact ⟨x, f, hconcludes.variableName, hconcludes.termName,
      hm.declares_of_concludes hconcludes⟩
  · intro inputs name y hy
    obtain ⟨s', u, hinputs, hvalue, hname, hset, hstored⟩ := evaluate_ok he hy
    obtain ⟨s₀, readings, hs₀, -, -, -, hrules, -⟩ := setInputs_ok hinputs
    cases hs.symm.trans hs₀
    have hm' : m.Underlies s' := hmodel ▸ he.underlies_of_setInputs hinputs
    obtain ⟨hdone, gs, c, hgs, hc, hcenter⟩ := RuleSet.evaluate_ok_iff.mp hvalue
    have hfrom := hm'.declares_of_conclusions hdone hgs
    obtain ⟨v, hv, hy⟩ := SymbolTable.value_setValue hset
    obtain ⟨t, rules⟩ := s'
    cases hrules
    refine ⟨hmodel ▸ hname, ⟨u, v, ?_, hv, hy⟩, t, gs, c, hinputs, hfrom, hc, hcenter⟩
    rw [hstored]
  · intro hnames name z inputs hname
    obtain ⟨t, hcurrent, hagree⟩ := current_withValue hs name z
    have hkeeps := withValue_keeps e name z
    exact evaluate_of_agreeOn he (he.of_keeps hkeeps) hkeeps.model (withValue_steps e name z) hs
      hcurrent rfl hagree (fun r hr hdone x hx => hnames r hr hdone x hx name hname) inputs

/-! ### Crossed roles -/

/-- The second result of the crossed model is made of a term of each variable. -/
theorem crossed_value_of_concluded_terms :
    ∃ s, (crossed.after [.evaluate crossedInput]).current = .ok s ∧
      ∃ t gs c, ((crossed.after [.evaluate crossedInput]).setInputs crossedInput).2 =
          .ok ⟨t, s.rules⟩ ∧
        List.Forall₂ (fun r g => ∃ x f h, r.Concludes t x f h ∧ Model.crossed.Declares x f ∧
          f.reason h = .ok g) s.rules.rules gs ∧
        Curve.superpose gs 3 = .ok c ∧ c.center = .ok (.number (3 / 2)) := by
  have hmake : make Model.crossed none none = .ok crossed := rfl
  have hsound : crossed.Sound := (underlies_after hmake []).1
  obtain ⟨s, t, -, -, -, -, hstored⟩ := evaluate_ok hsound evaluate_crossed.1
  have hcurrent : (crossed.after [.evaluate crossedInput]).current = .ok { s with table := t } := by
    rw [after_cons, after_nil, call_evaluate, hstored]
    rfl
  have hsteps : (crossed.after [.evaluate crossedInput]).steps = 3 := by
    rw [after_cons, after_nil, call_evaluate, hstored]
    rfl
  obtain ⟨-, hvalue, -⟩ := value_of_concluded_terms hmake [.evaluate crossedInput] hcurrent
  have hsecond := evaluate_crossed.2
  rw [← after_nil (crossed.call _), ← after_cons] at hsecond
  obtain ⟨-, -, t', gs, c, hinputs, hgs, hc, hcenter⟩ := hvalue _ _ _ hsecond
  rw [hsteps] at hc
  exact ⟨_, hcurrent, t', gs, c, hinputs, hgs, hc, hcenter⟩

/-- **Rules do not keep to the roles.** A premise may name a variable that is no input, a rule may
conclude on one that is no output, and an evaluation may depend on the one before. -/
theorem roles_not_respected :
    (¬ ∀ (m : Model Exact) (s : Setup Exact), Setup.build m none = .ok s →
      ∀ r ∈ s.rules.rules, r.status = .done →
        ∀ x ∈ Rule.clausesOf r.premise, m.isInput x.1 = true) ∧
    (¬ ∀ (m : Model Exact) (s : Setup Exact), Setup.build m none = .ok s →
      ∀ r ∈ s.rules.rules, r.status = .done →
        ∀ n, r.conclusionVariable? = some n → ∃ d ∈ m.outputs, d.answersTo n = true) ∧
    ¬ ∀ (m : Model Exact) (e : Engine Exact) (inputs : Except InputFault (Readings Exact)),
      make m none none = .ok e →
        ((e.call (.evaluate inputs)).evaluate inputs).2 = (e.evaluate inputs).2 := by
  have hbuild := Setup.build_crossed none
  have hsecond : Rule.readAs "if y is b then x is a" true (.single (.clause "y" "b"))
      (.single (.clause "x" "a")) ∈ Setup.crossed.rules.rules :=
    List.mem_cons_of_mem _ List.mem_cons_self
  refine ⟨fun h => ?_, fun h => ?_, fun h => ?_⟩
  · have hinput := h Model.crossed _ hbuild _ hsecond rfl ("y", "b") List.mem_cons_self
    have hnone : Model.crossed.isInput "y" = false := by decide +kernel
    rw [hnone] at hinput
    cases hinput
  · obtain ⟨d, hd, hname⟩ := h Model.crossed _ hbuild _ hsecond rfl "x" rfl
    have hnone : ∀ d ∈ Model.crossed.outputs, d.answersTo "x" = false := by decide +kernel
    rw [hnone d hd] at hname
    cases hname
  · have heq := h Model.crossed crossed crossedInput rfl
    rw [evaluate_crossed.1, evaluate_crossed.2] at heq
    have hvalues : (3 / 2 : ℚ) = 2 := Exact.number.inj (Prod.mk.inj (Except.ok.inj heq)).2
    exact absurd hvalues (by decide +kernel)

end Engine

end FuzzyInference
