import FuzzyInference.Proofs.Curve.Cut
import FuzzyInference.Proofs.Engine.Call

/-!
# The value of an evaluation

With exact numbers nothing can go wrong in an evaluation once the inputs are accepted: the degrees of
relevance lie between zero and one, the terms can be cut down to them, and two of them can be
superposed. What comes out is the centre of a superposition of terms cut down.

* `Rule.exists_cut`, `RuleSet.exists_cuts`: what rules without error conclude, as terms with
  degrees;
* `value_between_supports`: an evaluation has a result, and where it lies.
-/

namespace FuzzyInference

open Exact (number nan)
open FuzzyInference.Membership (Cut)

/-- **What a rule without error concludes**: a term of the table, cut down to its degree. -/
theorem Rule.exists_cut {m : Model Exact} {s : Setup Exact} (hm : m.Underlies s) {r : Rule}
    (hr : r ∈ s.rules.rules) (hdone : r.status = .done) :
    ∃ c : Cut, (∃ x, r.Concludes s.table x c.term (number c.degree)) ∧
      r.conclude s.table = .ok c.function := by
  obtain ⟨x, f, h, hconcludes, hconclude⟩ := exists_concludes hm hr hdone
  have hterm : f.IsTerm := by
    obtain ⟨v, hv, hf⟩ := hconcludes.function
    exact hm.isTerm (List.mem_of_find?_eq_some hv) _ (Variable.mem_of_term? hf)
  obtain ⟨q, hq, h0, h1⟩ : ∃ q : ℚ, h = number q ∧ 0 ≤ q ∧ q ≤ 1 := by
    obtain ⟨text, -, p, c, -, rfl, hdef⟩ := hm.exists_readAs hr hdone
    have hpremise : ∀ x ∈ p.clauses, s.table.Defines x := fun x hx =>
      hdef x (List.mem_append_left _ hx)
    have hrelevance := hconcludes.relevance.symm.trans (relevance_readAs c hpremise)
    rw [Except.ok.inj hrelevance]
    refine degree_induction (Q := fun d => ∃ q : ℚ, d = number q ∧ 0 ≤ q ∧ q ≤ 1) fun x hx => ?_
    exact clause_within hm.valid
      (hpremise x (Phrase.mem_clauses_of_operand p.lastOperand_mem hx))
  obtain rfl := hq
  refine ⟨⟨f, q, hterm, h0, h1⟩, ⟨x, hconcludes⟩, ?_⟩
  rw [hconclude]
  exact Cut.reason_eq ⟨f, q, hterm, h0, h1⟩

/-- **What all rules conclude**, if none is in error: terms of the table, each cut down to the degree
of its rule. -/
theorem RuleSet.exists_cuts {m : Model Exact} {s : Setup Exact} (hm : m.Underlies s)
    (hdone : ∀ r ∈ s.rules.rules, r.status = .done) :
    ∃ cuts : List Cut,
      List.Forall₂ (fun r c => ∃ x, r.Concludes s.table x c.term (number c.degree))
        s.rules.rules cuts ∧
      List.Forall₂ (fun r f => r.conclude s.table = .ok f) s.rules.rules
        (cuts.map Cut.function) := by
  obtain ⟨cuts, hcuts⟩ := exists_forall₂ fun r hr => Rule.exists_cut hm hr (hdone r hr)
  refine ⟨cuts, hcuts.imp fun r c h => h.1, ?_⟩
  rw [List.forall₂_map_right_iff]
  exact hcuts.imp fun r c h => h.2

namespace Engine

/-- **An evaluation has a result, and where it lies.** Over a model that can be set up with at least
two rules, all without error, with at least one step, whatever the engine has been called for, inputs
that are accepted lead to a result: the centre `y` of the superposition `c` of the terms that the
rules conclude, cut down to the degrees of the rules. There is no number exactly if no point at which
the superposition is sampled lies strictly inside a term whose degree is above zero; otherwise it lies
strictly between the first start and the last finish of these terms. -/
theorem value_between_supports {m : Model Exact} {steps workers : Option Int} {e₀ : Engine Exact}
    (hmake : make m steps workers = .ok e₀) (calls : List (Call Exact)) {s s' : Setup Exact}
    {inputs : Except InputFault (Readings Exact)} (hs : (e₀.after calls).current = .ok s)
    (hsteps : 1 ≤ (e₀.after calls).steps) (hlen : 2 ≤ s.rules.rules.length)
    (hdone : ∀ r ∈ s.rules.rules, r.status = .done)
    (hinputs : ((e₀.after calls).setInputs inputs).2 = .ok s') :
    ∃ name y, ((e₀.after calls).evaluate inputs).2 = .ok (name, y) ∧ m.outputName? = some name ∧
      ∃ (cuts : List Cut) (c : Curve Exact),
        List.Forall₂ (fun r cut => ∃ x, r.Concludes s'.table x cut.term (number cut.degree))
          s.rules.rules cuts ∧
        Curve.superpose (cuts.map Cut.function) (e₀.after calls).steps = .ok c ∧
        c.xs = Curve.grid (Curve.window (cuts.map Cut.function)).1
          (Curve.window (cuts.map Cut.function)).2 (e₀.after calls).steps ∧
        c.center = .ok y ∧
        (y = nan ↔ ¬ ∃ x ∈ c.xs, ∃ f ∈ Cut.fired cuts, Curve.Inside x f) ∧
        (y ≠ nan → ∃ q lo hi, y = number q ∧ IsLeast (Curve.starts (Cut.fired cuts)) lo ∧
          IsGreatest (Curve.finishes (Cut.fired cuts)) hi ∧ lo < q ∧ q < hi) := by
  obtain ⟨he, hmodel⟩ := underlies_after hmake calls
  obtain ⟨s₀, readings, hs₀, -, -, -, hrules, -⟩ := setInputs_ok hinputs
  cases hs.symm.trans hs₀
  rw [← hrules] at hlen hdone ⊢
  obtain ⟨cuts, hcuts, hconclude⟩ :=
    RuleSet.exists_cuts (he.underlies_of_setInputs hinputs) hdone
  obtain ⟨c, y, hc, hgrid, hy, hnan, hbetween⟩ :=
    Curve.center_cuts (hcuts.length_eq ▸ hlen) hsteps
  obtain ⟨name, hname, hvalue⟩ := evaluate_snd he hinputs
  have hresult : s'.rules.evaluate s'.table (e₀.after calls).steps = .ok y :=
    RuleSet.evaluate_ok_iff.mpr ⟨hdone, _, c, hconclude, hc, hy⟩
  refine ⟨name, y, ?_, hmodel ▸ hname, cuts, c, hcuts, hc, hgrid, hy, hnan, hbetween⟩
  rw [hvalue, hresult]
  rfl

/-- The first result of the crossed model. -/
theorem crossed_value_between_supports :
    ∃ s cuts lo hi, (crossed.setInputs crossedInput).2 = .ok s ∧
      List.Forall₂ (fun r c => ∃ x, r.Concludes s.table x c.term (number c.degree))
        Setup.crossed.rules.rules cuts ∧
      IsLeast (Curve.starts (Cut.fired cuts)) lo ∧
      IsGreatest (Curve.finishes (Cut.fired cuts)) hi ∧
      (crossed.evaluate crossedInput).2 = .ok ("y", number 2) ∧ lo < 2 ∧ 2 < hi := by
  have hmake : make Model.crossed none none = .ok crossed := rfl
  have hsound : crossed.Sound := (underlies_after hmake []).1
  have hdone : ∀ r ∈ Setup.crossed.rules.rules, r.status = .done :=
    List.forall_mem_cons.mpr ⟨rfl, List.forall_mem_singleton.mpr rfl⟩
  obtain ⟨s, -, hinputs, -⟩ := evaluate_ok hsound evaluate_crossed.1
  have hsteps : 1 ≤ (crossed.after []).steps := by decide
  obtain ⟨name, y, hy, -, cuts, c, hcuts, -, -, -, -, hbetween⟩ :=
    value_between_supports hmake [] current_crossed hsteps le_rfl hdone hinputs
  have hresult := hy.symm.trans evaluate_crossed.1
  cases hresult
  obtain ⟨q, lo, hi, hq, hlo, hhi, hlt⟩ := hbetween (fun h => by cases h)
  cases hq
  exact ⟨s, cuts, lo, hi, hinputs, hcuts, hlo, hhi, evaluate_crossed.1, hlt⟩

end Engine

end FuzzyInference
