import FuzzyInference.Proofs.Engine.History

/-!
# What explanations tell

The explanations of all rules and the evaluation are two ways through the rules. For each rule that is
in order an explanation names the term that the rule concludes and its degree, and nothing else goes
into an evaluation: from the explanations the result can be found again, and so can the error.

* `Explanation.conclude`, `Explanation.value`: the term that an explanation names, cut down to its
  degree, and the centre of all of these superposed;
* `Rule.exists_explanation`: what is told of a rule;
* `RuleSet.evaluate_of_explained`: where all rules are in order, the explanations give the value of
  the rule set;
* `setInputs_values`: what inputs do to the values of the table;
* `setInputs_again`: inputs that are accepted once more change nothing;
* `explain_then_evaluate`: **an explanation tells what the evaluation behind it gives.**
-/

namespace FuzzyInference

variable {α : Type} [Scalar α]

/-! ### From explanations to a value -/

namespace Explanation

/-- The term that the explanation names, cut down to the degree. -/
def conclude (t : SymbolTable α) (x : Explanation α) : Except (Fault α) (Membership α) :=
  match x.firing with
  | some ⟨degree, some name, some label⟩ =>
    match t.find? name with
    | none => .error .variableMissing
    | some v =>
      match v.function label with
      | .error f => .error f
      | .ok f => f.reason degree
  | _ => .error .stackEmpty

/-- The centre of the terms that explanations name, each cut down to its degree, superposed. -/
def value (t : SymbolTable α) (steps : Int) (xs : List (Explanation α)) : Except (Fault α) α :=
  xs.mapM (conclude t) >>= fun fs => Curve.superpose fs steps >>= Curve.center

end Explanation

/-- The explanation of a rule: one that is in order fires, with its degree of relevance and the clause
that it concludes, and no other does. -/
structure Rule.ExplainedBy (t : SymbolTable α) (r : Rule) (x : Explanation α) : Prop where
  rule : x.rule = r
  fires : r.status = .done → ∃ h, r.relevance t = .ok h ∧
    x.firing = some ⟨h, r.conclusionVariable?, r.conclusionTerm?⟩
  rests : r.status ≠ .done → x.firing = none

/-- **What is told of a rule**: if the rule is in order, it is enough to find its conclusion. -/
theorem Rule.exists_explanation {m : Model α} {s : Setup α} (hm : m.Underlies s) {r : Rule}
    (hr : r ∈ s.rules.rules) : ∃ x, Engine.explainRule s.table r = .ok x ∧
      r.ExplainedBy s.table x ∧
      (r.status = .done → r.conclude s.table = x.conclude s.table) := by
  unfold Engine.explainRule
  by_cases hdone : r.status = .done
  · obtain ⟨⟨name, label⟩, f, h, hconcludes, hconclude⟩ := exists_concludes hm hr hdone
    obtain ⟨v, hv, hf⟩ := hconcludes.function
    rw [if_pos hdone, hconcludes.relevance]
    refine ⟨_, rfl, ⟨rfl, fun _ => ⟨h, hconcludes.relevance, rfl⟩, fun hnot => absurd hdone hnot⟩,
      fun _ => ?_⟩
    rw [hconclude, hconcludes.variableName, hconcludes.termName]
    unfold Explanation.conclude Variable.function
    simp only [hv, hf]
  · rw [if_neg hdone]
    exact ⟨_, rfl, ⟨rfl, fun h => absurd h hdone, fun _ => rfl⟩, fun h => absurd h hdone⟩

namespace RuleSet

/-- The explanations of all rules. -/
theorem exists_explanations {m : Model α} {s : Setup α} (hm : m.Underlies s) :
    ∃ xs, s.rules.rules.mapM (Engine.explainRule s.table) = .ok xs ∧
      List.Forall₂ (Rule.ExplainedBy s.table) s.rules.rules xs ∧
      ((∀ r ∈ s.rules.rules, r.status = .done) → ∀ steps,
        s.rules.evaluate s.table steps = Explanation.value s.table steps xs) := by
  obtain ⟨xs, hxs⟩ := exists_forall₂ fun r hr => Rule.exists_explanation hm (r := r) hr
  refine ⟨xs, mapM_ok_iff.mpr (hxs.imp fun _ _ h => h.1), hxs.imp fun _ _ h => h.2.1,
    fun hdone steps => ?_⟩
  have hconclusions : s.rules.conclusions s.table = xs.mapM (Explanation.conclude s.table) :=
    mapM_eq_of_forall₂ (((List.forall₂_and_left _ _).mpr ⟨hdone, hxs⟩).imp
      fun _ _ h => h.2.2.2 h.1)
  rw [evaluate_of_done hdone, hconclusions]
  rfl

end RuleSet

/-! ### What becomes of the values -/

/-- Readings that have been given are given once more. -/
theorem Setup.given_given {α : Type} (s : Setup α) (readings : Readings α) :
    (s.given readings).given readings = s.given readings := by
  have hgiven : Variable.given readings ∘ Variable.given readings =
      (Variable.given readings : Variable α → Variable α) := by
    funext v
    rw [Function.comp_apply]
    unfold Variable.given
    dsimp only
    cases lastReading? readings v.name with
    | none => rfl
    | some x => rfl
  unfold Setup.given SymbolTable.given
  rw [List.map_map, hgiven]

namespace Engine

/-- The variable as it was, or an input with the last scalar that the inputs give for it. -/
def ValueSet (inputs : Except InputFault (Readings α)) (v v' : Variable α) : Prop :=
  v' = v ∨ v.usage = .input ∧ ∃ readings x, inputs = .ok readings ∧
    lastReading? readings v.name = some x ∧ v' = { v with value := x }

/-- **Inputs change no values but their own**, be they accepted or refused. -/
theorem setInputs_values {e : Engine α} {s : Setup α} (hm : e.model.Underlies s)
    (hs : e.current = .ok s) (inputs : Except InputFault (Readings α)) :
    ∃ s', (e.setInputs inputs).1 = { e with built := some s' } ∧ s'.rules = s.rules ∧
      s'.table.frozen = s.table.frozen ∧
      List.Forall₂ (ValueSet inputs) s.table.entries s'.table.entries := by
  have hsame : List.Forall₂ (ValueSet inputs) s.table.entries s.table.entries :=
    List.forall₂_same.mpr fun v _ => Or.inl rfl
  rcases setInputs_cases hm hs inputs with
    ⟨f, -, hout⟩ | ⟨readings, f, -, -, hout⟩ | ⟨readings, hread, hnames, hout⟩
  · exact ⟨s, congrArg Prod.fst hout, rfl, rfl, hsame⟩
  · exact ⟨s, congrArg Prod.fst hout, rfl, rfl, hsame⟩
  · refine ⟨s.given readings, congrArg Prod.fst hout, rfl, rfl, ?_⟩
    show List.Forall₂ _ _ (s.table.entries.map (Variable.given readings))
    rw [List.forall₂_map_right_iff, List.forall₂_same]
    intro v hv
    cases hlast : lastReading? readings v.name with
    | none =>
      left
      unfold Variable.given
      rw [hlast]
      rfl
    | some x =>
      have hinput : v.usage = .input := by
        cases husage : v.usage with
        | input => rfl
        | output =>
          rw [hm.lastReading?_output hnames hv husage] at hlast
          cases hlast
      refine Or.inr ⟨hinput, readings, x, hread, hlast, ?_⟩
      unfold Variable.given
      rw [hlast]
      rfl

/-- **Inputs that are accepted once more** change nothing. -/
theorem setInputs_again {e : Engine α} {s s' : Setup α} (hm : e.model.Underlies s)
    (hs : e.current = .ok s) {inputs : Except InputFault (Readings α)}
    (h : (e.setInputs inputs).2 = .ok s') :
    ((e.setInputs inputs).1.setInputs inputs).2 = .ok s' := by
  obtain ⟨readings, hread, hnames, rfl⟩ := (setInputs_ok_iff hm hs).mp h
  obtain ⟨-, -, -, -, -, -, -, hheld⟩ := setInputs_ok h
  let e' : Engine α := { e with built := some (s.given readings) }
  have hm' : e'.model.Underlies (s.given readings) :=
    hm.of_cleared (SymbolTable.cleared_given readings s.table)
  have hs' : e'.current = .ok (s.given readings) := rfl
  rw [hheld]
  exact (setInputs_ok_iff hm' hs').mpr ⟨readings, hread, hnames, (s.given_given readings).symm⟩

/-- **An explanation tells what the evaluation behind it gives.** Over a model that can be set up,
whatever the engine has been called for:

* an explanation keeps the model, the steps and the rules of the engine, and all values but those of
  inputs of the table that the inputs name;
* if the inputs are accepted, it tells of each rule in order, and of exactly those without error
  their degree of relevance;
* if then all rules are without error, an evaluation for the same inputs gives the centre of the
  terms that have been told, cut down to the degrees that have been told and superposed with the
  steps of the engine, or fails with the same error. -/
theorem explain_then_evaluate {m : Model α} {steps workers : Option Int} {e₀ : Engine α}
    (hmake : make m steps workers = .ok e₀) (calls : List (Call α)) {s : Setup α}
    (hs : (e₀.after calls).current = .ok s) (inputs : Except InputFault (Readings α)) :
    let e := e₀.after calls
    let told := e.explain inputs
    (∃ s', told.1 = { e with built := some s' } ∧ s'.rules = s.rules ∧
      s'.table.frozen = s.table.frozen ∧
      List.Forall₂ (ValueSet inputs) s.table.entries s'.table.entries) ∧
    ∀ s', (e.setInputs inputs).2 = .ok s' → told.1.built = some s' ∧
      ∃ xs, told.2 = .ok xs ∧ List.Forall₂ (Rule.ExplainedBy s'.table) s.rules.rules xs ∧
        ((∀ r ∈ s.rules.rules, r.status = .done) → ∃ name, m.outputName? = some name ∧
          (told.1.evaluate inputs).2 =
            (Explanation.value s'.table e.steps xs).map fun y => (name, y)) := by
  intro e told
  obtain ⟨he, hmodel⟩ := underlies_after hmake calls
  have hm : e.model.Underlies s := he.underlies hs
  have hfst : told.1 = (e.setInputs inputs).1 := explain_fst e inputs
  refine ⟨hfst ▸ setInputs_values hm hs inputs, fun s' hinputs => ?_⟩
  obtain ⟨s₀, -, hs₀, -, -, -, hrules, hheld⟩ := setInputs_ok hinputs
  cases hs.symm.trans hs₀
  obtain ⟨xs, hxs, hexplained, hvalue⟩ :=
    RuleSet.exists_explanations (he.underlies_of_setInputs hinputs)
  rw [hrules] at hexplained hxs hvalue
  refine ⟨by rw [hfst, hheld], xs, ?_, hexplained, fun hdone => ?_⟩
  · rw [explain_snd hinputs, hrules, hxs]
  · have hsound : told.1.Sound := he.of_keeps (explain_keeps e inputs)
    have hkept : told.1 = { e with built := some s' } := hfst.trans hheld
    have hagain : (told.1.setInputs inputs).2 = .ok s' := by
      rw [hfst]
      exact setInputs_again hm hs hinputs
    obtain ⟨name, hname, heval⟩ := evaluate_snd hsound hagain
    have hsteps : told.1.steps = e.steps := by rw [hkept]
    have hout : m.outputName? = some name := by
      rw [hkept] at hname
      exact hmodel ▸ hname
    exact ⟨name, hout, by rw [heval, hrules, hvalue hdone, hsteps]⟩

/-- The first result of the crossed model, whose second rule reads the output, is found again from what
has been told. -/
theorem crossed_explain_then_evaluate :
    let told := crossed.explain crossedInput
    ∃ s xs, told.1.built = some s ∧ told.2 = .ok xs ∧
      List.Forall₂ (Rule.ExplainedBy s.table) Setup.crossed.rules.rules xs ∧
      Explanation.value s.table 3 xs = .ok (.number 2) ∧
      (told.1.evaluate crossedInput).2 = .ok ("y", .number 2) := by
  intro told
  have hmake : make Model.crossed none none = .ok crossed := rfl
  have hsound : crossed.Sound := (underlies_after hmake []).1
  have hdone : ∀ r ∈ Setup.crossed.rules.rules, r.status = .done :=
    List.forall_mem_cons.mpr ⟨rfl, List.forall_mem_singleton.mpr rfl⟩
  obtain ⟨s, -, hinputs, -⟩ := evaluate_ok hsound evaluate_crossed.1
  obtain ⟨-, haccepted⟩ := explain_then_evaluate hmake [] current_crossed crossedInput
  obtain ⟨hbuilt, xs, hxs, hexplained, hresult⟩ := haccepted s hinputs
  obtain ⟨name, -, hvalue⟩ := hresult hdone
  have hheld : told = ({ crossed with built := some Setup.crossed } : Engine Exact).explain
      crossedInput := by
    unfold told explain setInputs
    rw [current_crossed]
    rfl
  have hevaluate : (told.1.evaluate crossedInput).2 = .ok ("y", .number 2) := by
    rw [hheld]
    exact ok_of_toOption (by decide +kernel)
  obtain ⟨y, hy, hnamed⟩ := exists_of_map_ok (hvalue.symm.trans hevaluate)
  cases hnamed
  exact ⟨s, xs, hbuilt, hxs, hexplained, hy, hevaluate⟩

end Engine

end FuzzyInference
