import FuzzyInference.Proofs.Engine.Input

/-!
# Engines with a history

What an engine has been called for is left in the values of its table and nowhere else. Inputs that
name every input of the model overwrite all of these but that of the output; so where no premise asks
for the output, an evaluation knows nothing of the calls before it.

* `Model.CoveredBy`: readings that name every input;
* `Model.Underlies.given_agreeOn`: tables that differ in their values only agree after such readings,
  but for the output;
* `Engine.Keeps.current`: the setup of an engine that has been called;
* `evaluate_of_cleared`: evaluations over setups that differ in their values only;
* `evaluate_forgets`: **an evaluation does not depend on the calls before it**;
* `straight_forgets`: calls that fail, and calls that leave values behind.
-/

namespace FuzzyInference

variable {α : Type}

/-- The readings give a scalar for each input of the model. -/
def Model.CoveredBy (m : Model α) (readings : Readings α) : Prop :=
  ∀ d ∈ m.declarations, d.usage = "input" →
    ∃ p ∈ readings, ∃ n, p.1 = some n ∧ Text.lowercase n = Text.lowercase d.name

theorem exists_lastReading? {readings : Readings α} {name : Text}
    (h : ∃ p ∈ readings, ∃ n, p.1 = some n ∧ Text.lowercase n = Text.lowercase name) :
    ∃ x, lastReading? readings name = some x := by
  obtain ⟨p, hp, n, hn, heq⟩ := h
  have hmem : p ∈ readings.filter fun p =>
      p.1.any fun n => Text.lowercase n == Text.lowercase name := by
    rw [List.mem_filter]
    exact ⟨hp, by simp [hn, heq]⟩
  unfold lastReading?
  rw [List.getLast?_eq_some_getLast (List.ne_nil_of_mem hmem)]
  exact ⟨_, rfl⟩

theorem SymbolTable.find?_given (readings : Readings α) (t : SymbolTable α) (n : Text) :
    (t.given readings).find? n = (t.find? n).map (Variable.given readings) := by
  unfold SymbolTable.find? SymbolTable.given
  rw [List.find?_map]
  rfl

theorem Model.outputName?_of_output {m : Model α} (hone : m.outputs.length = 1)
    {d : Declaration α} (hd : d ∈ m.declarations) (husage : d.usage = "output") :
    m.outputName? = some d.name := by
  obtain ⟨d', hd'⟩ := List.length_eq_one_iff.mp hone
  have hmem : d ∈ m.outputs := List.mem_filter.mpr ⟨hd, beq_iff_eq.mpr husage⟩
  rw [hd', List.mem_singleton] at hmem
  unfold Model.outputName?
  rw [hd', hmem]
  rfl

variable [Scalar α]

/-! ### Tables after readings -/

/-- A scalar that is given hides the value that was there. -/
theorem Variable.given_of_cleared {v v' : Variable α} (h : v'.cleared = v.cleared)
    {readings : Readings α} {x : α} (hx : lastReading? readings v.name = some x) :
    v'.given readings = v.given readings := by
  obtain ⟨name, usage, terms, value⟩ := v
  obtain ⟨name', usage', terms', value'⟩ := v'
  cases h
  unfold Variable.given
  simp only [hx, Option.getD_some]

theorem SymbolTable.cleared_given (readings : Readings α) (t : SymbolTable α) :
    (t.given readings).cleared = t.cleared := by
  unfold SymbolTable.cleared SymbolTable.given
  dsimp only
  rw [List.map_map]
  rfl

/-- **Readings that name every input** leave nothing of the values that were there, but for that of
the output. -/
theorem Model.Underlies.given_agreeOn {m : Model α} {s : Setup α} (h : m.Underlies s)
    {t : SymbolTable α} (ht : t.cleared = s.table.cleared) {readings : Readings α}
    (hcovered : m.CoveredBy readings) :
    (s.table.given readings).AgreeOn
      (fun n => ∀ name, m.outputName? = some name → Text.lowercase n ≠ Text.lowercase name)
      (t.given readings) := by
  refine ⟨by rw [SymbolTable.cleared_given, SymbolTable.cleared_given, ht], fun n hn => ?_⟩
  rw [SymbolTable.find?_given, SymbolTable.find?_given]
  cases hv : s.table.find? n with
  | none =>
    have hnone : t.hasVariable n = false := by
      rw [SymbolTable.hasVariable_of_cleared ht]
      unfold SymbolTable.hasVariable
      rw [hv]
      rfl
    rw [Option.isSome_eq_false_iff.mp hnone |> Option.isNone_iff_eq_none.mp]
  | some v =>
    obtain ⟨v', hv', hcleared⟩ := SymbolTable.find?_of_cleared ht hv
    obtain ⟨d, hd, hanswers, hdescribes⟩ := h.exists_declaration hv
    have hinput : d.usage = "input" := by
      cases husage : v.usage with
      | input => rw [hdescribes.usage_name, husage]; rfl
      | output =>
        have hname := Model.outputName?_of_output h.length_outputs hd
          (by rw [hdescribes.usage_name, husage]; rfl)
        exact absurd (beq_iff_eq.mp hanswers).symm (hn d.name hname)
    obtain ⟨p, hp, n', hn', heq⟩ := hcovered d hd hinput
    obtain ⟨x, hx⟩ : ∃ x, lastReading? readings v.name = some x :=
      exists_lastReading?
        ⟨p, hp, n', hn', by rw [heq, hdescribes.name, Text.lowercase_lowercase]⟩
    rw [hv', Option.map_some, Option.map_some, Variable.given_of_cleared hcleared hx]

/-! ### Engines that have been called -/

namespace Engine

theorem current_of_make {m : Model α} {steps workers : Option Int} {e : Engine α}
    (h : make m steps workers = .ok e) : e.current = Setup.build m workers := by
  unfold make at h
  dsimp only at h
  split_ifs at h
  cases h
  rfl

/-- An engine that has been called has the setup it had, or would have got, but for the values. -/
theorem Keeps.current {e e' : Engine α} (h : e.Keeps e') {s : Setup α} (hs : e.current = .ok s) :
    ∃ t, e'.current = .ok { s with table := t } ∧ t.cleared = s.table.cleared ∧
      e'.steps = e.steps := by
  rcases h with rfl | ⟨s', t, hs', ht, rfl⟩
  · exact ⟨s.table, hs, rfl, rfl⟩
  · cases hs.symm.trans hs'
    exact ⟨t, rfl, ht, rfl⟩

/-- Inputs that are accepted are given to the table. -/
theorem given_of_setInputs {e : Engine α} {s s' : Setup α} (hm : e.model.Underlies s)
    (hs : e.current = .ok s) {inputs : Except InputFault (Readings α)}
    (h : (e.setInputs inputs).2 = .ok s') :
    ∃ readings, inputs = .ok readings ∧ s' = s.given readings := by
  obtain ⟨readings, hread, -, hgiven⟩ := (setInputs_ok_iff hm hs).mp h
  exact ⟨readings, hread, hgiven⟩

/-- **Setups that differ in their values only** lead to the same result where no premise asks for the
output and every input is given. -/
theorem evaluate_of_cleared {e e' : Engine α} {s s' : Setup α} (he : e.Sound) (he' : e'.Sound)
    (hmodel : e'.model = e.model) (hsteps : e'.steps = e.steps) (hs : e.current = .ok s)
    (hs' : e'.current = .ok s') (hrules : s'.rules = s.rules)
    (hcleared : s'.table.cleared = s.table.cleared)
    (hunasked : ∀ r ∈ s.rules.rules, r.status = .done → ∀ x ∈ Rule.clausesOf r.premise,
      ∀ name, e.model.outputName? = some name → Text.lowercase x.1 ≠ Text.lowercase name)
    {inputs : Except InputFault (Readings α)}
    (hcovered : ∀ readings, inputs = .ok readings → e.model.CoveredBy readings) :
    (e'.evaluate inputs).2 = (e.evaluate inputs).2 := by
  have hagree : s.table.AgreeOn (fun _ => False) s'.table := ⟨hcleared, fun _ h => h.elim⟩
  rcases setInputs_of_agreeOn hmodel hs hs' hrules hagree inputs with
    ⟨f, hf, hf'⟩ | ⟨t, t', ht, ht', -⟩
  · rw [evaluate_of_setInputs_error hf, evaluate_of_setInputs_error hf']
  · obtain ⟨readings, rfl, hgiven⟩ := given_of_setInputs (he.underlies hs) hs ht
    obtain ⟨readings', heq, hgiven'⟩ := given_of_setInputs (he'.underlies hs') hs' ht'
    cases heq
    obtain rfl : t = s.table.given readings := congrArg Setup.table hgiven
    obtain rfl : t' = s'.table.given readings := congrArg Setup.table hgiven'
    have hagrees := (he.underlies hs).given_agreeOn hcleared (hcovered readings rfl)
    obtain ⟨name, hname, hvalue⟩ := evaluate_snd he ht
    obtain ⟨name', hname', hvalue'⟩ := evaluate_snd he' ht'
    rw [hmodel] at hname'
    cases hname.symm.trans hname'
    rw [hvalue, hvalue', hsteps]
    exact congrArg _ (RuleSet.evaluate_of_agreeOn (he.underlies_of_setInputs ht) hagrees
      hunasked e.steps)

/-- **An evaluation does not depend on the calls before it.** Two engines over one model, which can be
set up and none of whose premises names the output, with the same number of steps, give the same
result or the same error for the same inputs, if these name every input of the model: whatever
either has been called for before, and whatever became of these calls. -/
theorem evaluate_forgets {m : Model α} {steps steps' workers workers' : Option Int}
    {e e' : Engine α} (hmake : make m steps workers = .ok e)
    (hmake' : make m steps' workers' = .ok e') (hsteps : e'.steps = e.steps)
    {calls calls' : List (Call α)} (hcalls : ∀ c ∈ calls, c.KeepsSteps)
    (hcalls' : ∀ c ∈ calls', c.KeepsSteps) {s : Setup α}
    (hbuild : Setup.build m workers = .ok s)
    (hunasked : ∀ r ∈ s.rules.rules, r.status = .done → ∀ x ∈ Rule.clausesOf r.premise,
      ∀ name, m.outputName? = some name → Text.lowercase x.1 ≠ Text.lowercase name)
    {inputs : Except InputFault (Readings α)}
    (hcovered : ∀ readings, inputs = .ok readings → m.CoveredBy readings) :
    ((e'.after calls').evaluate inputs).2 = ((e.after calls).evaluate inputs).2 := by
  obtain ⟨hsound, hmodel⟩ := underlies_after hmake calls
  obtain ⟨hsound', hmodel'⟩ := underlies_after hmake' calls'
  have hfresh : e.current = .ok s := by rw [current_of_make hmake, hbuild]
  have hfresh' : e'.current = .ok s := by
    rw [current_of_make hmake', Setup.build_workers hbuild]
  obtain ⟨t, hs, hcleared, hkept⟩ := (after_keeps calls e hcalls).current hfresh
  obtain ⟨t', hs', hcleared', hkept'⟩ := (after_keeps calls' e' hcalls').current hfresh'
  refine evaluate_of_cleared hsound hsound' (hmodel'.trans hmodel.symm) ?_ hs hs' rfl
    (hcleared'.trans hcleared.symm) (hmodel ▸ hunasked) (hmodel ▸ hcovered)
  rw [hkept, hkept', hsteps]

end Engine

/-! ### A straight model -/

/-- A model of two rules, each of which reads the input and concludes on the output. -/
def Model.straight : Model Exact :=
  ⟨"m", [⟨"input", "x", [.triangle "a" (.number 0) (.number 1) (.number 2),
        .triangle "b" (.number 1) (.number 2) (.number 3)]⟩,
      ⟨"output", "y", [.triangle "a" (.number 0) (.number 1) (.number 2),
        .triangle "b" (.number 1) (.number 2) (.number 3)]⟩],
    ["if x is a then y is a", "if x is b then y is b"], 3⟩

/-- The setup of this model. -/
def Setup.straight : Setup Exact :=
  ⟨⟨[⟨"x", .input, [("a", ⟨.number 0, .number 1, .number 1, .number 2, .number 1⟩),
        ("b", ⟨.number 1, .number 2, .number 2, .number 3, .number 1⟩)], .number 0⟩,
      ⟨"y", .output, [("a", ⟨.number 0, .number 1, .number 1, .number 2, .number 1⟩),
        ("b", ⟨.number 1, .number 2, .number 2, .number 3, .number 1⟩)], .number 0⟩], true⟩,
    ⟨[.readAs "if x is a then y is a" true (.single (.clause "x" "a")) (.single (.clause "y" "a")),
      .readAs "if x is b then y is b" true (.single (.clause "x" "b"))
        (.single (.clause "y" "b"))]⟩⟩

theorem Setup.build_straight (workers : Option Int) :
    Setup.build Model.straight workers = .ok Setup.straight := by
  have htable : buildTable Model.straight = .ok straight.table := by rfl
  have hnodup : (Model.straight.rules.map Text.lowercase).Nodup := by decide +kernel
  have hfirst : (Rule.ofText "if x is a then y is a" true).parse
      (some straight.table.vocabulary) = .readAs "if x is a then y is a" true
        (.single (.clause "x" "a")) (.single (.clause "y" "a")) :=
    Rule.parse_of_plain (by decide +kernel) (by decide +kernel) (by decide +kernel)
      (by decide +kernel)
  have hsecond : (Rule.ofText "if x is b then y is b" true).parse
      (some straight.table.vocabulary) = .readAs "if x is b then y is b" true
        (.single (.clause "x" "b")) (.single (.clause "y" "b")) :=
    Rule.parse_of_plain (by decide +kernel) (by decide +kernel) (by decide +kernel)
      (by decide +kernel)
  rw [build_of_nodup workers rfl htable hnodup]
  exact congrArg₂ (fun r r' => Except.ok (Setup.mk straight.table ⟨[r, r']⟩)) hfirst hsecond

namespace Engine

/-- An engine over this model. -/
def straight : Engine Exact := ⟨Model.straight, 3, none, none⟩

/-- Two calls that fail, a result for another input, and a value that is set from outside: the result
is that of an engine that has not been called. -/
theorem straight_forgets :
    let calls : List (Call Exact) := [.setInputs (.ok [(some "y", .number 1)]),
      .explain (.error .tooManyParts), .evaluate (.ok [(some "x", .number 1)]),
      .setValue "y" (.number 7)]
    let inputs : Except InputFault (Readings Exact) := .ok [(some "x", .number (3 / 2))]
    ((straight.after calls).evaluate inputs).2 = .ok ("y", .number (3 / 2)) := by
  intro calls inputs
  have hmake : make Model.straight none none = .ok straight := rfl
  have hbuild := Setup.build_straight none
  have hcalls : ∀ c ∈ calls, c.KeepsSteps := by simp [calls, Call.KeepsSteps]
  have hunasked : ∀ r ∈ Setup.straight.rules.rules, r.status = .done →
      ∀ x ∈ Rule.clausesOf r.premise, ∀ name, Model.straight.outputName? = some name →
        Text.lowercase x.1 ≠ Text.lowercase name := by
    have hother : ∀ (a : Text), ∀ x ∈ [(("x" : Text), a)], ∀ name,
        Model.straight.outputName? = some name → Text.lowercase x.1 ≠ Text.lowercase name := by
      have hne : Text.lowercase "x" ≠ Text.lowercase "y" := by decide +kernel
      rintro a _ hx _ ⟨⟩
      rw [List.mem_singleton.mp hx]
      exact hne
    exact List.forall_mem_cons.mpr ⟨fun _ => hother "a",
      List.forall_mem_singleton.mpr fun _ => hother "b"⟩
  have hcovered : ∀ readings, inputs = .ok readings → Model.straight.CoveredBy readings := by
    intro readings h
    rw [← Except.ok.inj h]
    exact List.forall_mem_cons.mpr ⟨fun _ => ⟨_, List.mem_singleton_self _, _, rfl, rfl⟩,
      List.forall_mem_singleton.mpr fun h => absurd h (by decide)⟩
  have hforgets := evaluate_forgets hmake hmake rfl (List.forall_mem_nil _) hcalls hbuild hunasked
    hcovered
  have hcurrent : straight.current = .ok Setup.straight := hbuild
  rw [hforgets, after_nil, evaluate_of_current hcurrent]
  exact ok_of_toOption (by decide +kernel)

end Engine

end FuzzyInference
