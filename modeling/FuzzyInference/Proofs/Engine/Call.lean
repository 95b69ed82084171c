import FuzzyInference.Engine
import FuzzyInference.Proofs.RuleSet

/-!
# Calls of an engine

An engine is called in any order and as often as one likes; a call may fail. Its model stays, its
setup is made once and is then that of the model but for the values.

* `Engine.Keeps`: an engine keeps all but the values of its table;
* `setInputs_keeps`, `evaluate_keeps`, `explain_keeps`: what becomes of an engine;
* `setInputs_ok`: what it takes for inputs to be accepted;
* `explain_fst`, `explain_snd`: an explanation is the setting of inputs and a list of what is told;
* `Engine.Call`, `Engine.after`: an engine after any calls; `after_keeps`: it keeps all but the values
  unless its steps are set;
* `Engine.Sound`: an engine holds no setup but one of its model, which a call keeps (`sound_call`)
  and so do all calls (`sound_after`);
* `evaluate_snd`, `evaluate_ok`: an evaluation returns and stores the value of the rule set;
* `evaluate_of_agreeOn`: evaluation reads the values of the variables that premises name;
* `evaluate_crossed`: the results for a model whose rules read its own output.
-/

namespace FuzzyInference.Engine

variable {α : Type} [Scalar α]

/-! ### What becomes of an engine -/

/-- The engine as it was, or with a table that differs in its values only, if need be built first. -/
def Keeps (e e' : Engine α) : Prop :=
  e' = e ∨ ∃ s t, e.current = .ok s ∧ t.cleared = s.table.cleared ∧
    e' = { e with built := some { s with table := t } }

theorem Keeps.trans {e e' e'' : Engine α} (h : e.Keeps e') (h' : e'.Keeps e'') : e.Keeps e'' := by
  rcases h with rfl | ⟨s, t, hs, ht, rfl⟩
  · exact h'
  · rcases h' with rfl | ⟨s', t', hs', ht', rfl⟩
    · exact Or.inr ⟨s, t, hs, ht, rfl⟩
    · cases hs'
      exact Or.inr ⟨s, t', hs, ht'.trans ht, rfl⟩

theorem Keeps.model {e e' : Engine α} (h : e.Keeps e') : e'.model = e.model := by
  rcases h with rfl | ⟨s, t, -, -, rfl⟩
  · rfl
  · rfl

theorem setup_keeps {e e' : Engine α} (h : e.setup = .ok e') : e.Keeps e' := by
  unfold setup at h
  cases hs : e.current with
  | error f =>
    rw [hs] at h
    cases h
  | ok s =>
    rw [hs] at h
    cases h
    exact Or.inr ⟨s, s.table, hs, rfl, rfl⟩

theorem cleared_assign : ∀ (readings : Readings α) (t : SymbolTable α),
    (assign t readings).1.cleared = t.cleared
  | [], _ => rfl
  | (name, x) :: rest, t => by
    rw [assign]
    cases h : t.setValue (name.getD "") x with
    | error f => rfl
    | ok u => exact (cleared_assign rest u).trans (SymbolTable.cleared_setValue h)

/-- Tables that agree go on to agree, and refuse the same readings. -/
theorem assign_of_agreeOn {names : Text → Prop} : ∀ (readings : Readings α)
    {t t' : SymbolTable α}, t.AgreeOn names t' →
      (assign t readings).1.AgreeOn names (assign t' readings).1 ∧
        (assign t' readings).2 = (assign t readings).2
  | [], _, _, h => ⟨h, rfl⟩
  | (name, x) :: rest, t, t', h => by
    rw [assign, assign]
    cases hu : t.setValue (name.getD "") x with
    | error f =>
      have hu' : t'.setValue (name.getD "") x = .error f := by
        unfold SymbolTable.setValue at hu ⊢
        rw [SymbolTable.hasVariable_of_cleared h.cleared]
        split_ifs at hu ⊢
        exact hu
      rw [hu']
      exact ⟨h, rfl⟩
    | ok u =>
      obtain ⟨u', hu', hagree⟩ := h.setValue hu
      rw [hu']
      exact assign_of_agreeOn rest hagree

/-- **What it takes for inputs to be accepted**, and what the engine holds then. -/
theorem setInputs_ok {e : Engine α} {inputs : Except InputFault (Readings α)} {s' : Setup α}
    (h : (e.setInputs inputs).2 = .ok s') : ∃ s readings, e.current = .ok s ∧
      inputs = .ok readings ∧ checkNames e.model readings = .ok () ∧
        assign s.table readings = (s'.table, .ok ()) ∧ s'.rules = s.rules ∧
          (e.setInputs inputs).1 = { e with built := some s' } := by
  unfold setInputs at h ⊢
  cases hs : e.current with
  | error f =>
    rw [hs] at h
    cases h
  | ok s =>
    rw [hs] at h
    cases inputs with
    | error f => cases h
    | ok readings =>
      dsimp only at h ⊢
      cases hnames : checkNames e.model readings with
      | error f =>
        rw [hnames] at h
        cases h
      | ok _ =>
        rw [hnames] at h
        rcases hassign : assign s.table readings with ⟨t, result⟩
        rw [hassign] at h
        cases result with
        | error f => cases h
        | ok _ =>
          cases h
          exact ⟨s, readings, rfl, rfl, hnames, hassign, rfl, rfl⟩

theorem setInputs_keeps (e : Engine α) (inputs : Except InputFault (Readings α)) :
    e.Keeps (e.setInputs inputs).1 := by
  unfold setInputs
  cases hs : e.current with
  | error f => exact Or.inl rfl
  | ok s =>
    have hbuilt : e.Keeps { e with built := some s } := Or.inr ⟨s, s.table, hs, rfl, rfl⟩
    cases inputs with
    | error f => exact hbuilt
    | ok readings =>
      dsimp only
      cases checkNames e.model readings with
      | error f => exact hbuilt
      | ok _ => exact Or.inr ⟨s, _, hs, cleared_assign readings s.table, rfl⟩

theorem storeResult_keeps {e : Engine α} {s : Setup α} (hs : e.current = .ok s) (x : α) :
    e.Keeps (e.storeResult s x).1 := by
  unfold storeResult
  cases e.model.outputName? with
  | none => exact Or.inl rfl
  | some name =>
    dsimp only
    cases h : s.table.setValue name x with
    | error f => exact Or.inl rfl
    | ok t => exact Or.inr ⟨s, t, hs, SymbolTable.cleared_setValue h, rfl⟩

/-- It makes no difference whether the setup is there or is made. -/
theorem evaluate_of_current {e : Engine α} {s : Setup α} (hs : e.current = .ok s)
    (inputs : Except InputFault (Readings α)) :
    e.evaluate inputs = { e with built := some s }.evaluate inputs := by
  have hbuilt : ({ e with built := some s } : Engine α).current = .ok s := rfl
  unfold evaluate setInputs
  rw [hs, hbuilt]

/-- An evaluation fails where the inputs do. -/
theorem evaluate_of_setInputs_error {e : Engine α} {inputs : Except InputFault (Readings α)}
    {f : Fault α} (h : (e.setInputs inputs).2 = .error f) :
    e.evaluate inputs = ((e.setInputs inputs).1, .error f) := by
  have hpair : e.setInputs inputs = ((e.setInputs inputs).1, .error f) := Prod.ext rfl h
  unfold evaluate
  rw [hpair]

section
variable {e : Engine α} {inputs : Except InputFault (Readings α)} {s : Setup α}

/-- It fails where the rule set does. -/
theorem evaluate_of_rules_error {f : Fault α} (h : (e.setInputs inputs).2 = .ok s)
    (hf : s.rules.evaluate s.table e.steps = .error f) :
    e.evaluate inputs = ({ e with built := some s }, .error f) := by
  obtain ⟨-, -, -, -, -, -, -, hfst⟩ := setInputs_ok h
  have hpair : e.setInputs inputs = ({ e with built := some s }, .ok s) := Prod.ext hfst h
  unfold evaluate
  simp only [hpair, hf]

/-- Otherwise the value of the rule set is stored. -/
theorem evaluate_of_rules_ok {x : α} (h : (e.setInputs inputs).2 = .ok s)
    (hx : s.rules.evaluate s.table e.steps = .ok x) :
    e.evaluate inputs = storeResult { e with built := some s } s x := by
  obtain ⟨-, -, -, -, -, -, -, hfst⟩ := setInputs_ok h
  have hpair : e.setInputs inputs = ({ e with built := some s }, .ok s) := Prod.ext hfst h
  unfold evaluate
  simp only [hpair, hx]

end

theorem evaluate_keeps (e : Engine α) (inputs : Except InputFault (Readings α)) :
    e.Keeps (e.evaluate inputs).1 := by
  have hinputs := setInputs_keeps e inputs
  cases h : (e.setInputs inputs).2 with
  | error f =>
    rw [evaluate_of_setInputs_error h]
    exact hinputs
  | ok s =>
    obtain ⟨-, -, -, -, -, -, -, hfst⟩ := setInputs_ok h
    rw [hfst] at hinputs
    cases hx : s.rules.evaluate s.table e.steps with
    | error f =>
      rw [evaluate_of_rules_error h hx]
      exact hinputs
    | ok x =>
      rw [evaluate_of_rules_ok h hx]
      exact hinputs.trans (storeResult_keeps rfl x)

/-- An explanation leaves the engine as the setting of its inputs does. -/
theorem explain_fst (e : Engine α) (inputs : Except InputFault (Readings α)) :
    (e.explain inputs).1 = (e.setInputs inputs).1 := by
  unfold explain
  split
  · next heq => rw [heq]
  · next heq => rw [heq]

/-- It tells of all rules where the inputs are accepted. -/
theorem explain_snd {e : Engine α} {inputs : Except InputFault (Readings α)} {s : Setup α}
    (h : (e.setInputs inputs).2 = .ok s) :
    (e.explain inputs).2 = s.rules.rules.mapM (explainRule s.table) := by
  have hpair : e.setInputs inputs = ((e.setInputs inputs).1, .ok s) := Prod.ext rfl h
  unfold explain
  rw [hpair]

theorem explain_keeps (e : Engine α) (inputs : Except InputFault (Readings α)) :
    e.Keeps (e.explain inputs).1 := by
  rw [explain_fst]
  exact setInputs_keeps e inputs

/-! ### Any calls -/

/-- A call of an engine. The last two set its steps, and a value of its table, from outside. -/
inductive Call (α : Type) where
  | setup
  | setInputs (inputs : Except InputFault (Readings α))
  | evaluate (inputs : Except InputFault (Readings α))
  | explain (inputs : Except InputFault (Readings α))
  | setSteps (steps : Int)
  | setValue (name : Text) (x : α)

/-- The engine with a value of its table set from outside, if the table is there and has the
variable. -/
def withValue (e : Engine α) (name : Text) (x : α) : Engine α :=
  match e.built with
  | none => e
  | some s =>
    match s.table.setValue name x with
    | .error _ => e
    | .ok table => { e with built := some { s with table } }

/-- The engine after a call. -/
def call (e : Engine α) : Call α → Engine α
  | .setup =>
    match e.setup with
    | .error _ => e
    | .ok e => e
  | .setInputs inputs => (e.setInputs inputs).1
  | .evaluate inputs => (e.evaluate inputs).1
  | .explain inputs => (e.explain inputs).1
  | .setSteps steps => { e with steps }
  | .setValue name x => e.withValue name x

/-- The engine after calls, the first one first. -/
def after (e : Engine α) (calls : List (Call α)) : Engine α := calls.foldl call e

@[simp] theorem after_nil (e : Engine α) : e.after [] = e := rfl

@[simp] theorem after_cons (e : Engine α) (c : Call α) (calls : List (Call α)) :
    e.after (c :: calls) = (e.call c).after calls := rfl

@[simp] theorem call_evaluate (e : Engine α) (inputs : Except InputFault (Readings α)) :
    e.call (.evaluate inputs) = (e.evaluate inputs).1 := rfl

theorem withValue_keeps (e : Engine α) (name : Text) (x : α) : e.Keeps (e.withValue name x) := by
  unfold withValue
  cases hbuilt : e.built with
  | none => exact Or.inl rfl
  | some s =>
    dsimp only
    cases h : s.table.setValue name x with
    | error f => exact Or.inl rfl
    | ok t =>
      refine Or.inr ⟨s, t, ?_, SymbolTable.cleared_setValue h, rfl⟩
      unfold current
      rw [hbuilt]

/-- The call does not set the steps. -/
def Call.KeepsSteps : Call α → Prop
  | .setSteps _ => False
  | _ => True

/-- **A call keeps all but the values** of the table, unless it sets the steps. -/
theorem call_keeps (e : Engine α) {c : Call α} (hc : c.KeepsSteps) : e.Keeps (e.call c) := by
  cases c with
  | setup =>
    unfold call
    cases h : e.setup with
    | error f => exact Or.inl rfl
    | ok e' => exact setup_keeps h
  | setInputs inputs => exact setInputs_keeps e inputs
  | evaluate inputs => exact evaluate_keeps e inputs
  | explain inputs => exact explain_keeps e inputs
  | setSteps steps => exact hc.elim
  | setValue name x => exact withValue_keeps e name x

/-- **So do any calls** that do not set the steps. -/
theorem after_keeps : ∀ (calls : List (Call α)) (e : Engine α), (∀ c ∈ calls, c.KeepsSteps) →
    e.Keeps (e.after calls)
  | [], _, _ => Or.inl rfl
  | c :: calls, e, h => by
    rw [List.forall_mem_cons] at h
    exact (call_keeps e h.1).trans (after_keeps calls (e.call c) h.2)

/-- The engine holds no setup but one of its model. -/
def Sound (e : Engine α) : Prop := ∀ s, e.built = some s → e.model.Underlies s

/-- The setup that is there, or is made, is one of the model. -/
theorem Sound.underlies {e : Engine α} (he : e.Sound) {s : Setup α} (hs : e.current = .ok s) :
    e.model.Underlies s := by
  unfold current at hs
  cases hbuilt : e.built with
  | none =>
    rw [hbuilt] at hs
    exact Model.Underlies.of_build hs
  | some s' =>
    rw [hbuilt] at hs
    cases hs
    exact he _ hbuilt

theorem Sound.of_keeps {e e' : Engine α} (he : e.Sound) (h : e.Keeps e') : e'.Sound := by
  rcases h with rfl | ⟨s, t, hs, ht, rfl⟩
  · exact he
  · intro s' hs'
    cases hs'
    exact (he.underlies hs).of_cleared ht

/-- **A call keeps the model**, and makes no setup but one of it. -/
theorem sound_call {e : Engine α} (he : e.Sound) (c : Call α) :
    (e.call c).Sound ∧ (e.call c).model = e.model := by
  by_cases hc : c.KeepsSteps
  · have hkeeps := call_keeps e hc
    exact ⟨he.of_keeps hkeeps, hkeeps.model⟩
  · cases c with
    | setSteps steps => exact ⟨he, rfl⟩
    | _ => exact absurd trivial hc

/-- **Any calls keep the model**, and make no setup but one of it. -/
theorem sound_after : ∀ (calls : List (Call α)) {e : Engine α}, e.Sound →
    (e.after calls).Sound ∧ (e.after calls).model = e.model
  | [], _, he => ⟨he, rfl⟩
  | c :: calls, e, he => by
    obtain ⟨hsound, hmodel⟩ := sound_call he c
    obtain ⟨hsounds, hmodels⟩ := sound_after calls hsound
    exact ⟨hsounds, hmodels.trans hmodel⟩

theorem make_ok {α : Type} {m : Model α} {steps workers : Option Int} {e : Engine α}
    (h : make m steps workers = .ok e) : e.model = m ∧ e.built = none := by
  unfold make at h
  dsimp only at h
  split_ifs at h
  cases h
  exact ⟨rfl, rfl⟩

/-- **An engine over a model** works on a setup of that model, whatever it has been called for. -/
theorem underlies_after {m : Model α} {steps workers : Option Int} {e : Engine α}
    (h : make m steps workers = .ok e) (calls : List (Call α)) :
    (e.after calls).Sound ∧ (e.after calls).model = m := by
  obtain ⟨hmodel, hbuilt⟩ := make_ok h
  have hsound : e.Sound := by
    intro s hs
    rw [hbuilt] at hs
    cases hs
  obtain ⟨hsounds, hmodels⟩ := sound_after calls hsound
  exact ⟨hsounds, hmodels.trans hmodel⟩

/-! ### Evaluations -/

/-- Accepted inputs lead to a setup of the model. -/
theorem Sound.underlies_of_setInputs {e : Engine α} (he : e.Sound)
    {inputs : Except InputFault (Readings α)} {s : Setup α} (h : (e.setInputs inputs).2 = .ok s) :
    e.model.Underlies s := by
  obtain ⟨s₀, readings, hs₀, -, -, hassign, hrules, -⟩ := setInputs_ok h
  have hcleared : s.table.cleared = s₀.table.cleared := by
    have := cleared_assign readings s₀.table
    rwa [hassign] at this
  have hs : s = { s₀ with table := s.table } := by
    obtain ⟨table, rules⟩ := s
    cases hrules
    rfl
  rw [hs]
  exact (he.underlies hs₀).of_cleared hcleared

/-- A setup of the model has a place for the result. -/
theorem storeResult_of_underlies {e : Engine α} {s : Setup α} (hm : e.model.Underlies s) (x : α) :
    ∃ name t, e.model.outputName? = some name ∧ s.table.setValue name x = .ok t ∧
      e.storeResult s x = ({ e with built := some { s with table := t } }, .ok (name, x)) := by
  obtain ⟨d, hout⟩ : ∃ d, e.model.outputs = [d] := List.length_eq_one_iff.mp hm.length_outputs
  have hname : e.model.outputName? = some d.name := by
    unfold Model.outputName?
    rw [hout]
    rfl
  have hd : d ∈ e.model.declarations := by
    have hmem : d ∈ e.model.outputs := by
      rw [hout]
      exact List.mem_singleton_self d
    exact List.mem_of_mem_filter hmem
  have hset : ∃ t, s.table.setValue d.name x = .ok t := ⟨_, if_pos (hm.hasVariable hd)⟩
  obtain ⟨t, ht⟩ := hset
  refine ⟨d.name, t, hname, ht, ?_⟩
  unfold storeResult
  rw [hname]
  dsimp only
  rw [ht]

/-- **The result of an evaluation** is the value of the rule set under the name of the output. -/
theorem evaluate_snd {e : Engine α} (he : e.Sound) {inputs : Except InputFault (Readings α)}
    {s : Setup α} (h : (e.setInputs inputs).2 = .ok s) :
    ∃ name, e.model.outputName? = some name ∧
      (e.evaluate inputs).2 = (s.rules.evaluate s.table e.steps).map (name, ·) := by
  have hstore := fun x : α => storeResult_of_underlies (e := { e with built := some s })
    (he.underlies_of_setInputs h) x
  obtain ⟨name, -, hname, -⟩ := hstore Scalar.zero
  refine ⟨name, hname, ?_⟩
  cases hx : s.rules.evaluate s.table e.steps with
  | error f =>
    rw [evaluate_of_rules_error h hx]
    rfl
  | ok x =>
    obtain ⟨name', t, hname', -, hresult⟩ := hstore x
    cases hname.symm.trans hname'
    rw [evaluate_of_rules_ok h hx, hresult]
    rfl

/-- **What it takes for an evaluation to succeed**: accepted inputs, and a value of the rule set,
which is stored under the name of the output. -/
theorem evaluate_ok {e : Engine α} (he : e.Sound) {inputs : Except InputFault (Readings α)}
    {name : Text} {x : α} (h : (e.evaluate inputs).2 = .ok (name, x)) :
    ∃ s t, (e.setInputs inputs).2 = .ok s ∧ s.rules.evaluate s.table e.steps = .ok x ∧
      e.model.outputName? = some name ∧ s.table.setValue name x = .ok t ∧
        (e.evaluate inputs).1 = { e with built := some { s with table := t } } := by
  cases hinputs : (e.setInputs inputs).2 with
  | error f =>
    rw [evaluate_of_setInputs_error hinputs] at h
    cases h
  | ok s =>
    cases hx : s.rules.evaluate s.table e.steps with
    | error f =>
      rw [evaluate_of_rules_error hinputs hx] at h
      cases h
    | ok y =>
      obtain ⟨name', t, hname', hset, hstore⟩ := storeResult_of_underlies
        (e := { e with built := some s }) (he.underlies_of_setInputs hinputs) y
      rw [evaluate_of_rules_ok hinputs hx, hstore] at h ⊢
      cases h
      exact ⟨s, t, rfl, hx, hname', hset, rfl⟩

/-- Engines over tables that agree refuse the same inputs, and agree on what they accept. -/
theorem setInputs_of_agreeOn {e e' : Engine α} {s s' : Setup α} {names : Text → Prop}
    (hmodel : e'.model = e.model) (hs : e.current = .ok s) (hs' : e'.current = .ok s')
    (hrules : s'.rules = s.rules) (h : s.table.AgreeOn names s'.table)
    (inputs : Except InputFault (Readings α)) :
    (∃ f, (e.setInputs inputs).2 = .error f ∧ (e'.setInputs inputs).2 = .error f) ∨
      ∃ t t', (e.setInputs inputs).2 = .ok ⟨t, s.rules⟩ ∧
        (e'.setInputs inputs).2 = .ok ⟨t', s.rules⟩ ∧ t.AgreeOn names t' := by
  unfold setInputs
  rw [hs, hs']
  cases inputs with
  | error f => exact Or.inl ⟨.input f, rfl, rfl⟩
  | ok readings =>
    dsimp only
    rw [hmodel, hrules]
    cases checkNames e.model readings with
    | error f => exact Or.inl ⟨f, rfl, rfl⟩
    | ok _ =>
      dsimp only
      obtain ⟨hagree, hresult⟩ := assign_of_agreeOn readings h
      rw [hresult]
      cases (assign s.table readings).2 with
      | error f => exact Or.inl ⟨f, rfl, rfl⟩
      | ok _ => exact Or.inr ⟨_, _, rfl, rfl, hagree⟩

/-- **Engines over tables that agree** on what the premises name give the same results. -/
theorem evaluate_of_agreeOn {e e' : Engine α} {s s' : Setup α} {names : Text → Prop}
    (he : e.Sound) (he' : e'.Sound) (hmodel : e'.model = e.model) (hsteps : e'.steps = e.steps)
    (hs : e.current = .ok s) (hs' : e'.current = .ok s') (hrules : s'.rules = s.rules)
    (h : s.table.AgreeOn names s'.table)
    (hnames : ∀ r ∈ s.rules.rules, r.status = .done →
      ∀ x ∈ Rule.clausesOf r.premise, names x.1) (inputs : Except InputFault (Readings α)) :
    (e'.evaluate inputs).2 = (e.evaluate inputs).2 := by
  rcases setInputs_of_agreeOn hmodel hs hs' hrules h inputs with
    ⟨f, hf, hf'⟩ | ⟨t, t', ht, ht', hagree⟩
  · rw [evaluate_of_setInputs_error hf, evaluate_of_setInputs_error hf']
  · obtain ⟨name, hname, hvalue⟩ := evaluate_snd he ht
    obtain ⟨name', hname', hvalue'⟩ := evaluate_snd he' ht'
    rw [hmodel] at hname'
    cases hname.symm.trans hname'
    have hm := he.underlies_of_setInputs ht
    rw [hvalue, hvalue', hsteps]
    exact congrArg _ (RuleSet.evaluate_of_agreeOn hm hagree hnames e.steps)

/-! ### The crossed model -/

/-- The input of the crossed model for which its first rule is fully relevant. -/
def crossedInput : Except InputFault (Readings Exact) := .ok [(some "x", .number 1)]

/-- An engine over the crossed model. -/
def crossed : Engine Exact := ⟨Model.crossed, 3, none, none⟩

theorem current_crossed : crossed.current = .ok Setup.crossed := Setup.build_crossed none

/-- **The same input twice, and two results**: the second time the output has a value. -/
theorem evaluate_crossed :
    (crossed.evaluate crossedInput).2 = .ok ("y", .number 2) ∧
      ((crossed.call (.evaluate crossedInput)).evaluate crossedInput).2 =
        .ok ("y", .number (3 / 2)) := by
  rw [call_evaluate, evaluate_of_current current_crossed]
  exact ⟨ok_of_toOption (by decide +kernel), ok_of_toOption (by decide +kernel)⟩

end FuzzyInference.Engine
