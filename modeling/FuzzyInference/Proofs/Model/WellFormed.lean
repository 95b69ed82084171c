import FuzzyInference.Proofs.Double
import FuzzyInference.Proofs.Engine.Setup
import Mathlib.Data.List.Nodup

/-!
# Models that can be set up

A setup takes in the terms of each variable, the variables of the model and its rules one by one, and
stops at the first that cannot be taken in. Whether it gets to the end can be told from the model.

* `keyed_loop_ok_iff`: a loop that takes in items under new keys, which is what each of the three
  passes is;
* `Setup.addTerms_ok_iff`, `Setup.addVariables_ok_iff`, `Setup.addRules_ok_iff`: the passes;
* `Setup.build_ok_iff`: which models can be set up, in terms of their items;
  `Setup.build_workers`: it does not matter by how many workers;
* `Term.Ascends`, `Declaration.WellFormed`, `Model.Consistent`, `Model.WellFormed`: the same said of
  the model itself where numbers are doubles (`Setup.build_ok_iff_wellFormed`).
-/

namespace FuzzyInference

/-! ### Loops that take in items under new keys -/

section
variable {σ β ε : Type} (loop : σ → List β → Except ε σ) (step : σ → β → Except ε σ)
  (keys : σ → List Text) (key : β → Text) (I : σ → Prop) (P : β → Prop)

/-- **A loop that takes in items under new keys.** If one item can be taken in exactly if it has the
property `P` and its key is new, and is then kept under its key, all items can be taken in exactly if
all have the property and their keys differ from each other and from those there were. -/
theorem keyed_loop_ok_iff (hnil : ∀ s, loop s [] = .ok s)
    (hcons : ∀ s x xs, loop s (x :: xs) = (step s x).bind (loop · xs))
    (hstep : ∀ s x, I s → ((∃ s', step s x = .ok s') ↔ P x ∧ key x ∉ keys s))
    (hkeys : ∀ s x s', I s → step s x = .ok s' → I s' ∧ keys s' = keys s ++ [key x]) :
    ∀ {xs : List β} {s : σ}, I s → (keys s).Nodup →
      ((∃ s', loop s xs = .ok s') ↔ (∀ x ∈ xs, P x) ∧ (keys s ++ xs.map key).Nodup)
  | [], s, _, hnodup => by simp [hnil, hnodup]
  | x :: xs, s, hs, hnodup => by
    have hsnoc : (keys s ++ [key x]).Nodup ↔ key x ∉ keys s := by
      rw [List.nodup_append_comm]
      simp [hnodup]
    rw [hcons, List.map_cons, List.append_cons, List.forall_mem_cons]
    cases hx : step s x with
    | error e =>
      -- Either the item lacks the property or its key is taken.
      have hrefused : ¬ (P x ∧ key x ∉ keys s) := by
        rw [← hstep s x hs, hx]
        simp
      constructor
      · rintro ⟨s', hs'⟩
        cases hs'
      · rintro ⟨⟨hP, -⟩, hall⟩
        exact absurd ⟨hP, hsnoc.mp (List.nodup_append.mp hall).1⟩ hrefused
    | ok s₁ =>
      obtain ⟨hP, hnew⟩ := (hstep s x hs).mp ⟨s₁, hx⟩
      obtain ⟨hs₁, heq⟩ := hkeys s x s₁ hs hx
      have hnodup₁ : (keys s₁).Nodup := by rw [heq, hsnoc]; exact hnew
      have ih : (∃ s', loop s₁ xs = .ok s') ↔ _ :=
        keyed_loop_ok_iff hnil hcons hstep hkeys hs₁ hnodup₁
      rw [heq] at ih
      exact ih.trans (by simp [hP])

end

variable {α : Type} [Scalar α]

/-! ### Terms -/

theorem Variable.hasTerm_iff {α : Type} {v : Variable α} {label : Text} :
    v.hasTerm label = true ↔ Text.lowercase label ∈ v.termNames := by
  unfold Variable.hasTerm Variable.term? Variable.termNames
  simp only [List.lookup_isSome_iff, List.mem_map, beq_iff_eq]
  exact exists_congr fun p => and_congr_right fun _ => eq_comm

/-- A term can be added if its name is new. -/
theorem Variable.addTerm_ok_iff {α : Type} {v : Variable α} {label : Text} {f : Membership α} :
    (∃ v', v.addTerm label f = .ok v') ↔ Text.lowercase label ∉ v.termNames := by
  rw [← Text.lowercase_lowercase label, ← Variable.hasTerm_iff]
  unfold Variable.addTerm
  by_cases h : v.hasTerm (Text.lowercase label) = true
  · simp [h]
  · simp [h]

namespace Setup

/-- **The terms of a variable** can be added if each has a function and their names are new. -/
theorem addTerms_ok_iff {ts : List (Term α)} {v : Variable α} (hv : v.termNames.Nodup) :
    (∃ v', addTerms v ts = .ok v') ↔ (∀ t ∈ ts, ∃ f, t.function = .ok f) ∧
      (v.termNames ++ ts.map fun t => Text.lowercase t.name).Nodup := by
  refine keyed_loop_ok_iff addTerms (fun v t => t.function.bind (v.addTerm t.name))
    Variable.termNames _ (fun _ => True) _ (fun _ => rfl) (fun v t ts => ?_)
    (fun v t _ => ?_) (fun v t v' _ h => ⟨trivial, ?_⟩) trivial hv
  · rw [addTerms]
    cases t.function with
    | error e => rfl
    | ok f =>
      dsimp only [Except.bind]
      cases v.addTerm t.name f with
      | error e => rfl
      | ok v' => rfl
  · cases t.function with
    | error e => simp [Except.bind]
    | ok f => simp [Except.bind, Variable.addTerm_ok_iff]
  · cases hf : t.function with
    | error e =>
      rw [hf] at h
      cases h
    | ok f =>
      rw [hf] at h
      obtain rfl := Variable.addTerm_ok h
      simp [Variable.termNames]

/-- A declaration can be made into a variable if its usage is one, each term has a function and the
names of the terms differ. -/
theorem buildVariable_ok_iff {d : Declaration α} :
    (∃ v, buildVariable d = .ok v) ↔ (d.usage = "input" ∨ d.usage = "output") ∧
      (∀ t ∈ d.terms, ∃ f, t.function = .ok f) ∧
        (d.terms.map fun t => Text.lowercase t.name).Nodup := by
  have hterms : ∀ u, (∃ v, addTerms ⟨Text.lowercase d.name, u, [], Scalar.zero⟩ d.terms = .ok v) ↔
      (∀ t ∈ d.terms, ∃ f, t.function = .ok f) ∧
        (d.terms.map fun t => Text.lowercase t.name).Nodup := fun u =>
    addTerms_ok_iff List.nodup_nil
  unfold buildVariable Variable.make Usage.ofName?
  simp only [beq_iff_eq]
  by_cases hinput : d.usage = "input"
  · simp [hinput, hterms]
  · by_cases houtput : d.usage = "output"
    · have hne : ¬ Text.ofString "output" = Text.ofString "input" := by decide
      simp [houtput, hne, hterms]
    · simp [hinput, houtput]

end Setup

/-! ### Variables -/

/-- The names under which the variables of a table are found. -/
def SymbolTable.keys {α : Type} (t : SymbolTable α) : List Text :=
  t.entries.map fun v => Text.lowercase v.name

theorem SymbolTable.hasVariable_iff {α : Type} {t : SymbolTable α} {n : Text} :
    t.hasVariable n = true ↔ Text.lowercase n ∈ t.keys := by
  simp [hasVariable, find?, keys, Variable.answersTo]

/-- A variable has a place in a table that is not frozen if its name is new. -/
theorem SymbolTable.insert_ok_iff {α : Type} {t : SymbolTable α} {v : Variable α}
    (hopen : t.frozen = false) : (∃ u, t.insert v = .ok u) ↔ Text.lowercase v.name ∉ t.keys := by
  rw [← hasVariable_iff]
  unfold insert register
  rw [hopen, if_neg Bool.false_ne_true]
  by_cases h : t.hasVariable v.name = true
  · simp [h]
  · simp [h]

namespace Setup

/-- **The variables of a model** have places in a table if each can be made and their names are
new. -/
theorem addVariables_ok_iff {ds : List (Declaration α)} {t : SymbolTable α}
    (hopen : t.frozen = false) (ht : t.keys.Nodup) :
    (∃ u, addVariables t ds = .ok u) ↔ (∀ d ∈ ds, ∃ v, buildVariable d = .ok v) ∧
      (t.keys ++ ds.map fun d => Text.lowercase d.name).Nodup := by
  refine keyed_loop_ok_iff addVariables (fun t d => (buildVariable d).bind t.insert)
    SymbolTable.keys _ (·.frozen = false) _ (fun _ => rfl) (fun t d ds => ?_)
    (fun t d hopen => ?_) (fun t d u hopen h => ?_) hopen ht
  · rw [addVariables]
    cases buildVariable d with
    | error e => rfl
    | ok v =>
      dsimp only [Except.bind]
      cases t.insert v with
      | error e => rfl
      | ok u => rfl
  · cases hv : buildVariable d with
    | error e => simp [Except.bind]
    | ok v =>
      have hname := (describes_of_buildVariable hv).name
      simp [Except.bind, SymbolTable.insert_ok_iff hopen, hname, Text.lowercase_lowercase]
  · cases hv : buildVariable d with
    | error e =>
      rw [hv] at h
      cases h
    | ok v =>
      rw [hv] at h
      obtain rfl := insert_ok h
      have hname := (describes_of_buildVariable hv).name
      exact ⟨hopen, by simp [SymbolTable.keys, hname, Text.lowercase_lowercase]⟩

theorem buildTable_ok_iff {m : Model α} :
    (∃ t, buildTable m = .ok t) ↔ (∀ d ∈ m.declarations, ∃ v, buildVariable d = .ok v) ∧
      (m.declarations.map fun d => Text.lowercase d.name).Nodup := by
  have h : (∃ u, addVariables .empty m.declarations = .ok u) ↔ _ :=
    addVariables_ok_iff (α := α) rfl List.nodup_nil
  rw [← List.nil_append (List.map _ _)]
  refine Iff.trans ?_ h
  unfold buildTable
  cases addVariables .empty m.declarations with
  | error e => simp [Except.map]
  | ok u => simp [Except.map]

/-! ### Rules -/

/-- **The rules of a model** can be added if their texts are new. -/
theorem addRules_ok_iff {α : Type} {texts : List Text} {s : RuleSet}
    (hs : (s.rules.map Rule.text).Nodup) :
    (∃ s', (addRules s texts : Except (Fault α) RuleSet) = .ok s') ↔
      (s.rules.map Rule.text ++ texts.map Text.lowercase).Nodup := by
  have hnew : ∀ (s : RuleSet) (text : Text), s.hasText (Text.lowercase text) = true ↔
      Text.lowercase text ∈ s.rules.map Rule.text := by
    intro s text
    simp [RuleSet.hasText]
  refine (keyed_loop_ok_iff addRules (fun s text =>
      if s.hasText (Text.lowercase text) then .error (.ruleTaken text)
      else .ok ⟨s.rules ++ [Rule.ofText text true]⟩)
    (fun s => s.rules.map Rule.text) Text.lowercase (fun _ => True) (fun _ => True)
    (fun _ => rfl) (fun s text texts => ?_) (fun s text _ => ?_) (fun s text s' _ h => ?_)
    trivial hs).trans (by simp)
  · rw [addRules]
    unfold RuleSet.add
    by_cases h : s.hasText (Text.lowercase text) = true
    · simp [Rule.ofText, h, Except.bind]
    · simp [Rule.ofText, h, Except.bind]
  · rw [← hnew]
    by_cases h : s.hasText (Text.lowercase text) = true
    · simp [h]
    · simp [h]
  · split_ifs at h
    cases h
    exact ⟨trivial, by simp [Rule.ofText]⟩

/-! ### Models -/

theorem passes_of_build {m : Model α} {workers : Option Int} {s : Setup α}
    (h : build m workers = .ok s) : (∃ t, buildTable m = .ok t) ∧
      ∃ rules, (addRules .empty m.rules : Except (Fault α) RuleSet) = .ok rules := by
  unfold build at h
  split_ifs at h
  cases htable : buildTable m with
  | error e =>
    rw [htable] at h
    cases h
  | ok t =>
    rw [htable] at h
    dsimp only at h
    cases hrules : (addRules .empty m.rules : Except (Fault α) RuleSet) with
    | error e =>
      rw [hrules] at h
      cases h
    | ok rules => exact ⟨⟨t, rfl⟩, rules, rfl⟩

/-- **Which models can be set up**: those with one output, variables that can be made, and names and
texts that differ. -/
theorem build_ok_iff {m : Model α} (workers : Option Int) :
    (∃ s, build m workers = .ok s) ↔ m.outputs.length = 1 ∧
      (∀ d ∈ m.declarations, ∃ v, buildVariable d = .ok v) ∧
        (m.declarations.map fun d => Text.lowercase d.name).Nodup ∧
          (m.rules.map Text.lowercase).Nodup := by
  constructor
  · rintro ⟨s, hs⟩
    obtain ⟨htable, hrules⟩ := passes_of_build hs
    obtain ⟨hvariables, hnames⟩ := buildTable_ok_iff.mp htable
    have htexts : (m.rules.map Text.lowercase).Nodup := by
      rw [addRules_ok_iff (s := .empty) List.nodup_nil] at hrules
      exact hrules
    exact ⟨(rules_of_build hs).1, hvariables, hnames, htexts⟩
  · rintro ⟨hout, hvariables, hnames, hrules⟩
    obtain ⟨t, ht⟩ := buildTable_ok_iff.mpr ⟨hvariables, hnames⟩
    exact ⟨_, build_of_nodup workers hout ht hrules⟩

/-- The setup does not depend on the number of workers. -/
theorem build_workers {m : Model α} {workers : Option Int} {s : Setup α}
    (h : build m workers = .ok s) (workers' : Option Int) : build m workers' = .ok s := by
  obtain ⟨hout, htable, hrules⟩ := rules_of_build h
  rw [build_of_nodup workers' hout htable ((build_ok_iff workers).mp ⟨s, h⟩).2.2.2, ← hrules]

end Setup

/-! ### Well-formed models -/

/-- The corners of the term ascend. -/
structure Term.Ascends (t : Term α) : Prop where
  rising : Scalar.le t.start t.leftTop = true
  level : Scalar.le t.leftTop t.rightTop = true
  falling : Scalar.le t.rightTop t.finish = true

/-- The usage is one of the two, the terms ascend, and their names differ in lower case. -/
structure Declaration.WellFormed (d : Declaration α) : Prop where
  usage : d.usage = "input" ∨ d.usage = "output"
  ascends : ∀ t ∈ d.terms, t.Ascends
  terms : (d.terms.map fun t => Text.lowercase t.name).Nodup

/-- A term may be added under a new name. -/
theorem Declaration.WellFormed.addTerm {d : Declaration α} (h : d.WellFormed) {t : Term α}
    (hnew : Text.lowercase t.name ∉ d.terms.map fun t => Text.lowercase t.name)
    (hascends : t.Ascends) : { d with terms := d.terms ++ [t] }.WellFormed where
  usage := h.usage
  ascends := List.forall_mem_append.mpr ⟨h.ascends, List.forall_mem_singleton.mpr hascends⟩
  terms := nodup_map_snoc h.terms hnew

/-- The declarations are well-formed, and their names differ in lower case. -/
structure Model.Consistent (m : Model α) : Prop where
  declarations : ∀ d ∈ m.declarations, d.WellFormed
  names : (m.declarations.map fun d => Text.lowercase d.name).Nodup

/-- The model is consistent and has one output, and the texts of its rules differ in lower case. -/
structure Model.WellFormed (m : Model α) : Prop extends m.Consistent where
  output : m.outputs.length = 1
  rules : (m.rules.map Text.lowercase).Nodup

theorem Model.Consistent.wellFormed_iff {m : Model α} (h : m.Consistent) :
    m.WellFormed ↔ m.outputs.length = 1 ∧ (m.rules.map Text.lowercase).Nodup :=
  ⟨fun hm => ⟨hm.output, hm.rules⟩, fun ⟨houtput, hrules⟩ => ⟨h, houtput, hrules⟩⟩

/-! ### Doubles -/

/-- Corners that ascend are numbers. -/
theorem Term.Ascends.isNaN {t : Term Float} (h : t.Ascends) :
    ∀ x ∈ [t.start, t.leftTop, t.rightTop, t.finish], x.isNaN = false := by
  obtain ⟨hstart, hleft⟩ := isNaN_of_le h.rising
  obtain ⟨hright, hfinish⟩ := isNaN_of_le h.falling
  exact List.forall_mem_cons.mpr ⟨hstart, List.forall_mem_cons.mpr ⟨hleft,
    List.forall_mem_cons.mpr ⟨hright, List.forall_mem_singleton.mpr hfinish⟩⟩⟩

/-- Among doubles one is a degree, so that a term has a function if its corners ascend. -/
theorem Term.function_ok_iff {t : Term Float} : (∃ f, t.function = .ok f) ↔ t.Ascends := by
  have hone : Scalar.le (Scalar.zero : Float) Scalar.one = true ∧
      Scalar.le (Scalar.one : Float) Scalar.one = true := by decide
  constructor
  · rintro ⟨f, hf⟩
    have hvalid := (Term.isTerm_of_function hf).1
    obtain rfl := Membership.make_ok hf
    obtain ⟨h₁, h₂, h₃⟩ := (Membership.valid_iff.mp hvalid).1
    exact ⟨h₁, h₂, h₃⟩
  · rintro ⟨h₁, h₂, h₃⟩
    have hvalid : (⟨t.start, t.leftTop, t.rightTop, t.finish, Scalar.one⟩ :
        Membership Float).Valid := Membership.valid_iff.mpr ⟨⟨h₁, h₂, h₃⟩, hone⟩
    exact ⟨_, hvalid⟩

theorem Setup.buildVariable_ok_iff_wellFormed {d : Declaration Float} :
    (∃ v, buildVariable d = .ok v) ↔ d.WellFormed := by
  rw [buildVariable_ok_iff]
  simp only [Term.function_ok_iff]
  exact ⟨fun ⟨h₁, h₂, h₃⟩ => ⟨h₁, h₂, h₃⟩, fun ⟨h₁, h₂, h₃⟩ => ⟨h₁, h₂, h₃⟩⟩

/-- **The models that can be set up are the well-formed ones.** -/
theorem Setup.build_ok_iff_wellFormed {m : Model Float} (workers : Option Int) :
    (∃ s, build m workers = .ok s) ↔ m.WellFormed := by
  rw [build_ok_iff]
  simp only [buildVariable_ok_iff_wellFormed]
  exact ⟨fun ⟨h₁, h₂, h₃, h₄⟩ => ⟨⟨h₂, h₃⟩, h₁, h₄⟩, fun ⟨⟨h₂, h₃⟩, h₁, h₄⟩ => ⟨h₁, h₂, h₃, h₄⟩⟩

end FuzzyInference
