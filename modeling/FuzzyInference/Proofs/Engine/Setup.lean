import FuzzyInference.Engine.Setup
import FuzzyInference.Proofs.Pairing
import FuzzyInference.Proofs.Rule.Conclusion
import FuzzyInference.Proofs.SymbolTable.Value

/-!
# What a setup holds

A setup that succeeds has one variable for each declaration of the model, in order, and one rule for
each text. From then on only crisp values change.

* `Term.Describes`, `Declaration.Describes`: a term or variable of the table is that of a term or
  declaration of the model;
* `describes_of_buildTable`, `rules_of_build`: what a setup that succeeds holds;
* `build_of_nodup`: models that can be set up; `build_crossed`: one of them;
* `Model.Underlies`: the model underlies table and rules: they are those of a setup of it, up to
  the crisp values;
* `Model.Underlies.exists_declaration`: a name that the table defines is declared, with its term;
* `Model.Underlies.exists_readAs`: a rule without error is the sentence of a text of the model, and
  the table defines its clauses.
-/

namespace FuzzyInference

variable {α : Type} [Scalar α]

theorem Term.isTerm_of_function {t : Term α} {f : Membership α} (h : t.function = .ok f) :
    f.IsTerm := by
  obtain rfl := Membership.make_ok h
  exact ⟨h, rfl⟩

/-- The term of a variable is that of a term of the model. -/
def Term.Describes (t : Term α) (x : Text × Membership α) : Prop :=
  x.1 = Text.lowercase t.name ∧ t.function = .ok x.2

/-- The variable of a table is that of a declaration. -/
structure Declaration.Describes (d : Declaration α) (v : Variable α) : Prop where
  name : v.name = Text.lowercase d.name
  usage : Usage.ofName? d.usage = some v.usage
  terms : List.Forall₂ Term.Describes d.terms v.terms

/-- Names are put in lower case when they are declared and when they are looked up; once is
enough. -/
theorem Declaration.Describes.answersTo {d : Declaration α} {v : Variable α} (h : d.Describes v)
    (n : Text) : v.answersTo n = d.answersTo n := by
  unfold Variable.answersTo Declaration.answersTo
  rw [h.name, Text.lowercase_lowercase]

theorem Declaration.Describes.usage_name {d : Declaration α} {v : Variable α}
    (h : d.Describes v) : d.usage = v.usage.name := by
  have husage := h.usage
  unfold Usage.ofName? at husage
  split_ifs at husage with hinput houtput
  · cases hu : v.usage with
    | input => exact beq_iff_eq.mp hinput
    | output =>
      rw [hu] at husage
      cases husage
  · cases hu : v.usage with
    | input =>
      rw [hu] at husage
      cases husage
    | output => exact beq_iff_eq.mp houtput

/-- A term that a variable has is one that its declaration has. -/
theorem Declaration.Describes.exists_term {d : Declaration α} {v : Variable α}
    (h : d.Describes v) {label : Text} {f : Membership α} (hf : v.term? label = some f) :
    ∃ t ∈ d.terms, Text.lowercase t.name = Text.lowercase label ∧ t.function = .ok f := by
  obtain ⟨t, ht, hname, hfunction⟩ :=
    exists_of_forall₂_right h.terms _ (Variable.mem_of_term? hf)
  exact ⟨t, ht, hname.symm, hfunction⟩

namespace Setup

/-! ### Tables -/

theorem addTerms_ok : ∀ {ts : List (Term α)} {v v' : Variable α}, addTerms v ts = .ok v' →
    v'.name = v.name ∧ v'.usage = v.usage ∧
      ∃ xs, v'.terms = v.terms ++ xs ∧ List.Forall₂ Term.Describes ts xs
  | [], v, v', h => by
    cases h
    exact ⟨rfl, rfl, [], (List.append_nil _).symm, .nil⟩
  | t :: ts, v, v', h => by
    rw [addTerms] at h
    cases hf : t.function with
    | error e =>
      rw [hf] at h
      cases h
    | ok f =>
      rw [hf] at h
      dsimp only at h
      cases hadd : v.addTerm t.name f with
      | error e =>
        rw [hadd] at h
        cases h
      | ok u =>
        rw [hadd] at h
        obtain rfl := Variable.addTerm_ok hadd
        obtain ⟨hname, husage, xs, hxs, hdescribes⟩ := addTerms_ok h
        refine ⟨hname, husage, (Text.lowercase t.name, f) :: xs, ?_, ?_⟩
        · rw [hxs, List.append_assoc]
          rfl
        · exact .cons ⟨rfl, hf⟩ hdescribes

theorem describes_of_buildVariable {d : Declaration α} {v : Variable α}
    (h : buildVariable d = .ok v) : d.Describes v := by
  unfold buildVariable Variable.make at h
  dsimp only at h
  cases hu : Usage.ofName? d.usage with
  | none =>
    rw [hu] at h
    cases h
  | some usage =>
    rw [hu] at h
    obtain ⟨hname, husage, xs, hxs, hdescribes⟩ := addTerms_ok h
    refine ⟨hname, by rw [husage, hu], ?_⟩
    rw [hxs]
    exact hdescribes

theorem insert_ok {α : Type} {t u : SymbolTable α} {v : Variable α} (h : t.insert v = .ok u) :
    u = { t with entries := t.entries ++ [v] } := by
  unfold SymbolTable.insert SymbolTable.register at h
  split_ifs at h with hfrozen htaken
  cases h
  rfl

theorem addVariables_ok : ∀ {ds : List (Declaration α)} {t u : SymbolTable α},
    addVariables t ds = .ok u →
      ∃ vs, u.entries = t.entries ++ vs ∧ List.Forall₂ Declaration.Describes ds vs
  | [], t, u, h => by
    cases h
    exact ⟨[], (List.append_nil _).symm, .nil⟩
  | d :: ds, t, u, h => by
    rw [addVariables] at h
    cases hv : buildVariable d with
    | error e =>
      rw [hv] at h
      cases h
    | ok v =>
      rw [hv] at h
      dsimp only at h
      cases hinsert : t.insert v with
      | error e =>
        rw [hinsert] at h
        cases h
      | ok t₁ =>
        rw [hinsert] at h
        obtain rfl := insert_ok hinsert
        obtain ⟨vs, hvs, hdescribes⟩ := addVariables_ok h
        refine ⟨v :: vs, ?_, .cons (describes_of_buildVariable hv) hdescribes⟩
        rw [hvs, List.append_assoc]
        rfl

/-- **The table of a model** holds one variable for each declaration, in order. -/
theorem describes_of_buildTable {m : Model α} {t : SymbolTable α} (h : buildTable m = .ok t) :
    t.frozen = true ∧ List.Forall₂ Declaration.Describes m.declarations t.entries := by
  unfold buildTable at h
  cases hadd : addVariables .empty m.declarations with
  | error e =>
    rw [hadd] at h
    cases h
  | ok u =>
    rw [hadd] at h
    cases h
    obtain ⟨vs, hvs, hdescribes⟩ := addVariables_ok hadd
    refine ⟨rfl, ?_⟩
    have hentries : u.entries = vs := hvs
    show List.Forall₂ _ _ u.entries
    rw [hentries]
    exact hdescribes

/-! ### Rules -/

theorem addRules_ok {α : Type} : ∀ {texts : List Text} {s s' : RuleSet},
    (addRules s texts : Except (Fault α) RuleSet) = .ok s' →
      s'.rules = s.rules ++ texts.map fun text => Rule.ofText text true
  | [], s, s', h => by
    cases h
    exact (List.append_nil _).symm
  | text :: texts, s, s', h => by
    rw [addRules] at h
    unfold RuleSet.add at h
    split_ifs at h with htaken
    rw [addRules_ok h, List.append_assoc]
    rfl

theorem addRules_of_nodup {α : Type} : ∀ {texts : List Text} {s : RuleSet},
    (s.rules.map Rule.text ++ texts.map Text.lowercase).Nodup →
      (addRules s texts : Except (Fault α) RuleSet) =
        .ok ⟨s.rules ++ texts.map fun text => Rule.ofText text true⟩
  | [], s, _ => by
    rw [addRules, List.map_nil, List.append_nil]
  | text :: texts, s, h => by
    have hsplit : (s.rules ++ [Rule.ofText text true]).map Rule.text ++
        texts.map Text.lowercase =
          s.rules.map Rule.text ++ (text :: texts).map Text.lowercase := by
      rw [List.map_append, List.append_assoc]
      rfl
    have hnew : ¬ s.hasText (Text.lowercase text) = true := by
      intro htaken
      obtain ⟨r, hr, heq⟩ := List.any_eq_true.mp htaken
      refine (List.nodup_append.mp h).2.2 _ (List.mem_map_of_mem hr) _ List.mem_cons_self ?_
      exact beq_iff_eq.mp heq
    have hadd : s.add (Rule.ofText text true) = (⟨s.rules ++ [Rule.ofText text true]⟩, true) :=
      if_neg hnew
    rw [← hsplit] at h
    rw [addRules, hadd]
    refine (addRules_of_nodup h).trans ?_
    rw [List.append_assoc]
    rfl

/-- **The setup of a model**: one output, the table of the model, and its rules read over it. -/
theorem rules_of_build {m : Model α} {workers : Option Int} {s : Setup α}
    (h : build m workers = .ok s) : m.outputs.length = 1 ∧ buildTable m = .ok s.table ∧
      s.rules.rules =
        m.rules.map fun text => (Rule.ofText text true).parse (some s.table.vocabulary) := by
  unfold build at h
  split_ifs at h with hout
  cases htable : buildTable m with
  | error e =>
    rw [htable] at h
    cases h
  | ok table =>
    rw [htable] at h
    dsimp only at h
    cases hrules : (addRules .empty m.rules : Except (Fault α) RuleSet) with
    | error e =>
      rw [hrules] at h
      cases h
    | ok rules =>
      rw [hrules] at h
      dsimp only at h
      unfold RuleSet.parse at h
      split_ifs at h
      cases h
      refine ⟨not_not.mp hout, rfl, ?_⟩
      have hfresh : rules.rules = m.rules.map fun text => Rule.ofText text true :=
        addRules_ok hrules
      show rules.rules.map _ = _
      rw [hfresh, List.map_map]
      refine List.map_congr_left fun text _ => ?_
      have hidle : (Rule.ofText text true).status = .idle := rfl
      rw [Function.comp_apply, if_pos hidle]
      rfl

/-- A model with one output, a table, and texts that differ can be set up. -/
theorem build_of_nodup {m : Model α} {t : SymbolTable α} (workers : Option Int)
    (hout : m.outputs.length = 1) (ht : buildTable m = .ok t)
    (hrules : (m.rules.map Text.lowercase).Nodup) :
    build m workers = .ok
      ⟨t, ⟨m.rules.map fun text => (Rule.ofText text true).parse (some t.vocabulary)⟩⟩ := by
  have hadd : (addRules .empty m.rules : Except (Fault α) RuleSet) =
      .ok ⟨m.rules.map fun text => Rule.ofText text true⟩ := addRules_of_nodup hrules
  have hfrozen : (some t).any (!·.frozen) = false := by
    rw [Option.any_some, (describes_of_buildTable ht).1]
    rfl
  have hparse : RuleSet.parseIdle (some t.vocabulary)
      ⟨m.rules.map fun text => Rule.ofText text true⟩ =
        ⟨m.rules.map fun text => (Rule.ofText text true).parse (some t.vocabulary)⟩ := by
    unfold RuleSet.parseIdle
    rw [List.map_map]
    rfl
  unfold build RuleSet.parse
  rw [if_neg (not_not_intro hout), ht]
  dsimp only
  rw [hadd]
  dsimp only
  rw [hfrozen, Bool.and_false, if_neg Bool.false_ne_true]
  exact congrArg (fun rules => Except.ok (Setup.mk t rules)) hparse

end Setup

/-! ### A model set up -/

/-- A model of two rules: the one reads the input and concludes on the output, the other the other
way round. -/
def Model.crossed : Model Exact :=
  ⟨"m", [⟨"input", "x", [.triangle "a" (.number 0) (.number 1) (.number 2)]⟩,
      ⟨"output", "y", [.triangle "b" (.number 1) (.number 2) (.number 3)]⟩],
    ["if x is a then y is b", "if y is b then x is a"], 3⟩

/-- The setup of this model. -/
def Setup.crossed : Setup Exact :=
  ⟨⟨[⟨"x", .input, [("a", ⟨.number 0, .number 1, .number 1, .number 2, .number 1⟩)], .number 0⟩,
      ⟨"y", .output, [("b", ⟨.number 1, .number 2, .number 2, .number 3, .number 1⟩)],
        .number 0⟩], true⟩,
    ⟨[.readAs "if x is a then y is b" true (.single (.clause "x" "a")) (.single (.clause "y" "b")),
      .readAs "if y is b then x is a" true (.single (.clause "y" "b"))
        (.single (.clause "x" "a"))]⟩⟩

theorem Setup.buildTable_crossed : buildTable Model.crossed = .ok crossed.table := by rfl

/-- The first rule of this model, read. -/
theorem Rule.parse_forward :
    (Rule.ofText "if x is a then y is b" true).parse (some Setup.crossed.table.vocabulary) =
      .readAs "if x is a then y is b" true (.single (.clause "x" "a"))
        (.single (.clause "y" "b")) :=
  parse_of_plain (by decide +kernel) (by decide +kernel) (by decide +kernel) (by decide +kernel)

/-- The second rule of this model, read. -/
theorem Rule.parse_backward :
    (Rule.ofText "if y is b then x is a" true).parse (some Setup.crossed.table.vocabulary) =
      .readAs "if y is b then x is a" true (.single (.clause "y" "b"))
        (.single (.clause "x" "a")) :=
  parse_of_plain (by decide +kernel) (by decide +kernel) (by decide +kernel) (by decide +kernel)

theorem Setup.build_crossed (workers : Option Int) :
    Setup.build Model.crossed workers = .ok Setup.crossed := by
  have hnodup : (Model.crossed.rules.map Text.lowercase).Nodup := by decide +kernel
  rw [build_of_nodup workers rfl buildTable_crossed hnodup]
  have hrules : (Model.crossed.rules.map fun text =>
      (Rule.ofText text true).parse (some Setup.crossed.table.vocabulary)) =
        Setup.crossed.rules.rules :=
    congrArg₂ (fun r r' => [r, r']) Rule.parse_forward Rule.parse_backward
  rw [hrules]

/-! ### What a model underlies -/

/-- **The model underlies the setup**: it is a setup of the model, but for the crisp values. -/
def Model.Underlies (m : Model α) (s : Setup α) : Prop :=
  ∃ workers s₀, Setup.build m workers = .ok s₀ ∧ s.rules = s₀.rules ∧
    s.table.cleared = s₀.table.cleared

namespace Model.Underlies

variable {m : Model α} {s : Setup α}

theorem of_build {workers : Option Int} (h : Setup.build m workers = .ok s) : m.Underlies s :=
  ⟨workers, s, h, rfl, rfl⟩

/-- It does so whatever the values are. -/
theorem of_cleared {t : SymbolTable α} (h : m.Underlies s) (ht : t.cleared = s.table.cleared) :
    m.Underlies { s with table := t } := by
  obtain ⟨workers, s₀, hbuild, hrules, htable⟩ := h
  exact ⟨workers, s₀, hbuild, hrules, ht.trans htable⟩

theorem length_outputs (h : m.Underlies s) : m.outputs.length = 1 := by
  obtain ⟨workers, s₀, hbuild, -, -⟩ := h
  exact (Setup.rules_of_build hbuild).1

/-- Each variable is declared, and each declaration has its variable. -/
theorem describes (h : m.Underlies s) :
    List.Forall₂ Declaration.Describes m.declarations s.table.entries := by
  obtain ⟨workers, s₀, hbuild, -, htable⟩ := h
  have hdescribes := (Setup.describes_of_buildTable (Setup.rules_of_build hbuild).2.1).2
  have hentries : s.table.entries.map Variable.cleared = s₀.table.entries.map Variable.cleared :=
    congrArg SymbolTable.entries htable
  -- A declaration says nothing about the value.
  have hcleared : ∀ vs : List (Variable α),
      List.Forall₂ Declaration.Describes m.declarations (vs.map Variable.cleared) ↔
        List.Forall₂ Declaration.Describes m.declarations vs := by
    intro vs
    rw [List.forall₂_map_right_iff]
    constructor
    · exact List.Forall₂.imp fun d v hd => ⟨hd.name, hd.usage, hd.terms⟩
    · exact List.Forall₂.imp fun d v hd => ⟨hd.name, hd.usage, hd.terms⟩
  rw [← hcleared, hentries, hcleared]
  exact hdescribes

theorem hasVariable (h : m.Underlies s) {d : Declaration α} (hd : d ∈ m.declarations) :
    s.table.hasVariable d.name = true := by
  obtain ⟨v, hv, hdescribes⟩ := exists_of_forall₂_left h.describes d hd
  unfold SymbolTable.hasVariable SymbolTable.find?
  rw [List.find?_isSome]
  exact ⟨v, hv, by rw [hdescribes.answersTo]; exact beq_self_eq_true _⟩

/-- **A name that stands for a variable is declared.** -/
theorem exists_declaration (h : m.Underlies s) {n : Text} {v : Variable α}
    (hv : s.table.find? n = some v) :
    ∃ d ∈ m.declarations, d.answersTo n = true ∧ d.Describes v := by
  obtain ⟨d, hd, hdescribes⟩ :=
    exists_of_forall₂_right h.describes v (List.mem_of_find?_eq_some hv)
  refine ⟨d, hd, ?_, hdescribes⟩
  rw [← hdescribes.answersTo]
  exact SymbolTable.answersTo_of_find? hv

/-- All functions of the table are those of terms. -/
theorem isTerm (h : m.Underlies s) {v : Variable α} (hv : v ∈ s.table.entries) :
    ∀ x ∈ v.terms, x.2.IsTerm := by
  intro x hx
  obtain ⟨d, -, hdescribes⟩ := exists_of_forall₂_right h.describes v hv
  obtain ⟨t, -, -, hfunction⟩ := exists_of_forall₂_right hdescribes.terms x hx
  exact Term.isTerm_of_function hfunction

theorem valid (h : m.Underlies s) : s.table.Valid := fun _ hv x hx => (h.isTerm hv x hx).1

/-- **A rule without error** is the sentence of a text of the model, and the table defines its
clauses. -/
theorem exists_readAs (h : m.Underlies s) {r : Rule} (hr : r ∈ s.rules.rules)
    (hdone : r.status = .done) :
    ∃ text ∈ m.rules, ∃ p c, (Rule.ofText text true).lexemes = Rule.sentence p c ∧
      r = Rule.readAs text true p c ∧ ∀ x ∈ p.clauses ++ c.clauses, s.table.Defines x := by
  obtain ⟨workers, s₀, hbuild, hrules, htable⟩ := h
  rw [hrules, (Setup.rules_of_build hbuild).2.2] at hr
  obtain ⟨text, htext, rfl⟩ := List.mem_map.mp hr
  obtain ⟨⟨p, c, hws⟩, hread⟩ := Rule.parse_of_done hdone
  obtain ⟨hrule, hu⟩ := hread p c hws
  refine ⟨text, htext, p, c, hws, hrule, fun x hx => ?_⟩
  exact SymbolTable.defines_of_cleared htable (Rule.findSome?_eq_none_iff.mp hu x hx)

end Model.Underlies

end FuzzyInference
