import FuzzyInference.Proofs.Engine.Setup
import FuzzyInference.Proofs.Rule.Relevance
import FuzzyInference.RuleSet

/-!
# What rules conclude

* `Rule.conclude_readAs`: a rule without error concludes the function of its first clause behind
  `then`, cut down to its degree of relevance;
* `Rule.Concludes`: the clause that a rule concludes, the function of its term and the degree;
  `Rule.exists_concludes`: they are all there for a rule without error;
* `Rule.conclude_of_agreeOn`: of a table it reads no more crisp values than those of the variables
  that its premise names;
* `RuleSet.evaluate_of_done`, `RuleSet.evaluate_ok_iff`: the value of a rule set, and what it takes for
  it to have one;
* `RuleSet.evaluate_of_agreeOn`: the value of a rule set reads no more crisp values than those of
  the variables that the premises name.
-/

namespace FuzzyInference

variable {α : Type} [Scalar α]

/-! ### Reading crisp values -/

theorem SymbolTable.AgreeOn.degree {names : Text → Prop} {t t' : SymbolTable α}
    (h : t.AgreeOn names t') {x : Text × Text} (hx : names x.1) : t'.degree x = t.degree x := by
  unfold SymbolTable.degree Rule.clauseDegree
  rw [h.find x.1 hx]

namespace Rule

section
variable {t t' : SymbolTable α} {text : Text} {p : Phrase .row} {c : LooseRow}

/-- **What a rule concludes** over a table that defines its clauses: the function of the first
clause behind `then`, cut down to the degree of relevance. -/
theorem conclude_readAs (hdef : ∀ x ∈ p.clauses ++ c.clauses, t.Defines x) :
    ∃ v f, t.find? c.firstClause.1 = some v ∧ v.term? c.firstClause.2 = some f ∧
      (readAs text true p c).relevance t = .ok (p.lastOperand.degree t.degree) ∧
      (readAs text true p c).conclude t = f.reason (p.lastOperand.degree t.degree) := by
  obtain ⟨v, hv, hterm⟩ := hdef _ (List.mem_append_right _ c.firstClause_mem)
  obtain ⟨f, hf⟩ := Option.isSome_iff_exists.mp hterm
  have hrelevance : (readAs text true p c).relevance t = .ok (p.lastOperand.degree t.degree) :=
    relevance_readAs c fun x hx => hdef x (List.mem_append_left _ hx)
  refine ⟨v, f, hv, hf, hrelevance, ?_⟩
  obtain ⟨es, hform⟩ := c.exists_postfixForm
  have hready : (readAs text true p c).ready .conclusion = (.ok () : Except (Fault α) Unit) := rfl
  have hconclusion : (readAs text true p c).conclusion =
      .name c.firstClause.1 :: .name c.firstClause.2 :: .is :: es := hform
  unfold conclude concludeAt Variable.function
  simp only [hready, hrelevance, hconclusion, Entry.text, hv, hf]

/-- The names of the clause that a rule concludes. -/
theorem conclusion_readAs (text : Text) (p : Phrase .row) (c : LooseRow) :
    (readAs text true p c).conclusionVariable? = some c.firstClause.1 ∧
      (readAs text true p c).conclusionTerm? = some c.firstClause.2 := by
  obtain ⟨es, hform⟩ := c.exists_postfixForm
  have hconclusion : (readAs text true p c).conclusion =
      .name c.firstClause.1 :: .name c.firstClause.2 :: .is :: es := hform
  unfold conclusionVariable? conclusionTerm?
  rw [hconclusion]
  exact ⟨rfl, rfl⟩

/-- **A conclusion reads the values of the variables that the premise names**, and no others. -/
theorem conclude_of_agreeOn {names : Text → Prop} (h : t.AgreeOn names t')
    (hdef : ∀ x ∈ p.clauses ++ c.clauses, t.Defines x) (hnames : ∀ x ∈ p.clauses, names x.1) :
    (readAs text true p c).conclude t' = (readAs text true p c).conclude t := by
  have hdef' : ∀ x ∈ p.clauses ++ c.clauses, t'.Defines x := fun x hx =>
    SymbolTable.defines_of_cleared h.cleared (hdef x hx)
  obtain ⟨v, f, hv, hf, -, hconclude⟩ := conclude_readAs hdef
  obtain ⟨v', f', hv', hf', -, hconclude'⟩ := conclude_readAs hdef'
  -- The term is the same, for it does not depend on the values.
  have hterm : f' = f := by
    obtain ⟨u, hu, hcleared⟩ := SymbolTable.find?_of_cleared h.cleared hv
    obtain rfl := Option.some.inj (hu.symm.trans hv')
    unfold Variable.term? at hf hf'
    rw [Variable.terms_of_cleared hcleared, hf] at hf'
    exact (Option.some.inj hf').symm
  have hdegree : p.lastOperand.degree t'.degree = p.lastOperand.degree t.degree :=
    degree_congr fun x hx => h.degree (hnames x
      (Phrase.mem_clauses_of_operand p.lastOperand_mem hx))
  rw [hconclude', hconclude, hterm, hdegree]

end

/-- The rule concludes the clause `x`, whose term has the function `f`, to the degree `h`. -/
structure Concludes (t : SymbolTable α) (r : Rule) (x : Text × Text) (f : Membership α) (h : α) :
    Prop where
  variableName : r.conclusionVariable? = some x.1
  termName : r.conclusionTerm? = some x.2
  function : ∃ v, t.find? x.1 = some v ∧ v.term? x.2 = some f
  relevance : r.relevance t = .ok h

/-- **A rule without error concludes a term of the table**, cut down to its degree. -/
theorem exists_concludes {m : Model α} {s : Setup α} (hm : m.Underlies s) {r : Rule}
    (hr : r ∈ s.rules.rules) (hdone : r.status = .done) :
    ∃ x f h, r.Concludes s.table x f h ∧ r.conclude s.table = f.reason h := by
  obtain ⟨text, -, p, c, -, rfl, hdef⟩ := hm.exists_readAs hr hdone
  obtain ⟨v, f, hv, hf, hrelevance, hconclude⟩ := conclude_readAs hdef
  obtain ⟨hvariable, hterm⟩ := conclusion_readAs text p c
  exact ⟨c.firstClause, f, _, ⟨hvariable, hterm, ⟨v, hv, hf⟩, hrelevance⟩, hconclude⟩

/-- A rule that is not in order concludes nothing, whatever the table. -/
theorem conclude_of_not_done {r : Rule} (h : r.status ≠ .done) (t : SymbolTable α) :
    r.conclude t = .error (.ruleNotDone .conclusion r.text r.status) := by
  unfold conclude ready
  rw [if_pos h]

end Rule

/-! ### Rule sets -/

namespace RuleSet

theorem status_done_iff {s : RuleSet} : s.status = .done ↔ ∀ r ∈ s.rules, r.status = .done := by
  unfold status
  constructor
  · intro h r hr
    split_ifs at h with herror hidle
    cases hstatus : r.status with
    | done => rfl
    | erroneous => exact absurd (List.any_eq_true.mpr ⟨r, hr, by simp [hstatus]⟩) herror
    | idle => exact absurd (List.any_eq_true.mpr ⟨r, hr, by simp [hstatus]⟩) hidle
  · intro h
    have hnone : ∀ status : Rule.Status, status ≠ .done →
        ¬ s.rules.any (fun r => decide (r.status = status)) = true := by
      intro status hne hany
      obtain ⟨r, hr, heq⟩ := List.any_eq_true.mp hany
      exact hne ((of_decide_eq_true heq).symm.trans (h r hr))
    rw [if_neg (hnone _ (by decide)), if_neg (hnone _ (by decide))]

/-- The value of a rule set all of whose rules are in order. -/
theorem evaluate_of_done {s : RuleSet} (h : ∀ r ∈ s.rules, r.status = .done) (t : SymbolTable α)
    (steps : Int) : s.evaluate t steps =
      s.conclusions t >>= fun fs => Curve.superpose fs steps >>= Curve.center := by
  unfold evaluate
  rw [if_neg (not_not_intro (status_done_iff.mpr h))]
  cases s.conclusions t with
  | error f => rfl
  | ok fs =>
    dsimp only
    show _ = Curve.superpose fs steps >>= Curve.center
    cases Curve.superpose fs steps with
    | error f => rfl
    | ok c => rfl

/-- **What it takes for a rule set to have a value.** -/
theorem evaluate_ok_iff {s : RuleSet} {t : SymbolTable α} {steps : Int} {x : α} :
    s.evaluate t steps = .ok x ↔ (∀ r ∈ s.rules, r.status = .done) ∧
      ∃ fs c, List.Forall₂ (fun r f => r.conclude t = .ok f) s.rules fs ∧
        Curve.superpose fs steps = .ok c ∧ c.center = .ok x := by
  constructor
  · intro h
    have hdone : ∀ r ∈ s.rules, r.status = .done := by
      unfold evaluate at h
      split_ifs at h with hstatus
      exact status_done_iff.mp (not_not.mp hstatus)
    rw [evaluate_of_done hdone] at h
    obtain ⟨fs, hfs, h⟩ := bind_ok_iff.mp h
    obtain ⟨c, hc, hx⟩ := bind_ok_iff.mp h
    exact ⟨hdone, fs, c, mapM_ok_iff.mp hfs, hc, hx⟩
  · rintro ⟨hdone, fs, c, hfs, hc, hx⟩
    rw [evaluate_of_done hdone]
    exact bind_ok_iff.mpr ⟨fs, mapM_ok_iff.mpr hfs, bind_ok_iff.mpr ⟨c, hc, hx⟩⟩

/-- **The value of a rule set reads the values of the variables that premises name**, and no
others. -/
theorem evaluate_of_agreeOn {m : Model α} {s : Setup α} {names : Text → Prop}
    {t : SymbolTable α} (hm : m.Underlies s) (h : s.table.AgreeOn names t)
    (hnames : ∀ r ∈ s.rules.rules, r.status = .done →
      ∀ x ∈ Rule.clausesOf r.premise, names x.1) (steps : Int) :
    s.rules.evaluate t steps = s.rules.evaluate s.table steps := by
  have hconclude : ∀ r ∈ s.rules.rules, r.conclude t = r.conclude s.table := by
    intro r hr
    by_cases hdone : r.status = .done
    · have hread := hnames r hr hdone
      obtain ⟨text, -, p, c, -, rfl, hdef⟩ := hm.exists_readAs hr hdone
      have hpremise : Rule.clausesOf (Rule.readAs text true p c).premise = p.clauses :=
        p.clausesOf_postfixForm
      rw [hpremise] at hread
      exact Rule.conclude_of_agreeOn h hdef hread
    · rw [Rule.conclude_of_not_done hdone, Rule.conclude_of_not_done hdone]
  have hconclusions : s.rules.conclusions t = s.rules.conclusions s.table := by
    unfold conclusions
    exact mapM_congr hconclude
  unfold evaluate
  rw [hconclusions]

end RuleSet

end FuzzyInference
