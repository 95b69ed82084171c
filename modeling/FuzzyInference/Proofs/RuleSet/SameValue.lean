import FuzzyInference.Proofs.Curve.Cover
import FuzzyInference.Proofs.RuleSet

/-!
# Rule sets with the same value

The value of a rule set is the centre of the superposition of what its rules conclude. So two sets
have the same value if what the rules of each conclude is covered by what those of the other do: the
order of the rules does not matter, nor does a rule of degree zero, nor a rule beside another that
concludes the same term to a greater degree.

* `RuleSet.Evaluable`: all rules are read without error, and each concludes something;
* `Rule.conclude_ok_iff`, `Rule.exists_cut_of_conclude`: what a rule concludes is a term of the table,
  cut down to the rule's degree of relevance;
* `RuleSet.evaluate_of_covered`: sets whose conclusions cover each other;
* `RuleSet.value_of_rearranged`: **what does not change the value of a rule set.**
-/

namespace FuzzyInference

open Exact (number)
open FuzzyInference.Membership (Cut nought)

/-! ### What a rule concludes -/

section
variable {α : Type}

theorem Variable.function_ok_iff {v : Variable α} {label : Text} {f : Membership α} :
    v.function label = .ok f ↔ v.term? label = some f := by
  unfold Variable.function
  cases v.term? label with
  | none => exact iff_of_false (fun h => by cases h) (fun h => by cases h)
  | some f' => exact ⟨fun h => congrArg some (Except.ok.inj h),
      fun h => congrArg Except.ok (Option.some.inj h)⟩

namespace Rule

variable {r : Rule}

/-- The rules that can be asked. -/
theorem ready_ok_iff {inquiry : Inquiry} :
    (r.ready inquiry : Except (Fault α) Unit) = .ok () ↔ r.status = .done ∧ r.attached = true := by
  unfold ready
  by_cases hstatus : r.status = .done
  · rw [if_neg (not_not_intro hstatus)]
    cases r.attached with
    | false => exact iff_of_false (fun h => by cases h) (fun h => by cases h.2)
    | true => exact iff_of_true rfl ⟨hstatus, rfl⟩
  · rw [if_pos hstatus]
    exact iff_of_false (fun h => by cases h) (fun h => hstatus h.1)

variable [Scalar α] {t : SymbolTable α}

theorem ready_of_relevance {h : α} (hr : r.relevance t = .ok h) :
    r.status = .done ∧ r.attached = true := by
  unfold relevance at hr
  cases hready : (r.ready .relevance : Except (Fault α) Unit) with
  | error e =>
    rw [hready] at hr
    cases hr
  | ok u => exact ready_ok_iff.mp hready

/-- **What a rule concludes at a degree**: the term that its conclusion names first, cut down. -/
theorem concludeAt_ok_iff {h : α} {g : Membership α}
    (hready : (r.ready .conclusion : Except (Fault α) Unit) = .ok ()) :
    r.concludeAt t h = .ok g ↔ ∃ (x : Text × Text) (f : Membership α),
      r.conclusionVariable? = some x.1 ∧ r.conclusionTerm? = some x.2 ∧
        (∃ v, t.find? x.1 = some v ∧ v.term? x.2 = some f) ∧ f.reason h = .ok g := by
  unfold concludeAt conclusionVariable? conclusionTerm?
  rw [hready]
  dsimp only
  rcases r.conclusion with _ | ⟨a, rest⟩
  · refine iff_of_false (fun h => by cases h) ?_
    rintro ⟨x, f, hvariable, -⟩
    cases hvariable
  dsimp only
  cases hv : t.find? a.text with
  | none =>
    refine iff_of_false (fun h => by cases h) ?_
    rintro ⟨x, f, hvariable, -, ⟨v, hv', -⟩, -⟩
    rw [← Option.some.inj hvariable, hv] at hv'
    cases hv'
  | some v =>
    rcases rest with _ | ⟨b, rest⟩
    · refine iff_of_false (fun h => by cases h) ?_
      rintro ⟨x, f, -, hterm, -⟩
      cases hterm
    dsimp only
    constructor
    · intro hg
      cases hf : v.function b.text with
      | error e =>
        rw [hf] at hg
        cases hg
      | ok f =>
        rw [hf] at hg
        exact ⟨(a.text, b.text), f, rfl, rfl, ⟨v, hv, Variable.function_ok_iff.mp hf⟩, hg⟩
    · rintro ⟨x, f, hvariable, hterm, ⟨v', hv', hf⟩, hg⟩
      rw [← Option.some.inj hvariable, hv] at hv'
      rw [← Option.some.inj hterm, ← Option.some.inj hv'] at hf
      rw [Variable.function_ok_iff.mpr hf]
      exact hg

/-- **What a rule concludes**: a term of the table, cut down to the rule's degree of relevance. -/
theorem conclude_ok_iff {g : Membership α} :
    r.conclude t = .ok g ↔ ∃ x f h, r.Concludes t x f h ∧ f.reason h = .ok g := by
  constructor
  · intro hg
    unfold conclude at hg
    cases hready : (r.ready .conclusion : Except (Fault α) Unit) with
    | error e =>
      rw [hready] at hg
      cases hg
    | ok u =>
      cases hrelevance : r.relevance t with
      | error e =>
        rw [hready, hrelevance] at hg
        cases hg
      | ok h =>
        rw [hready, hrelevance] at hg
        obtain ⟨x, f, hvariable, hterm, hfunction, hreason⟩ := (concludeAt_ok_iff hready).mp hg
        exact ⟨x, f, h, ⟨hvariable, hterm, hfunction, hrelevance⟩, hreason⟩
  · rintro ⟨x, f, h, hr, hreason⟩
    have hready : (r.ready .conclusion : Except (Fault α) Unit) = .ok () :=
      ready_ok_iff.mpr (ready_of_relevance hr.relevance)
    unfold conclude
    rw [hready, hr.relevance]
    exact (concludeAt_ok_iff hready).mpr
      ⟨x, f, hr.variableName, hr.termName, hr.function, hreason⟩

end Rule

end

/-- **What a rule concludes over a valid table of exact numbers**: a term cut down to a degree. -/
theorem Rule.exists_cut_of_conclude {t : SymbolTable Exact} (ht : t.Valid) {r : Rule}
    {g : Membership Exact} (hr : r.conclude t = .ok g) :
    ∃ (c : Cut) (x : Text × Text), r.Concludes t x c.term (number c.degree) ∧
      c.function = g := by
  obtain ⟨x, f, h, hconcludes, hreason⟩ := conclude_ok_iff.mp hr
  obtain ⟨v, hv, hf⟩ := hconcludes.function
  have hvalid : f.Valid := Variable.valid_of_term? (SymbolTable.valid_of_find? ht hv) hf
  obtain ⟨q, rfl, h0, h1⟩ := Membership.exists_degree_of_reason hreason
  refine ⟨⟨f, q, Membership.isTerm_of_reason hvalid hreason, h0, h1⟩, x, hconcludes, ?_⟩
  exact Except.ok.inj ((Cut.reason_eq _).symm.trans hreason)

/-! ### Rule sets -/

namespace RuleSet

/-- All rules are read without error, and each concludes something over the table. -/
def Evaluable (t : SymbolTable Exact) (s : RuleSet) : Prop :=
  ∀ r ∈ s.rules, r.status = .done ∧ ∃ f, r.conclude t = .ok f

variable {t : SymbolTable Exact} {s s' : RuleSet} {steps : Int}

/-- What a rule concludes is `nought`, or lies below what a rule of the set concludes. -/
def Covers (t : SymbolTable Exact) (s : RuleSet) (r : Rule) : Prop :=
  ∀ f, r.conclude t = .ok f →
    f = nought ∨ ∃ r' ∈ s.rules, ∃ g, r'.conclude t = .ok g ∧ f.Below g

theorem covers_of_mem {r : Rule} (h : r ∈ s.rules) : s.Covers t r := fun f hf =>
  Or.inr ⟨r, h, f, hf, .refl f⟩

/-- The conclusions of the rules of a set, each of which is valid. -/
theorem Evaluable.exists_conclusions (hs : s.Evaluable t) : ∃ fs,
    List.Forall₂ (fun r f => r.conclude t = .ok f) s.rules fs ∧ ∀ f ∈ fs, f.Valid := by
  obtain ⟨fs, hfs⟩ := exists_forall₂ fun r hr => (hs r hr).2
  refine ⟨fs, hfs, fun f hf => ?_⟩
  obtain ⟨r, -, hr⟩ := exists_of_forall₂_right hfs f hf
  obtain ⟨x, f', h, -, hreason⟩ := Rule.conclude_ok_iff.mp hr
  exact Membership.valid_of_reason hreason

theorem coveredBy_of_covers {fs gs : List (Membership Exact)}
    (hfs : List.Forall₂ (fun r f => r.conclude t = .ok f) s.rules fs)
    (hgs : List.Forall₂ (fun r f => r.conclude t = .ok f) s'.rules gs)
    (h : ∀ r ∈ s.rules, s'.Covers t r) : ∀ f ∈ fs, f.CoveredBy gs := by
  intro f hf
  obtain ⟨r, hr, hconclude⟩ := exists_of_forall₂_right hfs f hf
  rcases h r hr f hconclude with rfl | ⟨r', hr', g, hg, hbelow⟩
  · exact Or.inl rfl
  · obtain ⟨g', hmem, hg'⟩ := exists_of_forall₂_left hgs r' hr'
    cases hg.symm.trans hg'
    exact Or.inr ⟨g, hmem, hbelow⟩

/-- A set that can be evaluated has a value. -/
theorem Evaluable.exists_value (hs : s.Evaluable t) (hlen : 2 ≤ s.rules.length)
    (hsteps : 1 ≤ steps) : ∃ y, s.evaluate t steps = .ok y := by
  obtain ⟨fs, hfs, hvalid⟩ := hs.exists_conclusions
  obtain ⟨c, y, hc, hy⟩ := Curve.exists_center hvalid (hfs.length_eq ▸ hlen) hsteps
  exact ⟨y, evaluate_ok_iff.mpr ⟨fun r hr => (hs r hr).1, fs, c, hfs, hc, hy⟩⟩

/-- **Sets whose conclusions cover each other have the same value.** -/
theorem evaluate_of_covered (hs : s.Evaluable t) (hs' : s'.Evaluable t)
    (hlen : 2 ≤ s.rules.length) (hlen' : 2 ≤ s'.rules.length) (hsteps : 1 ≤ steps)
    (h : ∀ r ∈ s.rules, s'.Covers t r) (h' : ∀ r ∈ s'.rules, s.Covers t r) {y : Exact}
    (hy : s.evaluate t steps = .ok y) : s'.evaluate t steps = .ok y := by
  obtain ⟨fs, hfs, hvalid⟩ := hs.exists_conclusions
  obtain ⟨gs, hgs, hvalid'⟩ := hs'.exists_conclusions
  obtain ⟨-, fs', c, hfs', hc, hcenter⟩ := evaluate_ok_iff.mp hy
  obtain rfl : fs' = fs := by
    have heq := (mapM_ok_iff.mpr hfs').symm.trans (mapM_ok_iff.mpr hfs)
    exact Except.ok.inj heq
  refine evaluate_ok_iff.mpr ⟨fun r hr => (hs' r hr).1, gs, c, hgs, ?_, hcenter⟩
  rw [Curve.superpose_of_covered hvalid hvalid' (hfs.length_eq ▸ hlen) (hgs.length_eq ▸ hlen')
    hsteps (coveredBy_of_covers hfs hgs h) (coveredBy_of_covers hgs hfs h')]
  exact hc

/-! ### Single rules -/

/-- A rule of degree zero concludes nothing that counts. -/
theorem covers_of_relevance_zero (ht : t.Valid) {r : Rule}
    (hr : r.relevance t = .ok (number 0)) : s.Covers t r := by
  intro f hf
  obtain ⟨c, x, hconcludes, rfl⟩ := Rule.exists_cut_of_conclude ht hf
  have hdegree : c.degree = 0 :=
    Exact.number.inj (Except.ok.inj (hconcludes.relevance.symm.trans hr))
  exact Or.inl (Cut.function_of_degree_zero hdegree)

/-- The rules conclude the same term of the same variable. -/
structure SameConclusion (r r' : Rule) : Prop where
  variableName : r.conclusionVariable? = r'.conclusionVariable?
  termName : r.conclusionTerm? = r'.conclusionTerm?

/-- So do rules that are read with the same words behind `then`. -/
theorem sameConclusion_readAs (text text' : Text) (p p' : Rule.Phrase .row) (c : Rule.LooseRow) :
    SameConclusion (.readAs text true p c) (.readAs text' true p' c) := by
  obtain ⟨hvariable, hterm⟩ := Rule.conclusion_readAs text p c
  obtain ⟨hvariable', hterm'⟩ := Rule.conclusion_readAs text' p' c
  exact ⟨hvariable.trans hvariable'.symm, hterm.trans hterm'.symm⟩

/-- A rule with the conclusion of another concludes the other's term to its own degree. -/
theorem SameConclusion.concludes {r r' : Rule} (h : SameConclusion r r') {x : Text × Text}
    {f : Membership Exact} {d d' : Exact} (hr' : r'.Concludes t x f d')
    (hr : r.relevance t = .ok d) : r.Concludes t x f d where
  variableName := h.variableName.trans hr'.variableName
  termName := h.termName.trans hr'.termName
  function := hr'.function
  relevance := hr

/-- A rule is covered by one that concludes the same to a degree that is not smaller. -/
theorem covers_of_sameConclusion (ht : t.Valid) {r r' : Rule} (hmem : r' ∈ s.rules)
    (h : SameConclusion r r') (hr' : ∃ g, r'.conclude t = .ok g) {d d' : ℚ}
    (hd : r.relevance t = .ok (number d)) (hd' : r'.relevance t = .ok (number d'))
    (hle : d ≤ d') : s.Covers t r := by
  intro f hf
  obtain ⟨g, hg⟩ := hr'
  obtain ⟨c', x, hconcludes', rfl⟩ := Rule.exists_cut_of_conclude ht hg
  obtain ⟨c, y, hconcludes, rfl⟩ := Rule.exists_cut_of_conclude ht hf
  have hdegree : d = c.degree :=
    Exact.number.inj (Except.ok.inj (hd.symm.trans hconcludes.relevance))
  have hdegree' : d' = c'.degree :=
    Exact.number.inj (Except.ok.inj (hd'.symm.trans hconcludes'.relevance))
  -- The two rules name the same term of the same variable, so it has the same function.
  have hterm : c.term = c'.term := by
    have hother := h.concludes hconcludes' hconcludes.relevance
    obtain ⟨v, hv, hterm⟩ := hconcludes.function
    obtain ⟨v', hv', hterm'⟩ := hother.function
    have hx : y = x := Prod.ext
      (Option.some.inj (hconcludes.variableName.symm.trans hother.variableName))
      (Option.some.inj (hconcludes.termName.symm.trans hother.termName))
    subst hx
    cases hv.symm.trans hv'
    exact Option.some.inj (hterm.symm.trans hterm')
  rcases Cut.coveredBy hterm (hdegree ▸ hdegree' ▸ hle) (List.mem_singleton_self _)
    with hnought | ⟨g, hmem', hbelow⟩
  · exact Or.inl hnought
  · obtain rfl := List.mem_singleton.mp hmem'
    exact Or.inr ⟨r', hmem, _, hg, hbelow⟩

/-- A rule with the conclusion of one that concludes something concludes something as well, if its
degree of relevance is a degree. -/
theorem SameConclusion.exists_conclude (ht : t.Valid) {r r' : Rule} (h : SameConclusion r r')
    (hr' : ∃ g, r'.conclude t = .ok g) {d : ℚ} (hd : r.relevance t = .ok (number d)) (h0 : 0 ≤ d)
    (h1 : d ≤ 1) : ∃ g, r.conclude t = .ok g := by
  obtain ⟨g, hg⟩ := hr'
  obtain ⟨c, x, hconcludes, -⟩ := Rule.exists_cut_of_conclude ht hg
  obtain ⟨g', hg', -⟩ := c.isTerm.reason_ok h0 h1
  exact ⟨g', Rule.conclude_ok_iff.mpr ⟨x, c.term, number d, h.concludes hconcludes hd, hg'⟩⟩

theorem SameConclusion.symm {r r' : Rule} (h : SameConclusion r r') : SameConclusion r' r :=
  ⟨h.variableName.symm, h.termName.symm⟩

/-- The degree of relevance of a rule that concludes something. -/
theorem Evaluable.exists_degree (ht : t.Valid) (hs : s.Evaluable t) {r : Rule}
    (hr : r ∈ s.rules) : ∃ d : ℚ, r.relevance t = .ok (number d) ∧ 0 ≤ d ∧ d ≤ 1 := by
  obtain ⟨g, hg⟩ := (hs r hr).2
  obtain ⟨c, x, hconcludes, -⟩ := Rule.exists_cut_of_conclude ht hg
  exact ⟨c.degree, hconcludes.relevance, c.nonneg, c.le_one⟩

/-! ### Rearranging -/

/-- The order of the rules does not matter. -/
theorem evaluate_of_perm (hs : s.Evaluable t) (hlen : 2 ≤ s.rules.length) (hsteps : 1 ≤ steps)
    (hperm : s'.rules.Perm s.rules) {y : Exact} (hy : s.evaluate t steps = .ok y) :
    s'.evaluate t steps = .ok y := by
  have hs' : s'.Evaluable t := fun r hr => hs r (hperm.mem_iff.mp hr)
  have hlen' : 2 ≤ s'.rules.length := hperm.length_eq ▸ hlen
  exact evaluate_of_covered hs hs' hlen hlen' hsteps
    (fun r hr => covers_of_mem (hperm.mem_iff.mpr hr))
    (fun r hr => covers_of_mem (hperm.mem_iff.mp hr)) hy

/-- A rule of degree zero does not matter. -/
theorem evaluate_without_zero (ht : t.Valid) (hs : s.Evaluable t) (hlen' : 2 ≤ s'.rules.length)
    (hsteps : 1 ≤ steps) {r : Rule} (hperm : s.rules.Perm (r :: s'.rules))
    (hr : r.relevance t = .ok (number 0)) {y : Exact} (hy : s.evaluate t steps = .ok y) :
    s'.evaluate t steps = .ok y := by
  have hmem : ∀ r' ∈ s'.rules, r' ∈ s.rules := fun r' hr' =>
    hperm.mem_iff.mpr (List.mem_cons_of_mem r hr')
  have hlen : 2 ≤ s.rules.length := by
    rw [hperm.length_eq, List.length_cons]
    omega
  refine evaluate_of_covered hs (fun r' hr' => hs r' (hmem r' hr')) hlen hlen' hsteps ?_
    (fun r' hr' => covers_of_mem (hmem r' hr')) hy
  intro r' hr'
  rcases List.mem_cons.mp (hperm.mem_iff.mp hr') with rfl | hr'
  · exact covers_of_relevance_zero ht hr
  · exact covers_of_mem hr'

/-- Of two rules with one conclusion only the one with the greater degree matters. -/
theorem evaluate_of_merged (ht : t.Valid) (hs : s.Evaluable t) (hlen' : 2 ≤ s'.rules.length)
    (hsteps : 1 ≤ steps) {r₁ r₂ r : Rule} {rest : List Rule}
    (hperm : s.rules.Perm (r₁ :: r₂ :: rest)) (hperm' : s'.rules.Perm (r :: rest))
    (h₁ : SameConclusion r r₁) (h₂ : SameConclusion r r₂)
    (hr : ∀ d₁ d₂, r₁.relevance t = .ok d₁ → r₂.relevance t = .ok d₂ →
      r.relevance t = .ok (Connective.greater d₁ d₂))
    {y : Exact} (hy : s.evaluate t steps = .ok y) : s'.evaluate t steps = .ok y := by
  have hmem₁ : r₁ ∈ s.rules := hperm.mem_iff.mpr List.mem_cons_self
  have hmem₂ : r₂ ∈ s.rules :=
    hperm.mem_iff.mpr (List.mem_cons_of_mem _ List.mem_cons_self)
  have hmem : r ∈ s'.rules := hperm'.mem_iff.mpr List.mem_cons_self
  have hrest : ∀ r' ∈ rest, r' ∈ s.rules ∧ r' ∈ s'.rules := fun r' hr' =>
    ⟨hperm.mem_iff.mpr (List.mem_cons_of_mem _ (List.mem_cons_of_mem _ hr')),
      hperm'.mem_iff.mpr (List.mem_cons_of_mem _ hr')⟩
  obtain ⟨d₁, hd₁, h0₁, hle₁⟩ := hs.exists_degree ht hmem₁
  obtain ⟨d₂, hd₂, -, hle₂⟩ := hs.exists_degree ht hmem₂
  have hd : r.relevance t = .ok (number (max d₁ d₂)) := by
    rw [← Exact.greater_number]
    exact hr _ _ hd₁ hd₂
  have hconclude : ∃ g, r.conclude t = .ok g :=
    h₁.exists_conclude ht (hs r₁ hmem₁).2 hd (h0₁.trans (le_max_left _ _)) (max_le hle₁ hle₂)
  have hs' : s'.Evaluable t := by
    intro r' hr'
    rcases List.mem_cons.mp (hperm'.mem_iff.mp hr') with rfl | hr'
    · exact ⟨(Rule.ready_of_relevance hd).1, hconclude⟩
    · exact hs r' (hrest r' hr').1
  have hlen : 2 ≤ s.rules.length := by
    rw [hperm.length_eq, List.length_cons, List.length_cons]
    omega
  refine evaluate_of_covered hs hs' hlen hlen' hsteps ?_ ?_ hy
  · intro r' hr'
    rcases List.mem_cons.mp (hperm.mem_iff.mp hr') with rfl | hr'
    · exact covers_of_sameConclusion ht hmem h₁.symm hconclude hd₁ hd (le_max_left _ _)
    · rcases List.mem_cons.mp hr' with rfl | hr'
      · exact covers_of_sameConclusion ht hmem h₂.symm hconclude hd₂ hd (le_max_right _ _)
      · exact covers_of_mem (hrest r' hr').2
  · intro r' hr'
    rcases List.mem_cons.mp (hperm'.mem_iff.mp hr') with rfl | hr'
    -- The new rule is covered by the one of the two whose degree it has.
    · rcases max_choice d₁ d₂ with hmax | hmax
      · exact covers_of_sameConclusion ht hmem₁ h₁ (hs r₁ hmem₁).2 hd hd₁ hmax.le
      · exact covers_of_sameConclusion ht hmem₂ h₂ (hs r₂ hmem₂).2 hd hd₂ hmax.le
    · exact covers_of_mem (hrest r' hr').1

/-- **What does not change the value of a rule set.** A set of at least two rules, all of which are
read without error and conclude something over a valid table, has a value. It stays the same if the
rules come in another order, if a rule of degree zero is taken away, and if two rules with the same
conclusion are replaced by one that has this conclusion and the greater of their degrees, as long as
two rules remain. -/
theorem value_of_rearranged (ht : t.Valid) (hs : s.Evaluable t) (hlen : 2 ≤ s.rules.length)
    (hsteps : 1 ≤ steps) : ∃ y, s.evaluate t steps = .ok y ∧
      (∀ s' : RuleSet, s'.rules.Perm s.rules → s'.evaluate t steps = .ok y) ∧
      (∀ (s' : RuleSet) (r : Rule), s.rules.Perm (r :: s'.rules) → 2 ≤ s'.rules.length →
        r.relevance t = .ok (number 0) → s'.evaluate t steps = .ok y) ∧
      ∀ (s' : RuleSet) (r₁ r₂ r : Rule) (rest : List Rule), s.rules.Perm (r₁ :: r₂ :: rest) →
        s'.rules.Perm (r :: rest) → 2 ≤ s'.rules.length → SameConclusion r r₁ →
        SameConclusion r r₂ →
        (∀ d₁ d₂, r₁.relevance t = .ok d₁ → r₂.relevance t = .ok d₂ →
          r.relevance t = .ok (Connective.greater d₁ d₂)) → s'.evaluate t steps = .ok y := by
  obtain ⟨y, hy⟩ := hs.exists_value hlen hsteps
  refine ⟨y, hy, ?_, ?_, ?_⟩
  · intro s' hperm
    exact evaluate_of_perm hs hlen hsteps hperm hy
  · intro s' r hperm hlen' hr
    exact evaluate_without_zero ht hs hlen' hsteps hperm hr hy
  · intro s' r₁ r₂ r rest hperm hperm' hlen' h₁ h₂ hr
    exact evaluate_of_merged ht hs hlen' hsteps hperm hperm' h₁ h₂ hr hy

/-- Three rules, the last of degree zero and the first two with one conclusion. -/
theorem value_of_three_rules :
    let t := Setup.crossed.table.modify "x" fun v => { v with value := number (1 / 2) }
    let r₁ := Rule.readAs "if x is a then y is b" true (.single (.clause "x" "a"))
      (.single (.clause "y" "b"))
    let r₂ := Rule.readAs "if y is b then y is b" true (.single (.clause "y" "b"))
      (.single (.clause "y" "b"))
    let r₃ := Rule.readAs "if y is b then x is a" true (.single (.clause "y" "b"))
      (.single (.clause "x" "a"))
    let r := Rule.readAs "if y is b or x is a then y is b" true
      (.join (.clause "y" "b") .or (.single (.clause "x" "a"))) (.single (.clause "y" "b"))
    t.Valid ∧ Evaluable t ⟨[r₁, r₂, r₃]⟩ ∧ ∃ y, evaluate t ⟨[r₁, r₂, r₃]⟩ 4 = .ok y ∧
      evaluate t ⟨[r₃, r₂, r₁]⟩ 4 = .ok y ∧ evaluate t ⟨[r₁, r₂]⟩ 4 = .ok y ∧
        evaluate t ⟨[r, r₃]⟩ 4 = .ok y := by
  intro t r₁ r₂ r₃ r
  have ht : t.Valid := List.forall_mem_cons.mpr
    ⟨List.forall_mem_singleton.mpr rfl, List.forall_mem_singleton.mpr
      (List.forall_mem_singleton.mpr rfl)⟩
  have hconclude₁ : r₁.conclude t =
      .ok ⟨number 1, number (3 / 2), number (5 / 2), number 3, number (1 / 2)⟩ :=
    ok_of_toOption (by decide +kernel)
  have hconclude₂ : r₂.conclude t = .ok nought := ok_of_toOption (by decide +kernel)
  have hconclude₃ : r₃.conclude t = .ok nought := ok_of_toOption (by decide +kernel)
  have hs : Evaluable t ⟨[r₁, r₂, r₃]⟩ := List.forall_mem_cons.mpr
    ⟨⟨rfl, _, hconclude₁⟩, List.forall_mem_cons.mpr ⟨⟨rfl, _, hconclude₂⟩,
      List.forall_mem_singleton.mpr ⟨rfl, _, hconclude₃⟩⟩⟩
  have hdegree₁ : r₁.relevance t = .ok (number (1 / 2)) := ok_of_toOption (by decide +kernel)
  have hdegree₂ : r₂.relevance t = .ok (number 0) := ok_of_toOption (by decide +kernel)
  have hdegree₃ : r₃.relevance t = .ok (number 0) := ok_of_toOption (by decide +kernel)
  have hdegree : r.relevance t = .ok (Connective.greater (number (1 / 2)) (number 0)) :=
    ok_of_toOption (by decide +kernel)
  have hsame₁ : SameConclusion r r₁ := sameConclusion_readAs _ _ _ _ _
  have hsame₂ : SameConclusion r r₂ := sameConclusion_readAs _ _ _ _ _
  clear_value r r₁ r₂ r₃ t
  obtain ⟨y, hy, hperm, hzero, hmerged⟩ :=
    value_of_rearranged ht hs (Nat.le_succ 2) (show (1 : Int) ≤ 4 by decide)
  refine ⟨ht, hs, y, hy, hperm _ (List.reverse_perm [r₁, r₂, r₃]),
    hzero ⟨[r₁, r₂]⟩ r₃ (List.perm_append_singleton r₃ [r₁, r₂]) le_rfl hdegree₃,
    hmerged ⟨[r, r₃]⟩ r₁ r₂ r [r₃] (.refl _) (.refl _) le_rfl hsame₁ hsame₂ ?_⟩
  intro d₁ d₂ h₁ h₂
  cases hdegree₁.symm.trans h₁
  cases hdegree₂.symm.trans h₂
  exact hdegree

end RuleSet

end FuzzyInference
