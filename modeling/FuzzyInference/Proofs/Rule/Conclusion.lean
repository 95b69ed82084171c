import FuzzyInference.Proofs.Rule.Vocabulary

/-!
# Conclusions

Where the premise of a rule goes on only with a connective, its conclusion goes on with whatever
comes: the lexeme between two operands is skipped unseen. The grammar that rules are meant to have
asks for a row of operands joined by connectives on this side too.

* `Phrase.lexemes_append_inj`: an operand is told from what follows it;
* `LooseRow.joints`: the lexemes between the operands of a conclusion;
* `LooseRow.derives_row_iff`: a conclusion is a row exactly if all of them are connectives;
* `conclusion_joint_unseen`: what a conclusion is read as does not depend on them;
* `conclusion_joined_by_isWord`: a conclusion that is read without error and is not a row;
* `LooseRow.firstClause`, `exists_postfixForm`: the clause that a rule concludes, with which the
  postfix form begins.
-/

namespace FuzzyInference.Rule

/-! ### Unique readability -/

/-- A row goes on as long as connectives follow; an operand ends by itself. -/
def Nonterminal.EndsBefore : Nonterminal → List Lexeme → Prop
  | .operand, _ => True
  | .row, ws => ∀ c : Connective, ws.head? ≠ some (.mark (.connective c))

/-- **Unique readability.** What is spelt and what follows it can be told from their lexemes. -/
theorem Phrase.lexemes_append_inj {n : Nonterminal} (p : Phrase n) :
    ∀ (p' : Phrase n) {ws ws' : List Lexeme}, n.EndsBefore ws → n.EndsBefore ws' →
      p.lexemes ++ ws = p'.lexemes ++ ws' → p = p' ∧ ws = ws' := by
  induction p with
  | clause x a =>
    intro p' ws ws' _ _ h
    cases p' with
    | clause x' a' =>
      simp only [lexemes, List.cons_append, List.nil_append, List.cons.injEq,
        Lexeme.name.injEq, true_and] at h
      obtain ⟨rfl, rfl, rfl⟩ := h
      exact ⟨rfl, rfl⟩
    | group first c rest => cases h
  | group first c rest ih₁ ih₂ =>
    intro p' ws ws' _ _ h
    cases p' with
    | clause x a => cases h
    | group first' c' rest' =>
      simp only [lexemes, List.cons_append, List.append_assoc, List.nil_append, List.cons.injEq,
        true_and] at h
      obtain ⟨rfl, htail⟩ := ih₁ first' trivial trivial h
      obtain ⟨hmark, hrow⟩ := List.cons.inj htail
      cases hmark
      -- A parenthesis is no connective, so the row inside ends before it.
      have hclose : ∀ us : List Lexeme, Nonterminal.row.EndsBefore (.mark .rightPar :: us) :=
        fun us c hc => by simp at hc
      obtain ⟨rfl, hend⟩ := ih₂ rest' (hclose _) (hclose _) hrow
      exact ⟨rfl, (List.cons.inj hend).2⟩
  | single o ih =>
    intro p' ws ws' hws hws' h
    cases p' with
    | single o' =>
      obtain ⟨rfl, rfl⟩ := ih o' trivial trivial h
      exact ⟨rfl, rfl⟩
    | join o' c rest =>
      simp only [lexemes, List.append_assoc, List.cons_append] at h
      obtain ⟨-, rfl⟩ := ih o' trivial trivial h
      exact absurd rfl (hws c)
  | join o c rest ih₁ ih₂ =>
    intro p' ws ws' hws hws' h
    simp only [lexemes, List.append_assoc, List.cons_append] at h
    cases p' with
    | single o' =>
      obtain ⟨-, rfl⟩ := ih₁ o' trivial trivial h
      exact absurd rfl (hws' c)
    | join o' c' rest' =>
      simp only [lexemes, List.append_assoc, List.cons_append] at h
      obtain ⟨rfl, htail⟩ := ih₁ o' trivial trivial h
      obtain ⟨hmark, hrow⟩ := List.cons.inj htail
      cases hmark
      obtain ⟨rfl, rfl⟩ := ih₂ rest' hws hws' hrow
      exact ⟨rfl, rfl⟩

/-! ### What stands between the operands -/

namespace LooseRow

/-- The lexemes between the operands. -/
def joints : LooseRow → List Lexeme
  | single _ => []
  | join _ w rest => w :: rest.joints

/-- A loose row joined by connectives is a row. -/
theorem exists_row : ∀ c : LooseRow, (∀ w ∈ c.joints, ∃ k, w = .mark (.connective k)) →
    ∃ p : Phrase .row, p.lexemes = c.lexemes
  | single o, _ => ⟨.single o, rfl⟩
  | join o w rest, h => by
    obtain ⟨k, rfl⟩ := h w (by simp [joints])
    obtain ⟨p, hp⟩ := exists_row rest fun w hw => h w (by simp [joints, hw])
    exact ⟨.join o k p, by simp only [Phrase.lexemes, lexemes, hp]⟩

/-- A loose row that spells a row is joined by connectives. -/
theorem joints_of_row : ∀ {c : LooseRow} {p : Phrase .row}, c.lexemes = p.lexemes →
    ∀ w ∈ c.joints, ∃ k, w = .mark (.connective k)
  | single o, _, _ => by simp [joints]
  | join o w rest, .single o', h => by
    have h' : o.lexemes ++ w :: rest.lexemes = o'.lexemes ++ [] := by
      rw [List.append_nil]
      exact h
    obtain ⟨-, hnil⟩ := o.lexemes_append_inj o' trivial trivial h'
    cases hnil
  | join o w rest, .join o' k p, h => by
    obtain ⟨rfl, htail⟩ := o.lexemes_append_inj o' trivial trivial h
    obtain ⟨rfl, hrow⟩ := List.cons.inj htail
    intro w hw
    rcases List.mem_cons.mp hw with rfl | hw
    · exact ⟨k, rfl⟩
    · exact joints_of_row hrow w hw

/-- **A conclusion is a row** of operands joined by connectives exactly if all its joints are
connectives. -/
theorem derives_row_iff {c : LooseRow} (hid : ∀ w ∈ c.lexemes, w ≠ .mark .ident) :
    Derives .row (c.lexemes.map Lexeme.token) ↔
      ∀ w ∈ c.joints, ∃ k, w = .mark (.connective k) := by
  constructor
  · intro h
    obtain ⟨p, hp⟩ := h.exists_phrase c.lexemes rfl hid
    exact joints_of_row hp
  · intro h
    obtain ⟨p, hp⟩ := c.exists_row h
    rw [← hp]
    exact p.derives

end LooseRow

/-! ### The clause that is concluded -/

/-- The first clause of a phrase. -/
def Phrase.firstClause {n : Nonterminal} : Phrase n → Text × Text
  | clause x a => (x, a)
  | group first _ _ => first.firstClause
  | single o => o.firstClause
  | join o _ _ => o.firstClause

theorem Phrase.firstClause_mem {n : Nonterminal} (p : Phrase n) : p.firstClause ∈ p.clauses := by
  induction p with
  | clause x a => exact List.mem_singleton.mpr rfl
  | group first c rest ih₁ ih₂ => exact List.mem_append_left _ ih₁
  | single o ih => exact ih
  | join o c rest ih₁ ih₂ => exact List.mem_append_left _ ih₁

/-- What a phrase writes begins with its first clause. -/
theorem Phrase.exists_emit {n : Nonterminal} (p : Phrase n) : ∀ held : List Connective,
    ∃ es, (p.emit held).1 = .name p.firstClause.1 :: .name p.firstClause.2 :: .is :: es := by
  induction p with
  | clause x a => exact fun _ => ⟨[], rfl⟩
  | group first c rest ih₁ ih₂ =>
    intro held
    obtain ⟨es, h⟩ := ih₁ held
    simp only [emit, h]
    exact ⟨_, rfl⟩
  | single o ih => exact ih
  | join o c rest ih₁ ih₂ =>
    intro held
    obtain ⟨es, h⟩ := ih₁ held
    simp only [emit, h]
    exact ⟨_, rfl⟩

namespace LooseRow

/-- The first clause of a loose row, which is the one that a rule concludes. -/
def firstClause : LooseRow → Text × Text
  | single o => o.firstClause
  | join o _ _ => o.firstClause

theorem firstClause_mem : ∀ c : LooseRow, c.firstClause ∈ c.clauses
  | single o => o.firstClause_mem
  | join o _ _ => List.mem_append_left _ o.firstClause_mem

/-- The postfix form of a conclusion begins with the clause that is concluded. -/
theorem exists_postfixForm (c : LooseRow) :
    ∃ es, c.postfixForm = .name c.firstClause.1 :: .name c.firstClause.2 :: .is :: es := by
  cases c with
  | single o =>
    obtain ⟨es, h⟩ := o.exists_emit []
    simp only [postfixForm, operands, List.flatMap_cons, h]
    exact ⟨_, rfl⟩
  | join o w rest =>
    obtain ⟨es, h⟩ := o.exists_emit []
    simp only [postfixForm, operands, List.flatMap_cons, h]
    exact ⟨_, rfl⟩

end LooseRow

/-! ### Rules -/

/-- **What stands between the operands of a conclusion is not looked at.** A rule that is accepted
has, between each two operands behind `then`, one lexeme of any kind. All are connectives exactly if
the conclusion is a row; and if they are replaced by any others, the rule is accepted all the same,
with the same postfix forms. -/
theorem conclusion_joint_unseen {v : Option Vocabulary} {text : Text} {attached : Bool}
    (h : ((ofText text attached).parse v).status = .done) :
    let rule := (ofText text attached).parse v
    (∃ p c, rule.lexemes = sentence p c) ∧
    ∀ p c, rule.lexemes = sentence p c →
      (Derives .row (c.lexemes.map Lexeme.token) ↔
        ∀ w ∈ c.joints, ∃ k, w = .mark (.connective k)) ∧
      ∀ text' attached' c', (ofText text' attached').scan.2 = none →
        (ofText text' attached').lexemes = sentence p c' → c'.operands = c.operands →
        let rule' := (ofText text' attached').parse v
        rule'.status = .done ∧ rule'.premise = rule.premise ∧
          rule'.conclusion = rule.conclusion := by
  intro rule
  obtain ⟨hex, hread⟩ := parse_of_done h
  refine ⟨hex, fun p c hws => ?_⟩
  obtain ⟨hrule, hu⟩ := hread p c hws
  have hid : ∀ w ∈ c.lexemes, w ≠ .mark .ident := by
    intro w hw
    have hmem : w ∈ rule.lexemes := by
      rw [hws]
      simp [sentence, hw]
    exact (spells_tokens _).ne_ident w hmem
  refine ⟨LooseRow.derives_row_iff hid, fun text' attached' c' hlex' hws' hops => ?_⟩
  have hclauses : c'.clauses = c.clauses := by
    rw [← c'.flatMap_operands, hops, c.flatMap_operands]
  have hrule' : (ofText text' attached').parse v = readAs text' attached' p c' :=
    parse_sentence hlex' hws' (by rw [hclauses]; exact hu)
  have hform : c'.postfixForm = c.postfixForm := by
    unfold LooseRow.postfixForm
    rw [hops]
  intro rule'
  rw [show rule' = _ from hrule', show rule = _ from hrule]
  exact ⟨rfl, rfl, hform⟩

/-- A conclusion the operands of which are joined by `is`. -/
theorem reads_joined_by_isWord (attached : Bool) :
    (ofText "if x is a then y is b is z is c" attached).scan.2 = none ∧
      (ofText "if x is a then y is b is z is c" attached).lexemes =
        sentence (.single (.clause "x" "a"))
          (.join (.clause "y" "b") (.mark .isWord) (.single (.clause "z" "c"))) :=
  reads_of_plain (by decide +kernel) (by decide +kernel) (by decide +kernel)

/-- Two operands that `is` joins are read as if `and` joined them. -/
theorem conclusion_joint_unseen_of_isWord :
    let rule := (ofText "if x is a then y is b is z is c" true).parse none
    let rule' := (ofText "if x is a then y is b and z is c" true).parse none
    rule.status = .done ∧ rule'.status = .done ∧ rule'.conclusion = rule.conclusion := by
  obtain ⟨hlex, hws⟩ := reads_joined_by_isWord true
  have hdone := status_parse_done_iff.mpr ⟨hlex, _, _, hws, findSome?_unknown?_none _⟩
  have hread : (ofText "if x is a then y is b and z is c" true).scan.2 = none ∧
      (ofText "if x is a then y is b and z is c" true).lexemes =
        sentence (.single (.clause "x" "a"))
          (.join (.clause "y" "b") (.mark (.connective .and)) (.single (.clause "z" "c"))) :=
    reads_of_plain (by decide +kernel) (by decide +kernel) (by decide +kernel)
  obtain ⟨hdone', -, hconclusion⟩ := ((conclusion_joint_unseen hdone).2 _ _
    ((lexemes_parse none _).trans hws)).2
    "if x is a then y is b and z is c" true _ hread.1 hread.2 rfl
  exact ⟨hdone, hdone', hconclusion⟩

/-- **A conclusion that is no row**: its two operands are joined by `is`. -/
theorem conclusion_joined_by_isWord :
    ¬ ∀ (v : Option Vocabulary) (text : Text) (attached : Bool),
      ((ofText text attached).parse v).status = .done →
        ∀ p c, (ofText text attached).lexemes = sentence p c →
          ∀ w ∈ c.joints, ∃ k, w = .mark (.connective k) := by
  intro h
  obtain ⟨hlex, hws⟩ := reads_joined_by_isWord true
  have hdone := status_parse_done_iff.mpr ⟨hlex, _, _, hws, findSome?_unknown?_none _⟩
  obtain ⟨k, hk⟩ := h none _ _ hdone _ _ hws (.mark .isWord) (by simp [LooseRow.joints])
  cases hk

end FuzzyInference.Rule
