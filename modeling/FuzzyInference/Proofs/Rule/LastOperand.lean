import FuzzyInference.Proofs.Rule.Again
import FuzzyInference.Proofs.Rule.Trace

/-!
# The last operand decides

Every operand of a premise outside all groups leaves its degree above those of the operands before it
and takes none of them, and the connectives between such operands are dropped. So a premise counts for
no more than its last operand: the rule that has nothing else before `then` is accepted too, has the
same degree of relevance and concludes the same.

* `isPlain_of_sentence`, `exists_text_of_sentence`: what a sentence is made of can be written again;
* `Phrase.lexemes_lastOperand`, `Phrase.postfixForm_lastOperand`: the last operand stands at the end, in
  the text and in the postfix form;
* `concludes_readAs`: what a sentence concludes depends on its last operand;
* `last_operand_decides`: **a rule and the rule of its last operand**.
-/

namespace FuzzyInference.Rule

/-! ### Writing sentences -/

section
variable {p : Phrase .row} {c : LooseRow}

/-- What a sentence has between the start and the end. -/
theorem sentence_eq (p : Phrase .row) (c : LooseRow) : sentence p c = .mark .start ::
    ((.mark .ifWord :: (p.lexemes ++ .mark .thenWord :: c.lexemes)) ++ [.mark .finish]) := by
  simp [sentence]

/-- What the sentence of a text is made of can be written. -/
theorem isPlain_of_sentence {text : Text} (hws : (Lexer.ofText text).lexemes = sentence p c) :
    ∀ x ∈ .mark .ifWord :: (p.lexemes ++ .mark .thenWord :: c.lexemes), x.IsPlain := by
  obtain ⟨ls, rest, h⟩ := exists_munch (Text.lowercase (Text.trim text)).toList
  obtain ⟨hend, herror⟩ := Lexer.lexemes_ofText h
  rw [sentence_eq] at hws
  by_cases hends : Lexer.Ends rest
  · have hinner := (List.cons.inj ((hend hends).symm.trans hws)).2
    rw [← List.append_cancel_right hinner]
    exact h.isPlain
  · -- Otherwise the end would be among the lexemes into which the text divides.
    have hinner := (List.cons.inj ((herror hends).symm.trans hws)).2
    have hfinish : Lexeme.mark .finish ∈ ls := by
      rw [hinner]
      exact List.mem_append_right _ (List.mem_singleton.mpr rfl)
    exact absurd rfl (h.token_ne_finish _ hfinish)

/-- **A sentence that can be written is that of a text.** -/
theorem exists_text_of_sentence
    (h : ∀ x ∈ .mark .ifWord :: (p.lexemes ++ .mark .thenWord :: c.lexemes), x.IsPlain)
    (attached : Bool) : ∃ text, (ofText text attached).lexemes = sentence p c := by
  obtain ⟨text, hprinted, hlower⟩ := exists_printed h
  refine ⟨text, ?_⟩
  unfold lexemes ofText
  dsimp only
  rw [hlower, (Lexer.lexemes_ofText (munch_of_printed hprinted)).1 Lexer.ends_nil, sentence_eq]

/-- A text whose lexemes are a sentence has no lexical error. -/
theorem scan_of_sentence {text : Text} {attached : Bool}
    (hws : (ofText text attached).lexemes = sentence p c) : (ofText text attached).scan.2 = none := by
  rw [← finish_mem_scan_iff]
  have htokens : (ofText text attached).scan.1 = (sentence p c).map Lexeme.token := by
    rw [← hws]
    exact (map_token_lexemes _).symm
  rw [htokens]
  exact List.mem_map.mpr ⟨.mark .finish, by simp [sentence], rfl⟩

end

/-! ### The last operand -/

namespace Phrase

/-- The last operand stands at the end of a phrase. -/
theorem lexemes_lastOperand {n : Nonterminal} (p : Phrase n) :
    p.lastOperand.lexemes <:+ p.lexemes := by
  induction p with
  | clause x a => exact List.suffix_rfl
  | group first c rest ih₁ ih₂ => exact List.suffix_rfl
  | single o ih => exact List.suffix_rfl
  | join o c rest ih₁ ih₂ =>
    exact ih₂.trans ((List.suffix_cons _ _).trans (List.suffix_append _ _))

/-- Its postfix form stands at the end of the postfix form. -/
theorem postfixForm_lastOperand {n : Nonterminal} (p : Phrase n) :
    (single p.lastOperand).postfixForm <:+ p.postfixForm := by
  obtain ⟨os, hos⟩ := p.exists_operands
  have hform : p.postfixForm =
      (os.flatMap fun o => (o.emit []).1) ++ (single p.lastOperand).postfixForm := by
    unfold postfixForm
    rw [hos, List.flatMap_append]
    rfl
  rw [hform]
  exact List.suffix_append _ _

end Phrase

section
variable {α : Type} [Scalar α]

/-- **What a sentence concludes** over a table with the clauses of its premise: the given function of
its first clause behind `then`, to the degree of its last operand. -/
theorem concludes_readAs {t : SymbolTable α} {p : Phrase .row} {c : LooseRow} {f : Membership α}
    (text : Text) (hdef : ∀ x ∈ p.clauses, t.Defines x)
    (hf : ∃ v, t.find? c.firstClause.1 = some v ∧ v.term? c.firstClause.2 = some f) :
    (readAs text true p c).Concludes t c.firstClause f (p.lastOperand.degree t.degree) ∧
      (∀ d, (readAs text true p c).concludeAt t d = f.reason d) ∧
      (readAs text true p c).conclude t = f.reason (p.lastOperand.degree t.degree) := by
  obtain ⟨hvariable, hterm⟩ := conclusion_readAs text p c
  have hrelevance : (readAs text true p c).relevance t = .ok (p.lastOperand.degree t.degree) :=
    relevance_readAs c hdef
  obtain ⟨v, hv, hfunction⟩ := hf
  have hat : ∀ d, (readAs text true p c).concludeAt t d = f.reason d := fun d => by
    rw [← readTimes_one]
    exact concludeAt_readTimes hv hfunction 0 d
  refine ⟨⟨hvariable, hterm, ⟨v, hv, hfunction⟩, hrelevance⟩, hat, ?_⟩
  rw [← hat, ← readTimes_one]
  rw [← readTimes_one] at hrelevance
  exact conclude_readTimes hrelevance

/-- **Only the last operand decides.** The rule that has the last operand of a rule for its premise,
and the same conclusion, can be written; and whatever its text, a table that accepts the rule accepts
it too. What is read of its premise is the end of what is read of the other's, and of the conclusion the
same is read. Wherever the table changes to, whatever the crisp values, both rules conclude one term to
one degree of relevance, and what they conclude at a given degree, and at their own, is the same. -/
theorem last_operand_decides (t : SymbolTable α) (text : Text) :
    let rule := (ofText text true).parse (some t.vocabulary)
    rule.status = .done →
      (∃ p c, rule.lexemes = sentence p c) ∧
      ∀ p c, rule.lexemes = sentence p c →
        (∃ short, (ofText short true).lexemes = sentence (.single p.lastOperand) c) ∧
        ∀ short, (ofText short true).lexemes = sentence (.single p.lastOperand) c →
          let rule' := (ofText short true).parse (some t.vocabulary)
          rule'.status = .done ∧ rule'.premise <:+ rule.premise ∧
          rule'.conclusion = rule.conclusion ∧
          ∃ x f, ∀ cs, ∃ h,
            rule.Concludes (t.run cs) x f h ∧ rule'.Concludes (t.run cs) x f h ∧
            (∀ d, rule.concludeAt (t.run cs) d = f.reason d ∧
              rule'.concludeAt (t.run cs) d = f.reason d) ∧
            rule.conclude (t.run cs) = f.reason h ∧ rule'.conclude (t.run cs) = f.reason h := by
  intro rule hdone
  obtain ⟨hsentence, hread⟩ := parse_of_done hdone
  refine ⟨hsentence, fun p c hws => ?_⟩
  obtain ⟨hrule, hu⟩ := hread p c hws
  have hdef := findSome?_eq_none_iff.mp hu
  have hlast : ∀ x ∈ p.lastOperand.clauses, x ∈ p.clauses := fun x hx =>
    Phrase.mem_clauses_of_operand p.lastOperand_mem hx
  constructor
  · refine exists_text_of_sentence (fun x hx => isPlain_of_sentence hws x ?_) true
    have hsuffix := p.lexemes_lastOperand.subset
    simp only [Phrase.lexemes, List.mem_cons, List.mem_append] at hx ⊢
    exact hx.imp_right (Or.imp_left fun hx => hsuffix hx)
  · intro short hshort rule'
    have hdef' : ∀ x ∈ (Phrase.single p.lastOperand).clauses ++ c.clauses, t.Defines x :=
      List.forall_mem_append.mpr
        ⟨fun x hx => hdef x (List.mem_append_left _ (hlast x hx)), (List.forall_mem_append.mp hdef).2⟩
    have hrule' : rule' = readAs short true (.single p.lastOperand) c :=
      parse_sentence (scan_of_sentence hshort) hshort (findSome?_eq_none_iff.mpr hdef')
    rw [show rule = _ from hrule, hrule']
    refine ⟨rfl, p.postfixForm_lastOperand, rfl, c.firstClause, ?_⟩
    obtain ⟨f, hf⟩ :=
      SymbolTable.function_of_changes (hdef _ (List.mem_append_right _ c.firstClause_mem))
    refine ⟨f, fun cs => ⟨p.lastOperand.degree (t.run cs).degree, ?_⟩⟩
    obtain ⟨hconcludes, hat, hown⟩ := concludes_readAs text (fun x hx =>
      SymbolTable.defines_run (hdef x (List.mem_append_left _ hx)) cs) (hf cs)
    obtain ⟨hconcludes', hat', hown'⟩ := concludes_readAs short (p := .single p.lastOperand)
      (fun x hx => SymbolTable.defines_run (hdef' x (List.mem_append_left _ hx)) cs) (hf cs)
    exact ⟨hconcludes, hconcludes', fun d => ⟨hat d, hat' d⟩, hown, hown'⟩

end

/-- A rule whose last operand is a group, with a clause of another degree before it. -/
theorem last_group_decides :
    let f : Membership Exact := ⟨.number 0, .number 1, .number 1, .number 2, .number 1⟩
    let g : Membership Exact := ⟨.number 0, .number 2, .number 2, .number 4, .number 1⟩
    let t : SymbolTable Exact := ⟨[⟨"x", .input, [("a", f), ("b", g)], .number (1 / 2)⟩], true⟩
    let rule := (ofText "if x is a or (x is b and x is a) then x is a" true).parse
      (some t.vocabulary)
    let rule' := (ofText "if (x is b and x is a) then x is a" true).parse (some t.vocabulary)
    rule.status = .done ∧ rule'.status = .done ∧
      ∃ h, rule.relevance t = .ok h ∧ rule'.relevance t = .ok h ∧
        rule'.conclude t = rule.conclude t := by
  intro f g t
  obtain ⟨hdone, hws⟩ : ((ofText "if x is a or (x is b and x is a) then x is a" true).parse
        (some t.vocabulary)).status = .done ∧
      ((ofText "if x is a or (x is b and x is a) then x is a" true).parse
        (some t.vocabulary)).lexemes =
        sentence (.join (.clause "x" "a") .or (.single (.group (.clause "x" "b") .and
          (.single (.clause "x" "a"))))) (.single (.clause "x" "a")) :=
    done_of_plain (by decide +kernel) (by decide +kernel) (by decide +kernel) (by decide +kernel)
  obtain ⟨-, hshort⟩ : (ofText "if (x is b and x is a) then x is a" true).scan.2 = none ∧
      (ofText "if (x is b and x is a) then x is a" true).lexemes =
        sentence (.single (.group (.clause "x" "b") .and (.single (.clause "x" "a"))))
          (.single (.clause "x" "a")) :=
    reads_of_plain (by decide +kernel) (by decide +kernel) (by decide +kernel)
  obtain ⟨-, hall⟩ :=
    last_operand_decides t "if x is a or (x is b and x is a) then x is a" hdone
  obtain ⟨hdone', -, -, x, f', hconcludes⟩ := (hall _ _ hws).2 _ hshort
  obtain ⟨h, hrule, hrule', -, hown, hown'⟩ := hconcludes []
  exact ⟨hdone, hdone', h, hrule.relevance, hrule'.relevance, hown'.trans hown.symm⟩

end FuzzyInference.Rule
