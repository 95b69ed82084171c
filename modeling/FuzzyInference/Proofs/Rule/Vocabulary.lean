import FuzzyInference.Proofs.Rule.Acceptance
import FuzzyInference.Proofs.SymbolTable.Change

/-!
# Names and vocabularies

Whether the names of a rule are known does not bear on how it is read. The postfix forms of a rule
hold its clauses, each as three entries `x a IS`, in the order in which they stand in the text; a
rule that is in order without a table is in order with one exactly if the table defines all of them,
and otherwise the error names the first clause that it does not define.

* `clausesOf`, `Lexeme.clausesOf`: the clauses of a postfix form, and those of a text;
* `clausesOf_ofSentence`, `Lexeme.clausesOf_sentence`: both are the clauses of the sentence;
* `parse_of_done`: a rule that is accepted has been read as the sentence that it is;
* `SymbolTable.culprit`: the name in a clause that is to blame;
* `findSome?_eq_none_iff`, `findSome?_eq_culprit`: what the reader asks of a table;
* `parse_table`: reading with a table and without one.
-/

namespace FuzzyInference.Rule

/-! ### The clauses of a rule -/

/-- The clauses `x a IS` of a postfix form. -/
def clausesOf : List Entry → List (Text × Text)
  | [] => []
  | .name x :: .name a :: .is :: rest => (x, a) :: clausesOf rest
  | _ :: rest => clausesOf rest

/-- The clauses `x is a` among lexemes. -/
def Lexeme.clausesOf : List Lexeme → List (Text × Text)
  | [] => []
  | .name x :: .mark .isWord :: .name a :: rest => (x, a) :: clausesOf rest
  | _ :: rest => clausesOf rest

/-- The clauses on both sides of a rule. -/
def clauses (r : Rule) : List (Text × Text) := clausesOf r.premise ++ clausesOf r.conclusion

theorem clausesOf_connectives (cs : List Connective) (es : List Entry) :
    clausesOf (cs.map .connective ++ es) = clausesOf es := by
  induction cs with
  | nil => rfl
  | cons c cs ih => simpa [clausesOf] using ih

theorem clausesOf_emit {n : Nonterminal} (p : Phrase n) :
    ∀ (held : List Connective) (es : List Entry),
      clausesOf ((p.emit held).1 ++ es) = p.clauses ++ clausesOf es := by
  induction p with
  | clause x a =>
    intro held es
    rfl
  | group first c rest ih₁ ih₂ =>
    intro held es
    simp only [Phrase.emit, Phrase.clauses, List.append_assoc]
    rw [ih₁, ih₂, clausesOf_connectives]
  | single o ih =>
    intro held es
    exact ih held es
  | join o c rest ih₁ ih₂ =>
    intro held es
    simp only [Phrase.emit, Phrase.clauses, List.append_assoc]
    rw [ih₁, ih₂]

theorem clausesOf_operands (os : List (Phrase .operand)) (es : List Entry) :
    clausesOf ((os.flatMap fun o => (o.emit []).1) ++ es) =
      os.flatMap Phrase.clauses ++ clausesOf es := by
  induction os with
  | nil => rfl
  | cons o os ih =>
    simp only [List.flatMap_cons, List.append_assoc]
    rw [clausesOf_emit, ih]

theorem Phrase.flatMap_operands {n : Nonterminal} (p : Phrase n) :
    p.operands.flatMap Phrase.clauses = p.clauses := by
  induction p with
  | clause x a => rfl
  | group first c rest ih₁ ih₂ => simp [Phrase.operands]
  | single o ih => simp [Phrase.operands, Phrase.clauses]
  | join o c rest ih₁ ih₂ => simp [Phrase.operands, Phrase.clauses, ih₂]

theorem LooseRow.flatMap_operands : ∀ c : LooseRow, c.operands.flatMap Phrase.clauses = c.clauses
  | .single o => by simp [LooseRow.operands, LooseRow.clauses]
  | .join o w rest => by
    simp [LooseRow.operands, LooseRow.clauses, flatMap_operands rest]

theorem Phrase.clausesOf_postfixForm {n : Nonterminal} (p : Phrase n) :
    Rule.clausesOf p.postfixForm = p.clauses := by
  have h := clausesOf_operands p.operands []
  rwa [List.append_nil, p.flatMap_operands, Rule.clausesOf, List.append_nil] at h

theorem LooseRow.clausesOf_postfixForm (c : LooseRow) :
    Rule.clausesOf c.postfixForm = c.clauses := by
  have h := clausesOf_operands c.operands []
  rwa [List.append_nil, c.flatMap_operands, Rule.clausesOf, List.append_nil] at h

theorem clausesOf_ofSentence (p : Phrase .row) (c : LooseRow) :
    clausesOf p.postfixForm ++ clausesOf c.postfixForm = p.clauses ++ c.clauses := by
  rw [p.clausesOf_postfixForm, c.clausesOf_postfixForm]

namespace Lexeme

/-- A mark belongs to a clause only behind a name. -/
theorem clausesOf_mark (t : Token) (ws : List Lexeme) : clausesOf (.mark t :: ws) = clausesOf ws :=
  rfl

theorem clausesOf_phrase {n : Nonterminal} (p : Phrase n) :
    ∀ ws : List Lexeme, clausesOf (p.lexemes ++ ws) = p.clauses ++ clausesOf ws := by
  induction p with
  | clause x a =>
    intro ws
    rfl
  | group first c rest ih₁ ih₂ =>
    intro ws
    simp only [Phrase.lexemes, Phrase.clauses, List.cons_append, List.append_assoc,
      List.nil_append]
    rw [clausesOf_mark, ih₁, clausesOf_mark, ih₂, clausesOf_mark]
  | single o ih =>
    intro ws
    exact ih ws
  | join o c rest ih₁ ih₂ =>
    intro ws
    simp only [Phrase.lexemes, Phrase.clauses, List.cons_append, List.append_assoc]
    rw [ih₁, clausesOf_mark, ih₂]

/-- Whatever stands before a phrase is no part of a clause of it: no phrase begins with `is`. -/
theorem clausesOf_cons_phrase {n : Nonterminal} (w : Lexeme) (p : Phrase n) :
    ∀ ws : List Lexeme, clausesOf (w :: (p.lexemes ++ ws)) = clausesOf (p.lexemes ++ ws) := by
  induction p with
  | clause x a =>
    intro ws
    cases w <;> rfl
  | group first c rest ih₁ ih₂ =>
    intro ws
    cases w <;> rfl
  | single o ih =>
    intro ws
    exact ih ws
  | join o c rest ih₁ ih₂ =>
    intro ws
    simp only [Phrase.lexemes, List.append_assoc]
    exact ih₁ _

theorem clausesOf_looseRow : ∀ (c : LooseRow) (ws : List Lexeme),
    clausesOf (c.lexemes ++ ws) = c.clauses ++ clausesOf ws
  | .single o, ws => clausesOf_phrase o ws
  | .join o w rest, ws => by
    have skip : clausesOf (w :: (rest.lexemes ++ ws)) = clausesOf (rest.lexemes ++ ws) := by
      cases rest with
      | single o' => exact clausesOf_cons_phrase w o' ws
      | join o' w' rest' =>
        simp only [LooseRow.lexemes, List.append_assoc]
        exact clausesOf_cons_phrase w o' _
    simp only [LooseRow.lexemes, LooseRow.clauses, List.cons_append, List.append_assoc]
    rw [clausesOf_phrase, skip, clausesOf_looseRow rest]

theorem clausesOf_sentence (p : Phrase .row) (c : LooseRow) :
    clausesOf (sentence p c) = p.clauses ++ c.clauses := by
  unfold sentence
  rw [clausesOf_mark, clausesOf_mark, clausesOf_phrase, clausesOf_mark, clausesOf_looseRow]
  simp [clausesOf]

end Lexeme

/-- **A rule that is accepted**, as whatever sentence its lexemes are understood. -/
theorem parse_of_done {v : Option Vocabulary} {text : Text} {attached : Bool}
    (h : ((ofText text attached).parse v).status = .done) :
    (∃ p c, (ofText text attached).lexemes = sentence p c) ∧
    ∀ p c, (ofText text attached).lexemes = sentence p c →
      (ofText text attached).parse v = readAs text attached p c ∧
      (p.clauses ++ c.clauses).findSome? (unknown? v) = none := by
  obtain ⟨hlex, p, c, hws, hu⟩ := status_parse_done_iff.mp h
  refine ⟨⟨p, c, hws⟩, fun p' c' hws' => ?_⟩
  have hclauses : p'.clauses ++ c'.clauses = p.clauses ++ c.clauses := by
    rw [← Lexeme.clausesOf_sentence, ← Lexeme.clausesOf_sentence, ← hws', hws]
  have hu' : (p'.clauses ++ c'.clauses).findSome? (unknown? v) = none := by rw [hclauses, hu]
  exact ⟨parse_sentence hlex hws' hu', hu'⟩

end FuzzyInference.Rule

/-! ### Tables -/

namespace FuzzyInference.SymbolTable

variable {α : Type}

/-- The name to blame in a clause that is not defined: its variable, unless that is registered. -/
def culprit (t : SymbolTable α) (x : Text × Text) : Text :=
  if t.hasVariable x.1 then x.2 else x.1

theorem hasTerm_iff {t : SymbolTable α} {x : Text × Text} :
    t.hasTerm x.1 x.2 = true ↔ t.Defines x := by
  unfold hasTerm Defines
  rw [Option.any_eq_true]

end FuzzyInference.SymbolTable

namespace FuzzyInference.Rule

variable {α : Type} {t : SymbolTable α}

theorem unknown?_vocabulary (t : SymbolTable α) (x : Text × Text) :
    unknown? (some t.vocabulary) x =
      if t.hasVariable x.1 = true then if t.hasTerm x.1 x.2 = true then none else some x.2
      else some x.1 :=
  rfl

theorem unknown?_of_defines {x : Text × Text} (h : t.Defines x) :
    unknown? (some t.vocabulary) x = none := by
  have hterm := SymbolTable.hasTerm_iff.mpr h
  obtain ⟨v, hv, -⟩ := h
  have hvar : t.hasVariable x.1 = true := Option.isSome_iff_exists.mpr ⟨v, hv⟩
  rw [unknown?_vocabulary, if_pos hvar, if_pos hterm]

theorem unknown?_of_not_defines {x : Text × Text} (h : ¬ t.Defines x) :
    unknown? (some t.vocabulary) x = some (t.culprit x) := by
  have hterm : ¬ t.hasTerm x.1 x.2 = true := fun ht => h (SymbolTable.hasTerm_iff.mp ht)
  unfold SymbolTable.culprit
  rw [unknown?_vocabulary, if_neg hterm]
  split <;> rfl

theorem findSome?_eq_none_iff {xs : List (Text × Text)} :
    xs.findSome? (unknown? (some t.vocabulary)) = none ↔ ∀ x ∈ xs, t.Defines x := by
  rw [List.findSome?_eq_none_iff]
  refine forall₂_congr fun x _ => ⟨fun h => ?_, unknown?_of_defines⟩
  by_cases hx : t.Defines x
  · exact hx
  · rw [unknown?_of_not_defines hx] at h
    cases h

/-- The first clause that is not defined is to blame. -/
theorem findSome?_eq_culprit {before : List (Text × Text)} {x : Text × Text}
    (hbefore : ∀ y ∈ before, t.Defines y) (hx : ¬ t.Defines x) (after : List (Text × Text)) :
    (before ++ x :: after).findSome? (unknown? (some t.vocabulary)) = some (t.culprit x) := by
  rw [List.findSome?_append, findSome?_eq_none_iff.mpr hbefore, Option.none_or,
    List.findSome?_cons, unknown?_of_not_defines hx]

/-! ### Reading with and without a table -/

/-- **Reading with a table.** A rule is accepted exactly if it is accepted without the table and the
table defines its clauses, which are those of its text; it is then the same rule. If it is accepted
without the table only, the first clause that is not defined is to blame. -/
theorem parse_table (t : SymbolTable α) (text : Text) (attached attached' : Bool) :
    let bound := (ofText text attached).parse (some t.vocabulary)
    let free := (ofText text attached').parse none
    (bound.status = .done ↔ free.status = .done ∧ ∀ x ∈ free.clauses, t.Defines x) ∧
    (bound.status = .done → bound.premise = free.premise ∧ bound.conclusion = free.conclusion ∧
      bound.tokens = free.tokens) ∧
    (free.status = .done → free.clauses = Lexeme.clausesOf free.lexemes ∧
      ∀ before x after, free.clauses = before ++ x :: after → (∀ y ∈ before, t.Defines y) →
        ¬ t.Defines x → bound.status = .erroneous ∧
          bound.errorText = "Symbol '" ++ t.culprit x ++ "' is not defined") := by
  intro bound free
  have hscan : (ofText text attached).scan = (ofText text attached').scan := rfl
  have hlexemes : (ofText text attached).lexemes = (ofText text attached').lexemes := rfl
  -- A rule that is accepted without the table is a sentence, and its clauses are those of it.
  have hfree : free.status = .done → ∃ p c, (ofText text attached).scan.2 = none ∧
      (ofText text attached).lexemes = sentence p c ∧ free = readAs text attached' p c ∧
      free.clauses = p.clauses ++ c.clauses := by
    intro h
    obtain ⟨hlex, p, c, hws, hu⟩ := status_parse_done_iff.mp h
    have hread : free = readAs text attached' p c := parse_sentence hlex hws hu
    refine ⟨p, c, hlex, hws, hread, ?_⟩
    rw [hread]
    exact clausesOf_ofSentence p c
  refine ⟨⟨fun h => ?_, fun ⟨h, hdef⟩ => ?_⟩, fun h => ?_, fun h => ?_⟩
  · obtain ⟨hlex, p, c, hws, hu⟩ := status_parse_done_iff.mp h
    have hread : free = readAs text attached' p c :=
      parse_sentence hlex hws (findSome?_unknown?_none _)
    rw [hread]
    refine ⟨rfl, fun x hx => findSome?_eq_none_iff.mp hu x ?_⟩
    rw [← clausesOf_ofSentence]
    exact hx
  · obtain ⟨p, c, hlex, hws, -, hclauses⟩ := hfree h
    rw [hclauses] at hdef
    exact status_parse_done_iff.mpr ⟨hlex, p, c, hws, findSome?_eq_none_iff.mpr hdef⟩
  · obtain ⟨hlex, p, c, hws, hu⟩ := status_parse_done_iff.mp h
    have hbound : bound = readAs text attached p c := parse_sentence hlex hws hu
    have hread : free = readAs text attached' p c :=
      parse_sentence hlex hws (findSome?_unknown?_none _)
    rw [hbound, hread]
    exact ⟨rfl, rfl, rfl⟩
  · obtain ⟨p, c, hlex, hws, hread, hclauses⟩ := hfree h
    constructor
    · have hwords : free.lexemes = sentence p c := hws
      rw [hwords, Lexeme.clausesOf_sentence, hclauses]
    · intro before x after hsplit hbefore hx
      have hu := findSome?_eq_culprit hbefore hx after
      rw [← hsplit, hclauses] at hu
      obtain ⟨hstatus, herror⟩ := parse_sentence_undefined hlex hws hu
      refine ⟨hstatus, ?_⟩
      unfold errorText
      rw [herror]
      rfl

/-- A term that is missing in the second of three clauses. -/
theorem parse_table_missing_term :
    let t : SymbolTable Unit := ⟨[⟨"x", .input, [("a", ⟨(), (), (), (), ()⟩)], ()⟩], false⟩
    ((ofText "if x is a or X is b then y is c" true).parse (some t.vocabulary)).errorText =
      "Symbol 'b' is not defined" := by
  intro t
  obtain ⟨-, -, h⟩ := parse_table t "if x is a or X is b then y is c" true true
  have hfree : ((ofText "if x is a or X is b then y is c" true).parse none).status = .done := by
    decide +kernel
  have hbefore : ∀ y ∈ [(("x" : Text), ("a" : Text))], t.Defines y := by
    intro y hy
    obtain rfl := List.mem_singleton.mp hy
    exact ⟨_, rfl, by decide +kernel⟩
  have hx : ¬ t.Defines ("x", "b") := by
    rw [← SymbolTable.hasTerm_iff]
    decide +kernel
  exact ((h hfree).2 [("x", "a")] ("x", "b") [("y", "c")] (by decide +kernel) hbefore hx).2

end FuzzyInference.Rule
