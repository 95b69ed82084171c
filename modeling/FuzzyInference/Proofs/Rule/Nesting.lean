import FuzzyInference.Proofs.Rule.Relevance

/-!
# Groups whose brackets hold

A group that closes writes all connectives that are held, those of the groups around it too. So the
postfix form of nested groups is in general not that of the tree that the brackets describe. It is
where a group inside a group stands at one of the two ends. In front nothing is held yet. At the
back the connectives of the outer group follow those of the inner one anyway, if each group nests to
the right.

* `Formula`: clauses joined two at a time, with their postfix form and their value;
* `Phrase.nest`: the formula of a phrase, each group nested to the right;
* `Phrase.TailSafe`, `Phrase.Safe`: the phrases with groups at the back only, and those with groups
  at the front as well;
* `emit_tailSafe`: with connectives held or not, a tail-safe phrase is written as its formula, and
  what was held comes behind it;
* `emit_safe`: where nothing is held, so is a safe phrase;
* `evaluate_formula`: the postfix form of a formula evaluates to its value;
* `relevance_of_safe_group`: the degree of relevance of a rule whose premise is a safe group.
-/

namespace FuzzyInference.Rule

/-- Clauses joined two at a time. -/
inductive Formula where
  | clause (x a : Text)
  | join (left : Formula) (c : Connective) (right : Formula)
  deriving Repr, DecidableEq

namespace Formula

/-- The clauses of a formula, from left to right. -/
def clauses : Formula → List (Text × Text)
  | clause x a => [(x, a)]
  | join l _ r => l.clauses ++ r.clauses

/-- The postfix form: a connective stands behind the two formulas that it joins. -/
def postfixForm : Formula → List Entry
  | clause x a => [.name x, .name a, .is]
  | join l c r => l.postfixForm ++ (r.postfixForm ++ [.connective c])

/-- The value of a formula from those of its clauses, where `meet` stands for `and` and `union` for
`or`. -/
def value {β : Type} (meet union : β → β → β) (degree : Text × Text → β) : Formula → β
  | clause x a => degree (x, a)
  | join l .and r => meet (l.value meet union degree) (r.value meet union degree)
  | join l .or r => union (l.value meet union degree) (r.value meet union degree)

end Formula

namespace Phrase

/-- The formula of a phrase: `T₁ c₁ (T₂ c₂ (… Tₙ))` for each row of operands. -/
def nest {n : Nonterminal} : Phrase n → Formula
  | clause x a => .clause x a
  | group first c rest => .join first.nest c rest.nest
  | single o => o.nest
  | join o c rest => .join o.nest c rest.nest

def IsClause {n : Nonterminal} : Phrase n → Prop
  | clause _ _ => True
  | group _ _ _ => False
  | single _ => False
  | join _ _ _ => False

/-- A clause; or operands all but the last of which are clauses, the last one being tail-safe. -/
def TailSafe {n : Nonterminal} : Phrase n → Prop
  | clause _ _ => True
  | group first _ rest => first.IsClause ∧ rest.TailSafe
  | single o => o.TailSafe
  | join o _ rest => o.IsClause ∧ rest.TailSafe

/-- A clause; or operands the first of which is safe, those in the middle being clauses and the last
one tail-safe. -/
def Safe {n : Nonterminal} : Phrase n → Prop
  | clause _ _ => True
  | group first _ rest => first.Safe ∧ rest.TailSafe
  | single o => o.Safe
  | join o _ rest => o.Safe ∧ rest.TailSafe

theorem clauses_nest {n : Nonterminal} (p : Phrase n) : p.nest.clauses = p.clauses := by
  induction p with
  | clause x a => rfl
  | group first c rest ih₁ ih₂ => simp only [nest, Formula.clauses, clauses, ih₁, ih₂]
  | single o ih => exact ih
  | join o c rest ih₁ ih₂ => simp only [nest, Formula.clauses, clauses, ih₁, ih₂]

theorem emit_of_isClause {o : Phrase .operand} (h : o.IsClause) (held : List Connective) :
    o.emit held = (o.nest.postfixForm, held) := by
  cases o with
  | clause x a => rfl
  | group first c rest => exact h.elim

/-- **What a tail-safe phrase writes**, together with what is held behind it: the postfix form of its
formula, and what was held before. A group at the back writes the connectives of the groups around
it itself, which is where they belong. -/
theorem emit_tailSafe {n : Nonterminal} (p : Phrase n) :
    p.TailSafe → ∀ held : List Connective,
      (p.emit held).1 ++ (p.emit held).2.map .connective =
        p.nest.postfixForm ++ held.map .connective := by
  induction p with
  | clause x a =>
    intro _ held
    rfl
  | group first c rest ih₁ ih₂ =>
    rintro ⟨hfirst, hrest⟩ held
    have h := ih₂ hrest (c :: held)
    simp only [emit, emit_of_isClause hfirst, nest, Formula.postfixForm, List.append_assoc,
      List.map_nil, List.append_nil]
    rw [h]
    rfl
  | single o ih => exact ih
  | join o c rest ih₁ ih₂ =>
    rintro ⟨ho, hrest⟩ held
    have h := ih₂ hrest (c :: held)
    simp only [emit, emit_of_isClause ho, nest, Formula.postfixForm, List.append_assoc]
    rw [h]
    rfl

/-- **What a safe phrase writes where nothing is held**, together with what is held behind it: the
postfix form of its formula. -/
theorem emit_safe {n : Nonterminal} (p : Phrase n) :
    p.Safe → (p.emit []).1 ++ (p.emit []).2.map .connective = p.nest.postfixForm := by
  induction p with
  | clause x a =>
    intro _
    rfl
  | group first c rest ih₁ ih₂ =>
    rintro ⟨hfirst, hrest⟩
    have h₁ := ih₁ hfirst
    have h₂ := emit_tailSafe rest hrest [c]
    rw [first.emit_nil, List.map_nil, List.append_nil] at h₁
    simp only [emit, first.emit_nil, nest, Formula.postfixForm, List.append_assoc,
      List.map_nil, List.append_nil]
    rw [h₁, h₂]
    rfl
  | single o ih => exact ih
  | join o c rest ih₁ ih₂ =>
    rintro ⟨ho, hrest⟩
    have h₁ := ih₁ ho
    have h₂ := emit_tailSafe rest hrest [c]
    rw [o.emit_nil, List.map_nil, List.append_nil] at h₁
    simp only [emit, o.emit_nil, nest, Formula.postfixForm, List.append_assoc]
    rw [h₁, h₂]
    rfl

/-- The postfix form of a premise that is one safe operand. -/
theorem postfixForm_of_safe {o : Phrase .operand} (h : o.Safe) :
    (Phrase.single o).postfixForm = o.nest.postfixForm := by
  have hemit := emit_safe o h
  rw [o.emit_nil, List.map_nil, List.append_nil] at hemit
  rw [← hemit]
  simp [Phrase.postfixForm, operands]

end Phrase

/-! ### The value of a formula -/

section
variable {α : Type} [Scalar α] {t : SymbolTable α}

/-- **Evaluating the postfix form of a formula** puts its value on the stack. -/
theorem evaluate_formula (f : Formula) (hdef : ∀ x ∈ f.clauses, t.Defines x) :
    ∀ (before : List Entry) (stack : List α) (rest : List Entry),
      ∃ before', evaluate t before stack (f.postfixForm ++ rest) =
        evaluate t before'
          (f.value Connective.smaller Connective.greater t.degree :: stack) rest := by
  induction f with
  | clause x a =>
    intro before stack rest
    have hd := clauseDegree_eq (hdef (x, a) (by simp [Formula.clauses]))
    refine ⟨.is :: .name a :: .name x :: before, ?_⟩
    simp only [Formula.postfixForm, List.cons_append, List.nil_append]
    rw [evaluate, evaluate, evaluate]
    simp only [hd]
    rfl
  | join l c r ih₁ ih₂ =>
    intro before stack rest
    simp only [Formula.clauses, List.mem_append] at hdef
    obtain ⟨before₁, h₁⟩ := ih₁ (fun x hx => hdef x (Or.inl hx)) before stack
      (r.postfixForm ++ .connective c :: rest)
    obtain ⟨before₂, h₂⟩ := ih₂ (fun x hx => hdef x (Or.inr hx)) before₁
      (l.value Connective.smaller Connective.greater t.degree :: stack) (.connective c :: rest)
    refine ⟨.connective c :: before₂, ?_⟩
    simp only [Formula.postfixForm, List.append_assoc, List.cons_append, List.nil_append]
    rw [h₁, h₂, evaluate]
    cases c <;> rfl

/-- The degree of relevance of a rule whose premise is the postfix form of a formula. -/
theorem relevance_of_formula {r : Rule} {f : Formula} (hdone : r.status = .done)
    (hattached : r.attached = true) (hpremise : r.premise = f.postfixForm)
    (hdef : ∀ x ∈ f.clauses, t.Defines x) :
    r.relevance t = .ok (f.value Connective.smaller Connective.greater t.degree) := by
  obtain ⟨before, heval⟩ := evaluate_formula f hdef [] [] []
  rw [List.append_nil, evaluate, ← hpremise] at heval
  exact relevance_of_evaluate hdone hattached heval

end

/-- On exact numbers a formula has the value that it has on the numbers of its clauses. -/
theorem value_number {degree : Text × Text → Exact} {q : Text × Text → ℚ} (f : Formula) :
    (∀ x ∈ f.clauses, degree x = .number (q x)) →
      f.value Connective.smaller Connective.greater degree = .number (f.value min max q) := by
  induction f with
  | clause x a =>
    intro h
    exact h (x, a) (by simp [Formula.clauses])
  | join l c r ih₁ ih₂ =>
    intro h
    simp only [Formula.clauses, List.mem_append] at h
    have h₁ := ih₁ fun x hx => h x (Or.inl hx)
    have h₂ := ih₂ fun x hx => h x (Or.inr hx)
    cases c with
    | and => rw [Formula.value, h₁, h₂, Exact.smaller_number, Formula.value]
    | or => rw [Formula.value, h₁, h₂, Exact.greater_number, Formula.value]

/-! ### Rules -/

/-- What a table that accepts a rule says about a premise that is one safe operand. -/
theorem premise_of_safe {α : Type} {t : SymbolTable α} {text : Text} {attached : Bool}
    {o : Phrase .operand} {c : LooseRow} (hsafe : o.Safe)
    (h : ((ofText text attached).parse (some t.vocabulary)).status = .done)
    (hws : (ofText text attached).lexemes = sentence (.single o) c) :
    ((ofText text attached).parse (some t.vocabulary)).premise = o.nest.postfixForm ∧
      ∀ cs, ∀ x ∈ o.nest.clauses, (t.run cs).Defines x := by
  constructor
  · rw [((parse_of_done h).2 _ _ hws).1, ← Phrase.postfixForm_of_safe hsafe]
    rfl
  · intro cs x hx
    rw [Phrase.clauses_nest] at hx
    exact defines_of_done h hws cs x hx

/-- **The degree of relevance of a rule whose premise is one safe group.** The premise is the postfix
form of the tree in which each group nests to the right, and the degree of relevance is the value of
that tree at the degrees of its clauses, whatever has been done to the table since. On exact numbers,
with valid functions in the table and the changes, `and` and `or` are the smaller and the greater of
two numbers there. -/
theorem relevance_of_safe_group (text : Text) {first : Phrase .operand} {k : Connective}
    {rest : Phrase .row} {c : LooseRow} (hsafe : (Phrase.group first k rest).Safe) :
    let tree := (Phrase.group first k rest).nest
    (∀ {α : Type} [Scalar α] (t : SymbolTable α) (cs : List (SymbolTable.Change α)),
      let rule := (ofText text true).parse (some t.vocabulary)
      rule.status = .done → rule.lexemes = sentence (.single (.group first k rest)) c →
        rule.premise = tree.postfixForm ∧
        (∀ x ∈ tree.clauses, clauseDegree (t.run cs) x.1 x.2 = .ok ((t.run cs).degree x)) ∧
        rule.relevance (t.run cs) =
          .ok (tree.value Connective.smaller Connective.greater (t.run cs).degree)) ∧
    ∀ (t : SymbolTable Exact) (cs : List (SymbolTable.Change Exact)),
      let rule := (ofText text true).parse (some t.vocabulary)
      rule.status = .done → rule.lexemes = sentence (.single (.group first k rest)) c →
        t.Valid → (∀ change ∈ cs, change.Valid) →
        ∃ q : Text × Text → ℚ,
          (∀ x ∈ tree.clauses, clauseDegree (t.run cs) x.1 x.2 = .ok (.number (q x))) ∧
          rule.relevance (t.run cs) = .ok (.number (tree.value min max q)) := by
  intro tree
  have hrelevance : ∀ {α : Type} [Scalar α] (t : SymbolTable α)
      (cs : List (SymbolTable.Change α)),
      ((ofText text true).parse (some t.vocabulary)).status = .done →
      (ofText text true).lexemes = sentence (.single (.group first k rest)) c →
        (∀ x ∈ tree.clauses, (t.run cs).Defines x) ∧
        ((ofText text true).parse (some t.vocabulary)).relevance (t.run cs) =
          .ok (tree.value Connective.smaller Connective.greater (t.run cs).degree) := by
    intro α _ t cs h hws
    obtain ⟨hpremise, hdef⟩ := premise_of_safe hsafe h hws
    exact ⟨hdef cs, relevance_of_formula h rfl hpremise (hdef cs)⟩
  constructor
  · intro α _ t cs rule h hws
    obtain ⟨hdef, hrel⟩ := hrelevance t cs h hws
    exact ⟨(premise_of_safe hsafe h hws).1, fun x hx => clauseDegree_eq (hdef x hx), hrel⟩
  · intro t cs rule h hws ht hcs
    obtain ⟨hdef, hrel⟩ := hrelevance t cs h hws
    have hnumber : ∀ x ∈ tree.clauses,
        (t.run cs).degree x = .number ((t.run cs).degree x).toRat := by
      intro x hx
      obtain ⟨q, hq, -⟩ := clause_within (SymbolTable.valid_run cs ht hcs) (hdef x hx)
      rw [hq]
      rfl
    refine ⟨fun x => ((t.run cs).degree x).toRat, fun x hx => ?_, ?_⟩
    · rw [clauseDegree_eq (hdef x hx), hnumber x hx]
    · rw [hrel, value_number tree hnumber]

/-- A group with a group at each end. -/
theorem relevance_of_groups_at_both_ends :
    let f : Membership Exact := ⟨.number 0, .number 1, .number 1, .number 2, .number 1⟩
    let t : SymbolTable Exact := ⟨[⟨"x", .input, [("a", f), ("b", f)], .number 1⟩], true⟩
    let rule := (ofText "if((x is a or x is b)and(x is b or x is a))then x is a" true).parse
      (some t.vocabulary)
    let tree : Formula := .join (.join (.clause "x" "a") .or (.clause "x" "b")) .and
      (.join (.clause "x" "b") .or (.clause "x" "a"))
    rule.status = .done ∧ rule.premise = tree.postfixForm ∧
      ∃ q : Text × Text → ℚ, (∀ x ∈ tree.clauses, clauseDegree t x.1 x.2 = .ok (.number (q x))) ∧
        rule.relevance t = .ok (.number (tree.value min max q)) := by
  intro f t
  have ht : t.Valid := by
    have hf : f.Valid := Membership.valid_iff.mpr ⟨⟨rfl, rfl, rfl⟩, rfl, rfl⟩
    have hterms : ∀ x ∈ [(("a" : Text), f), ("b", f)], x.2.Valid :=
      List.forall_mem_cons.mpr ⟨hf, List.forall_mem_singleton.mpr hf⟩
    exact List.forall_mem_singleton.mpr hterms
  have hread : (ofText "if((x is a or x is b)and(x is b or x is a))then x is a" true).scan.2 =
        none ∧
      (ofText "if((x is a or x is b)and(x is b or x is a))then x is a" true).lexemes =
        sentence (.single (.group
          (.group (.clause "x" "a") .or (.single (.clause "x" "b"))) .and
          (.single (.group (.clause "x" "b") .or (.single (.clause "x" "a"))))))
          (.single (.clause "x" "a")) :=
    reads_of_plain (by decide +kernel) (by decide +kernel) (by decide +kernel)
  have hdone : ((ofText "if((x is a or x is b)and(x is b or x is a))then x is a" true).parse
      (some t.vocabulary)).status = .done :=
    status_parse_done_iff.mpr ⟨hread.1, _, _, hread.2, by decide +kernel⟩
  have hsafe : (Phrase.group (.group (.clause "x" "a") .or (.single (.clause "x" "b"))) .and
      (.single (.group (.clause "x" "b") .or (.single (.clause "x" "a"))))).Safe :=
    ⟨⟨trivial, trivial⟩, trivial, trivial⟩
  have hws := (lexemes_parse (some t.vocabulary) _).trans hread.2
  obtain ⟨hscalar, hexact⟩ := relevance_of_safe_group
    "if((x is a or x is b)and(x is b or x is a))then x is a" hsafe
  exact ⟨hdone, (hscalar t [] hdone hws).1, hexact t [] hdone hws ht (by simp)⟩

end FuzzyInference.Rule
