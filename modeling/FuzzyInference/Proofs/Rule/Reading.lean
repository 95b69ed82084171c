import FuzzyInference.Proofs.Rule.Grammar
import FuzzyInference.Rule.Reading
import Mathlib.Tactic.Set

/-!
# Reading a sentence

The reader keeps one row of held connectives for all groups: a group that closes writes all of
them, those of the groups around it too. So what a phrase writes depends on what is held before it,
and what is held behind it has to be handed on (`Phrase.emit`).

* `Moves`, `error_of_step`: what one token can do, and why it is rejected;
* `run_append`, `tokens_of_run`, `cut_of_run`: reading one part behind another, the tokens that are
  noted, and where a reading stops;
* `Passes v r items r' items' u`: reading `items` from `r` goes on as reading `items'` from `r'`,
  or stops at the undefined name `u` if there is one;
* `passes_phrase`: a phrase takes the reader to `Reading.after`, unless a clause of it holds an
  undefined name (`unknown?`): then reading stops at the first one;
* `passes_sentence`: the same for a whole rule.
-/

namespace FuzzyInference.Rule

namespace Phrase

/-- What is written while a phrase is read with `held` held back, and what is held back then. -/
def emit {n : Nonterminal} : Phrase n → List Connective → List Entry × List Connective
  | clause x a, held => ([.name x, .name a, .is], held)
  | group first c rest, held =>
    let (es, held) := first.emit held
    let (fs, held) := rest.emit (c :: held)
    (es ++ fs ++ held.map .connective, [])
  | single o, held => o.emit held
  | join o c rest, held =>
    let (es, held) := o.emit held
    let (fs, held) := rest.emit (c :: held)
    (es ++ fs, held)

/-- Nothing is held behind an operand that stands outside all groups. -/
theorem emit_nil (o : Phrase .operand) : (o.emit []).2 = [] := by
  cases o <;> rfl

/-- The postfix form of a row outside all groups, where connectives are dropped. -/
def postfixForm {n : Nonterminal} (p : Phrase n) : List Entry :=
  p.operands.flatMap fun o => (o.emit []).1

end Phrase

namespace LooseRow

/-- The operands of a loose row. -/
def operands : LooseRow → List (Phrase .operand)
  | single o => [o]
  | join o _ rest => o :: rest.operands

/-- The postfix form of a loose row. -/
def postfixForm (c : LooseRow) : List Entry := c.operands.flatMap fun o => (o.emit []).1

end LooseRow

/-- The name of a clause that is not defined: its variable, or else its term. -/
def unknown? (v : Option Vocabulary) (x : Text × Text) : Option Text :=
  if v.all (·.hasVariable x.1) then if v.all (·.hasTerm x.1 x.2) then none else some x.2
  else some x.1

theorem unknown?_none (x : Text × Text) : unknown? none x = none := rfl

/-- Whether the error is one of the order of tokens. -/
def Error.isSyntax : Error → Bool
  | .expected _ => true
  | .connectiveExpected => true
  | .connectiveOrThenExpected => true
  | _ => false

/-- A row is read inside a group and behind a connective of it, an operand anywhere. -/
def Nonterminal.Fits : Nonterminal → List Bool → Prop
  | .operand, _ => True
  | .row, groups => ∃ outer, groups = true :: outer

namespace Reading

/-- The reader behind a phrase. -/
def after {n : Nonterminal} (r : Reading) (p : Phrase n) : Reading :=
  { r.write (p.emit r.held).1 with
    held := (p.emit r.held).2
    tokens := r.tokens ++ p.lexemes.map Lexeme.token
    expected := .joint }

/-- The reader behind a premise and `then`. -/
def afterPremise (r : Reading) (p : Phrase .row) : Reading :=
  { r with
    side := .conclusion
    premise := r.premise ++ p.postfixForm
    tokens := r.tokens ++ p.lexemes.map Lexeme.token ++ [.thenWord]
    expected := .operand }

/-- The reader behind a conclusion and the end. -/
def afterConclusion (r : Reading) (c : LooseRow) : Reading :=
  { r with
    conclusion := r.conclusion ++ c.postfixForm
    tokens := r.tokens ++ c.lexemes.map Lexeme.token ++ [.finish]
    expected := .nothing }

/-- The reader behind a rule. -/
def ofSentence (p : Phrase .row) (c : LooseRow) : Reading :=
  ⟨.nothing, .conclusion, [], [], p.postfixForm, c.postfixForm, (sentence p c).map Lexeme.token⟩

@[simp] theorem write_groups (r : Reading) (es : List Entry) : (r.write es).groups = r.groups := by
  obtain ⟨e, side, g, hd, p, c, ts⟩ := r
  cases side <;> rfl

@[simp] theorem write_side (r : Reading) (es : List Entry) : (r.write es).side = r.side := by
  obtain ⟨e, side, g, hd, p, c, ts⟩ := r
  cases side <;> rfl

@[simp] theorem write_tokens (r : Reading) (es : List Entry) : (r.write es).tokens = r.tokens := by
  obtain ⟨e, side, g, hd, p, c, ts⟩ := r
  cases side <;> rfl

theorem after_groups {n : Nonterminal} (r : Reading) (p : Phrase n) :
    (r.after p).groups = r.groups :=
  write_groups r _

theorem after_side {n : Nonterminal} (r : Reading) (p : Phrase n) : (r.after p).side = r.side :=
  write_side r _

/-! ### One token -/

/-- **What one token can do**, if it is accepted; `l` is the lexer behind it. -/
inductive Moves (v : Option Vocabulary) (l : Lexer) : Reading → Token → Reading → Prop where
  | start {r : Reading} (hr : r.expected = .start) : Moves v l r .start (r.accept .start .ifWord)
  | ifWord {r : Reading} (hr : r.expected = .ifWord) :
      Moves v l r .ifWord (r.accept .ifWord .operand)
  | leftPar {r : Reading} (hr : r.expected = .operand) :
      Moves v l r .leftPar (({ r with groups := false :: r.groups }).accept .leftPar .operand)
  | name {r : Reading} {x : Text} (hr : r.expected = .operand) (hx : l.identifier? = some x)
      (hv : v.all (·.hasVariable x) = true) :
      Moves v l r .ident ((r.write [.name x]).accept .ident .isWord)
  | isWord {r : Reading} (hr : r.expected = .isWord) :
      Moves v l r .isWord (r.accept .isWord .term)
  | term {r : Reading} {x a : Text} (hr : r.expected = .term) (hx : l.lastIdentifier? = some x)
      (ha : l.identifier? = some a) (hv : v.all (·.hasTerm x a) = true) :
      Moves v l r .ident ((r.write [.name a, .is]).accept .ident .joint)
  | connective {r : Reading} {joined : Bool} {outer : List Bool} (c : Connective)
      (hr : r.expected = .joint) (hg : r.groups = joined :: outer) :
      Moves v l r (.connective c)
        (({ r with held := c :: r.held, groups := true :: outer }).accept (.connective c) .operand)
  | rightPar {r : Reading} {outer : List Bool} (hr : r.expected = .joint)
      (hg : r.groups = true :: outer) :
      Moves v l r .rightPar (({ r.release with groups := outer }).accept .rightPar .joint)
  | premiseJoint {r : Reading} (c : Connective) (hr : r.expected = .joint) (hg : r.groups = [])
      (hs : r.side = .premise) :
      Moves v l r (.connective c) (r.accept (.connective c) .operand)
  | thenWord {r : Reading} (hr : r.expected = .joint) (hg : r.groups = [])
      (hs : r.side = .premise) :
      Moves v l r .thenWord (({ r with side := .conclusion }).accept .thenWord .operand)
  | conclusionJoint {r : Reading} {t : Token} (hr : r.expected = .joint) (hg : r.groups = [])
      (hs : r.side = .conclusion) (ht : t ≠ .finish) : Moves v l r t (r.accept t .operand)
  | finish {r : Reading} (hr : r.expected = .joint) (hg : r.groups = [])
      (hs : r.side = .conclusion) : Moves v l r .finish (r.accept .finish .nothing)

section
variable {v : Option Vocabulary} {r r' : Reading} {t : Token} {l : Lexer}
  {items : List (Token × Lexer)}

theorem step_of_moves (h : Moves v l r t r') : r.step v t l = .ok r' := by
  unfold step
  cases h with
  | start hr => rw [hr]; rfl
  | ifWord hr => rw [hr]; rfl
  | leftPar hr => rw [hr]
  | name hr hx hv => rw [hr, hx]; exact if_pos hv
  | isWord hr => rw [hr]; rfl
  | term hr hx ha hv => rw [hr, hx, ha]; exact if_pos hv
  | connective c hr hg => rw [hr, hg]; rfl
  | rightPar hr hg => rw [hr, hg]; rfl
  | premiseJoint c hr hg hs => simp only [hr, hg, outerStep, hs]
  | thenWord hr hg hs => simp only [hr, hg, outerStep, hs]
  | conclusionJoint hr hg hs ht =>
    rw [hr, hg]
    unfold outerStep
    rw [hs]
    cases t <;> first | rfl | exact absurd rfl ht
  | finish hr hg hs => simp only [hr, hg, outerStep, hs]

theorem moves_of_step (h : r.step v t l = .ok r') : Moves v l r t r' := by
  unfold step at h
  split at h
  · next hr =>
    split_ifs at h with ht
    cases h
    subst ht
    exact .start hr
  · next hr =>
    split_ifs at h with ht
    cases h
    subst ht
    exact .ifWord hr
  · next hr =>
    split at h
    · cases h
      exact .leftPar hr
    · unfold variableStep at h
      split at h
      · cases h
      · next hx =>
        split_ifs at h with hv
        cases h
        exact .name hr hx hv
    · cases h
  · next hr =>
    split_ifs at h with ht
    cases h
    subst ht
    exact .isWord hr
  · next hr =>
    split_ifs at h with ht
    subst ht
    unfold termStep at h
    split at h
    · next ha hx =>
      split_ifs at h with hv
      cases h
      exact .term hr hx ha hv
    · cases h
  · next hr =>
    split at h
    · next joined outer hg =>
      unfold groupStep at h
      split at h
      · cases h
        exact .connective _ hr hg
      · split_ifs at h with hj
        cases h
        subst hj
        exact .rightPar hr hg
      · cases h
    · next hg =>
      unfold outerStep at h
      split at h
      · next hs =>
        cases h
        exact .premiseJoint _ hr hg hs
      · next hs =>
        cases h
        exact .thenWord hr hg hs
      · cases h
      · next hs =>
        cases h
        exact .finish hr hg hs
      · next hs ht =>
        cases h
        exact .conclusionJoint hr hg hs ht
  · cases h

/-- **Why one token is rejected:** it may not stand here, or it is a name that is not defined, or no
name has been found behind it. -/
theorem error_of_step {e : Error} (h : r.step v t l = .error e) :
    e.isSyntax = true ∨ (∃ x, e = .undefined x) ∨ e = .nameMissing ∧ t = .ident ∧ l.names = [] := by
  have hname : l.identifier? = none → l.names = [] := List.head?_eq_none_iff.mp
  have hbefore : l.lastIdentifier? = none → l.names = [] := fun hnone => by
    simpa using List.getLast?_eq_none_iff.mp hnone
  unfold step at h
  split at h
  · split_ifs at h
    cases h
    exact Or.inl rfl
  · split_ifs at h
    cases h
    exact Or.inl rfl
  · split at h
    · cases h
    · unfold variableStep at h
      split at h
      · next hx =>
        cases h
        exact Or.inr (Or.inr ⟨rfl, rfl, hname hx⟩)
      · split_ifs at h
        cases h
        exact Or.inr (Or.inl ⟨_, rfl⟩)
    · cases h
      exact Or.inl rfl
  · split_ifs at h
    cases h
    exact Or.inl rfl
  · split_ifs at h with ht
    · unfold termStep at h
      split at h
      · split_ifs at h
        cases h
        exact Or.inr (Or.inl ⟨_, rfl⟩)
      · next hnone =>
        cases h
        refine Or.inr (Or.inr ⟨rfl, ht, ?_⟩)
        cases hx : l.lastIdentifier? with
        | none => exact hbefore hx
        | some x =>
          cases ha : l.identifier? with
          | none => exact hname ha
          | some a => exact absurd hx (hnone a x ha)
    · cases h
      exact Or.inl rfl
  · split at h
    · unfold groupStep at h
      split at h
      · cases h
      · split_ifs at h
        cases h
        exact Or.inl rfl
      · cases h
        left
        split_ifs <;> rfl
    · unfold outerStep at h
      split at h
      · cases h
      · cases h
      · cases h
        exact Or.inl rfl
      · cases h
      · cases h
  · cases h
    exact Or.inl rfl

theorem step_undefined_variable {x : Text} (hr : r.expected = .operand)
    (hx : l.identifier? = some x) (hv : ¬ v.all (·.hasVariable x) = true) :
    r.step v .ident l = .error (.undefined x) := by
  unfold step
  rw [hr, hx]
  exact if_neg hv

theorem step_undefined_term {x a : Text} (hr : r.expected = .term)
    (hx : l.lastIdentifier? = some x) (ha : l.identifier? = some a)
    (hv : ¬ v.all (·.hasTerm x a) = true) : r.step v .ident l = .error (.undefined a) := by
  unfold step
  rw [hr, hx, ha]
  exact if_neg hv

/-- The lexer knows no name yet. -/
theorem step_missing_variable (hr : r.expected = .operand) (hx : l.identifier? = none) :
    r.step v .ident l = .error .nameMissing := by
  unfold step
  rw [hr, hx]
  rfl

/-- The lexer knows fewer than two names. -/
theorem step_missing_term (hr : r.expected = .term)
    (h : l.identifier? = none ∨ l.lastIdentifier? = none) :
    r.step v .ident l = .error .nameMissing := by
  unfold step
  rw [hr]
  show termStep v r l.lastIdentifier? l.identifier? = _
  rcases h with h | h
  · rw [h]
    rfl
  · rw [h]
    cases l.identifier? <;> rfl

theorem run_of_moves (h : Moves v l r t r') : r.run v ((t, l) :: items) = r'.run v items := by
  rw [run, step_of_moves h]

theorem run_of_error {e : Error} (h : r.step v t l = .error e) :
    r.run v ((t, l) :: items) = (r, some e) := by
  rw [run, h]

end

/-- Reading that ends without error begins with a token that is accepted. -/
theorem moves_of_run {v : Option Vocabulary} {t : Token} {l : Lexer}
    {items : List (Token × Lexer)} {r r' : Reading} (h : r.run v ((t, l) :: items) = (r', none)) :
    ∃ r₁, Moves v l r t r₁ ∧ r₁.run v items = (r', none) := by
  cases hs : r.step v t l with
  | error e =>
    rw [run_of_error hs] at h
    cases h
  | ok r₁ =>
    rw [run_of_moves (moves_of_step hs)] at h
    exact ⟨r₁, moves_of_step hs, h⟩

theorem run_append {v : Option Vocabulary} {r' : Reading} {ys : List (Token × Lexer)} :
    ∀ {xs : List (Token × Lexer)} {r : Reading}, r.run v xs = (r', none) →
      r.run v (xs ++ ys) = r'.run v ys
  | [], r, h => by
    cases h
    rfl
  | (t, l) :: xs, r, h => by
    obtain ⟨r₁, move, h⟩ := moves_of_run h
    rw [List.cons_append, run_of_moves move]
    exact run_append h

/-- Reading that ends without error can be cut anywhere. -/
theorem run_append_ok {v : Option Vocabulary} {r' : Reading} {ys : List (Token × Lexer)} :
    ∀ {xs : List (Token × Lexer)} {r : Reading}, r.run v (xs ++ ys) = (r', none) →
      ∃ r₁, r.run v xs = (r₁, none) ∧ r₁.run v ys = (r', none)
  | [], r, h => ⟨r, rfl, h⟩
  | (t, l) :: xs, r, h => by
    obtain ⟨r₂, move, h⟩ := moves_of_run h
    obtain ⟨r₁, h₁, h₂⟩ := run_append_ok h
    exact ⟨r₁, by rw [run_of_moves move]; exact h₁, h₂⟩

/-- A token that is accepted is noted. -/
theorem tokens_of_moves {v : Option Vocabulary} {r r' : Reading} {t : Token} {l : Lexer}
    (h : Moves v l r t r') : r'.tokens = r.tokens ++ [t] := by
  cases h with
  | name => exact congrArg (· ++ [Token.ident]) (write_tokens r _)
  | term => exact congrArg (· ++ [Token.ident]) (write_tokens r _)
  | rightPar => exact congrArg (· ++ [Token.rightPar]) (write_tokens r _)
  | _ => rfl

/-- Reading that ends without error notes all tokens. -/
theorem tokens_of_run {v : Option Vocabulary} {r' : Reading} : ∀ {items : List (Token × Lexer)}
    {r : Reading}, r.run v items = (r', none) → r'.tokens = r.tokens ++ items.map (·.1)
  | [], r, h => by
    cases h
    exact (List.append_nil _).symm
  | (t, l) :: items, r, h => by
    obtain ⟨r₁, move, h⟩ := moves_of_run h
    rw [tokens_of_run h, tokens_of_moves move, List.append_assoc]
    rfl

/-- Reading that ends with an error ends without one before the token that is rejected. -/
theorem cut_of_run {v : Option Vocabulary} {r' : Reading} {e : Error} :
    ∀ {items : List (Token × Lexer)} {r : Reading}, r.run v items = (r', some e) →
      ∃ before t l behind, items = before ++ (t, l) :: behind ∧ r.run v before = (r', none) ∧
        r'.step v t l = .error e
  | [], r, h => by cases h
  | (t, l) :: items, r, h => by
    cases hs : r.step v t l with
    | error e' =>
      rw [run_of_error hs] at h
      cases h
      exact ⟨[], t, l, items, rfl, rfl, hs⟩
    | ok r₁ =>
      have move := moves_of_step hs
      rw [run_of_moves move] at h
      obtain ⟨before, t', l', behind, rfl, hrun, he⟩ := cut_of_run h
      exact ⟨(t, l) :: before, t', l', behind, rfl, (run_of_moves move).trans hrun, he⟩

/-- Reading `items` from `r` goes on as reading `items'` from `r'`; if there is an undefined name
`u` on the way, it stops there. -/
def Passes (v : Option Vocabulary) (r : Reading) (items : List (Token × Lexer)) (r' : Reading)
    (items' : List (Token × Lexer)) : Option Text → Prop
  | none => r.run v items = r'.run v items'
  | some u => (r.run v items).2 = some (.undefined u)

section
variable {v : Option Vocabulary} {r r₁ r₂ : Reading} {items items₁ items₂ : List (Token × Lexer)}

theorem passes_of_moves {t : Token} {l : Lexer} (h : Moves v l r t r₁) :
    Passes v r ((t, l) :: items) r₁ items none :=
  run_of_moves h

theorem Passes.trans {u u' : Option Text} (h : Passes v r items r₁ items₁ u)
    (h' : Passes v r₁ items₁ r₂ items₂ u') : Passes v r items r₂ items₂ (u.or u') := by
  cases u with
  | none =>
    rw [Option.none_or]
    cases u' with
    | none => exact Eq.trans h h'
    | some u' => exact (congrArg Prod.snd h).trans h'
  | some u => exact h

end

/-! ### Phrases -/

variable {v : Option Vocabulary}

theorem passes_clause {r : Reading} {x a : Text} {names : List Text}
    {items : List (Token × Lexer)} {ws : List Lexeme} (hr : r.expected = .operand)
    (h : Spells names items ((Phrase.clause x a).lexemes ++ ws)) :
    ∃ names' items', Spells names' items' ws ∧
      Passes v r items (r.after (.clause x a)) items' (unknown? v (x, a)) := by
  obtain ⟨l₁, items, rfl, hl₁, h⟩ := h.of_name
  obtain ⟨l₂, items, rfl, -, h⟩ := h.of_mark
  obtain ⟨l₃, items, rfl, hl₃, h⟩ := h.of_name
  refine ⟨_, items, h, ?_⟩
  set r₁ := (r.write [.name x]).accept .ident .isWord
  set r₂ := r₁.accept .isWord .term
  have hx₁ : l₁.identifier? = some x := by simp [Lexer.identifier?, hl₁]
  have hx₃ : l₃.lastIdentifier? = some x := by simp [Lexer.lastIdentifier?, hl₃]
  have ha₃ : l₃.identifier? = some a := by simp [Lexer.identifier?, hl₃]
  have move₂ : Moves v l₂ r₁ .isWord r₂ := .isWord rfl
  simp only [unknown?]
  by_cases hx : v.all (·.hasVariable x) = true
  · have move₁ : Moves v l₁ r .ident r₁ := .name hr hx₁ hx
    rw [if_pos hx]
    by_cases ha : v.all (·.hasTerm x a) = true
    · have move₃ : Moves v l₃ r₂ .ident ((r₂.write [.name a, .is]).accept .ident .joint) :=
        .term rfl hx₃ ha₃ ha
      have hafter : r.after (.clause x a) = (r₂.write [.name a, .is]).accept .ident .joint := by
        obtain ⟨e, side, g, hd, p, c, ts⟩ := r
        cases side <;>
          simp [r₁, r₂, after, Phrase.emit, Phrase.lexemes, Lexeme.token, write, accept]
      rw [if_pos ha, hafter]
      exact ((passes_of_moves move₁).trans (passes_of_moves move₂)).trans (passes_of_moves move₃)
    · rw [if_neg ha]
      unfold Passes
      rw [run_of_moves move₁, run_of_moves move₂,
        run_of_error (step_undefined_term rfl hx₃ ha₃ ha)]
  · rw [if_neg hx]
    unfold Passes
    rw [run_of_error (step_undefined_variable hr hx₁ hx)]

/-- The reader behind a group is the one that has read the group part by part. -/
theorem after_group (r : Reading) (first : Phrase .operand) (c : Connective) (rest : Phrase .row) :
    let r₁ := ({ r with groups := false :: r.groups }).accept .leftPar .operand
    let r₂ := ({ r₁.after first with
      held := c :: (r₁.after first).held
      groups := true :: r.groups }).accept (.connective c) .operand
    ({ (r₂.after rest).release with groups := r.groups }).accept .rightPar .joint =
      r.after (.group first c rest) := by
  obtain ⟨e, side, g, hd, p, q, ts⟩ := r
  cases side <;>
    simp [after, accept, release, write, Phrase.emit, Phrase.lexemes, Lexeme.token]

/-- The reader behind a row is the one that has read the row part by part. -/
theorem after_join (r : Reading) (o : Phrase .operand) (c : Connective) (rest : Phrase .row) :
    ((({ r.after o with held := c :: (r.after o).held }).accept (.connective c) .operand).after
      rest) = r.after (.join o c rest) := by
  obtain ⟨e, side, g, hd, p, q, ts⟩ := r
  cases side <;> simp [after, accept, write, Phrase.emit, Phrase.lexemes, Lexeme.token]

/-- **Reading a phrase.** -/
theorem passes_phrase {n : Nonterminal} (p : Phrase n) :
    ∀ {r : Reading} {names : List Text} {items : List (Token × Lexer)} {ws : List Lexeme},
      r.expected = .operand → n.Fits r.groups →
      Spells names items (p.lexemes ++ ws) →
      ∃ names' items', Spells names' items' ws ∧
        Passes v r items (r.after p) items' (p.clauses.findSome? (unknown? v)) := by
  induction p with
  | clause x a =>
    intro r names items ws hr _ h
    obtain ⟨names', items', h, hp⟩ := passes_clause (v := v) hr h
    refine ⟨names', items', h, ?_⟩
    simp only [Phrase.clauses, List.findSome?_singleton]
    exact hp
  | group first c rest ih₁ ih₂ =>
    intro r names items ws hr _ h
    simp only [Phrase.lexemes, List.cons_append, List.append_assoc, List.nil_append] at h
    obtain ⟨l₁, items, rfl, -, h⟩ := h.of_mark
    set r₁ := ({ r with groups := false :: r.groups }).accept .leftPar .operand
    obtain ⟨names₁, items₁, h, hp₁⟩ := ih₁ (r := r₁) rfl trivial h
    obtain ⟨l₂, items₁, rfl, -, h⟩ := h.of_mark
    set r₂ := ({ r₁.after first with
      held := c :: (r₁.after first).held
      groups := true :: r.groups }).accept (.connective c) .operand
    obtain ⟨names₂, items₂, h, hp₂⟩ := ih₂ (r := r₂) rfl ⟨_, rfl⟩ h
    obtain ⟨l₃, items₂, rfl, -, h⟩ := h.of_mark
    refine ⟨names₂, items₂, h, ?_⟩
    have move₁ : Moves v l₁ r .leftPar r₁ := .leftPar hr
    have move₂ : Moves v l₂ (r₁.after first) (.connective c) r₂ :=
      .connective c rfl (after_groups r₁ first)
    have move₃ : Moves v l₃ (r₂.after rest) .rightPar (r.after (.group first c rest)) := by
      rw [← after_group]
      exact .rightPar rfl (after_groups r₂ rest)
    have hp := (((passes_of_moves move₁).trans hp₁).trans (passes_of_moves move₂)).trans
      (hp₂.trans (passes_of_moves move₃))
    simpa [Phrase.clauses, List.findSome?_append] using hp
  | single o ih =>
    intro r names items ws hr _ h
    exact ih hr trivial h
  | join o c rest ih₁ ih₂ =>
    intro r names items ws hr hg h
    obtain ⟨outer, hg⟩ := hg
    simp only [Phrase.lexemes, List.append_assoc, List.cons_append] at h
    obtain ⟨names₁, items₁, h, hp₁⟩ := ih₁ hr trivial h
    obtain ⟨l, items₁, rfl, -, h⟩ := h.of_mark
    have hg₁ : (r.after o).groups = true :: outer := (after_groups r o).trans hg
    set r₁ := ({ r.after o with held := c :: (r.after o).held }).accept (.connective c) .operand
    obtain ⟨names₂, items₂, h, hp₂⟩ := ih₂ (r := r₁) rfl ⟨outer, hg₁⟩ h
    refine ⟨names₂, items₂, h, ?_⟩
    have move₁ : Moves v l (r.after o) (.connective c) r₁ := by
      have hm := Moves.connective (v := v) (l := l) c rfl hg₁
      rwa [← hg₁] at hm
    have hp := (hp₁.trans (passes_of_moves move₁)).trans hp₂
    rw [after_join] at hp
    simpa [Phrase.clauses, List.findSome?_append] using hp

/-! ### Rules -/

theorem passes_premise : ∀ (p : Phrase .row) {r : Reading} {names : List Text}
    {items : List (Token × Lexer)} {ws : List Lexeme}, r.expected = .operand →
      r.side = .premise → r.groups = [] → r.held = [] →
      Spells names items (p.lexemes ++ .mark .thenWord :: ws) →
      ∃ names' items', Spells names' items' ws ∧
        Passes v r items (r.afterPremise p) items' (p.clauses.findSome? (unknown? v))
  | .single o, r, names, items, ws, hr, hs, hg, hh, h => by
    obtain ⟨names₁, items₁, h, hp₁⟩ := passes_phrase (v := v) o hr trivial h
    obtain ⟨l, items₁, rfl, -, h⟩ := h.of_mark
    refine ⟨names₁, items₁, h, ?_⟩
    have move₁ := Moves.thenWord (v := v) (l := l) rfl ((after_groups r o).trans hg)
      ((after_side r o).trans hs)
    have hafter : ({ r.after o with side := .conclusion }).accept .thenWord .operand =
        r.afterPremise (.single o) := by
      obtain ⟨e, side, g, hd, ps, q, ts⟩ := r
      subst hs hg hh
      simp [after, afterPremise, write, accept, Phrase.postfixForm, Phrase.operands,
        Phrase.lexemes, Phrase.emit_nil]
    rw [hafter] at move₁
    have hp := hp₁.trans (passes_of_moves move₁)
    rwa [Option.or_none] at hp
  | .join o c rest, r, names, items, ws, hr, hs, hg, hh, h => by
    simp only [Phrase.lexemes, List.append_assoc, List.cons_append] at h
    obtain ⟨names₁, items₁, h, hp₁⟩ := passes_phrase (v := v) o hr trivial h
    obtain ⟨l, items₁, rfl, -, h⟩ := h.of_mark
    have hg₁ : (r.after o).groups = [] := (after_groups r o).trans hg
    have hs₁ : (r.after o).side = .premise := (after_side r o).trans hs
    have hh₁ : (r.after o).held = [] := by
      unfold after
      rw [hh]
      exact o.emit_nil
    set r₁ := (r.after o).accept (.connective c) .operand
    obtain ⟨names₂, items₂, h, hp₂⟩ := passes_premise rest (r := r₁) rfl hs₁ hg₁ hh₁ h
    refine ⟨names₂, items₂, h, ?_⟩
    have move₁ : Moves v l (r.after o) (.connective c) r₁ := .premiseJoint c rfl hg₁ hs₁
    have hafter : r₁.afterPremise rest = r.afterPremise (.join o c rest) := by
      obtain ⟨e, side, g, hd, ps, q, ts⟩ := r
      subst hs hg hh
      simp [r₁, after, afterPremise, write, accept, Phrase.postfixForm, Phrase.operands,
        Phrase.lexemes, Lexeme.token, Phrase.emit_nil]
    have hp := (hp₁.trans (passes_of_moves move₁)).trans hp₂
    rw [hafter] at hp
    simpa [Phrase.clauses, List.findSome?_append] using hp

theorem passes_conclusion : ∀ (c : LooseRow) {r : Reading} {names : List Text}
    {items : List (Token × Lexer)}, r.expected = .operand → r.side = .conclusion →
      r.groups = [] → r.held = [] → .mark .finish ∉ c.lexemes →
      Spells names items (c.lexemes ++ [.mark .finish]) →
        Passes v r items (r.afterConclusion c) [] (c.clauses.findSome? (unknown? v))
  | .single o, r, names, items, hr, hs, hg, hh, hf, h => by
    obtain ⟨names₁, items₁, h, hp₁⟩ := passes_phrase (v := v) o hr trivial h
    obtain ⟨l, items₁, rfl, -, h⟩ := h.of_mark
    cases h
    have move₁ := Moves.finish (v := v) (l := l) rfl ((after_groups r o).trans hg)
      ((after_side r o).trans hs)
    have hafter : (r.after o).accept .finish .nothing = r.afterConclusion (.single o) := by
      obtain ⟨e, side, g, hd, ps, q, ts⟩ := r
      subst hs hg hh
      simp [after, afterConclusion, write, accept, LooseRow.postfixForm, LooseRow.operands,
        LooseRow.lexemes, Phrase.emit_nil]
    rw [hafter] at move₁
    have hp := hp₁.trans (passes_of_moves move₁)
    rwa [Option.or_none] at hp
  | .join o w rest, r, names, items, hr, hs, hg, hh, hf, h => by
    simp only [LooseRow.lexemes, List.append_assoc, List.cons_append] at h
    obtain ⟨hfw, hfr⟩ : w ≠ .mark .finish ∧ .mark .finish ∉ rest.lexemes := by
      simp only [LooseRow.lexemes, List.mem_append, List.mem_cons, not_or] at hf
      exact ⟨Ne.symm hf.2.1, hf.2.2⟩
    obtain ⟨names₁, items₁, h, hp₁⟩ := passes_phrase (v := v) o hr trivial h
    obtain ⟨l, items₁, rfl, h₁⟩ := h.of_cons
    have hg₁ : (r.after o).groups = [] := (after_groups r o).trans hg
    have hs₁ : (r.after o).side = .conclusion := (after_side r o).trans hs
    have hh₁ : (r.after o).held = [] := by
      unfold after
      rw [hh]
      exact o.emit_nil
    set r₁ := (r.after o).accept w.token .operand
    have hp₂ := passes_conclusion rest (r := r₁) rfl hs₁ hg₁ hh₁ hfr h₁
    have move₁ : Moves v l (r.after o) w.token r₁ :=
      .conclusionJoint rfl hg₁ hs₁ fun hw => hfw (eq_mark hw (by simp))
    have hafter : r₁.afterConclusion rest = r.afterConclusion (.join o w rest) := by
      obtain ⟨e, side, g, hd, ps, q, ts⟩ := r
      subst hs hg hh
      simp [r₁, after, afterConclusion, write, accept, LooseRow.postfixForm, LooseRow.operands,
        LooseRow.lexemes, Phrase.emit_nil]
    have hp := (hp₁.trans (passes_of_moves move₁)).trans hp₂
    rw [hafter] at hp
    simpa [LooseRow.clauses, List.findSome?_append] using hp

/-- **Reading a rule.** -/
theorem passes_sentence {p : Phrase .row} {c : LooseRow} {items : List (Token × Lexer)}
    (hf : .mark .finish ∉ c.lexemes) (h : Spells [] items (sentence p c)) :
    Passes v init items (ofSentence p c) []
      ((p.clauses ++ c.clauses).findSome? (unknown? v)) := by
  obtain ⟨l₁, items, rfl, -, h⟩ := h.of_mark
  obtain ⟨l₂, items, rfl, -, h⟩ := h.of_mark
  set r₁ := init.accept .start .ifWord
  set r₂ := r₁.accept .ifWord .operand
  obtain ⟨names₁, items₁, h, hp₁⟩ := passes_premise (v := v) p (r := r₂) rfl rfl rfl rfl h
  have hp₂ := passes_conclusion (v := v) c (r := r₂.afterPremise p) rfl rfl rfl rfl hf h
  have move₁ : Moves v l₁ init .start r₁ := .start rfl
  have move₂ : Moves v l₂ r₁ .ifWord r₂ := .ifWord rfl
  have hafter : (r₂.afterPremise p).afterConclusion c = ofSentence p c := by
    simp [r₁, r₂, afterPremise, afterConclusion, ofSentence, init, accept, sentence, Lexeme.token]
  have hp := ((passes_of_moves move₁).trans (passes_of_moves move₂)).trans (hp₁.trans hp₂)
  rw [hafter] at hp
  rw [List.findSome?_append]
  exact hp

end Reading

end FuzzyInference.Rule
