import FuzzyInference.Proofs.Rule.Lexeme

/-!
# The grammar of rules

An operand is a clause `x is a`, or a group: two or more operands in parentheses, joined by
connectives. A *row* is one operand or several that connectives join; it is what a group holds
behind its first connective, and what stands before `then`. Behind `then` the operands of a *loose
row* may be joined by any token.

* `Derives`, `DerivesLoose`, `IsRule`: the token lists of operands, rows, loose rows and rules;
* `Phrase`, `LooseRow`, `sentence`: the same with names, as trees, and the lexemes that they spell;
* `isRule_iff`: lexemes are those of a sentence exactly if their tokens are those of a rule;
* `Phrase.clauses`, `Phrase.operands`: the clauses of a phrase in the order of the text, and the
  operands outside all groups.
-/

namespace FuzzyInference.Rule

/-- The two kinds of phrases. -/
inductive Nonterminal where
  | operand
  | row
  deriving DecidableEq

/-- The token lists of operands and of rows. -/
inductive Derives : Nonterminal → List Token → Prop where
  | clause : Derives .operand [.ident, .isWord, .ident]
  | group {s ts : List Token} (c : Connective) (hs : Derives .operand s) (ht : Derives .row ts) :
      Derives .operand (.leftPar :: (s ++ .connective c :: (ts ++ [.rightPar])))
  | single {s : List Token} (hs : Derives .operand s) : Derives .row s
  | join {s ts : List Token} (c : Connective) (hs : Derives .operand s) (ht : Derives .row ts) :
      Derives .row (s ++ .connective c :: ts)

/-- The token lists of loose rows. -/
inductive DerivesLoose : List Token → Prop where
  | single {s : List Token} (hs : Derives .operand s) : DerivesLoose s
  | join {s ts : List Token} (t : Token) (hs : Derives .operand s) (ht : DerivesLoose ts) :
      DerivesLoose (s ++ t :: ts)

/-- **The token lists of rules.** -/
def IsRule (ts : List Token) : Prop :=
  ∃ p c, Derives .row p ∧ DerivesLoose c ∧
    ts = .start :: .ifWord :: (p ++ .thenWord :: (c ++ [.finish]))

/-- An operand or a row with its names. -/
inductive Phrase : Nonterminal → Type where
  | clause (x a : Text) : Phrase .operand
  | group (first : Phrase .operand) (c : Connective) (rest : Phrase .row) : Phrase .operand
  | single (o : Phrase .operand) : Phrase .row
  | join (o : Phrase .operand) (c : Connective) (rest : Phrase .row) : Phrase .row

/-- Operands with the lexemes between them. -/
inductive LooseRow where
  | single (o : Phrase .operand)
  | join (o : Phrase .operand) (w : Lexeme) (rest : LooseRow)

namespace Phrase

/-- The lexemes that a phrase spells. -/
def lexemes {n : Nonterminal} : Phrase n → List Lexeme
  | clause x a => [.name x, .mark .isWord, .name a]
  | group first c rest =>
    .mark .leftPar ::
      (first.lexemes ++ .mark (.connective c) :: (rest.lexemes ++ [.mark .rightPar]))
  | single o => o.lexemes
  | join o c rest => o.lexemes ++ .mark (.connective c) :: rest.lexemes

/-- The clauses of a phrase, in the order of the text. -/
def clauses {n : Nonterminal} : Phrase n → List (Text × Text)
  | clause x a => [(x, a)]
  | group first _ rest => first.clauses ++ rest.clauses
  | single o => o.clauses
  | join o _ rest => o.clauses ++ rest.clauses

/-- The operands of a phrase that stand outside all groups. -/
def operands {n : Nonterminal} : Phrase n → List (Phrase .operand)
  | clause x a => [clause x a]
  | group first c rest => [group first c rest]
  | single o => [o]
  | join o _ rest => o :: rest.operands

end Phrase

namespace LooseRow

/-- The lexemes that a loose row spells. -/
def lexemes : LooseRow → List Lexeme
  | single o => o.lexemes
  | join o w rest => o.lexemes ++ w :: rest.lexemes

/-- The clauses of a loose row, in the order of the text. -/
def clauses : LooseRow → List (Text × Text)
  | single o => o.clauses
  | join o _ rest => o.clauses ++ rest.clauses

end LooseRow

/-- The lexemes of a rule with the given premise and conclusion. -/
def sentence (p : Phrase .row) (c : LooseRow) : List Lexeme :=
  .mark .start :: .mark .ifWord :: (p.lexemes ++ .mark .thenWord :: (c.lexemes ++ [.mark .finish]))

/-! ### Trees and token lists -/

theorem Phrase.derives {n : Nonterminal} (p : Phrase n) :
    Derives n (p.lexemes.map Lexeme.token) := by
  induction p with
  | clause x a => exact .clause
  | group first c rest ih₁ ih₂ =>
    simp only [lexemes, List.map_cons, List.map_append, List.map_nil]
    exact .group c ih₁ ih₂
  | single o ih => exact .single ih
  | join o c rest ih₁ ih₂ =>
    simp only [lexemes, List.map_cons, List.map_append]
    exact .join c ih₁ ih₂

theorem LooseRow.derives : ∀ c : LooseRow, DerivesLoose (c.lexemes.map Lexeme.token)
  | .single o => .single o.derives
  | .join o w rest => by
    simp only [lexemes, List.map_append, List.map_cons]
    exact .join w.token o.derives rest.derives

/-- A lexeme whose token is no name is that token. -/
theorem eq_mark {w : Lexeme} {t : Token} (h : w.token = t) (ht : t ≠ .ident) : w = .mark t := by
  cases w with
  | name x => exact absurd h.symm ht
  | mark u => exact congrArg Lexeme.mark h

theorem eq_name {w : Lexeme} (h : w.token = .ident) (hw : w ≠ .mark .ident) : ∃ x, w = .name x := by
  cases w with
  | name x => exact ⟨x, rfl⟩
  | mark u => exact absurd (congrArg Lexeme.mark h) hw

/-- Lexemes with the tokens of a phrase are those of a phrase. -/
theorem Derives.exists_phrase {n : Nonterminal} {ts : List Token} (h : Derives n ts) :
    ∀ ws : List Lexeme, ws.map Lexeme.token = ts → (∀ w ∈ ws, w ≠ .mark .ident) →
      ∃ p : Phrase n, ws = p.lexemes := by
  induction h with
  | clause =>
    intro ws hws hid
    obtain ⟨w₁, ws, rfl, h₁, hws⟩ := List.map_eq_cons_iff.mp hws
    obtain ⟨w₂, ws, rfl, h₂, hws⟩ := List.map_eq_cons_iff.mp hws
    obtain ⟨w₃, ws, rfl, h₃, hws⟩ := List.map_eq_cons_iff.mp hws
    obtain rfl := List.map_eq_nil_iff.mp hws
    obtain ⟨x, rfl⟩ := eq_name h₁ (hid _ (by simp))
    obtain ⟨a, rfl⟩ := eq_name h₃ (hid _ (by simp))
    obtain rfl := eq_mark h₂ (by simp)
    exact ⟨.clause x a, rfl⟩
  | group c hs ht ih₁ ih₂ =>
    intro ws hws hid
    obtain ⟨w₁, ws, rfl, h₁, hws⟩ := List.map_eq_cons_iff.mp hws
    obtain ⟨ws₁, ws, rfl, hws₁, hws⟩ := List.map_eq_append_iff.mp hws
    obtain ⟨w₂, ws, rfl, h₂, hws⟩ := List.map_eq_cons_iff.mp hws
    obtain ⟨ws₂, ws, rfl, hws₂, hws⟩ := List.map_eq_append_iff.mp hws
    obtain ⟨w₃, ws, rfl, h₃, hws⟩ := List.map_eq_cons_iff.mp hws
    obtain rfl := List.map_eq_nil_iff.mp hws
    obtain ⟨first, rfl⟩ := ih₁ ws₁ hws₁ fun w hw => hid w (by simp [hw])
    obtain ⟨rest, rfl⟩ := ih₂ ws₂ hws₂ fun w hw => hid w (by simp [hw])
    obtain rfl := eq_mark h₁ (by simp)
    obtain rfl := eq_mark h₂ (by simp)
    obtain rfl := eq_mark h₃ (by simp)
    exact ⟨.group first c rest, rfl⟩
  | single hs ih =>
    intro ws hws hid
    obtain ⟨o, rfl⟩ := ih ws hws hid
    exact ⟨.single o, rfl⟩
  | join c hs ht ih₁ ih₂ =>
    intro ws hws hid
    obtain ⟨ws₁, ws, rfl, hws₁, hws⟩ := List.map_eq_append_iff.mp hws
    obtain ⟨w₂, ws₂, rfl, h₂, hws₂⟩ := List.map_eq_cons_iff.mp hws
    obtain ⟨o, rfl⟩ := ih₁ ws₁ hws₁ fun w hw => hid w (by simp [hw])
    obtain ⟨rest, rfl⟩ := ih₂ ws₂ hws₂ fun w hw => hid w (by simp [hw])
    obtain rfl := eq_mark h₂ (by simp)
    exact ⟨.join o c rest, rfl⟩

theorem DerivesLoose.exists_looseRow {ts : List Token} (h : DerivesLoose ts) :
    ∀ ws : List Lexeme, ws.map Lexeme.token = ts → (∀ w ∈ ws, w ≠ .mark .ident) →
      ∃ c : LooseRow, ws = c.lexemes := by
  induction h with
  | single hs =>
    intro ws hws hid
    obtain ⟨o, rfl⟩ := hs.exists_phrase ws hws hid
    exact ⟨.single o, rfl⟩
  | join t hs ht ih =>
    intro ws hws hid
    obtain ⟨ws₁, ws, rfl, hws₁, hws⟩ := List.map_eq_append_iff.mp hws
    obtain ⟨w, ws₂, rfl, -, hws₂⟩ := List.map_eq_cons_iff.mp hws
    obtain ⟨o, rfl⟩ := hs.exists_phrase ws₁ hws₁ fun w hw => hid w (by simp [hw])
    obtain ⟨rest, rfl⟩ := ih ws₂ hws₂ fun w hw => hid w (by simp [hw])
    exact ⟨.join o w rest, rfl⟩

/-- The tokens of a sentence are those of a rule. -/
theorem isRule_sentence (p : Phrase .row) (c : LooseRow) :
    IsRule ((sentence p c).map Lexeme.token) := by
  refine ⟨_, _, p.derives, c.derives, ?_⟩
  simp [sentence, Lexeme.token]

/-- **Lexemes are those of a sentence exactly if their tokens are those of a rule.** -/
theorem isRule_iff {ws : List Lexeme} (hid : ∀ w ∈ ws, w ≠ .mark .ident) :
    IsRule (ws.map Lexeme.token) ↔ ∃ p c, ws = sentence p c := by
  constructor
  · rintro ⟨p, c, hp, hc, hws⟩
    obtain ⟨w₁, ws, rfl, h₁, hws⟩ := List.map_eq_cons_iff.mp hws
    obtain ⟨w₂, ws, rfl, h₂, hws⟩ := List.map_eq_cons_iff.mp hws
    obtain ⟨ws₁, ws, rfl, hws₁, hws⟩ := List.map_eq_append_iff.mp hws
    obtain ⟨w₃, ws, rfl, h₃, hws⟩ := List.map_eq_cons_iff.mp hws
    obtain ⟨ws₂, ws, rfl, hws₂, hws⟩ := List.map_eq_append_iff.mp hws
    obtain ⟨w₄, ws, rfl, h₄, hws⟩ := List.map_eq_cons_iff.mp hws
    obtain rfl := List.map_eq_nil_iff.mp hws
    obtain ⟨p, rfl⟩ := hp.exists_phrase ws₁ hws₁ fun w hw => hid w (by simp [hw])
    obtain ⟨c, rfl⟩ := hc.exists_looseRow ws₂ hws₂ fun w hw => hid w (by simp [hw])
    obtain rfl := eq_mark h₁ (by simp)
    obtain rfl := eq_mark h₂ (by simp)
    obtain rfl := eq_mark h₃ (by simp)
    obtain rfl := eq_mark h₄ (by simp)
    exact ⟨p, c, rfl⟩
  · rintro ⟨p, c, rfl⟩
    exact isRule_sentence p c

end FuzzyInference.Rule
