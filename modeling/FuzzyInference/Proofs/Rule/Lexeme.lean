import FuzzyInference.Rule.Lexer
import Mathlib.Tactic.SplitIfs

/-!
# Lexemes of rules

The token of a name does not hold the name: it has to be asked of the lexer behind the token, which
knows the newest names only. A *lexeme* is a token together with its name.

* `Lexeme`, `Lexer.lexemes`: what a text is made of, up to its end or the first lexical error;
* `Spells names items ws`: the tokens `items`, each with the lexer behind it, are those of the
  lexemes `ws`, and each lexer holds the names among the lexemes so far on top of `names`;
  `Spells.cut`, `Spells.of_append`: such tokens can be cut anywhere;
* `spells_tokens`: the tokens of a text spell its lexemes;
* `lexemes_finish`: without a lexical error the end stands behind the last lexeme, and only there.
-/

namespace FuzzyInference.Rule

/-- A name, or a token that stands for itself. -/
inductive Lexeme where
  | name (x : Text)
  | mark (t : Token)
  deriving Repr, DecidableEq

namespace Lexeme

def token : Lexeme → Token
  | name _ => .ident
  | mark t => t

/-- The lexeme of a token that the given lexer stands behind. -/
def ofItem : Token × Lexer → Lexeme
  | (.ident, l) => name (l.identifier?.getD .empty)
  | (t, _) => mark t

theorem token_ofItem (i : Token × Lexer) : (ofItem i).token = i.1 := by
  obtain ⟨t, l⟩ := i
  cases t <;> rfl

theorem ofItem_of_ne {t : Token} (ht : t ≠ .ident) (l : Lexer) : ofItem (t, l) = mark t := by
  cases t <;> first | rfl | exact absurd rfl ht

end Lexeme

/-- The lexemes of a text, up to its end or the first lexical error. -/
def Lexer.lexemes (l : Lexer) : List Lexeme := l.tokens.1.map Lexeme.ofItem

theorem map_token_lexemes (l : Lexer) : l.lexemes.map Lexeme.token = l.tokens.1.map (·.1) := by
  unfold Lexer.lexemes
  rw [List.map_map]
  exact List.map_congr_left fun i _ => Lexeme.token_ofItem i

/-- The tokens `items` are those of the lexemes `ws`, and the lexer behind each of them holds
the names among the lexemes so far, newest first, and then `names`. -/
inductive Spells : List Text → List (Token × Lexer) → List Lexeme → Prop where
  | nil {names : List Text} : Spells names [] []
  | name {names : List Text} {l : Lexer} {items : List (Token × Lexer)} {ws : List Lexeme}
      (x : Text) (hl : l.names = x :: names) (h : Spells (x :: names) items ws) :
      Spells names ((.ident, l) :: items) (.name x :: ws)
  | mark {names : List Text} {t : Token} {l : Lexer} {items : List (Token × Lexer)}
      {ws : List Lexeme} (ht : t ≠ .ident) (hl : l.names = names) (h : Spells names items ws) :
      Spells names ((t, l) :: items) (.mark t :: ws)

namespace Spells

variable {names : List Text} {items : List (Token × Lexer)} {ws : List Lexeme}

theorem of_name {x : Text} (h : Spells names items (.name x :: ws)) :
    ∃ l items', items = (.ident, l) :: items' ∧ l.names = x :: names ∧
      Spells (x :: names) items' ws := by
  cases h with
  | name x hl h => exact ⟨_, _, rfl, hl, h⟩

theorem of_mark {t : Token} (h : Spells names items (.mark t :: ws)) :
    ∃ l items', items = (t, l) :: items' ∧ l.names = names ∧ Spells names items' ws := by
  cases h with
  | mark ht hl h => exact ⟨_, _, rfl, hl, h⟩

theorem of_cons {w : Lexeme} (h : Spells names items (w :: ws)) :
    ∃ l items', items = (w.token, l) :: items' ∧ Spells l.names items' ws := by
  cases h with
  | name x hl h => exact ⟨_, _, rfl, hl ▸ h⟩
  | mark ht hl h => exact ⟨_, _, rfl, hl ▸ h⟩

theorem of_append {ws' : List Lexeme} : ∀ {ws : List Lexeme} {names : List Text}
    {items : List (Token × Lexer)}, Spells names items (ws ++ ws') →
      ∃ items₁ names' items₂, items = items₁ ++ items₂ ∧ Spells names items₁ ws ∧
        Spells names' items₂ ws'
  | [], names, items, h => ⟨[], names, items, rfl, .nil, h⟩
  | .name x :: ws, names, items, h => by
    obtain ⟨l, items, rfl, hl, h⟩ := h.of_name
    obtain ⟨items₁, names', items₂, rfl, h₁, h₂⟩ := of_append h
    exact ⟨_, names', items₂, rfl, .name x hl h₁, h₂⟩
  | .mark t :: ws, names, items, h => by
    have ht : t ≠ .ident := by
      cases h with
      | mark ht _ _ => exact ht
    obtain ⟨l, items, rfl, hl, h⟩ := h.of_mark
    obtain ⟨items₁, names', items₂, rfl, h₁, h₂⟩ := of_append h
    exact ⟨_, names', items₂, rfl, .mark ht hl h₁, h₂⟩

/-- Spelled tokens can be cut anywhere. -/
theorem cut {items' : List (Token × Lexer)} : ∀ {items : List (Token × Lexer)} {names : List Text}
    {ws : List Lexeme}, Spells names (items ++ items') ws →
      ∃ ws₁ ws₂, ws = ws₁ ++ ws₂ ∧ Spells names items ws₁
  | [], _, ws, _ => ⟨[], ws, rfl, .nil⟩
  | i :: items, _, _, h => by
    cases h with
    | name x hl h =>
      obtain ⟨ws₁, ws₂, rfl, h₁⟩ := cut h
      exact ⟨_, ws₂, rfl, .name x hl h₁⟩
    | mark ht hl h =>
      obtain ⟨ws₁, ws₂, rfl, h₁⟩ := cut h
      exact ⟨_, ws₂, rfl, .mark ht hl h₁⟩

/-- Behind a name the lexer holds one. -/
theorem names_ne_nil (h : Spells names items ws) : ∀ i ∈ items, i.1 = .ident → i.2.names ≠ [] := by
  induction h with
  | nil => exact fun i hi => by cases hi
  | name x hl h ih =>
    refine List.forall_mem_cons.mpr ⟨fun _ => ?_, ih⟩
    rw [hl]
    exact List.cons_ne_nil _ _
  | mark ht hl h ih => exact List.forall_mem_cons.mpr ⟨fun h => absurd h ht, ih⟩

theorem map_token (h : Spells names items ws) : ws.map Lexeme.token = items.map (·.1) := by
  induction h with
  | nil => rfl
  | name x hl h ih => rw [List.map_cons, List.map_cons, ih]; rfl
  | mark ht hl h ih => rw [List.map_cons, List.map_cons, ih]; rfl

theorem length_eq (h : Spells names items ws) : items.length = ws.length := by
  induction h with
  | nil => rfl
  | name x hl h ih => simp [ih]
  | mark ht hl h ih => simp [ih]

/-- No mark stands for a name. -/
theorem ne_ident (h : Spells names items ws) : ∀ w ∈ ws, w ≠ .mark .ident := by
  induction h with
  | nil => simp
  | name x hl h ih => simpa using ih
  | mark ht hl h ih => simpa [ht] using ih

end Spells

/-! ### The lexer -/

theorem ofWord?_cases {w : Text} {t : Token} (h : Token.ofWord? w = some t) :
    t ≠ .ident ∧ t ≠ .finish := by
  have hkeywords : ∀ k ∈ Token.keywords, k.2 ≠ .ident ∧ k.2 ≠ .finish := by decide
  obtain ⟨l₁, l₂, hl, -⟩ := List.lookup_eq_some_iff.mp h
  exact hkeywords (Text.lowercase w, t) (by rw [hl]; simp)

theorem word_cases (l : Lexer) : l.word.2.phase = l.phase ∧
    ((l.word.1 = .ident ∧ ∃ x, l.word.2.names = x :: l.names) ∨
      (l.word.1 ≠ .finish ∧ l.word.1 ≠ .ident ∧ l.word.2.names = l.names)) := by
  unfold Lexer.word
  dsimp only
  split
  · next t hw =>
    obtain ⟨h1, h2⟩ := ofWord?_cases hw
    exact ⟨rfl, Or.inr ⟨h2, h1, rfl⟩⟩
  · exact ⟨rfl, Or.inl ⟨rfl, _, rfl⟩⟩

/-- **What one step of the lexer can do:** end the text, find a name, or find another token. -/
theorem next_cases {l l' : Lexer} {t : Token} (h : l.next = (.ok t, l')) :
    (t = .finish ∧ l'.phase = .finish ∧ l'.names = l.names) ∨
    (t = .ident ∧ l'.phase = .scanning ∧ ∃ x, l'.names = x :: l.names) ∨
    (t ≠ .finish ∧ t ≠ .ident ∧ l'.phase = .scanning ∧ l'.names = l.names) := by
  obtain ⟨phase, total, rest, names⟩ := l
  cases phase with
  | starting =>
    cases h
    exact Or.inr (Or.inr ⟨by simp, by simp, rfl, rfl⟩)
  | finish =>
    cases h
    exact Or.inl ⟨rfl, rfl, rfl⟩
  | scanning =>
    simp only [Lexer.next] at h
    split at h
    · cases h
      exact Or.inl ⟨rfl, rfl, rfl⟩
    · split_ifs at h
      · cases h
        exact Or.inr (Or.inr ⟨by simp, by simp, rfl, rfl⟩)
      · cases h
        exact Or.inr (Or.inr ⟨by simp, by simp, rfl, rfl⟩)
      · cases h
        exact Or.inl ⟨rfl, rfl, rfl⟩
      · cases h
        obtain ⟨hp, ⟨ht, hx⟩ | ⟨hf, ht, hn⟩⟩ :=
          word_cases ⟨.scanning, total, rest.dropWhile (· == ' '), names⟩
        · exact Or.inr (Or.inl ⟨ht, hp, hx⟩)
        · exact Or.inr (Or.inr ⟨hf, ht, hp, hn⟩)
      · cases h

theorem tokens_of_not_hasMore {l : Lexer} (h : ¬ l.hasMore = true) : l.tokens = ([], none) := by
  rw [Lexer.tokens, dif_neg h]

theorem tokens_of_error {l l' : Lexer} {e : Error} (more : l.hasMore = true)
    (h : l.next = (.error e, l')) : l.tokens = ([], some e) := by
  rw [Lexer.tokens, dif_pos more]
  split <;> simp_all

theorem tokens_of_ok {l l' : Lexer} {t : Token} (more : l.hasMore = true)
    (h : l.next = (.ok t, l')) : l.tokens = ((t, l') :: l'.tokens.1, l'.tokens.2) := by
  rw [Lexer.tokens, dif_pos more]
  split <;> simp_all

/-- **The tokens of a text spell its lexemes.** -/
theorem spells_tokens (l : Lexer) : Spells l.names l.tokens.1 l.lexemes := by
  induction l using Lexer.tokens.induct with
  | case1 l more e l' h =>
    unfold Lexer.lexemes
    rw [tokens_of_error more h]
    exact .nil
  | case2 l more t l' h _ _ _ _ ih =>
    unfold Lexer.lexemes
    rw [tokens_of_ok more h]
    rcases next_cases h with ⟨rfl, -, hn⟩ | ⟨rfl, -, x, hn⟩ | ⟨-, ht, -, hn⟩
    · exact .mark (by simp) hn (hn ▸ ih)
    · have hx : Lexeme.ofItem (.ident, l') = .name x := by
        simp [Lexeme.ofItem, Lexer.identifier?, hn]
      rw [List.map_cons, hx]
      exact .name x hn (hn ▸ ih)
    · rw [List.map_cons, Lexeme.ofItem_of_ne ht]
      exact .mark ht hn (hn ▸ ih)
  | case3 l h =>
    unfold Lexer.lexemes
    rw [tokens_of_not_hasMore h]
    exact .nil

/-- **Without a lexical error the end stands behind the last lexeme, and only there.** -/
theorem lexemes_finish (l : Lexer) (more : l.hasMore = true) (h : l.tokens.2 = none) :
    ∃ ws, l.lexemes = ws ++ [.mark .finish] ∧ .mark .finish ∉ ws := by
  induction l using Lexer.tokens.induct with
  | case1 l more e l' hn =>
    rw [tokens_of_error more hn] at h
    cases h
  | case2 l more t l' hn _ _ _ _ ih =>
    unfold Lexer.lexemes
    rw [tokens_of_ok more hn] at h ⊢
    have scanning : l'.phase = .scanning → l'.hasMore = true := fun hp => by
      simp [Lexer.hasMore, hp]
    rcases next_cases hn with ⟨rfl, hp, -⟩ | ⟨rfl, hp, -⟩ | ⟨hf, ht, hp, -⟩
    · have hl : l'.tokens = ([], none) := tokens_of_not_hasMore (by simp [Lexer.hasMore, hp])
      exact ⟨[], by rw [hl]; rfl, by simp⟩
    · obtain ⟨ws, hws, hnot⟩ := ih (scanning hp) h
      refine ⟨Lexeme.ofItem (.ident, l') :: ws, ?_, by simp [Lexeme.ofItem, hnot]⟩
      rw [List.map_cons, List.cons_append, ← hws, Lexer.lexemes]
    · obtain ⟨ws, hws, hnot⟩ := ih (scanning hp) h
      rw [List.map_cons, Lexeme.ofItem_of_ne ht]
      refine ⟨.mark t :: ws, ?_, by simp [hnot, Ne.symm hf]⟩
      rw [List.cons_append, ← hws, Lexer.lexemes]
  | case3 l hm => exact absurd more hm

end FuzzyInference.Rule
