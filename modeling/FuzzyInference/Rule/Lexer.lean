import FuzzyInference.Rule.Error
import FuzzyInference.Text.Blank

/-!
# Lexing rules

A rule is trimmed and put in lower case, and cut into parentheses and words. Only the space U+0020
separates words; the text ends at U+0003 or where its characters end.

* `Lexer`: what is left of a text and the names found so far;
* `Lexer.next`: the next token; at a character that begins none the lexer stays where it is;
* `Lexer.identifier?`, `Lexer.lastIdentifier?`: the newest name and the one before it;
* `Lexer.tokens`: all tokens up to the end of the text or the first error, each with the lexer
  behind it.
-/

namespace FuzzyInference.Rule

/-- How far a lexer has come: before the first token, among the tokens, behind the last one. -/
inductive Phase where
  | starting
  | scanning
  | finish
  deriving Repr, DecidableEq

/-- The phase as it stands in answers. -/
def Phase.name : Phase → String
  | starting => "STARTING"
  | scanning => "SCANNING"
  | finish => "FINISH"

/-- A lexer over a text of `total` characters, with the names found so far, newest first. -/
structure Lexer where
  phase : Phase
  total : Nat
  rest : List CodePoint
  names : List Text
  deriving Repr, DecidableEq

namespace Lexer

/-- A lexer at the start of a text. -/
def ofText (text : Text) : Lexer :=
  let cs := (Text.lowercase (Text.trim text)).toList
  ⟨.starting, cs.length, cs, []⟩

/-- The number of characters looked at so far: those that were read and one more. -/
def index (l : Lexer) : Nat :=
  if l.phase = .starting then 0 else min (l.total - l.rest.length + 1) l.total

def hasMore (l : Lexer) : Bool := l.phase != .finish

/-- The newest name. -/
def identifier? (l : Lexer) : Option Text := l.names.head?

/-- The name before the newest one, or the newest one if it is alone. -/
def lastIdentifier? (l : Lexer) : Option Text := (l.names.take 2).getLast?

def isLetter (c : CodePoint) : Bool := c.is fun c => 'a' ≤ c && c ≤ 'z'

def isWordChar (c : CodePoint) : Bool := isLetter c || c.is fun c => '0' ≤ c && c ≤ '9'

/-- The lexer behind a word, and the token of the word: a keyword, or a name, which is kept. -/
def word (l : Lexer) : Token × Lexer :=
  let w := Text.ofList (l.rest.takeWhile isWordChar)
  let l := { l with rest := l.rest.dropWhile isWordChar }
  match Token.ofWord? w with
  | some t => (t, l)
  | none => (.ident, { l with names := w :: l.names })

/-- The next token and the lexer behind it. -/
def next (l : Lexer) : Except Error Token × Lexer :=
  match l.phase with
  | .starting => (.ok .start, { l with phase := .scanning })
  | .finish => (.ok .finish, l)
  | .scanning =>
    let l := { l with rest := l.rest.dropWhile (· == ' ') }
    match l.rest with
    | [] => (.ok .finish, { l with phase := .finish })
    | c :: more =>
      if c = '(' then (.ok .leftPar, { l with rest := more })
      else if c = ')' then (.ok .rightPar, { l with rest := more })
      else if c = '\x03' then (.ok .finish, { l with phase := .finish })
      else if isLetter c then
        let (t, l) := l.word
        (.ok t, l)
      else (.error (.illegalName l.index), l)

/-- How many tokens may follow at most. -/
def remaining (l : Lexer) : Nat :=
  match l.phase with
  | .starting => l.rest.length + 2
  | .scanning => l.rest.length + 1
  | .finish => 0

theorem length_dropWhile_le (p : CodePoint → Bool) (cs : List CodePoint) :
    (cs.dropWhile p).length ≤ cs.length :=
  (List.dropWhile_suffix p).length_le

/-- Every token but a repeated end brings the lexer nearer to the end. -/
theorem remaining_next_lt {l l' : Lexer} {t : Token} (h : l.next = (.ok t, l'))
    (more : l.hasMore = true) : l'.remaining < l.remaining := by
  obtain ⟨phase, total, rest, names⟩ := l
  cases phase with
  | starting =>
    simp only [next, Prod.mk.injEq] at h
    obtain ⟨-, rfl⟩ := h
    simp [remaining]
  | finish => simp [hasMore] at more
  | scanning =>
    have hle := length_dropWhile_le (· == ' ') rest
    simp only [next] at h
    split at h
    · simp only [Prod.mk.injEq] at h
      obtain ⟨-, rfl⟩ := h
      simp [remaining]
    · rename_i c cs hc
      rw [hc, List.length_cons] at hle
      split at h
      · simp only [Prod.mk.injEq] at h
        obtain ⟨-, rfl⟩ := h
        simp only [remaining]; omega
      · split at h
        · simp only [Prod.mk.injEq] at h
          obtain ⟨-, rfl⟩ := h
          simp only [remaining]; omega
        · split at h
          · simp only [Prod.mk.injEq] at h
            obtain ⟨-, rfl⟩ := h
            simp [remaining]
          · split at h
            · rename_i hl
              have hw : isWordChar c = true := by simp [isWordChar, hl]
              have hd := length_dropWhile_le isWordChar cs
              simp only [word, hc, List.dropWhile_cons_of_pos hw] at h
              split at h <;> simp only [Prod.mk.injEq] at h <;> obtain ⟨-, rfl⟩ := h <;>
                simp only [remaining] <;> omega
            · simp at h

/-- The tokens from here to the end of the text, each with the lexer behind it, and the error that
stops them before, if there is one. -/
def tokens (l : Lexer) : List (Token × Lexer) × Option Error :=
  if more : l.hasMore = true then
    match h : l.next with
    | (.error e, _) => ([], some e)
    | (.ok t, l') =>
      have := remaining_next_lt h more
      let (ts, e) := l'.tokens
      ((t, l') :: ts, e)
  else ([], none)
termination_by l.remaining

end Lexer

end FuzzyInference.Rule
