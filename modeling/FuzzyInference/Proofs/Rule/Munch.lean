import FuzzyInference.Proofs.Rule.Lexeme
import FuzzyInference.Proofs.Text.Lowercase
import Mathlib.Data.List.TakeWhile

/-!
# Longest words

How a text in lower case divides into lexemes, said without the lexer: parentheses stand for
themselves, a word begins with a letter and reaches as far as letters and digits do, and spaces are
passed over. The text is divided up to its end, or up to the first character that begins nothing of
these.

* `Lexeme.ofWord`, `Lexeme.name?`: the lexeme of a word, and the name that a lexeme is;
  `ofWord_cases`: it is a keyword or a name;
* `Munch w ls rest`: the text `w` divides into the lexemes `ls` up to `rest`;
* `exists_munch`: every text divides;
* `Munch.begins_head`: what is left begins no lexeme; `Munch.exists_read`: what is read;
* `Munch.token_ne`: no lexeme is an end or a start.
-/

namespace FuzzyInference.Rule

/-! ### Words -/

namespace Lexeme

/-- The lexeme of a word in lower case: the mark of a keyword, or the name that the word is. -/
def ofWord (cs : List CodePoint) : Lexeme :=
  (Token.keywords.lookup (Text.ofList cs)).elim (name (Text.ofList cs)) mark

/-- The name that a lexeme is. -/
def name? : Lexeme → Option Text
  | name x => some x
  | mark _ => none

end Lexeme

namespace Lexer

/-- Whether a lexeme, or the space before one, begins with the character. -/
def begins (c : CodePoint) : Bool := isLetter c || c == ' ' || c == '(' || c == ')'

/-- Whether the character may stand in a rule. -/
def isRuleChar (c : CodePoint) : Bool := isWordChar c || c == ' ' || c == '(' || c == ')'

theorem isWordChar_of_isLetter {c : CodePoint} (h : isLetter c = true) : isWordChar c = true := by
  unfold isWordChar
  rw [h, Bool.true_or]

end Lexer

open Lexer (begins isLetter isWordChar isRuleChar)

theorem isPlain_of_isWordChar {c : CodePoint} (h : isWordChar c = true) : Text.isPlain c = true := by
  cases c with
  | half _ => cases h
  | char c =>
    have hbounds : 'a' ≤ c ∧ c ≤ 'z' ∨ '0' ≤ c ∧ c ≤ '9' := by
      simpa [isWordChar, isLetter, CodePoint.is] using h
    have hnumbers : 0x61 ≤ c.toNat ∧ c.toNat ≤ 0x7a ∨ 0x30 ≤ c.toNat ∧ c.toNat ≤ 0x39 := hbounds
    simp only [Text.isPlain, CodePoint.is, Bool.or_eq_true, Bool.and_eq_true, Nat.blt_eq]
    omega

/-- The lexeme of a word: a keyword, or the name that the word is. -/
theorem ofWord_cases (cs : List CodePoint) :
    (∃ t, (Text.ofList cs, t) ∈ Token.keywords ∧ Lexeme.ofWord cs = .mark t) ∨
      (∀ k ∈ Token.keywords, k.1 ≠ Text.ofList cs) ∧
        Lexeme.ofWord cs = .name (Text.ofList cs) := by
  unfold Lexeme.ofWord
  cases hk : Token.keywords.lookup (Text.ofList cs) with
  | none =>
    refine Or.inr ⟨fun k hmem => Ne.symm ?_, rfl⟩
    exact bne_iff_ne.mp (List.lookup_eq_none_iff.mp hk k hmem)
  | some t =>
    obtain ⟨l₁, l₂, hl, -⟩ := List.lookup_eq_some_iff.mp hk
    exact Or.inl ⟨t, by rw [hl]; simp, rfl⟩

/-- A word of small letters and digits is in lower case. -/
theorem ofWord?_of_isWordChar {cs : List CodePoint} (h : ∀ c ∈ cs, isWordChar c = true) :
    Token.ofWord? (Text.ofList cs) = Token.keywords.lookup (Text.ofList cs) := by
  have hsettled : ∀ c ∈ (Text.ofList cs).toList, Text.Settled c := fun c hc =>
    Text.settled_of_isPlain (isPlain_of_isWordChar (h c hc))
  unfold Token.ofWord?
  rw [Text.lowercase_of_settled hsettled]

/-! ### Division -/

/-- The text divides into lexemes, each word being as long as possible, up to its end or the first
character that begins no lexeme. -/
inductive Munch : List CodePoint → List Lexeme → List CodePoint → Prop where
  | stop {rest : List CodePoint} (h : ∀ c ∈ rest.head?, begins c = false) : Munch rest [] rest
  | space {w rest : List CodePoint} {ls : List Lexeme} (h : Munch w ls rest) :
      Munch (' ' :: w) ls rest
  | leftPar {w rest : List CodePoint} {ls : List Lexeme} (h : Munch w ls rest) :
      Munch ('(' :: w) (.mark .leftPar :: ls) rest
  | rightPar {w rest : List CodePoint} {ls : List Lexeme} (h : Munch w ls rest) :
      Munch (')' :: w) (.mark .rightPar :: ls) rest
  | word {c : CodePoint} {cs w rest : List CodePoint} {ls : List Lexeme} (hc : isLetter c = true)
      (hcs : ∀ d ∈ cs, isWordChar d = true) (hlong : ∀ d ∈ w.head?, isWordChar d = false)
      (h : Munch w ls rest) : Munch (c :: (cs ++ w)) (.ofWord (c :: cs) :: ls) rest

/-- What stands behind the longest run of a class begins with none of it. -/
theorem head?_dropWhile {p : CodePoint → Bool} (w : List CodePoint) :
    ∀ d ∈ (w.dropWhile p).head?, p d = false := by
  intro d hd
  rw [← List.find?_not_eq_head?_dropWhile] at hd
  have hnot : (!p d) = true := List.find?_some (p := fun x => !p x) hd
  exact (Bool.not_eq_true' _).mp hnot

/-- A run of a class, followed by what begins with none of it, is its longest run. -/
theorem longest_run {p : CodePoint → Bool} {cs w : List CodePoint} (hcs : ∀ d ∈ cs, p d = true)
    (hlong : ∀ d ∈ w.head?, p d = false) :
    (cs ++ w).takeWhile p = cs ∧ (cs ++ w).dropWhile p = w := by
  rw [List.takeWhile_append_of_pos hcs, List.dropWhile_append_of_pos hcs]
  cases w with
  | nil => exact ⟨List.append_nil cs, rfl⟩
  | cons d w =>
    have hd : ¬ p d = true := by
      rw [hlong d rfl]
      exact Bool.false_ne_true
    rw [List.takeWhile_cons_of_neg hd, List.dropWhile_cons_of_neg hd]
    exact ⟨List.append_nil cs, rfl⟩

/-- **Every text divides.** -/
theorem exists_munch (w : List CodePoint) : ∃ ls rest, Munch w ls rest := by
  match w with
  | [] => exact ⟨[], [], .stop fun _ h => by cases h⟩
  | c :: w =>
    by_cases hletter : isLetter c = true
    · have hle := Lexer.length_dropWhile_le isWordChar w
      obtain ⟨ls, rest, h⟩ := exists_munch (w.dropWhile isWordChar)
      have hword := Munch.word hletter
        (fun d (hd : d ∈ w.takeWhile isWordChar) => List.mem_takeWhile_imp hd) (head?_dropWhile w) h
      rw [List.takeWhile_append_dropWhile] at hword
      exact ⟨_, rest, hword⟩
    · obtain ⟨ls, rest, h⟩ := exists_munch w
      by_cases hspace : c = ' '
      · rw [hspace]
        exact ⟨ls, rest, h.space⟩
      · by_cases hleft : c = '('
        · rw [hleft]
          exact ⟨_, rest, h.leftPar⟩
        · by_cases hright : c = ')'
          · rw [hright]
            exact ⟨_, rest, h.rightPar⟩
          · refine ⟨[], c :: w, .stop fun d hd => ?_⟩
            cases hd
            simp [begins, hletter, hspace, hleft, hright]
termination_by w.length

namespace Munch

variable {w rest : List CodePoint} {ls : List Lexeme}

/-- What is left begins no lexeme. -/
theorem begins_head (h : Munch w ls rest) : ∀ c ∈ rest.head?, begins c = false := by
  induction h with
  | stop h => exact h
  | space _ ih => exact ih
  | leftPar _ ih => exact ih
  | rightPar _ ih => exact ih
  | word _ _ _ _ ih => exact ih

/-- **What is read** are characters that may stand in a rule. -/
theorem exists_read (h : Munch w ls rest) :
    ∃ read, w = read ++ rest ∧ ∀ c ∈ read, isRuleChar c = true := by
  induction h with
  | stop _ => exact ⟨[], rfl, fun c hc => by cases hc⟩
  | space _ ih =>
    obtain ⟨read, rfl, hread⟩ := ih
    exact ⟨' ' :: read, rfl, List.forall_mem_cons.mpr ⟨rfl, hread⟩⟩
  | leftPar _ ih =>
    obtain ⟨read, rfl, hread⟩ := ih
    exact ⟨'(' :: read, rfl, List.forall_mem_cons.mpr ⟨rfl, hread⟩⟩
  | rightPar _ ih =>
    obtain ⟨read, rfl, hread⟩ := ih
    exact ⟨')' :: read, rfl, List.forall_mem_cons.mpr ⟨rfl, hread⟩⟩
  | @word c cs _ _ _ hc hcs _ _ ih =>
    obtain ⟨read, rfl, hread⟩ := ih
    have hrule : ∀ d, isWordChar d = true → isRuleChar d = true := fun d hd => by
      simp [isRuleChar, hd]
    refine ⟨c :: (cs ++ read), by rw [List.cons_append, List.append_assoc], ?_⟩
    refine List.forall_mem_cons.mpr ⟨hrule c (Lexer.isWordChar_of_isLetter hc), ?_⟩
    exact List.forall_mem_append.mpr ⟨fun d hd => hrule d (hcs d hd), hread⟩

/-- A token that is no parenthesis, no name and no keyword is not that of a lexeme. -/
theorem token_ne (h : Munch w ls rest) {t : Token} (ht : t ∉ [.leftPar, .rightPar, .ident])
    (hkeywords : ∀ k ∈ Token.keywords, k.2 ≠ t) : ∀ x ∈ ls, x.token ≠ t := by
  have hnot : ∀ u ∈ [Token.leftPar, .rightPar, .ident], u ≠ t := fun u hu hut => ht (hut ▸ hu)
  induction h with
  | stop _ => exact fun x hx => by cases hx
  | space _ ih => exact ih
  | leftPar _ ih => exact List.forall_mem_cons.mpr ⟨hnot _ (by decide), ih⟩
  | rightPar _ ih => exact List.forall_mem_cons.mpr ⟨hnot _ (by decide), ih⟩
  | @word c cs _ _ _ _ _ _ _ ih =>
    refine List.forall_mem_cons.mpr ⟨?_, ih⟩
    obtain ⟨u, hword, hu⟩ | ⟨-, hname⟩ := ofWord_cases (c :: cs)
    · rw [hu]
      exact hkeywords _ hword
    · rw [hname]
      exact hnot .ident (by decide)

/-- No lexeme is an end. -/
theorem token_ne_finish (h : Munch w ls rest) : ∀ x ∈ ls, x.token ≠ .finish :=
  h.token_ne (by decide) (by decide)

/-- No lexeme is a start. -/
theorem token_ne_start (h : Munch w ls rest) : ∀ x ∈ ls, x.token ≠ .start :=
  h.token_ne (by decide) (by decide)

end Munch

end FuzzyInference.Rule
