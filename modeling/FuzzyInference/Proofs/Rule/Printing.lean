import FuzzyInference.Proofs.Pairing
import FuzzyInference.Proofs.Rule.Calls
import FuzzyInference.Proofs.Text.Words

/-!
# Writing lexemes

How lexemes are written, said without the lexer: parentheses as they are, words in any letter case,
with any number of spaces before, between and behind them, but at least one between two words. The
lexer takes such a text apart again into the lexemes that it was written from.

* `CaseOf`: a character of a word in any letter case; `Writes`: how one lexeme is written;
* `Spaced`, `Printed`: lexemes one behind the other, and a text that is written from them;
* `Lexeme.IsPlain`, `exists_printed`: lexemes that can be written, as those of texts can
  (`Munch.isPlain`);
* `munch_of_printed`: trimmed and put in lower case, such a text divides into its lexemes;
* `Lexer.Gives l ls stop`: the lexer gives the tokens of lexemes, and then those of another lexer;
  `Lexer.tokens_ofText`: the tokens of a text that divides;
* `Lexer.scan_of_printed`: **reading what has been written**.
-/

namespace FuzzyInference.Rule

open Lexer (isLetter isWordChar)

/-! ### Letter case -/

/-- A character of a word is written as it is, and a letter also as its capital. The letter k has a
second capital, the sign for kelvin. -/
def CaseOf (c d : CodePoint) : Prop :=
  d = c ∨ isLetter c = true ∧ (d.number + 32 = c.number ∨ c = 'k' ∧ d = '\u212a')

/-- The capitals of a letter. -/
theorem CaseOf.eq_or_capital {c d : CodePoint} (h : CaseOf c d) : d = c ∨
    (∃ n < 26, d = .char (Char.ofNat (0x41 + n)) ∧ c = .char (Char.ofNat (0x61 + n))) ∨
    d = '\u212a' ∧ c = 'k' := by
  obtain rfl | ⟨hletter, hcapital | ⟨rfl, rfl⟩⟩ := h
  · exact Or.inl rfl
  · right; left
    cases c with
    | half _ => cases hletter
    | char c =>
      have hletters : 'a' ≤ c ∧ c ≤ 'z' := by simpa [isLetter, CodePoint.is] using hletter
      have hbounds : 0x61 ≤ c.toNat ∧ c.toNat ≤ 0x7a := hletters
      cases d with
      | half i =>
        simp only [CodePoint.number, CodePoint.firstHalf] at hcapital
        omega
      | char d =>
        simp only [CodePoint.number] at hcapital
        have hd : 0x41 + (c.toNat - 0x61) = d.toNat := by omega
        refine ⟨c.toNat - 0x61, by omega, ?_, ?_⟩
        · rw [hd, Char.ofNat_toNat]
        · rw [Nat.add_sub_cancel' hbounds.1, Char.ofNat_toNat]
  · exact Or.inr (Or.inr ⟨rfl, rfl⟩)

/-- A character of a word, in whatever letter case, is put in lower case. -/
theorem CaseOf.lowers {c d : CodePoint} (h : CaseOf c d) (hc : isWordChar c = true) :
    Text.Lowers d c := by
  have hcapitals : ∀ n < 26, Text.lowerChar (Char.ofNat (0x41 + n)) = Char.ofNat (0x61 + n) ∧
      Char.ofNat (0x41 + n) ≠ '\u0130' ∧ Char.ofNat (0x41 + n) ≠ '\u03a3' := by decide +kernel
  obtain rfl | ⟨n, hn, rfl, rfl⟩ | ⟨rfl, rfl⟩ := h.eq_or_capital
  · exact Text.settled_of_isPlain (isPlain_of_isWordChar hc)
  · obtain ⟨hlower, hdotted, hsigma⟩ := hcapitals n hn
    exact Text.lowers_of_lowerChar hdotted hsigma hlower
  · exact Text.lowers_of_lowerChar (by decide) (by decide) (by decide +kernel)

/-- Nor is it blank. -/
theorem CaseOf.not_blank {c d : CodePoint} (h : CaseOf c d) (hc : isWordChar c = true) :
    d.is Text.isBlank = false := by
  have hwords : ∀ n < 0x7b, 0x30 ≤ n → Text.isBlank (Char.ofNat n) = false := by decide +kernel
  obtain rfl | ⟨n, hn, rfl, -⟩ | ⟨rfl, -⟩ := h.eq_or_capital
  · cases d with
    | half _ => rfl
    | char d =>
      have hbounds : 'a' ≤ d ∧ d ≤ 'z' ∨ '0' ≤ d ∧ d ≤ '9' := by
        simpa [isWordChar, isLetter, CodePoint.is] using hc
      have hnumbers : 0x61 ≤ d.toNat ∧ d.toNat ≤ 0x7a ∨ 0x30 ≤ d.toNat ∧ d.toNat ≤ 0x39 := hbounds
      have hblank := hwords d.toNat (by omega) (by omega)
      rwa [Char.ofNat_toNat] at hblank
  · exact hwords (0x41 + n) (by omega) (by omega)
  · decide +kernel

/-! ### Lexemes -/

/-- Whether the lexeme is a keyword or a name. -/
def Lexeme.isWord : Lexeme → Bool
  | mark .leftPar => false
  | mark .rightPar => false
  | _ => true

/-- How a lexeme is written: a parenthesis as it is; in any letter case, a keyword, or a name, which
is a letter and then letters and digits and no keyword. -/
inductive Writes : Lexeme → List CodePoint → Prop where
  | leftPar : Writes (.mark .leftPar) ['(']
  | rightPar : Writes (.mark .rightPar) [')']
  | keyword {word : Text} {t : Token} {ds : List CodePoint} (hword : (word, t) ∈ Token.keywords)
      (hds : List.Forall₂ CaseOf word.toList ds) : Writes (.mark t) ds
  | name {c : CodePoint} {cs ds : List CodePoint} (hc : isLetter c = true)
      (hcs : ∀ d ∈ cs, isWordChar d = true)
      (hnew : ∀ k ∈ Token.keywords, k.1 ≠ Text.ofList (c :: cs))
      (hds : List.Forall₂ CaseOf (c :: cs) ds) : Writes (.name (Text.ofList (c :: cs))) ds

/-- Lexemes one behind the other with spaces between them, at least one between two words. -/
inductive Spaced : List Lexeme → List CodePoint → Prop where
  | nil : Spaced [] []
  | single {x : Lexeme} {ds : List CodePoint} (hx : Writes x ds) : Spaced [x] ds
  | cons {x y : Lexeme} {ls : List Lexeme} {ds w : List CodePoint} (hx : Writes x ds) (n : ℕ)
      (hn : x.isWord = true → y.isWord = true → 0 < n) (h : Spaced (y :: ls) w) :
      Spaced (x :: y :: ls) (ds ++ (List.replicate n (CodePoint.char ' ') ++ w))

/-- The text is written from the lexemes, with spaces at both ends. -/
def Printed (ls : List Lexeme) (text : Text) : Prop :=
  ∃ (i j : ℕ) (w : List CodePoint), Spaced ls w ∧ text.toList =
    List.replicate i (CodePoint.char ' ') ++ (w ++ List.replicate j (CodePoint.char ' '))

theorem isWord_ofWord (cs : List CodePoint) : (Lexeme.ofWord cs).isWord = true := by
  have hkeywords : ∀ k ∈ Token.keywords, (Lexeme.mark k.2).isWord = true := by decide
  obtain ⟨t, hword, ht⟩ | ⟨-, hname⟩ := ofWord_cases cs
  · rw [ht]
    exact hkeywords _ hword
  · rw [hname]
    rfl

theorem ofWord_ne_ident (cs : List CodePoint) : Lexeme.ofWord cs ≠ .mark .ident := by
  have hkeywords : ∀ k ∈ Token.keywords, k.2 ≠ .ident := by decide
  obtain ⟨t, hword, ht⟩ | ⟨-, hname⟩ := ofWord_cases cs
  · rw [ht]
    exact fun h => hkeywords _ hword (Lexeme.mark.inj h)
  · rw [hname]
    exact fun h => by cases h

theorem ofWord_of_keyword : ∀ k ∈ Token.keywords,
    (∃ c cs, k.1.toList = c :: cs ∧ isLetter c = true ∧ ∀ d ∈ cs, isWordChar d = true) ∧
      Lexeme.ofWord k.1.toList = .mark k.2 := by
  have hletters : ∀ k ∈ Token.keywords, k.1.toList ≠ [] ∧ k.1.toList.all isLetter = true ∧
      Lexeme.ofWord k.1.toList = .mark k.2 := by decide
  intro k hk
  obtain ⟨hne, hall, hmark⟩ := hletters k hk
  obtain ⟨c, cs, hcs⟩ := List.exists_cons_of_ne_nil hne
  rw [hcs, List.all_cons, Bool.and_eq_true] at hall
  exact ⟨⟨c, cs, hcs, hall.1, fun d hd =>
    Lexer.isWordChar_of_isLetter (List.all_eq_true.mp hall.2 d hd)⟩, hmark⟩

/-- A parenthesis, or a word in some letter case. -/
theorem Writes.par_or_word {x : Lexeme} {ds : List CodePoint} (h : Writes x ds) :
    (x = .mark .leftPar ∧ ds = ['('] ∨ x = .mark .rightPar ∧ ds = [')']) ∨
    ∃ c cs, isLetter c = true ∧ (∀ d ∈ cs, isWordChar d = true) ∧ x = .ofWord (c :: cs) ∧
      List.Forall₂ CaseOf (c :: cs) ds := by
  cases h with
  | leftPar => exact Or.inl (Or.inl ⟨rfl, rfl⟩)
  | rightPar => exact Or.inl (Or.inr ⟨rfl, rfl⟩)
  | keyword hword hds =>
    obtain ⟨⟨c, cs, hcs, hc, hchars⟩, hmark⟩ := ofWord_of_keyword _ hword
    dsimp only at hcs hmark
    rw [hcs] at hds hmark
    exact Or.inr ⟨c, cs, hc, hchars, hmark.symm, hds⟩
  | @name c cs ds hc hcs hnew hds =>
    obtain ⟨t, hword, -⟩ | ⟨-, hname⟩ := ofWord_cases (c :: cs)
    · exact absurd rfl (hnew _ hword)
    · exact Or.inr ⟨c, cs, hc, hcs, hname.symm, hds⟩

/-- The lexeme of a word is written as the word. -/
theorem writes_ofWord {c : CodePoint} {cs : List CodePoint} (hc : isLetter c = true)
    (hcs : ∀ d ∈ cs, isWordChar d = true) : Writes (.ofWord (c :: cs)) (c :: cs) := by
  have hsmall : List.Forall₂ CaseOf (c :: cs) (c :: cs) :=
    List.forall₂_same.mpr fun d _ => Or.inl rfl
  obtain ⟨t, hword, ht⟩ | ⟨hnew, hname⟩ := ofWord_cases (c :: cs)
  · rw [ht]
    exact .keyword hword hsmall
  · rw [hname]
    exact .name hc hcs hnew hsmall

/-! ### Plain lexemes -/

/-- The lexeme can be written in characters that lower-casing leaves as they are. -/
def Lexeme.IsPlain (x : Lexeme) : Prop :=
  ∃ ds, Writes x ds ∧ ∀ d ∈ ds, Text.isPlain d = true

/-- **What a text divides into can be written.** -/
theorem Munch.isPlain {w rest : List CodePoint} {ls : List Lexeme} (h : Munch w ls rest) :
    ∀ x ∈ ls, x.IsPlain := by
  induction h with
  | stop _ => exact fun x hx => by cases hx
  | space _ ih => exact ih
  | leftPar _ ih => exact List.forall_mem_cons.mpr ⟨⟨['('], .leftPar, by decide⟩, ih⟩
  | rightPar _ ih => exact List.forall_mem_cons.mpr ⟨⟨[')'], .rightPar, by decide⟩, ih⟩
  | word hc hcs _ _ ih =>
    refine List.forall_mem_cons.mpr ⟨⟨_, writes_ofWord hc hcs, ?_⟩, ih⟩
    exact List.forall_mem_cons.mpr ⟨isPlain_of_isWordChar (Lexer.isWordChar_of_isLetter hc),
      fun d hd => isPlain_of_isWordChar (hcs d hd)⟩

/-- Plain lexemes, one behind the other with a space between each two of them. -/
theorem exists_spaced : ∀ {ls : List Lexeme}, (∀ x ∈ ls, x.IsPlain) →
    ∃ w, Spaced ls w ∧ ∀ c ∈ w, Text.isPlain c = true
  | [], _ => ⟨[], .nil, fun c hc => by cases hc⟩
  | [x], h => by
    obtain ⟨ds, hds, hplain⟩ := h x List.mem_cons_self
    exact ⟨ds, .single hds, hplain⟩
  | x :: y :: ls, h => by
    obtain ⟨⟨ds, hds, hplain⟩, h⟩ := List.forall_mem_cons.mp h
    obtain ⟨w, hw, hplain'⟩ := exists_spaced h
    refine ⟨_, .cons hds 1 (fun _ _ => Nat.one_pos) hw, ?_⟩
    refine List.forall_mem_append.mpr ⟨hplain, List.forall_mem_append.mpr ⟨?_, hplain'⟩⟩
    decide

/-- **Plain lexemes can be written**, as a text in lower case. -/
theorem exists_printed {ls : List Lexeme} (h : ∀ x ∈ ls, x.IsPlain) :
    ∃ text, Printed ls text ∧ Text.lowercase text = text := by
  obtain ⟨w, hw, hplain⟩ := exists_spaced h
  exact ⟨Text.ofList w, ⟨0, 0, w, hw, by simp⟩,
    Text.lowercase_of_settled fun c hc => Text.settled_of_isPlain (hplain c hc)⟩

/-! ### Division -/

theorem munch_spaces {w rest : List CodePoint} {ls : List Lexeme} (h : Munch w ls rest) :
    ∀ n : ℕ, Munch (List.replicate n (CodePoint.char ' ') ++ w) ls rest
  | 0 => h
  | n + 1 => (munch_spaces h n).space

/-- What divides into a parenthesis first does not go on a word. -/
theorem Munch.head_of_not_isWord {w rest : List CodePoint} {y : Lexeme} {ls : List Lexeme}
    (h : Munch w (y :: ls) rest) (hy : y.isWord = false) :
    ∀ d ∈ w.head?, isWordChar d = false := by
  cases h with
  | space => exact fun d hd => by cases hd; rfl
  | leftPar => exact fun d hd => by cases hd; rfl
  | rightPar => exact fun d hd => by cases hd; rfl
  | word => rw [isWord_ofWord] at hy; cases hy

/-- A lexeme, as it is written, in front of a text that divides; behind a word that text must not go
on the word. -/
theorem Writes.munch {x : Lexeme} {ds : List CodePoint} (h : Writes x ds) :
    ∃ cs, List.Forall₂ Text.Lowers ds cs ∧ ∀ {w : List CodePoint} {ls : List Lexeme},
      Munch w ls [] → (x.isWord = true → ∀ d ∈ w.head?, isWordChar d = false) →
        Munch (cs ++ w) (x :: ls) [] := by
  obtain (⟨rfl, rfl⟩ | ⟨rfl, rfl⟩) | ⟨c, cs, hc, hcs, rfl, hds⟩ := h.par_or_word
  · exact ⟨['('], .cons (Text.settled_of_isPlain rfl) .nil, fun h _ => h.leftPar⟩
  · exact ⟨[')'], .cons (Text.settled_of_isPlain rfl) .nil, fun h _ => h.rightPar⟩
  · have hchars : ∀ d ∈ c :: cs, isWordChar d = true :=
      List.forall_mem_cons.mpr ⟨Lexer.isWordChar_of_isLetter hc, hcs⟩
    refine ⟨c :: cs, ?_, fun h hlong => .word hc hcs (hlong (isWord_ofWord _)) h⟩
    have hcases := (List.forall₂_and_left _ _).mpr ⟨hchars, hds⟩
    exact (hcases.imp fun _ _ ⟨hchar, hcase⟩ => hcase.lowers hchar).flip

/-- **What is written divides** into the lexemes that it was written from, once it is in lower
case. -/
theorem munch_of_spaced {ls : List Lexeme} {w : List CodePoint} (h : Spaced ls w) :
    ∃ cs, List.Forall₂ Text.Lowers w cs ∧ Munch cs ls [] := by
  induction h with
  | nil => exact ⟨[], .nil, .stop fun d hd => by cases hd⟩
  | single hx =>
    obtain ⟨cs, hcs, hmunch⟩ := hx.munch
    have hend : Munch ([] : List CodePoint) [] [] := .stop fun d hd => by cases hd
    have h := hmunch hend fun _ d hd => by cases hd
    rw [List.append_nil] at h
    exact ⟨cs, hcs, h⟩
  | @cons x y ls ds w hx n hn _ ih =>
    obtain ⟨cs, hcs, hmunch⟩ := hx.munch
    obtain ⟨us, hus, hrest⟩ := ih
    have hspaces : List.Forall₂ Text.Lowers (List.replicate n (CodePoint.char ' '))
        (List.replicate n (CodePoint.char ' ')) := by
      refine List.forall₂_same.mpr fun d hd => ?_
      rw [List.eq_of_mem_replicate hd]
      exact Text.settled_of_isPlain rfl
    refine ⟨cs ++ (List.replicate n (CodePoint.char ' ') ++ us),
      List.rel_append hcs (List.rel_append hspaces hus),
      hmunch (munch_spaces hrest n) fun hword => ?_⟩
    -- Behind a word stands a space, or a parenthesis if there is none.
    cases n with
    | zero =>
      have hpar : y.isWord = false := Bool.eq_false_iff.mpr fun hy => Nat.lt_irrefl 0 (hn hword hy)
      exact hrest.head_of_not_isWord hpar
    | succ n => exact fun d hd => by cases hd; rfl

/-! ### Trimming -/

theorem Writes.not_blank {x : Lexeme} {ds : List CodePoint} (h : Writes x ds) :
    ds ≠ [] ∧ ∀ d ∈ ds, d.is Text.isBlank = false := by
  obtain (⟨-, rfl⟩ | ⟨-, rfl⟩) | ⟨c, cs, hc, hcs, -, hds⟩ := h.par_or_word
  · exact ⟨List.cons_ne_nil _ _, List.forall_mem_singleton.mpr (by decide)⟩
  · exact ⟨List.cons_ne_nil _ _, List.forall_mem_singleton.mpr (by decide)⟩
  · have hchars : ∀ d ∈ c :: cs, isWordChar d = true :=
      List.forall_mem_cons.mpr ⟨Lexer.isWordChar_of_isLetter hc, hcs⟩
    refine ⟨fun hnil => ?_, fun d hd => ?_⟩
    · rw [hnil] at hds
      cases hds
    · obtain ⟨e, he, hcase⟩ := exists_of_forall₂_right hds d hd
      exact hcase.not_blank (hchars e he)

/-- Nothing is trimmed off lexemes that are written one behind the other. -/
theorem trimWith_of_spaced {ls : List Lexeme} {w : List CodePoint} (h : Spaced ls w) :
    Text.trimWith (·.is Text.isBlank) w = w ∧ (ls ≠ [] → w ≠ []) := by
  induction h with
  | nil => exact ⟨rfl, fun h => absurd rfl h⟩
  | single hx => exact ⟨Text.trimWith_of_forall hx.not_blank.2, fun _ => hx.not_blank.1⟩
  | @cons x y ls ds w hx n _ _ ih =>
    obtain ⟨hne, hblank⟩ := hx.not_blank
    obtain ⟨d, ds, rfl⟩ := List.exists_cons_of_ne_nil hne
    have hd := hblank d List.mem_cons_self
    refine ⟨?_, fun _ => List.cons_ne_nil _ _⟩
    rw [← List.append_assoc, List.cons_append]
    exact Text.trimWith_append hd ih.1 (ih.2 (List.cons_ne_nil _ _))

/-- A text that is written from lexemes, trimmed and put in lower case, divides into them. -/
theorem munch_of_printed {ls : List Lexeme} {text : Text} (h : Printed ls text) :
    Munch (Text.lowercase (Text.trim text)).toList ls [] := by
  obtain ⟨i, j, w, hw, htext⟩ := h
  obtain ⟨cs, hcs, hmunch⟩ := munch_of_spaced hw
  have hspaces : ∀ n : ℕ, ∀ c ∈ List.replicate n (CodePoint.char ' '),
      c.is Text.isBlank = true := by
    intro n c hc
    rw [List.eq_of_mem_replicate hc]
    decide
  have htrim : Text.trim text = Text.ofList w := by
    unfold Text.trim
    rw [htext, Text.trimWith_between (hspaces i) (hspaces j), (trimWith_of_spaced hw).1]
  rw [htrim]
  unfold Text.lowercase
  rwa [Text.toList_ofList, Text.toList_ofList, Text.lowerAfter_of_lowers hcs]

/-! ### The tokens of a text that divides -/

/-- A token with the lexer that has just kept its name is the lexeme. -/
theorem ofItem_token {x : Lexeme} (hx : x ≠ .mark .ident) {l : Lexer} {names : List Text}
    (hl : l.names = x.name?.toList ++ names) : Lexeme.ofItem (x.token, l) = x := by
  cases x with
  | name n =>
    have hn : l.identifier? = some n := by
      unfold Lexer.identifier?
      rw [hl]
      rfl
    show Lexeme.name (l.identifier?.getD .empty) = Lexeme.name n
    rw [hn]
    rfl
  | mark t => exact Lexeme.ofItem_of_ne (fun ht => hx (congrArg Lexeme.mark ht)) l

namespace Lexer

/-- The lexer gives the tokens of the lexemes, and then those of another lexer. -/
def Gives (l : Lexer) (ls : List Lexeme) (stop : Lexer) : Prop :=
  ∃ items, items.map Lexeme.ofItem = ls ∧ l.tokens = (items ++ stop.tokens.1, stop.tokens.2)

/-- What only the next call tells apart gives the same tokens. -/
theorem tokens_of_next_eq {l l' : Lexer} (hmore : l.hasMore = true) (hmore' : l'.hasMore = true)
    (h : l.next = l'.next) : l.tokens = l'.tokens := by
  rcases hl : l'.next with ⟨answer, behind⟩
  rw [hl] at h
  cases answer with
  | error e => rw [tokens_of_error hmore h, tokens_of_error hmore' hl]
  | ok t => rw [tokens_of_ok hmore h, tokens_of_ok hmore' hl]

/-- One more lexeme in front. -/
theorem Gives.cons {l l' stop : Lexer} {ls : List Lexeme} {x : Lexeme} (h : l'.Gives ls stop)
    (hmore : l.hasMore = true) (hx : x ≠ .mark .ident) (hnext : l.next = (.ok x.token, l'))
    (hnames : l'.names = x.name?.toList ++ l.names) : l.Gives (x :: ls) stop := by
  obtain ⟨items, hitems, htokens⟩ := h
  refine ⟨(x.token, l') :: items, ?_, ?_⟩
  · rw [List.map_cons, ofItem_token hx hnames, hitems]
  · rw [tokens_of_ok hmore hnext, htokens, List.cons_append]

/-- **The lexer gives the tokens of the lexemes into which its text divides.** -/
theorem gives_of_munch {w rest : List CodePoint} {ls : List Lexeme} (h : Munch w ls rest)
    (total : ℕ) : ∀ names : List Text, Gives ⟨.scanning, total, w, names⟩ ls
      ⟨.scanning, total, rest, (ls.filterMap Lexeme.name?).reverse ++ names⟩ := by
  induction h with
  | stop _ => exact fun names => ⟨[], rfl, rfl⟩
  | space _ ih =>
    intro names
    obtain ⟨items, hitems, htokens⟩ := ih names
    exact ⟨items, hitems, (tokens_of_next_eq rfl rfl next_space).trans htokens⟩
  | leftPar _ ih => exact fun names => (ih names).cons rfl (by simp) next_leftPar rfl
  | rightPar _ ih => exact fun names => (ih names).cons rfl (by simp) next_rightPar rfl
  | word hc hcs hlong _ ih =>
    intro names
    rw [reverse_names]
    exact (ih _).cons rfl (ofWord_ne_ident _) (next_word hc hcs hlong) rfl

theorem tokens_of_ends {total : ℕ} {rest : List CodePoint} {names : List Text} (h : Ends rest) :
    tokens ⟨.scanning, total, rest, names⟩ =
      ([(.finish, ⟨.finish, total, rest, names⟩)], none) := by
  have hbehind : tokens ⟨.finish, total, rest, names⟩ = ([], none) :=
    tokens_of_not_hasMore Bool.false_ne_true
  rw [tokens_of_ok rfl (next_of_ends h), hbehind]

theorem tokens_of_not_ends {total : ℕ} {rest : List CodePoint} {names : List Text}
    (hrest : ∀ c ∈ rest.head?, begins c = false) (h : ¬ Ends rest) :
    tokens ⟨.scanning, total, rest, names⟩ =
      ([], some (.illegalName (min (total - rest.length + 1) total))) :=
  tokens_of_error rfl (next_of_not_ends hrest h)

/-- **The tokens of a text that divides:** the start, those of its lexemes and, if the text ends
behind them, the end, where the lexer holds their names; otherwise an error stands there. -/
theorem tokens_ofText {text : Text} {rest : List CodePoint} {ls : List Lexeme}
    (h : Munch (Text.lowercase (Text.trim text)).toList ls rest) :
    ∃ l₀ items, items.map Lexeme.ofItem = ls ∧
      (Ends rest → ∃ l, l.names.reverse = ls.filterMap Lexeme.name? ∧
        (ofText text).tokens = ((.start, l₀) :: (items ++ [(.finish, l)]), none)) ∧
      (¬ Ends rest → ∃ k,
        (ofText text).tokens = ((.start, l₀) :: items, some (.illegalName k))) := by
  generalize hw : (Text.lowercase (Text.trim text)).toList = w at h
  have hstart : (ofText text).tokens =
      ((.start, ⟨.scanning, w.length, w, []⟩) :: (tokens ⟨.scanning, w.length, w, []⟩).1,
        (tokens ⟨.scanning, w.length, w, []⟩).2) := by
    refine tokens_of_ok rfl ?_
    rw [← hw]
    rfl
  obtain ⟨items, hitems, htokens⟩ := gives_of_munch h w.length []
  refine ⟨⟨.scanning, w.length, w, []⟩, items, hitems, fun hends => ?_, fun hends => ?_⟩
  · rw [tokens_of_ends hends] at htokens
    refine ⟨_, ?_, hstart.trans (by rw [htokens])⟩
    rw [List.append_nil, List.reverse_reverse]
  · rw [tokens_of_not_ends h.begins_head hends, List.append_nil] at htokens
    exact ⟨_, hstart.trans (by rw [htokens])⟩

/-- The tokens of a text that divides, without the lexers behind them. -/
theorem types_ofText {text : Text} {rest : List CodePoint} {ls : List Lexeme}
    (h : Munch (Text.lowercase (Text.trim text)).toList ls rest) :
    (Ends rest → (ofText text).tokens.1.map (·.1) = .start :: (ls.map Lexeme.token ++ [.finish]) ∧
      (ofText text).tokens.2 = none) ∧
    (¬ Ends rest → (ofText text).tokens.1.map (·.1) = .start :: ls.map Lexeme.token ∧
      ∃ k, (ofText text).tokens.2 = some (.illegalName k)) := by
  obtain ⟨l₀, items, hitems, hend, herror⟩ := tokens_ofText h
  have htypes : items.map (·.1) = ls.map Lexeme.token := by
    rw [← hitems, List.map_map]
    exact List.map_congr_left fun i _ => (Lexeme.token_ofItem i).symm
  refine ⟨fun hends => ?_, fun hends => ?_⟩
  · obtain ⟨l, -, htokens⟩ := hend hends
    rw [htokens, List.map_cons, List.map_append, htypes]
    exact ⟨rfl, rfl⟩
  · obtain ⟨k, htokens⟩ := herror hends
    rw [htokens, List.map_cons, htypes]
    exact ⟨rfl, k, rfl⟩

/-- The lexemes of a text that divides. -/
theorem lexemes_ofText {text : Text} {rest : List CodePoint} {ls : List Lexeme}
    (h : Munch (Text.lowercase (Text.trim text)).toList ls rest) :
    (Ends rest → (ofText text).lexemes = .mark .start :: (ls ++ [.mark .finish])) ∧
    (¬ Ends rest → (ofText text).lexemes = .mark .start :: ls) := by
  obtain ⟨l₀, items, hitems, hend, herror⟩ := tokens_ofText h
  unfold lexemes
  refine ⟨fun hends => ?_, fun hends => ?_⟩
  · obtain ⟨l, -, htokens⟩ := hend hends
    rw [htokens, List.map_cons, List.map_append, hitems]
    rfl
  · obtain ⟨k, htokens⟩ := herror hends
    rw [htokens, List.map_cons, hitems]
    rfl

/-- A text that is written from lexemes ends behind them. -/
theorem ends_nil : Ends [] := fun c hc => by cases hc

/-- **Reading what has been written.** A text that is written from lexemes, in any letter case and
with any spaces that keep its words apart, is read without an error: as the start, the tokens of the
lexemes in order and the end, where the lexer holds the names among them, which are in lower case,
in order. -/
theorem scan_of_printed {ls : List Lexeme} {text : Text} (h : Printed ls text) :
    (ofText text).tokens.1.map (·.1) = .start :: (ls.map Lexeme.token ++ [.finish]) ∧
      (ofText text).tokens.2 = none ∧
      ∃ l, (ofText text).tokens.1.getLast? = some (.finish, l) ∧
        l.names.reverse = ls.filterMap Lexeme.name? := by
  have hmunch := munch_of_printed h
  obtain ⟨htypes, hnone⟩ := (types_ofText hmunch).1 ends_nil
  obtain ⟨l₀, items, -, hend, -⟩ := tokens_ofText hmunch
  obtain ⟨l, hnames, htokens⟩ := hend ends_nil
  refine ⟨htypes, hnone, l, ?_, hnames⟩
  rw [htokens, ← List.cons_append, List.getLast?_concat]

/-- A word that ends at a parenthesis, and capitals. -/
theorem scan_of_short_text :
    Printed [.mark .ifWord, .mark .leftPar, .name "ab", .mark (.connective .or)] " If(aB  OR " ∧
      (ofText " If(aB  OR ").tokens.1.map (·.1) =
        [.start, .ifWord, .leftPar, .ident, .connective .or, .finish] ∧
      ∃ l, (ofText " If(aB  OR ").tokens.1.getLast? = some (.finish, l) ∧
        l.names.reverse = ["ab"] := by
  have hsmall : ∀ c : CodePoint, CaseOf c c := fun c => Or.inl rfl
  have hcapital : ∀ {c d : CodePoint}, isLetter c = true → d.number + 32 = c.number →
      CaseOf c d := fun hc hd => Or.inr ⟨hc, Or.inl hd⟩
  have hif : Writes (.mark .ifWord) ['I', 'f'] :=
    @Writes.keyword "if" _ _ (by decide) (.cons (hcapital rfl rfl) (.cons (hsmall _) .nil))
  have hor : Writes (.mark (.connective .or)) ['O', 'R'] :=
    @Writes.keyword "or" _ _ (by decide)
      (.cons (hcapital rfl rfl) (.cons (hcapital rfl rfl) .nil))
  have hab : Writes (.name "ab") ['a', 'B'] :=
    @Writes.name 'a' ['b'] ['a', 'B'] rfl (List.forall_mem_singleton.mpr rfl) (by decide)
      (.cons (hsmall _) (.cons (hcapital rfl rfl) .nil))
  have hspaced : Spaced [.mark .ifWord, .mark .leftPar, .name "ab", .mark (.connective .or)]
      (['I', 'f', '(', 'a', 'B', ' ', ' ', 'O', 'R'] : List CodePoint) :=
    .cons hif 0 (by decide) (.cons .leftPar 0 (by decide) (.cons hab 2 (by decide) (.single hor)))
  have h : Printed [.mark .ifWord, .mark .leftPar, .name "ab", .mark (.connective .or)]
      " If(aB  OR " := ⟨1, 1, _, hspaced, by decide⟩
  obtain ⟨htypes, -, hnames⟩ := scan_of_printed h
  exact ⟨h, htypes, hnames⟩

end Lexer

end FuzzyInference.Rule
