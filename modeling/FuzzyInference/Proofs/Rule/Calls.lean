import FuzzyInference.Proofs.Rule.Munch
import Mathlib.Logic.Function.Iterate

/-!
# Calling for tokens

A lexer is called for one token after the other. It answers with the start, with the lexemes into
which the text divides, and from then on with the end of the text, or with the error at the character
that begins no lexeme, again and again. A mark U+0003 counts as the end of the text wherever the lexer
comes to it, so that what stands behind it is not read.

* `Lexer.after`, `Lexer.answer`: the lexer behind so many calls, and the answer to a call;
* `next_space`, `next_word`, …: what one call does;
* `Lexer.Yields l ls stop`: the lexer answers with lexemes, and then as another lexer does;
  `yields_of_munch`: **the lexer answers with the lexemes into which its text divides**;
* `answers_of_text`: all answers for a text without that mark;
* `read_unless_marked`, `end_before_mark`: how far a text that may hold it is read.
-/

namespace FuzzyInference.Rule

namespace Lexer

/-- The lexer behind so many calls. -/
def after (l : Lexer) (n : ℕ) : Lexer := (fun l : Lexer => l.next.2)^[n] l

/-- The answer to a call, the first one having the number zero. -/
def answer (l : Lexer) (n : ℕ) : Except Error Token := (l.after n).next.1

theorem after_succ (l : Lexer) (n : ℕ) : l.after (n + 1) = l.next.2.after n :=
  Function.iterate_succ_apply _ n l

theorem after_succ' (l : Lexer) (n : ℕ) : l.after (n + 1) = (l.after n).next.2 :=
  Function.iterate_succ_apply' _ n l

/-! ### One call -/

section
variable {total : ℕ} {names : List Text} {c : CodePoint} {cs w : List CodePoint}

theorem next_space :
    next ⟨.scanning, total, ' ' :: cs, names⟩ = next ⟨.scanning, total, cs, names⟩ := rfl

theorem next_leftPar : next ⟨.scanning, total, '(' :: cs, names⟩ =
    (.ok .leftPar, ⟨.scanning, total, cs, names⟩) := rfl

theorem next_rightPar : next ⟨.scanning, total, ')' :: cs, names⟩ =
    (.ok .rightPar, ⟨.scanning, total, cs, names⟩) := rfl

theorem next_nil : next ⟨.scanning, total, [], names⟩ =
    (.ok .finish, ⟨.finish, total, [], names⟩) := rfl

theorem next_mark : next ⟨.scanning, total, '\x03' :: cs, names⟩ =
    (.ok .finish, ⟨.finish, total, '\x03' :: cs, names⟩) := rfl

/-- A character that is no space, parenthesis or mark. -/
theorem next_cons (hspace : c ≠ ' ') (hleft : c ≠ '(') (hright : c ≠ ')') (hmark : c ≠ '\x03') :
    next ⟨.scanning, total, c :: cs, names⟩ =
      if isLetter c then
        (.ok (word ⟨.scanning, total, c :: cs, names⟩).1,
          (word ⟨.scanning, total, c :: cs, names⟩).2)
      else
        (.error (.illegalName (index ⟨.scanning, total, c :: cs, names⟩)),
          ⟨.scanning, total, c :: cs, names⟩) := by
  have hdrop : (c :: cs).dropWhile (· == (' ' : CodePoint)) = c :: cs :=
    List.dropWhile_cons_of_neg (by simpa using hspace)
  unfold next
  dsimp only
  rw [hdrop]
  dsimp only
  rw [if_neg hleft, if_neg hright, if_neg hmark]

theorem next_illegal (hc : begins c = false) (hmark : c ≠ '\x03') :
    next ⟨.scanning, total, c :: cs, names⟩ =
      (.error (.illegalName (index ⟨.scanning, total, c :: cs, names⟩)),
        ⟨.scanning, total, c :: cs, names⟩) := by
  simp only [begins, Bool.or_eq_false_iff, beq_eq_false_iff_ne] at hc
  obtain ⟨⟨⟨hletter, hspace⟩, hleft⟩, hright⟩ := hc
  rw [next_cons hspace hleft hright hmark, hletter, if_neg Bool.false_ne_true]

/-- A letter is none of the other characters that count. -/
theorem ne_of_isLetter {d : Char} (hd : isLetter (.char d) = false) (hc : isLetter c = true) :
    c ≠ .char d := by
  rintro rfl
  rw [hd] at hc
  cases hc

/-- **A word is read as far as it reaches.** -/
theorem next_word (hc : isLetter c = true) (hcs : ∀ d ∈ cs, isWordChar d = true)
    (hlong : ∀ d ∈ w.head?, isWordChar d = false) :
    next ⟨.scanning, total, c :: (cs ++ w), names⟩ = (.ok (Lexeme.ofWord (c :: cs)).token,
      ⟨.scanning, total, w, (Lexeme.ofWord (c :: cs)).name?.toList ++ names⟩) := by
  have hchars : ∀ d ∈ c :: cs, isWordChar d = true :=
    List.forall_mem_cons.mpr ⟨isWordChar_of_isLetter hc, hcs⟩
  obtain ⟨htake, hdrop⟩ := longest_run hchars hlong
  have hword : word ⟨.scanning, total, c :: (cs ++ w), names⟩ =
      ((Lexeme.ofWord (c :: cs)).token,
        ⟨.scanning, total, w, (Lexeme.ofWord (c :: cs)).name?.toList ++ names⟩) := by
    unfold word
    dsimp only
    rw [← List.cons_append, htake, hdrop, ofWord?_of_isWordChar hchars]
    unfold Lexeme.ofWord
    cases Token.keywords.lookup (Text.ofList (c :: cs)) with
    | none => rfl
    | some t => rfl
  rw [next_cons (ne_of_isLetter rfl hc) (ne_of_isLetter rfl hc) (ne_of_isLetter rfl hc)
    (ne_of_isLetter rfl hc), if_pos hc, hword]

end

/-! ### All calls -/

/-- The lexer answers with the given lexemes, whose names it keeps, and then as another lexer. -/
structure Yields (l : Lexer) (ls : List Lexeme) (stop : Lexer) : Prop where
  answer : ∀ i x, ls[i]? = some x → l.answer i = .ok x.token
  names : ∀ i ≤ ls.length,
    (l.after i).names.reverse = l.names.reverse ++ (ls.take i).filterMap Lexeme.name?
  next : (l.after ls.length).next = stop.next

namespace Yields

variable {l l' stop : Lexer} {ls : List Lexeme}

theorem refl (l : Lexer) : l.Yields [] l where
  answer i x hx := by cases hx
  names i hi := by
    obtain rfl := Nat.le_zero.mp hi
    exact (List.append_nil _).symm
  next := rfl

/-- What only the next call tells apart answers alike. -/
theorem of_next_eq (h : l'.Yields ls stop) (hnext : l.next = l'.next) (hnames : l.names = l'.names) :
    l.Yields ls stop := by
  have hafter : ∀ i, (l.after i).next = (l'.after i).next ∧ (l.after i).names = (l'.after i).names
    | 0 => ⟨hnext, hnames⟩
    | i + 1 => by
      rw [after_succ, after_succ, hnext]
      exact ⟨rfl, rfl⟩
  refine ⟨fun i x hx => ?_, fun i hi => ?_, ?_⟩
  · unfold Lexer.answer
    rw [(hafter i).1]
    exact h.answer i x hx
  · rw [(hafter i).2, hnames]
    exact h.names i hi
  · rw [(hafter _).1]
    exact h.next

/-- One more lexeme in front. -/
theorem cons {x : Lexeme} (h : l'.Yields ls stop) (hnext : l.next = (.ok x.token, l'))
    (hnames : l'.names = x.name?.toList ++ l.names) : l.Yields (x :: ls) stop := by
  have hafter : ∀ i, l.after (i + 1) = l'.after i := fun i => by rw [after_succ, hnext]
  refine ⟨fun i y hy => ?_, fun i hi => ?_, ?_⟩
  · cases i with
    | zero =>
      obtain rfl := Option.some.inj hy
      exact congrArg Prod.fst hnext
    | succ i =>
      unfold Lexer.answer
      rw [hafter]
      exact h.answer i y hy
  · cases i with
    | zero => exact (List.append_nil _).symm
    | succ i =>
      have hi' : i ≤ ls.length := Nat.succ_le_succ_iff.mp hi
      rw [hafter, h.names i hi', hnames, List.reverse_append, List.append_assoc, List.take_succ_cons]
      cases x with
      | name n => rfl
      | mark t => rfl
  · rw [List.length_cons, hafter]
    exact h.next

end Yields

theorem reverse_names (x : Lexeme) (ls : List Lexeme) (names : List Text) :
    ((x :: ls).filterMap Lexeme.name?).reverse ++ names =
      (ls.filterMap Lexeme.name?).reverse ++ (x.name?.toList ++ names) := by
  cases x with
  | name n => simp [Lexeme.name?]
  | mark t => rfl

/-- **The lexer answers with the lexemes into which its text divides.** -/
theorem yields_of_munch {w rest : List CodePoint} {ls : List Lexeme} (h : Munch w ls rest)
    (total : ℕ) : ∀ names : List Text, Yields ⟨.scanning, total, w, names⟩ ls
      ⟨.scanning, total, rest, (ls.filterMap Lexeme.name?).reverse ++ names⟩ := by
  induction h with
  | stop _ => exact fun names => .refl _
  | space _ ih => exact fun names => (ih names).of_next_eq next_space rfl
  | leftPar _ ih => exact fun names => (ih names).cons next_leftPar rfl
  | rightPar _ ih => exact fun names => (ih names).cons next_rightPar rfl
  | word hc hcs hlong _ ih =>
    intro names
    rw [reverse_names]
    exact (ih _).cons (next_word hc hcs hlong) rfl

/-! ### Behind the last lexeme -/

/-- The text ends where its characters do, or at a mark. -/
def Ends (rest : List CodePoint) : Prop := ∀ c ∈ rest.head?, c = '\x03'

/-- At the end the lexer finishes, wherever it stands. -/
theorem next_of_ends {total : ℕ} {names : List Text} {rest : List CodePoint} (h : Ends rest) :
    next ⟨.scanning, total, rest, names⟩ = (.ok .finish, ⟨.finish, total, rest, names⟩) := by
  cases rest with
  | nil => exact next_nil
  | cons c rest =>
    obtain rfl : c = '\x03' := h c rfl
    exact next_mark

/-- At a character that begins no lexeme the lexer stays. -/
theorem next_of_not_ends {total : ℕ} {names : List Text} {rest : List CodePoint}
    (hrest : ∀ c ∈ rest.head?, begins c = false) (h : ¬ Ends rest) :
    next ⟨.scanning, total, rest, names⟩ =
      (.error (.illegalName (min (total - rest.length + 1) total)),
        ⟨.scanning, total, rest, names⟩) := by
  cases rest with
  | nil => exact absurd (fun c hc => by cases hc) h
  | cons c rest =>
    refine next_illegal (hrest c rfl) fun hc => h fun d hd => ?_
    cases hd
    exact hc

/-- Where another call changes nothing, no further one does. -/
theorem Yields.next_of_le {l stop : Lexer} {ls : List Lexeme} (h : l.Yields ls stop)
    (hstop : stop.next.2.next = stop.next) {i : ℕ} (hi : ls.length ≤ i) :
    (l.after i).next = stop.next := by
  induction i, hi using Nat.le_induction with
  | base => exact h.next
  | succ i _ ih => rw [after_succ', ih, hstop]

/-- The lexer behind the first call for a token of a text. -/
theorem after_ofText (text : Text) (i : ℕ) : (ofText text).after (i + 1) =
    (Lexer.mk .scanning (Text.lowercase (Text.trim text)).toList.length
      (Text.lowercase (Text.trim text)).toList []).after i :=
  after_succ _ _

section
variable {text : Text} {w rest : List CodePoint} {ls : List Lexeme}

/-- **The answers of a lexer** on a text that divides: first the start, then the lexemes. -/
theorem answer_of_munch (hw : (Text.lowercase (Text.trim text)).toList = w) (h : Munch w ls rest) :
    (ofText text).answer 0 = .ok .start ∧
      ∀ i x, ls[i]? = some x → (ofText text).answer (i + 1) = .ok x.token := by
  refine ⟨rfl, fun i x hx => ?_⟩
  unfold answer
  rw [after_ofText, hw]
  exact (yields_of_munch h w.length []).answer i x hx

/-- What a call behind the last lexeme does. -/
theorem next_of_munch (hw : (Text.lowercase (Text.trim text)).toList = w) (h : Munch w ls rest)
    {i : ℕ} (hi : ls.length < i) : ((ofText text).after i).next =
      next ⟨.scanning, w.length, rest, (ls.filterMap Lexeme.name?).reverse ++ []⟩ := by
  obtain ⟨j, rfl⟩ := Nat.exists_eq_add_of_lt hi
  rw [after_ofText, hw]
  refine (yields_of_munch h w.length []).next_of_le ?_ (Nat.le_add_right _ _)
  by_cases hends : Ends rest
  · rw [next_of_ends hends]
    rfl
  · rw [next_of_not_ends h.begins_head hends, next_of_not_ends h.begins_head hends]

/-- **What it answers from then on**, and what it has looked at: the end if the text ends there, and
otherwise the error at the character that begins no lexeme. -/
theorem ending_of_munch (hw : (Text.lowercase (Text.trim text)).toList = w) (h : Munch w ls rest)
    {i : ℕ} (hi : ls.length < i) :
    (Ends rest → (ofText text).answer i = .ok .finish) ∧
      (¬ Ends rest → (ofText text).answer i =
        .error (.illegalName (min (w.length - rest.length + 1) w.length))) ∧
      ((ofText text).after (i + 1)).index = min (w.length - rest.length + 1) w.length ∧
      ((ofText text).after (i + 1)).names.reverse = ls.filterMap Lexeme.name? := by
  have hnames : ((ls.filterMap Lexeme.name?).reverse ++ []).reverse = ls.filterMap Lexeme.name? := by
    rw [List.append_nil, List.reverse_reverse]
  unfold answer
  rw [after_succ', next_of_munch hw h hi]
  by_cases hends : Ends rest
  · rw [next_of_ends hends]
    exact ⟨fun _ => rfl, fun hnot => absurd hends hnot, rfl, hnames⟩
  · rw [next_of_not_ends h.begins_head hends]
    exact ⟨fun h => absurd h hends, fun _ => rfl, rfl, hnames⟩

/-- The names that a lexer holds are those of the lexemes that it has answered with. -/
theorem names_of_munch (hw : (Text.lowercase (Text.trim text)).toList = w) (h : Munch w ls rest)
    (i : ℕ) : ((ofText text).after (i + 1)).names.reverse = (ls.take i).filterMap Lexeme.name? := by
  rcases le_or_gt i ls.length with hi | hi
  · rw [after_ofText, hw]
    exact (yields_of_munch h w.length []).names i hi
  · rw [List.take_of_length_le hi.le]
    exact (ending_of_munch hw h hi).2.2.2

end

/-- The position of the character behind what has been read. -/
theorem position_eq (read : List CodePoint) (c : CodePoint) (more : List CodePoint) :
    min ((read ++ c :: more).length - (c :: more).length + 1) (read ++ c :: more).length =
      read.length + 1 := by
  rw [List.length_append, List.length_cons]
  omega

/-- Trimming and lower case bring no mark in. -/
theorem mark_notMem {text : Text} (hmark : CodePoint.char '\x03' ∉ text.toList) :
    CodePoint.char '\x03' ∉ (Text.lowercase (Text.trim text)).toList := fun h =>
  hmark (Text.mem_of_mem_lowercase_trim (by decide) (by decide) h)

/-- **All answers of a lexer.** A text without the mark U+0003, trimmed and put in lower case, divides
into lexemes up to its end, or up to the first character that begins none. The lexer answers with the
start and then with these lexemes, whose names it keeps in order. From then on it answers with the
end, all having been read, or with the error that names the position of that character. -/
theorem answers_of_text {text : Text} {w : List CodePoint}
    (hw : (Text.lowercase (Text.trim text)).toList = w)
    (hmark : CodePoint.char '\x03' ∉ text.toList) :
    (∃ ls rest, Munch w ls rest) ∧ ∀ ls rest, Munch w ls rest →
      (ofText text).answer 0 = .ok .start ∧
      (∀ i x, ls[i]? = some x → (ofText text).answer (i + 1) = .ok x.token) ∧
      (∀ i, ((ofText text).after (i + 1)).names.reverse = (ls.take i).filterMap Lexeme.name?) ∧
      (rest = [] → ∀ i > ls.length, (ofText text).answer i = .ok .finish ∧
        ((ofText text).after (i + 1)).index = w.length) ∧
      ∀ c more, rest = c :: more → ∃ read, w = read ++ c :: more ∧
        ∀ i > ls.length, (ofText text).answer i = .error (.illegalName (read.length + 1)) := by
  refine ⟨exists_munch w, fun ls rest h => ?_⟩
  obtain ⟨hstart, htokens⟩ := answer_of_munch hw h
  refine ⟨hstart, htokens, names_of_munch hw h, ?_, ?_⟩
  · rintro rfl i hi
    obtain ⟨hend, -, hindex, -⟩ := ending_of_munch hw h hi
    refine ⟨hend fun c hc => (by cases hc), hindex.trans (min_eq_right ?_)⟩
    exact Nat.le_succ _
  · rintro c more rfl
    obtain ⟨read, rfl, -⟩ := h.exists_read
    refine ⟨read, rfl, fun i hi => ?_⟩
    have hends : ¬ Ends (c :: more) := fun hends => by
      obtain rfl := hends c rfl
      refine mark_notMem hmark ?_
      rw [hw]
      exact List.mem_append_right _ List.mem_cons_self
    rw [(ending_of_munch hw h hi).2.1 hends, position_eq]

/-- A text that begins with a space and ends on a digit that begins no lexeme. -/
theorem answers_of_short_text :
    (ofText " Ab(IF 9").answer 0 = .ok .start ∧ (ofText " Ab(IF 9").answer 1 = .ok .ident ∧
      (ofText " Ab(IF 9").answer 2 = .ok .leftPar ∧ (ofText " Ab(IF 9").answer 3 = .ok .ifWord ∧
      ((ofText " Ab(IF 9").after 4).names = [("ab" : Text)] ∧
      ∀ i > 3, (ofText " Ab(IF 9").answer i = .error (.illegalName 7) := by
  have hw : (Text.lowercase (Text.trim " Ab(IF 9")).toList =
      (['a', 'b', '(', 'i', 'f', ' ', '9'] : List CodePoint) := by decide +kernel
  have hmark : CodePoint.char '\x03' ∉ (" Ab(IF 9" : Text).toList := by decide +kernel
  have hif : Munch ['i', 'f', ' ', '9'] [.ofWord ['i', 'f']] ['9'] :=
    @Munch.word 'i' ['f'] [' ', '9'] _ _ rfl (List.forall_mem_singleton.mpr rfl)
      (fun d hd => by cases hd; rfl) (.space (.stop fun d hd => by cases hd; rfl))
  have h : Munch ['a', 'b', '(', 'i', 'f', ' ', '9']
      [.ofWord ['a', 'b'], .mark .leftPar, .ofWord ['i', 'f']] ['9'] :=
    @Munch.word 'a' ['b'] ['(', 'i', 'f', ' ', '9'] _ _ rfl (List.forall_mem_singleton.mpr rfl)
      (fun d hd => by cases hd; rfl) hif.leftPar
  obtain ⟨-, hall⟩ := answers_of_text hw hmark
  obtain ⟨hstart, htokens, hnames, -, hillegal⟩ := hall _ _ h
  obtain ⟨read, hread, herror⟩ := hillegal '9' [] rfl
  have hlength : 7 = read.length + 1 :=
    (congrArg List.length hread).trans (List.length_append.trans rfl)
  refine ⟨hstart, htokens 0 _ rfl, htokens 1 _ rfl, htokens 2 _ rfl,
    List.reverse_inj.mp (hnames 3), fun i hi => ?_⟩
  rw [herror i hi, hlength]

/-! ### How far a text is read -/

/-- The first mark has the given position, and only characters of rules stand before it. -/
def MarkedAt (w : List CodePoint) (p : ℕ) : Prop :=
  ∃ read more : List CodePoint, w = read ++ CodePoint.char '\x03' :: more ∧
    (∀ c ∈ read, isRuleChar c = true) ∧ p = read.length + 1

/-- A call that is answered with the end stands behind all lexemes. -/
theorem lt_of_answer_finish {text : Text} {w rest : List CodePoint} {ls : List Lexeme}
    (hw : (Text.lowercase (Text.trim text)).toList = w) (h : Munch w ls rest) {n : ℕ}
    (hn : (ofText text).answer n = .ok .finish) : ls.length < n := by
  obtain ⟨hstart, htokens⟩ := answer_of_munch hw h
  by_contra hle
  cases n with
  | zero =>
    rw [hstart] at hn
    cases hn
  | succ n =>
    have hlt : n < ls.length := by omega
    rw [htokens n _ (List.getElem?_eq_getElem hlt)] at hn
    exact h.token_ne_finish _ (List.getElem_mem hlt) (Except.ok.inj hn)

/-- A text that ends at a mark holds only characters of rules before it. -/
theorem markedAt_of_ends {w rest : List CodePoint} {ls : List Lexeme} (h : Munch w ls rest)
    (hends : Ends rest) (hne : rest ≠ []) :
    MarkedAt w (min (w.length - rest.length + 1) w.length) := by
  obtain ⟨c, more, rfl⟩ := List.exists_cons_of_ne_nil hne
  obtain rfl := hends c rfl
  obtain ⟨read, rfl, hread⟩ := h.exists_read
  exact ⟨read, more, rfl, hread, position_eq read _ more⟩

/-- Behind a call that is answered with the end, the text is read or a mark is met. -/
theorem read_or_markedAt {text : Text} {n : ℕ} (hn : (ofText text).answer n = .ok .finish) :
    ((ofText text).after (n + 1)).index = (Text.lowercase (Text.trim text)).toList.length ∨
      MarkedAt (Text.lowercase (Text.trim text)).toList ((ofText text).after (n + 1)).index := by
  obtain ⟨ls, rest, h⟩ := exists_munch (Text.lowercase (Text.trim text)).toList
  obtain ⟨-, herror, hindex, -⟩ := ending_of_munch rfl h (lt_of_answer_finish rfl h hn)
  have hends : Ends rest := by
    by_contra hends
    rw [herror hends] at hn
    cases hn
  rw [hindex]
  by_cases hnil : rest = []
  · left
    rw [hnil]
    exact min_eq_right (Nat.le_succ _)
  · exact Or.inr (markedAt_of_ends h hends hnil)

/-- A text that holds a character that may not stand in a rule is answered with an error, again and
again, or a mark is met. -/
theorem illegal_or_markedAt {text : Text}
    (h : ∃ c ∈ (Text.lowercase (Text.trim text)).toList, isRuleChar c = false) :
    (∃ n k, (∀ i < n, ∃ t, t ≠ .finish ∧ (ofText text).answer i = .ok t) ∧
      ∀ i ≥ n, (ofText text).answer i = .error (.illegalName k)) ∨
    ∃ n, (ofText text).answer n = .ok .finish ∧
      MarkedAt (Text.lowercase (Text.trim text)).toList ((ofText text).after (n + 1)).index := by
  obtain ⟨c, hc, hfalse⟩ := h
  obtain ⟨ls, rest, h⟩ := exists_munch (Text.lowercase (Text.trim text)).toList
  obtain ⟨hstart, htokens⟩ := answer_of_munch rfl h
  obtain ⟨hend, -, hindex, -⟩ := ending_of_munch rfl h (Nat.lt_succ_self ls.length)
  by_cases hends : Ends rest
  · have hne : rest ≠ [] := by
      rintro rfl
      obtain ⟨read, hread, hall⟩ := h.exists_read
      rw [hread, List.append_nil] at hc
      rw [hall c hc] at hfalse
      cases hfalse
    refine Or.inr ⟨_, hend hends, ?_⟩
    rw [hindex]
    exact markedAt_of_ends h hends hne
  · refine Or.inl ⟨ls.length + 1, _, fun i hi => ?_, fun i hi =>
      (ending_of_munch rfl h hi).2.1 hends⟩
    cases i with
    | zero => exact ⟨_, (fun h => by cases h), hstart⟩
    | succ i =>
      have hlt : i < ls.length := Nat.lt_of_succ_lt_succ hi
      exact ⟨_, h.token_ne_finish _ (List.getElem_mem hlt),
        htokens i _ (List.getElem?_eq_getElem hlt)⟩

theorem not_markedAt {w : List CodePoint} (hmark : CodePoint.char '\x03' ∉ w) (p : ℕ) :
    ¬ MarkedAt w p := by
  rintro ⟨read, more, rfl, -, -⟩
  exact hmark (List.mem_append_right _ List.mem_cons_self)

/-- **How far a text is read.** Where a lexer comes to the end without an error, it has read the text,
trimmed and in lower case, as a whole, or has stopped at a mark U+0003. A text that holds, so trimmed,
any character that may not stand in a rule leads to an error, unless such a mark comes before. A text
without that mark has none then either. -/
theorem read_unless_marked (text : Text) :
    (∀ n, (ofText text).answer n = .ok .finish →
      ((ofText text).after (n + 1)).index = (Text.lowercase (Text.trim text)).toList.length ∨
        MarkedAt (Text.lowercase (Text.trim text)).toList ((ofText text).after (n + 1)).index) ∧
    ((∃ c ∈ (Text.lowercase (Text.trim text)).toList, isRuleChar c = false) →
      (∃ n k, (∀ i < n, ∃ t, t ≠ .finish ∧ (ofText text).answer i = .ok t) ∧
        ∀ i ≥ n, (ofText text).answer i = .error (.illegalName k)) ∨
      ∃ n, (ofText text).answer n = .ok .finish ∧
        MarkedAt (Text.lowercase (Text.trim text)).toList ((ofText text).after (n + 1)).index) ∧
    (CodePoint.char '\x03' ∉ text.toList →
      ∀ p, ¬ MarkedAt (Text.lowercase (Text.trim text)).toList p) :=
  ⟨fun _ => read_or_markedAt, illegal_or_markedAt, fun hmark => not_markedAt (mark_notMem hmark)⟩

/-- **A mark hides what stands behind it.** A scan may come to the end without an error and without
having read the text, also where that holds a character that may not stand in a rule. -/
theorem end_before_mark :
    (¬ ∀ (text : Text) (n : ℕ), (ofText text).answer n = .ok .finish →
      ((ofText text).after (n + 1)).index = (Text.lowercase (Text.trim text)).toList.length) ∧
    ¬ ∀ text : Text, (∃ c ∈ (Text.lowercase (Text.trim text)).toList, isRuleChar c = false) →
      ∃ n k, (ofText text).answer n = .error (.illegalName k) := by
  have hw : (Text.lowercase (Text.trim "a\x03b")).toList =
      (['a', '\x03', 'b'] : List CodePoint) := by decide +kernel
  have h : Munch ['a', '\x03', 'b'] [.ofWord ['a']] ['\x03', 'b'] :=
    @Munch.word 'a' [] ['\x03', 'b'] _ _ rfl (fun d hd => by cases hd)
      (fun d hd => by cases hd; rfl) (.stop fun d hd => by cases hd; rfl)
  have hends : Ends ['\x03', 'b'] := fun c hc => by cases hc; rfl
  refine ⟨fun hall => ?_, fun hall => ?_⟩
  · obtain ⟨hend, -, hindex, -⟩ := ending_of_munch hw h (Nat.lt_succ_self 1)
    have hlength := hall _ _ (hend hends)
    rw [hindex, hw] at hlength
    exact absurd hlength (by decide)
  · obtain ⟨n, k, hn⟩ := hall "a\x03b" ⟨'\x03', by rw [hw]; decide, rfl⟩
    obtain ⟨hstart, htokens⟩ := answer_of_munch hw h
    obtain _ | _ | n := n
    · rw [hstart] at hn
      cases hn
    · rw [htokens 0 _ rfl] at hn
      cases hn
    · have hbehind : [Lexeme.ofWord ['a']].length < n + 1 + 1 := Nat.lt_add_of_pos_left n.succ_pos
      rw [(ending_of_munch hw h hbehind).1 hends] at hn
      cases hn

end Lexer

end FuzzyInference.Rule
