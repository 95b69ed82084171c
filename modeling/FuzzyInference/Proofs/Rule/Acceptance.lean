import FuzzyInference.Proofs.Rule.Reading
import FuzzyInference.Proofs.Text.Lowercase
import FuzzyInference.Rule

/-!
# Which rules are accepted

What the reader has still to see is settled by what it expects and by the groups that are open
(`Reading.Awaits`): each open group has to be closed, and behind the outermost one the side has to
be brought to its end (`Closes`). One token keeps this (`awaits_of_moves`), and so do several
(`awaits_append`), so all that is read up to the end of a rule makes up a rule.

* `ofText_sentence`: reading the text of a rule;
* `ofText_ok_iff`: a text is read without error exactly if it has no lexical error, its lexemes
  are those of a rule, and every clause is defined;
* `status_parse_ne_idle`: reading a rule settles its status;
* `status_parse_done_iff`, `parse_sentence`, `parse_sentence_undefined`: the same for fresh rules;
* `status_parse_none`: without a vocabulary, the texts of rules are accepted and all others are not;
* `Lexer.ofPlain`, `reads_of_plain`, `parse_of_plain`, `done_of_plain`: the lexer of a text that
  lower-casing leaves as it is, and what it is read as.
-/

namespace FuzzyInference.Rule

/-! ### What is still to come -/

/-- What has to follow an operand outside all groups. -/
def Tail : Side → List Lexeme → Prop
  | .premise, ws =>
    (∃ c : LooseRow, ws = .mark .thenWord :: (c.lexemes ++ [.mark .finish])) ∨
    ∃ (k : Connective) (p : Phrase .row) (c : LooseRow),
      ws = .mark (.connective k) :: (p.lexemes ++ .mark .thenWord :: (c.lexemes ++ [.mark .finish]))
  | .conclusion, ws =>
    ws = [.mark .finish] ∨ ∃ (w : Lexeme) (c : LooseRow), ws = w :: (c.lexemes ++ [.mark .finish])

/-- What has to follow an operand inside the given groups. A group without connective needs one. -/
def Closes (side : Side) : List Bool → List Lexeme → Prop
  | [], ws => Tail side ws
  | joined :: outer, ws => ∃ ws', Closes side outer ws' ∧
    ((joined = true ∧ ws = .mark .rightPar :: ws') ∨
      ∃ (k : Connective) (p : Phrase .row),
        ws = .mark (.connective k) :: (p.lexemes ++ .mark .rightPar :: ws'))

/-- Behind a connective comes a row. -/
theorem closes_connective {side : Side} {joined : Bool} {outer : List Bool} (k : Connective)
    (o : Phrase .operand) {ws : List Lexeme} (h : Closes side (true :: outer) ws) :
    Closes side (joined :: outer) (.mark (.connective k) :: (o.lexemes ++ ws)) := by
  obtain ⟨ws', h, ⟨-, rfl⟩ | ⟨k', p, rfl⟩⟩ := h
  · exact ⟨ws', h, Or.inr ⟨k, .single o, rfl⟩⟩
  · exact ⟨ws', h, Or.inr ⟨k, .join o k' p, by simp [Phrase.lexemes]⟩⟩

theorem tail_connective (k : Connective) (o : Phrase .operand) {ws : List Lexeme}
    (h : Tail .premise ws) : Tail .premise (.mark (.connective k) :: (o.lexemes ++ ws)) := by
  obtain ⟨c, rfl⟩ | ⟨k', p, c, rfl⟩ := h
  · exact Or.inr ⟨k, .single o, c, rfl⟩
  · exact Or.inr ⟨k, .join o k' p, c, by simp [Phrase.lexemes]⟩

/-- An operand and what may follow it on the conclusion's side make up a conclusion. -/
theorem exists_looseRow (o : Phrase .operand) {ws : List Lexeme} (h : Tail .conclusion ws) :
    ∃ c : LooseRow, o.lexemes ++ ws = c.lexemes ++ [.mark .finish] := by
  obtain rfl | ⟨w, c, rfl⟩ := h
  · exact ⟨.single o, rfl⟩
  · exact ⟨.join o w c, by simp [LooseRow.lexemes]⟩

namespace Reading

/-- **The lexemes that bring the reader to the end of a rule.** -/
def Awaits (r : Reading) (ws : List Lexeme) : Prop :=
  match r.expected with
  | .start => ∃ (o : Phrase .operand) (ws' : List Lexeme),
      ws = .mark .start :: .mark .ifWord :: (o.lexemes ++ ws') ∧ Closes r.side r.groups ws'
  | .ifWord => ∃ (o : Phrase .operand) (ws' : List Lexeme),
      ws = .mark .ifWord :: (o.lexemes ++ ws') ∧ Closes r.side r.groups ws'
  | .operand => ∃ (o : Phrase .operand) (ws' : List Lexeme),
      ws = o.lexemes ++ ws' ∧ Closes r.side r.groups ws'
  | .isWord => ∃ (a : Text) (ws' : List Lexeme),
      ws = .mark .isWord :: .name a :: ws' ∧ Closes r.side r.groups ws'
  | .term => ∃ (a : Text) (ws' : List Lexeme), ws = .name a :: ws' ∧ Closes r.side r.groups ws'
  | .joint => Closes r.side r.groups ws
  | .nothing => ws = []

/-- **One token keeps what is still to come.** -/
theorem awaits_of_moves {v : Option Vocabulary} {l : Lexer} {r r' : Reading} {w : Lexeme}
    {ws : List Lexeme} (hw : w ≠ .mark .ident) (h : Moves v l r w.token r') (ha : r'.Awaits ws) :
    r.Awaits (w :: ws) := by
  generalize ht : w.token = t at h
  unfold Awaits at ha ⊢
  cases h with
  | start hr =>
    rw [hr]
    obtain rfl := eq_mark ht (by simp)
    obtain ⟨o, ws', rfl, hc⟩ := ha
    exact ⟨o, ws', rfl, hc⟩
  | ifWord hr =>
    rw [hr]
    obtain rfl := eq_mark ht (by simp)
    obtain ⟨o, ws', rfl, hc⟩ := ha
    exact ⟨o, ws', rfl, hc⟩
  | leftPar hr =>
    rw [hr]
    obtain rfl := eq_mark ht (by simp)
    -- The group has no connective yet, so it cannot be closed at once.
    obtain ⟨o, ws', rfl, ws'', hc, ⟨hf, -⟩ | ⟨k, p, rfl⟩⟩ := ha
    · cases hf
    · exact ⟨.group o k p, ws'', by simp [Phrase.lexemes], hc⟩
  | name hr _ _ =>
    rw [hr]
    obtain ⟨x, rfl⟩ := eq_name ht hw
    obtain ⟨a, ws', rfl, hc⟩ := ha
    exact ⟨.clause x a, ws', rfl, by simpa [accept] using hc⟩
  | isWord hr =>
    rw [hr]
    obtain rfl := eq_mark ht (by simp)
    obtain ⟨a, ws', rfl, hc⟩ := ha
    exact ⟨a, ws', rfl, hc⟩
  | term hr _ _ _ =>
    rw [hr]
    obtain ⟨a, rfl⟩ := eq_name ht hw
    exact ⟨a, ws, rfl, by simpa [accept] using ha⟩
  | connective c hr hg =>
    rw [hr]
    obtain rfl := eq_mark ht (by simp)
    obtain ⟨o, ws', rfl, hc⟩ := ha
    show Closes r.side r.groups _
    rw [hg]
    exact closes_connective c o hc
  | rightPar hr hg =>
    rw [hr]
    obtain rfl := eq_mark ht (by simp)
    show Closes r.side r.groups _
    rw [hg]
    exact ⟨ws, by simpa [accept, release] using ha, Or.inl ⟨rfl, rfl⟩⟩
  | premiseJoint c hr hg hs =>
    rw [hr]
    obtain rfl := eq_mark ht (by simp)
    obtain ⟨o, ws', rfl, hc⟩ := ha
    change Closes r.side r.groups ws' at hc
    show Closes r.side r.groups _
    rw [hg, hs] at hc ⊢
    exact tail_connective c o hc
  | thenWord hr hg hs =>
    rw [hr]
    obtain rfl := eq_mark ht (by simp)
    obtain ⟨o, ws', rfl, hc⟩ := ha
    change Closes .conclusion r.groups ws' at hc
    show Closes r.side r.groups _
    rw [hg] at hc ⊢
    rw [hs]
    obtain ⟨c, hc⟩ := exists_looseRow o hc
    exact Or.inl ⟨c, by rw [hc]⟩
  | conclusionJoint hr hg hs _ =>
    rw [hr]
    obtain ⟨o, ws', rfl, hc⟩ := ha
    change Closes r.side r.groups ws' at hc
    show Closes r.side r.groups _
    rw [hg, hs] at hc ⊢
    obtain ⟨c, hc⟩ := exists_looseRow o hc
    exact Or.inr ⟨w, c, by rw [hc]⟩
  | finish hr hg hs =>
    rw [hr]
    obtain rfl := eq_mark ht (by simp)
    obtain rfl : ws = [] := ha
    show Closes r.side r.groups _
    rw [hg, hs]
    exact Or.inl rfl

/-- **What is read, and what is still to come then, was still to come.** -/
theorem awaits_append {v : Option Vocabulary} {ws' : List Lexeme} : ∀ {ws : List Lexeme}
    {names : List Text} {items : List (Token × Lexer)} {r r' : Reading}, Spells names items ws →
      r.run v items = (r', none) → r'.Awaits ws' → r.Awaits (ws ++ ws')
  | [], _, _, r, r', h, hrun, hr => by
    cases h
    cases hrun
    exact hr
  | w :: ws, names, items, r, r', h, hrun, hr => by
    have hw : w ≠ .mark .ident := h.ne_ident w (by simp)
    obtain ⟨l, items, rfl, h₁⟩ := h.of_cons
    obtain ⟨r₁, move, hrun⟩ := moves_of_run hrun
    exact awaits_of_moves hw move (awaits_append h₁ hrun hr)

/-- **What is read up to the end is what was still to come.** -/
theorem awaits_of_run {v : Option Vocabulary} {ws : List Lexeme} {names : List Text}
    {items : List (Token × Lexer)} {r r' : Reading} (h : Spells names items ws)
    (hrun : r.run v items = (r', none)) (hr : r'.expected = .nothing) : r.Awaits ws := by
  have hnil : r'.Awaits [] := by
    unfold Awaits
    rw [hr]
  have hall := awaits_append h hrun hnil
  rwa [List.append_nil] at hall

/-- What is to come first of all is a sentence. -/
theorem sentence_of_awaits {ws : List Lexeme} (h : init.Awaits ws) : ∃ p c, ws = sentence p c := by
  obtain ⟨o, ws', rfl, ⟨c, rfl⟩ | ⟨k, p, c, rfl⟩⟩ := h
  · exact ⟨.single o, c, rfl⟩
  · exact ⟨.join o k p, c, by simp [sentence, Phrase.lexemes]⟩

theorem expected_of_finish {v : Option Vocabulary} {l : Lexer} {r r' : Reading}
    (h : Moves v l r .finish r') : r'.expected = .nothing := by
  generalize ht : Token.finish = t at h
  cases h with
  | finish hr hg hs => rfl
  | conclusionJoint hr hg hs htf => exact absurd ht.symm htf
  | _ => cases ht

/-! ### Texts -/

/-- Text that is read without error up to its end is that of a rule. -/
theorem sentence_of_run {v : Option Vocabulary} {items : List (Token × Lexer)} {ws : List Lexeme}
    {r : Reading} (h : Spells [] items (ws ++ [.mark .finish]))
    (hrun : init.run v items = (r, none)) : ∃ p c, ws ++ [.mark .finish] = sentence p c := by
  -- The last token is the end, so the reader expects nothing more.
  have hr : r.expected = .nothing := by
    obtain ⟨items₁, names, items₂, rfl, -, h₂⟩ := h.of_append
    obtain ⟨l, items₃, rfl, -, h₃⟩ := h₂.of_mark
    cases h₃
    obtain ⟨r₁, -, hlast⟩ := run_append_ok hrun
    obtain ⟨r₂, move, hlast⟩ := moves_of_run hlast
    cases hlast
    exact expected_of_finish move
  exact sentence_of_awaits (awaits_of_run h hrun hr)

/-- The end stands behind the conclusion only. -/
theorem finish_notMem {text : Text} {p : Phrase .row} {c : LooseRow}
    (hlex : (Lexer.ofText text).tokens.2 = none)
    (hws : (Lexer.ofText text).lexemes = sentence p c) : .mark .finish ∉ c.lexemes := by
  obtain ⟨ws, h, hnot⟩ := lexemes_finish (Lexer.ofText text) rfl hlex
  have heq : (.mark .start :: .mark .ifWord :: (p.lexemes ++ .mark .thenWord :: c.lexemes)) ++
      [.mark .finish] = ws ++ [.mark .finish] := by
    rw [← h, hws]
    simp [sentence]
  intro hmem
  rw [← List.append_cancel_right heq] at hnot
  exact hnot (by simp [hmem])

/-- Reading the tokens of the text of a rule. -/
theorem passes_tokens {text : Text} {p : Phrase .row} {c : LooseRow} (v : Option Vocabulary)
    (hlex : (Lexer.ofText text).tokens.2 = none)
    (hws : (Lexer.ofText text).lexemes = sentence p c) :
    Passes v init (Lexer.ofText text).tokens.1 (ofSentence p c) []
      ((p.clauses ++ c.clauses).findSome? (unknown? v)) := by
  have hsp := spells_tokens (Lexer.ofText text)
  rw [hws] at hsp
  exact passes_sentence (finish_notMem hlex hws) hsp

/-- The reading of the text of a rule. -/
theorem ofText_sentence {text : Text} {p : Phrase .row} {c : LooseRow} (v : Option Vocabulary)
    (hlex : (Lexer.ofText text).tokens.2 = none)
    (hws : (Lexer.ofText text).lexemes = sentence p c) :
    match (p.clauses ++ c.clauses).findSome? (unknown? v) with
    | none => ofText v text = (ofSentence p c, none)
    | some u => (ofText v text).2 = some (.undefined u) := by
  have hp := passes_tokens v hlex hws
  unfold ofText
  dsimp only
  rw [hlex]
  split
  · next hu =>
    rw [hu] at hp
    have hrun : init.run v (Lexer.ofText text).tokens.1 = (ofSentence p c, none) := hp
    rw [hrun]
    rfl
  · next u hu =>
    rw [hu] at hp
    have hrun : (init.run v (Lexer.ofText text).tokens.1).2 = some (.undefined u) := hp
    rw [hrun]
    rfl

/-- **A text is read without error exactly if it is that of a rule all of whose names are
defined.** -/
theorem ofText_ok_iff (v : Option Vocabulary) (text : Text) :
    (ofText v text).2 = none ↔ (Lexer.ofText text).tokens.2 = none ∧
      ∃ p c, (Lexer.ofText text).lexemes = sentence p c ∧
        (p.clauses ++ c.clauses).findSome? (unknown? v) = none := by
  constructor
  · intro h
    have hlex : (Lexer.ofText text).tokens.2 = none := by
      unfold ofText at h
      exact (Option.or_eq_none_iff.mp h).2
    have hrun : (init.run v (Lexer.ofText text).tokens.1).2 = none := by
      unfold ofText at h
      exact (Option.or_eq_none_iff.mp h).1
    obtain ⟨ws, hws, -⟩ := lexemes_finish (Lexer.ofText text) rfl hlex
    have hsp := spells_tokens (Lexer.ofText text)
    rw [hws] at hsp
    obtain ⟨p, c, hpc⟩ := sentence_of_run hsp (Prod.ext rfl hrun)
    refine ⟨hlex, p, c, hws.trans hpc, ?_⟩
    have hread := ofText_sentence v hlex (hws.trans hpc)
    split at hread
    · next hu => exact hu
    · next u hu =>
      rw [h] at hread
      cases hread
  · rintro ⟨hlex, p, c, hws, hu⟩
    have hread := ofText_sentence v hlex hws
    rw [hu] at hread
    rw [hread]

end Reading

/-! ### Fresh rules -/

/-- The tokens of a rule's text, and the lexical error that ends them too early, if there is
one. -/
def scan (r : Rule) : List Token × Option Error :=
  ((Lexer.ofText r.text).tokens.1.map (·.1), (Lexer.ofText r.text).tokens.2)

/-- The lexemes of a rule's text. -/
def lexemes (r : Rule) : List Lexeme := (Lexer.ofText r.text).lexemes

theorem lexemes_parse (v : Option Vocabulary) (r : Rule) : (r.parse v).lexemes = r.lexemes := rfl

/-- The rule behind a reading of a sentence without error. -/
def readAs (text : Text) (attached : Bool) (p : Phrase .row) (c : LooseRow) : Rule :=
  { ofText text attached with
    premise := p.postfixForm
    conclusion := c.postfixForm
    tokens := (sentence p c).map Lexeme.token
    status := .done }

/-- A rule that has been read is no longer idle. -/
theorem status_parse_ne_idle (v : Option Vocabulary) (r : Rule) :
    (r.parse v).status ≠ .idle := by
  unfold parse Status.set
  dsimp only
  split_ifs with hidle herror
  · decide
  · decide
  · exact hidle

theorem parse_ofText (v : Option Vocabulary) (text : Text) (attached : Bool) :
    (ofText text attached).parse v =
      { ofText text attached with
        premise := (Reading.ofText v (ofText text attached).text).1.premise
        conclusion := (Reading.ofText v (ofText text attached).text).1.conclusion
        tokens := (Reading.ofText v (ofText text attached).text).1.tokens
        error := (Reading.ofText v (ofText text attached).text).2
        status := if (Reading.ofText v (ofText text attached).text).2.isSome then .erroneous
          else .done } := by
  simp [parse, ofText, Status.set]

section
variable {v : Option Vocabulary} {text : Text} {attached : Bool} {p : Phrase .row} {c : LooseRow}

/-- A fresh rule is done exactly if its text is read without error. -/
theorem status_parse_done_iff_reading : ((ofText text attached).parse v).status = .done ↔
    (Reading.ofText v (ofText text attached).text).2 = none := by
  rw [parse_ofText]
  cases (Reading.ofText v (ofText text attached).text).2 <;> simp

/-- **Which rules are accepted**: those whose text is a sentence with defined names. -/
theorem status_parse_done_iff : ((ofText text attached).parse v).status = .done ↔
    (ofText text attached).scan.2 = none ∧ ∃ p c, (ofText text attached).lexemes = sentence p c ∧
      (p.clauses ++ c.clauses).findSome? (unknown? v) = none := by
  rw [status_parse_done_iff_reading, Reading.ofText_ok_iff]
  rfl

theorem status_parse_erroneous_iff : ((ofText text attached).parse v).status = .erroneous ↔
    ¬ ((ofText text attached).parse v).status = .done := by
  rw [parse_ofText]
  cases (Reading.ofText v (ofText text attached).text).2 <;> simp

theorem parse_sentence (hlex : (ofText text attached).scan.2 = none)
    (hws : (ofText text attached).lexemes = sentence p c)
    (hu : (p.clauses ++ c.clauses).findSome? (unknown? v) = none) :
    (ofText text attached).parse v = readAs text attached p c := by
  have hread := Reading.ofText_sentence v hlex hws
  rw [hu] at hread
  rw [parse_ofText, hread]
  rfl

/-- A sentence with an undefined name. -/
theorem parse_sentence_undefined {u : Text} (hlex : (ofText text attached).scan.2 = none)
    (hws : (ofText text attached).lexemes = sentence p c)
    (hu : (p.clauses ++ c.clauses).findSome? (unknown? v) = some u) :
    ((ofText text attached).parse v).status = .erroneous ∧
      ((ofText text attached).parse v).error = some (.undefined u) := by
  have hread := Reading.ofText_sentence v hlex hws
  rw [hu] at hread
  rw [parse_ofText]
  dsimp only
  rw [hread]
  exact ⟨rfl, rfl⟩

end

/-- Without a vocabulary every name is defined. -/
theorem findSome?_unknown?_none (xs : List (Text × Text)) :
    xs.findSome? (unknown? none) = none :=
  List.findSome?_eq_none_iff.mpr fun x _ => unknown?_none x

/-- **Which texts are accepted without a vocabulary**: those without lexical error whose tokens are
the tokens of a rule. All others are in error. -/
theorem status_parse_none (text : Text) (attached : Bool) :
    (((ofText text attached).parse none).status = .done ↔
      (ofText text attached).scan.2 = none ∧ IsRule (ofText text attached).scan.1) ∧
    (((ofText text attached).parse none).status = .erroneous ↔
      ¬ ((ofText text attached).scan.2 = none ∧ IsRule (ofText text attached).scan.1)) := by
  have hdone : ((ofText text attached).parse none).status = .done ↔
      (ofText text attached).scan.2 = none ∧ IsRule (ofText text attached).scan.1 := by
    have htokens : (ofText text attached).scan.1 =
        (ofText text attached).lexemes.map Lexeme.token := (map_token_lexemes _).symm
    rw [status_parse_done_iff, htokens]
    unfold lexemes
    rw [isRule_iff (spells_tokens _).ne_ident]
    refine and_congr_right fun _ => exists_congr fun p => exists_congr fun c => ?_
    exact and_iff_left (findSome?_unknown?_none _)
  exact ⟨hdone, by rw [status_parse_erroneous_iff, hdone]⟩

/-! ### Plain texts -/

/-- The lexer of a text that is in lower case. -/
def Lexer.ofPlain (text : Text) : Lexer :=
  ⟨.starting, (Text.trim text).toList.length, (Text.trim text).toList, []⟩

/-- Small letters need not be put in lower case: what is read of a plain text can be had from its
characters as they are. -/
theorem reads_of_plain {text : Text} {attached : Bool} {ws : List Lexeme}
    (hplain : text.toList.all Text.isPlain = true)
    (htrim : (Text.trim text).toList.all Text.isPlain = true)
    (hread : (Lexer.ofPlain text).tokens.2 = none ∧ (Lexer.ofPlain text).lexemes = ws) :
    (ofText text attached).scan.2 = none ∧ (ofText text attached).lexemes = ws := by
  have lower : ∀ t : Text, t.toList.all Text.isPlain = true → Text.lowercase t = t :=
    fun t ht => Text.lowercase_of_settled fun c hc =>
      Text.settled_of_isPlain (List.all_eq_true.mp ht c hc)
  have hlexer : Lexer.ofText (ofText text attached).text = Lexer.ofPlain text := by
    unfold ofText
    dsimp only
    rw [lower text hplain]
    unfold Lexer.ofText
    rw [lower _ htrim]
    rfl
  unfold scan lexemes
  rw [hlexer]
  exact hread

/-- A plain text that spells a sentence is read as the sentence. -/
theorem parse_of_plain {text : Text} {attached : Bool} {p : Phrase .row} {c : LooseRow}
    {v : Option Vocabulary} (hplain : text.toList.all Text.isPlain = true)
    (htrim : (Text.trim text).toList.all Text.isPlain = true)
    (hread : (Lexer.ofPlain text).tokens.2 = none ∧ (Lexer.ofPlain text).lexemes = sentence p c)
    (hu : (p.clauses ++ c.clauses).findSome? (unknown? v) = none) :
    (ofText text attached).parse v = readAs text attached p c := by
  obtain ⟨hscan, hlexemes⟩ : (ofText text attached).scan.2 = none ∧
      (ofText text attached).lexemes = sentence p c := reads_of_plain hplain htrim hread
  exact parse_sentence hscan hlexemes hu

/-- It is accepted where its names are known. -/
theorem done_of_plain {text : Text} {attached : Bool} {p : Phrase .row} {c : LooseRow}
    {v : Option Vocabulary} (hplain : text.toList.all Text.isPlain = true)
    (htrim : (Text.trim text).toList.all Text.isPlain = true)
    (hread : (Lexer.ofPlain text).tokens.2 = none ∧ (Lexer.ofPlain text).lexemes = sentence p c)
    (hu : (p.clauses ++ c.clauses).findSome? (unknown? v) = none) :
    ((ofText text attached).parse v).status = .done ∧
      ((ofText text attached).parse v).lexemes = sentence p c := by
  obtain ⟨hscan, hlexemes⟩ : (ofText text attached).scan.2 = none ∧
      (ofText text attached).lexemes = sentence p c := reads_of_plain hplain htrim hread
  exact ⟨status_parse_done_iff.mpr ⟨hscan, p, c, hlexemes, hu⟩,
    (lexemes_parse v _).trans hlexemes⟩

end FuzzyInference.Rule
