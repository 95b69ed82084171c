import FuzzyInference.Proofs.Rule.Acceptance

/-!
# Premises in one pass

The postfix form of a premise can be had without a tree: a single pass over the lexemes between
`if` and `then` will do, which counts the groups that are open and holds connectives back inside
groups. A group that closes, on whatever level, lets all of them go.

* `Pass`, `Pass.run`: the pass; it is stuck on lexemes that are in no premise;
* `Pass.run_phrase`, `Pass.run_premise`: on the lexemes of a phrase it writes what
  `Phrase.emit` does, which goes down the tree;
* `Pass.Idle`, `Pass.idle_of_run`: outside all groups the pass holds nothing;
* `Pass.Agrees`, `Pass.keepsStep_of_run`: wherever the pass stands, the reader stands at the same
  depth, holds the same connectives and has written the same premise;
* `premise_eq_pass`: the same for whole rules.
-/

namespace FuzzyInference.Rule

/-- A pass over a premise: how many groups are open, the connectives held back, newest first, and
what has been written. -/
structure Pass where
  depth : Nat
  held : List Connective
  out : List Entry
  deriving Repr, DecidableEq

namespace Pass

def init : Pass := ⟨0, [], []⟩

/-- Writes a clause. -/
def clause (s : Pass) (x a : Text) : Pass := { s with out := s.out ++ [.name x, .name a, .is] }

/-- Goes into a group. -/
def enter (s : Pass) : Pass := { s with depth := s.depth + 1 }

/-- Holds a connective back inside a group, and drops it elsewhere. -/
def hold (s : Pass) (c : Connective) : Pass :=
  if s.depth = 0 then s else { s with held := c :: s.held }

/-- Leaves a group and writes all that is held. -/
def leave (s : Pass) : Pass := ⟨s.depth - 1, [], s.out ++ s.held.map .connective⟩

/-- **The pass.** -/
def run (s : Pass) : List Lexeme → Option Pass
  | [] => some s
  | .name x :: .mark .isWord :: .name a :: ws => (s.clause x a).run ws
  | .mark .leftPar :: ws => s.enter.run ws
  | .mark (.connective c) :: ws => (s.hold c).run ws
  | .mark .rightPar :: ws => if s.depth = 0 then none else s.leave.run ws
  | _ => none

/-! ### The pass and the tree -/

/-- The pass behind a phrase. -/
def after {n : Nonterminal} (s : Pass) (p : Phrase n) : Pass :=
  ⟨s.depth, (p.emit s.held).2, s.out ++ (p.emit s.held).1⟩

/-- A row is passed over inside a group, an operand anywhere. -/
def Fits (s : Pass) : Nonterminal → Prop
  | .operand => True
  | .row => 0 < s.depth

/-- **The pass over a phrase.** -/
theorem run_phrase {n : Nonterminal} (p : Phrase n) :
    ∀ (s : Pass) (ws : List Lexeme), s.Fits n →
      s.run (p.lexemes ++ ws) = (s.after p).run ws := by
  induction p with
  | clause x a =>
    intro s ws _
    rfl
  | group first c rest ih₁ ih₂ =>
    intro s ws _
    simp only [Phrase.lexemes, List.cons_append, List.append_assoc, List.nil_append]
    have hdepth : ((s.enter.after first).hold c).depth = s.depth + 1 := by
      simp [hold, after, enter]
    have hfits : ((s.enter.after first).hold c).Fits .row := by
      unfold Fits
      omega
    rw [run, ih₁ _ _ trivial, run, ih₂ _ _ hfits, run]
    -- No phrase changes the depth, so the group is still open where its parenthesis closes it.
    have hopen : ¬ (((s.enter.after first).hold c).after rest).depth = 0 := by
      simp only [after] at hdepth ⊢
      omega
    rw [if_neg hopen]
    congr 1
    simp [leave, after, hold, enter, Phrase.emit]
  | single o ih =>
    intro s ws _
    exact ih s ws trivial
  | join o c rest ih₁ ih₂ =>
    intro s ws hs
    have hdepth : 0 < s.depth := hs
    simp only [Phrase.lexemes, List.append_assoc, List.cons_append]
    have hopen : ¬ (s.after o).depth = 0 := by
      simp only [after]
      omega
    have hhold : (s.after o).hold c = { s.after o with held := c :: (s.after o).held } :=
      if_neg hopen
    have hfits : ((s.after o).hold c).Fits .row := by
      rw [hhold]
      exact hdepth
    rw [ih₁ _ _ trivial, run, ih₂ _ _ hfits, hhold]
    congr 1
    simp [after, Phrase.emit]

/-- The pass over a premise. -/
theorem run_premise : ∀ (p : Phrase .row) (out : List Entry) (ws : List Lexeme),
    run ⟨0, [], out⟩ (p.lexemes ++ ws) = run ⟨0, [], out ++ p.postfixForm⟩ ws
  | .single o, out, ws => by
    have hform : Phrase.postfixForm (.single o) = (o.emit []).1 := by
      simp [Phrase.postfixForm, Phrase.operands]
    rw [Phrase.lexemes, run_phrase o _ _ trivial, after, o.emit_nil, hform]
  | .join o c rest, out, ws => by
    have hform : Phrase.postfixForm (.join o c rest) = (o.emit []).1 ++ rest.postfixForm := by
      simp [Phrase.postfixForm, Phrase.operands]
    simp only [Phrase.lexemes, List.append_assoc, List.cons_append]
    rw [run_phrase o _ _ trivial, after, o.emit_nil, run, hold, if_pos rfl, run_premise rest, hform,
      List.append_assoc]

/-! ### Outside all groups -/

/-- Outside all groups nothing is held. -/
def Idle (s : Pass) : Prop := s.depth = 0 → s.held = []

/-- **Outside all groups the pass holds nothing.** -/
theorem idle_of_run {s s' : Pass} {ws : List Lexeme} (hs : s.Idle) (h : s.run ws = some s') :
    s'.Idle := by
  induction s, ws using run.induct with
  | case1 s =>
    rw [run] at h
    cases h
    exact hs
  | case2 s x a ws ih =>
    rw [run] at h
    exact ih hs h
  | case3 s ws ih =>
    rw [run] at h
    exact ih (fun hd => absurd hd (Nat.succ_ne_zero _)) h
  | case4 s c ws ih =>
    rw [run] at h
    refine ih (fun hd => ?_) h
    unfold hold at hd ⊢
    by_cases hdepth : s.depth = 0
    · rw [if_pos hdepth]
      exact hs hdepth
    · rw [if_neg hdepth] at hd
      exact absurd hd hdepth
  | case5 s ws hdepth =>
    rw [run, if_pos hdepth] at h
    cases h
  | case6 s ws hdepth ih =>
    rw [run, if_neg hdepth] at h
    exact ih (fun _ => rfl) h
  | case7 ws s h₁ h₂ h₃ h₄ h₅ =>
    rw [run] at h
    · cases h
    all_goals assumption

/-! ### The pass and the reader -/

/-- The reader stands where the pass stands: between the clauses and tokens that the pass takes. -/
structure Agrees (s : Pass) (r : Reading) : Prop where
  side : r.side = .premise
  expected : r.expected = .operand ∨ r.expected = .joint
  depth : r.groups.length = s.depth
  held : r.held = s.held
  out : r.premise = s.out
  conclusion : r.conclusion = []

section
variable {v : Option Vocabulary} {l : Lexer} {s : Pass} {r r₁ : Reading}

theorem Agrees.side_ne (ha : s.Agrees r) : r.side ≠ .conclusion := by
  rw [ha.side]
  decide

theorem Agrees.enter (ha : s.Agrees r) (h : Reading.Moves v l r .leftPar r₁) :
    s.enter.Agrees r₁ := by
  have hside := ha.side_ne
  obtain ⟨side, -, depth, held, out, conclusion⟩ := ha
  cases h with
  | leftPar hr =>
    have hdepth : (r.groups.length + 1) = s.enter.depth := congrArg (· + 1) depth
    exact ⟨side, Or.inl rfl, hdepth, held, out, conclusion⟩
  | conclusionJoint _ _ hs _ => exact absurd hs hside

theorem Agrees.hold {c : Connective} (ha : s.Agrees r)
    (h : Reading.Moves v l r (.connective c) r₁) : (s.hold c).Agrees r₁ := by
  have hside := ha.side_ne
  obtain ⟨side, -, depth, held, out, conclusion⟩ := ha
  unfold Pass.hold
  cases h with
  | connective c hr hg =>
    rw [hg] at depth
    have hopen : ¬ s.depth = 0 := by
      rw [← depth]
      exact Nat.succ_ne_zero _
    rw [if_neg hopen]
    exact ⟨side, Or.inl rfl, depth, by simp [Reading.accept, held], out, conclusion⟩
  | premiseJoint c hr hg _ =>
    have houter : s.depth = 0 := by
      rw [← depth, hg]
      rfl
    rw [if_pos houter]
    exact ⟨side, Or.inl rfl, depth, held, out, conclusion⟩
  | conclusionJoint _ _ hs _ => exact absurd hs hside

theorem Agrees.leave (ha : s.Agrees r) (h : Reading.Moves v l r .rightPar r₁) :
    s.leave.Agrees r₁ := by
  have hside := ha.side_ne
  obtain ⟨side, -, depth, held, out, conclusion⟩ := ha
  cases h with
  | rightPar hr hg =>
    rw [hg] at depth
    refine ⟨?_, Or.inr rfl, ?_, rfl, ?_, ?_⟩
    · simpa [Reading.accept, Reading.release] using side
    · simp only [Reading.accept, Pass.leave, ← depth, List.length_cons]
      omega
    · simp [Reading.accept, Reading.release, Reading.write, side, Pass.leave, held, out]
    · simp [Reading.accept, Reading.release, Reading.write, side, conclusion]
  | conclusionJoint _ _ hs _ => exact absurd hs hside

/-- A clause takes the reader three tokens. -/
theorem Agrees.clause {r₂ r₃ : Reading} {l₂ l₃ : Lexer} {x a : Text} {names : List Text}
    (ha : s.Agrees r) (hl : l.names = x :: names) (hl₃ : l₃.names = a :: x :: names)
    (h₁ : Reading.Moves v l r .ident r₁) (h₂ : Reading.Moves v l₂ r₁ .isWord r₂)
    (h₃ : Reading.Moves v l₃ r₂ .ident r₃) : (s.clause x a).Agrees r₃ := by
  have hside := ha.side_ne
  obtain ⟨side, expected, depth, held, out, conclusion⟩ := ha
  have hx : l.identifier? = some x := by simp [Lexer.identifier?, hl]
  have hx₃ : l₃.identifier? = some a := by simp [Lexer.identifier?, hl₃]
  cases h₁ with
  | name hr hx' _ =>
    rw [hx] at hx'
    cases hx'
    cases h₂ with
    | isWord _ =>
      cases h₃ with
      | term _ _ ha' _ =>
        rw [hx₃] at ha'
        cases ha'
        refine ⟨?_, Or.inr rfl, ?_, ?_, ?_, ?_⟩ <;>
          simp [Reading.accept, Reading.write, side, Pass.clause, depth, held, out, conclusion]
      | name hr' _ _ => cases hr'
      | conclusionJoint hr' _ _ _ => cases hr'
    | conclusionJoint hr' _ _ _ => cases hr'
  | term hr _ _ _ => rcases expected with he | he <;> rw [he] at hr <;> cases hr
  | conclusionJoint _ _ hs _ => exact absurd hs hside

/-- `then` is accepted outside all groups only. -/
theorem Agrees.thenWord (ha : s.Agrees r) (h : Reading.Moves v l r .thenWord r₁) :
    s.depth = 0 ∧ r₁ = ({ r with side := .conclusion }).accept .thenWord .operand := by
  cases h with
  | thenWord hr hg _ => exact ⟨by rw [← ha.depth, hg]; rfl, rfl⟩
  | conclusionJoint _ _ hs _ => exact absurd hs ha.side_ne

end

/-- Where the pass goes from `s` to `s'` over `ws`, the reader goes along. -/
def KeepsStep (v : Option Vocabulary) (s s' : Pass) (ws : List Lexeme) : Prop :=
  ∀ {rest : List Lexeme} {names : List Text} {items : List (Token × Lexer)} {r r' : Reading},
    Spells names items (ws ++ rest) → s.Agrees r → r.run v items = (r', none) →
      ∃ r₁, r.run v (items.take ws.length) = (r₁, none) ∧ s'.Agrees r₁

section
variable {v : Option Vocabulary} {s s₁ s' : Pass} {ws : List Lexeme}

/-- A mark takes the reader one token. -/
theorem keepsStep_mark {t : Token}
    (hstep : ∀ {l : Lexer} {r r₁ : Reading}, s.Agrees r → Reading.Moves v l r t r₁ → s₁.Agrees r₁)
    (h : KeepsStep v s₁ s' ws) : KeepsStep v s s' (.mark t :: ws) := by
  intro rest names items r r' hsp ha hrun
  obtain ⟨l, items, rfl, -, hsp⟩ := hsp.of_mark
  obtain ⟨r₁, move, hrun⟩ := Reading.moves_of_run hrun
  obtain ⟨r₂, hr₂, ha₂⟩ := h hsp (hstep ha move) hrun
  refine ⟨r₂, ?_, ha₂⟩
  rw [List.length_cons, List.take_succ_cons, Reading.run_of_moves move, hr₂]

theorem keepsStep_clause {x a : Text} (h : KeepsStep v (s.clause x a) s' ws) :
    KeepsStep v s s' (.name x :: .mark .isWord :: .name a :: ws) := by
  intro rest names items r r' hsp ha hrun
  obtain ⟨l₁, items, rfl, hl₁, hsp⟩ := hsp.of_name
  obtain ⟨l₂, items, rfl, -, hsp⟩ := hsp.of_mark
  obtain ⟨l₃, items, rfl, hl₃, hsp⟩ := hsp.of_name
  obtain ⟨r₁, move₁, hrun⟩ := Reading.moves_of_run hrun
  obtain ⟨r₂, move₂, hrun⟩ := Reading.moves_of_run hrun
  obtain ⟨r₃, move₃, hrun⟩ := Reading.moves_of_run hrun
  obtain ⟨r₄, hr₄, ha₄⟩ := h hsp (ha.clause hl₁ hl₃ move₁ move₂ move₃) hrun
  refine ⟨r₄, ?_, ha₄⟩
  simp only [List.length_cons, List.take_succ_cons]
  rw [Reading.run_of_moves move₁, Reading.run_of_moves move₂, Reading.run_of_moves move₃, hr₄]

/-- **The pass and the reader keep step.** -/
theorem keepsStep_of_run (hs : s.run ws = some s') : KeepsStep v s s' ws := by
  induction s, ws using run.induct with
  | case1 s =>
    rw [run] at hs
    cases hs
    intro rest names items r r' _ ha _
    exact ⟨r, rfl, ha⟩
  | case2 s x a ws ih =>
    rw [run] at hs
    exact keepsStep_clause (ih hs)
  | case3 s ws ih =>
    rw [run] at hs
    exact keepsStep_mark Agrees.enter (ih hs)
  | case4 s c ws ih =>
    rw [run] at hs
    exact keepsStep_mark Agrees.hold (ih hs)
  | case5 s ws hdepth =>
    rw [run, if_pos hdepth] at hs
    cases hs
  | case6 s ws hdepth ih =>
    rw [run, if_neg hdepth] at hs
    exact keepsStep_mark Agrees.leave (ih hs)
  | case7 ws s h₁ h₂ h₃ h₄ h₅ =>
    rw [run] at hs
    · cases hs
    all_goals assumption

end

/-! ### Premises -/

section
variable {v : Option Vocabulary} {s : Pass} {names : List Text} {items : List (Token × Lexer)}
  {r' : Reading} {words rest : List Lexeme}

/-- The pass and the reader of a whole rule keep step. -/
theorem exists_agrees
    (h : Spells names items (.mark .start :: .mark .ifWord :: (words ++ rest)))
    (hrun : Reading.init.run v items = (r', none)) (hs : init.run words = some s) :
    ∃ r, Reading.init.run v (items.take (words.length + 2)) = (r, none) ∧ s.Agrees r := by
  obtain ⟨l₁, items, rfl, -, h⟩ := h.of_mark
  obtain ⟨l₂, items, rfl, -, h⟩ := h.of_mark
  have move₁ : Reading.Moves v l₁ Reading.init .start (Reading.init.accept .start .ifWord) :=
    .start rfl
  have move₂ : Reading.Moves v l₂ (Reading.init.accept .start .ifWord) .ifWord
      ((Reading.init.accept .start .ifWord).accept .ifWord .operand) := .ifWord rfl
  rw [Reading.run_of_moves move₁, Reading.run_of_moves move₂] at hrun
  obtain ⟨r, hr, ha⟩ := keepsStep_of_run hs h ⟨rfl, Or.inl rfl, rfl, rfl, rfl, rfl⟩ hrun
  refine ⟨r, ?_, ha⟩
  rw [List.take_succ_cons, List.take_succ_cons, Reading.run_of_moves move₁,
    Reading.run_of_moves move₂, hr]

/-- What the pass holds at the end of a premise the reader holds behind `then`. -/
theorem exists_behind_then
    (h : Spells names items
      (.mark .start :: .mark .ifWord :: (words ++ .mark .thenWord :: rest)))
    (hrun : Reading.init.run v items = (r', none)) (hs : init.run words = some s) :
    s.depth = 0 ∧ ∃ r, Reading.init.run v (items.take (words.length + 3)) = (r, none) ∧
      r.side = .conclusion ∧ r.held = s.held ∧ r.conclusion = [] := by
  obtain ⟨r, hr, ha⟩ := exists_agrees h hrun hs
  have hsplit : Spells names items
      ((.mark .start :: .mark .ifWord :: words) ++ (.mark .thenWord :: rest)) := h
  obtain ⟨items₁, names', items₂, rfl, h₁, h₂⟩ := hsplit.of_append
  have hlen : items₁.length = words.length + 2 := h₁.length_eq
  obtain ⟨l, items₃, rfl, -, -⟩ := h₂.of_mark
  rw [List.take_left' hlen] at hr
  rw [Reading.run_append hr] at hrun
  obtain ⟨r₁, move, -⟩ := Reading.moves_of_run hrun
  obtain ⟨hdepth, rfl⟩ := ha.thenWord move
  have htake : (items₁ ++ (.thenWord, l) :: items₃).take (words.length + 3) =
      items₁ ++ [(.thenWord, l)] := by
    rw [List.take_append, hlen, List.take_of_length_le (by omega)]
    simp
  refine ⟨hdepth, ({ r with side := .conclusion }).accept .thenWord .operand, ?_, rfl, ha.held,
    ha.conclusion⟩
  rw [htake, Reading.run_append hr, Reading.run_of_moves move]
  rfl

end

end Pass

/-- No phrase holds `then`. -/
theorem Phrase.thenWord_notMem {n : Nonterminal} (p : Phrase n) :
    .mark .thenWord ∉ p.lexemes := by
  induction p with
  | clause x a => simp [lexemes]
  | group first c rest ih₁ ih₂ => simp [lexemes, ih₁, ih₂]
  | single o ih => exact ih
  | join o c rest ih₁ ih₂ => simp [lexemes, ih₁, ih₂]

/-- The reader behind `then`, if nothing of the premise were left. -/
def Reading.conclusionInit : Reading := ⟨.operand, .conclusion, [], [], [], [], []⟩

/-- Read alone, the conclusion of a rule is written as it is behind the premise. -/
theorem Reading.run_conclusionInit {v : Option Vocabulary} {text : Text} {p : Phrase .row}
    {c : LooseRow} (hlex : (Lexer.ofText text).tokens.2 = none)
    (hws : (Lexer.ofText text).lexemes = sentence p c)
    (hu : c.clauses.findSome? (unknown? v) = none) :
    (conclusionInit.run v ((Lexer.ofText text).tokens.1.drop (p.lexemes.length + 3))).1.conclusion =
      c.postfixForm := by
  have hsp : Spells [] (Lexer.ofText text).tokens.1 (sentence p c) :=
    hws ▸ spells_tokens (Lexer.ofText text)
  have hsplit : Spells [] (Lexer.ofText text).tokens.1
      ((.mark .start :: .mark .ifWord :: (p.lexemes ++ [.mark .thenWord])) ++
        (c.lexemes ++ [.mark .finish])) := by
    simpa [sentence] using hsp
  obtain ⟨items₁, names, items₂, hitems, h₁, h₂⟩ := hsplit.of_append
  have hlen : items₁.length = p.lexemes.length + 3 := by
    rw [h₁.length_eq]
    simp
  have hp := passes_conclusion (v := v) c (r := conclusionInit) rfl rfl rfl rfl
    (finish_notMem hlex hws) h₂
  rw [hu] at hp
  have hrun : conclusionInit.run v items₂ = (conclusionInit.afterConclusion c, none) := hp
  rw [hitems, List.drop_left' hlen, hrun]
  rfl

/-- **The premise of a rule that has been read without error is what the pass writes** over the
lexemes between `if` and `then`. The reader keeps step with the pass; both hold nothing outside all
groups, and so nothing is held behind `then`: the conclusion is what it would be if it were read
alone. -/
theorem premise_eq_pass {v : Option Vocabulary} {text : Text} {attached : Bool}
    (h : ((ofText text attached).parse v).status = .done) :
    let rule := (ofText text attached).parse v
    let tokens := (Lexer.ofText rule.text).tokens.1
    ∃ words rest,
      rule.lexemes = .mark .start :: .mark .ifWord :: (words ++ .mark .thenWord :: rest) ∧
      .mark .thenWord ∉ words ∧
      Pass.init.run words = some ⟨0, [], rule.premise⟩ ∧
      (∀ before after s, words = before ++ after → Pass.init.run before = some s →
        (s.depth = 0 → s.held = []) ∧
        ∃ r, Reading.init.run v (tokens.take (before.length + 2)) = (r, none) ∧ s.Agrees r) ∧
      ∃ r, Reading.init.run v (tokens.take (words.length + 3)) = (r, none) ∧
        r.side = .conclusion ∧ r.held = [] ∧ r.conclusion = [] ∧
        (Reading.conclusionInit.run v (tokens.drop (words.length + 3))).1.conclusion =
          rule.conclusion := by
  intro rule tokens
  obtain ⟨hlex, p, c, hws, hu⟩ := status_parse_done_iff.mp h
  have hrule : rule = readAs text attached p c := parse_sentence hlex hws hu
  have hrun : Reading.init.run v tokens = (Reading.ofSentence p c, none) := by
    have hp := Reading.passes_tokens v hlex hws
    rw [hu] at hp
    exact hp
  have hsp : Spells [] tokens (sentence p c) := hws ▸ spells_tokens (Lexer.ofText rule.text)
  have hpass : Pass.init.run p.lexemes = some ⟨0, [], p.postfixForm⟩ := by
    have hp := Pass.run_premise p [] []
    rwa [List.append_nil, List.nil_append, Pass.run] at hp
  have hconclusion : (Reading.conclusionInit.run v
      (tokens.drop (p.lexemes.length + 3))).1.conclusion = c.postfixForm := by
    rw [List.findSome?_append, Option.or_eq_none_iff] at hu
    exact Reading.run_conclusionInit hlex hws hu.2
  have hwords : rule.lexemes = sentence p c := hws
  refine ⟨p.lexemes, c.lexemes ++ [Lexeme.mark .finish], hwords, p.thenWord_notMem, ?_, ?_, ?_⟩
  · rw [hrule]
    exact hpass
  · intro before after s hsplit hs
    refine ⟨Pass.idle_of_run (fun _ => rfl) hs, ?_⟩
    unfold sentence at hsp
    rw [hsplit, List.append_assoc] at hsp
    exact Pass.exists_agrees hsp hrun hs
  · obtain ⟨-, r, hr, hside, hheld, hnone⟩ := Pass.exists_behind_then hsp hrun hpass
    refine ⟨r, hr, hside, hheld, hnone, ?_⟩
    rw [hconclusion, hrule]
    rfl

/-- An inner group lets go of the connective of the outer one. -/
theorem premise_of_nested_groups :
    let rule := (ofText "if (x is a or (x is b and x is c)) then y is d" true).parse none
    rule.status = .done ∧
      ∃ words rest, rule.lexemes =
        .mark .start :: .mark .ifWord :: (words ++ .mark .thenWord :: rest) ∧
        Pass.init.run words = some ⟨0, [], rule.premise⟩ := by
  have h : ((ofText "if (x is a or (x is b and x is c)) then y is d" true).parse none).status =
      .done := by decide +kernel
  obtain ⟨words, rest, hwords, -, hpass, -⟩ := premise_eq_pass h
  exact ⟨h, words, rest, hwords, hpass⟩

end FuzzyInference.Rule
