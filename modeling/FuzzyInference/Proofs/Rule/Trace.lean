import FuzzyInference.Proofs.Rule.Acceptance
import FuzzyInference.Proofs.Rule.Printing

/-!
# The trace of a reading

A rule notes the tokens that have been accepted. These are the first tokens of its text, and all of
them exactly if the rule is done. Where a token may not stand, the tokens before it can still be
brought to the end of a rule, and with it they cannot: what has been accepted is all that the error
leaves.

* `scan_cases`: the tokens of a rule's text begin with the start, and end with the end unless there
  is a lexical error;
* `Reading.Stage`, `moves_of_stage`, `run_of_stage`: which tokens are accepted without a vocabulary
  depends on what is expected, on the side and on the open groups only;
* `exists_awaits`: **wherever a reading stands within a rule, something brings it to the end**;
* `exists_text`: **tokens can be written**;
* `trace_of_parse`: the trace of a rule that is read for the first time.
-/

namespace FuzzyInference.Rule

/-- The token stands between the start and the end. -/
def Token.IsInner (t : Token) : Prop := t ≠ .start ∧ t ≠ .finish

instance (t : Token) : Decidable t.IsInner := inferInstanceAs (Decidable (_ ∧ _))

/-! ### The tokens of a text -/

/-- **The tokens of a rule's text** are the start, others and the end, which is missing if there is a
lexical error. -/
theorem scan_cases (r : Rule) : ∃ ts, (∀ t ∈ ts, t.IsInner) ∧
    (r.scan = (.start :: (ts ++ [.finish]), none) ∨
      ∃ k, r.scan = (.start :: ts, some (.illegalName k))) := by
  obtain ⟨ls, rest, h⟩ := exists_munch (Text.lowercase (Text.trim r.text)).toList
  have hinner : ∀ t ∈ ls.map Lexeme.token, t.IsInner := List.forall_mem_map.mpr fun x hx =>
    ⟨h.token_ne_start x hx, h.token_ne_finish x hx⟩
  obtain ⟨hend, herror⟩ := Lexer.types_ofText h
  refine ⟨ls.map Lexeme.token, hinner, ?_⟩
  by_cases hends : Lexer.Ends rest
  · obtain ⟨htypes, hnone⟩ := hend hends
    exact Or.inl (Prod.ext htypes hnone)
  · obtain ⟨htypes, k, hk⟩ := herror hends
    exact Or.inr ⟨k, Prod.ext htypes hk⟩

namespace Reading

/-! ### Stages -/

/-- What decides which tokens may follow. -/
def stage (r : Reading) : Expected × Side × List Bool := (r.expected, r.side, r.groups)

/-- **What is accepted somewhere is accepted everywhere at the same stage**, if names need not be
defined and one has been found behind a name. -/
theorem moves_of_stage {v : Option Vocabulary} {q q' r : Reading} {t : Token} {l l' : Lexer}
    (h : Moves v l' q t q') (hstage : r.stage = q.stage) (hname : t = .ident → l.names ≠ []) :
    ∃ r', Moves none l r t r' ∧ r'.stage = q'.stage := by
  obtain ⟨hr, hs, hg⟩ : r.expected = q.expected ∧ r.side = q.side ∧ r.groups = q.groups := by
    simpa [stage] using hstage
  -- The step is the same one; what it leaves alone was the same before.
  cases h with
  | start h => exact ⟨_, .start (hr.trans h), by simp [stage, accept, hs, hg]⟩
  | ifWord h => exact ⟨_, .ifWord (hr.trans h), by simp [stage, accept, hs, hg]⟩
  | leftPar h => exact ⟨_, .leftPar (hr.trans h), by simp [stage, accept, hs, hg]⟩
  | name h =>
    obtain ⟨x, names, hnames⟩ := List.exists_cons_of_ne_nil (hname rfl)
    have hx : l.identifier? = some x := by simp [Lexer.identifier?, hnames]
    exact ⟨_, .name (hr.trans h) hx rfl, by simp [stage, accept, hs, hg]⟩
  | isWord h => exact ⟨_, .isWord (hr.trans h), by simp [stage, accept, hs, hg]⟩
  | term h =>
    obtain ⟨a, names, hnames⟩ := List.exists_cons_of_ne_nil (hname rfl)
    have ha : l.identifier? = some a := by simp [Lexer.identifier?, hnames]
    obtain ⟨x, hx⟩ : ∃ x, l.lastIdentifier? = some x := by
      simp [Lexer.lastIdentifier?, hnames, List.getLast?_cons]
    exact ⟨_, .term (hr.trans h) hx ha rfl, by simp [stage, accept, hs, hg]⟩
  | connective c h hopen =>
    exact ⟨_, .connective c (hr.trans h) (hg.trans hopen), by simp [stage, accept, hs]⟩
  | rightPar h hopen =>
    refine ⟨_, .rightPar (hr.trans h) (hg.trans hopen), ?_⟩
    simp [stage, accept, release, hs]
  | premiseJoint c h hopen hside =>
    refine ⟨_, .premiseJoint c (hr.trans h) (hg.trans hopen) (hs.trans hside), ?_⟩
    simp [stage, accept, hs, hg]
  | thenWord h hopen hside =>
    refine ⟨_, .thenWord (hr.trans h) (hg.trans hopen) (hs.trans hside), ?_⟩
    simp [stage, accept, hg]
  | conclusionJoint h hopen hside ht =>
    refine ⟨_, .conclusionJoint (hr.trans h) (hg.trans hopen) (hs.trans hside) ht, ?_⟩
    simp [stage, accept, hs, hg]
  | finish h hopen hside =>
    refine ⟨_, .finish (hr.trans h) (hg.trans hopen) (hs.trans hside), ?_⟩
    simp [stage, accept, hs, hg]

/-- **The same tokens are accepted from the same stage.** -/
theorem run_of_stage {v : Option Vocabulary} {q' : Reading} :
    ∀ {items items' : List (Token × Lexer)} {q r : Reading}, q.run v items' = (q', none) →
      items.map (·.1) = items'.map (·.1) → r.stage = q.stage →
      (∀ i ∈ items, i.1 = .ident → i.2.names ≠ []) →
      ∃ r', r.run none items = (r', none) ∧ r'.stage = q'.stage
  | [], items', q, r, hrun, htypes, hstage, _ => by
    obtain rfl : items' = [] := List.map_eq_nil_iff.mp htypes.symm
    cases hrun
    exact ⟨r, rfl, hstage⟩
  | (t, l) :: items, items', q, r, hrun, htypes, hstage, hnames => by
    obtain ⟨⟨t', l'⟩, items', rfl, ht, htypes'⟩ := List.map_eq_cons_iff.mp htypes.symm
    obtain rfl : t' = t := ht
    obtain ⟨hname, hnames⟩ := List.forall_mem_cons.mp hnames
    obtain ⟨q₁, move, hrun⟩ := moves_of_run hrun
    obtain ⟨r₁, move, hstage⟩ := moves_of_stage move hstage hname
    obtain ⟨r', hrun, hstage⟩ := run_of_stage hrun htypes'.symm hstage hnames
    exact ⟨r', (run_of_moves move).trans hrun, hstage⟩

/-! ### What brings a reading to the end -/

/-- A clause to fill in. -/
def filler : Phrase .operand := .clause "x" "x"

/-- Behind an operand, the groups can be closed and the side can be brought to its end. -/
theorem exists_closes (side : Side) : ∀ groups : List Bool, ∃ ws,
    Closes side groups (ws ++ [.mark .finish]) ∧ ∀ w ∈ ws, w.token.IsInner
  | [] => by
    cases side with
    | premise =>
      exact ⟨.mark .thenWord :: filler.lexemes, Or.inl ⟨.single filler, rfl⟩, by decide⟩
    | conclusion => exact ⟨[], Or.inl rfl, by decide⟩
  | joined :: outer => by
    obtain ⟨ws, hws, hinner⟩ := exists_closes side outer
    -- A group is closed behind one more connective, since it may still be without one.
    refine ⟨.mark (.connective .and) :: (filler.lexemes ++ .mark .rightPar :: ws),
      ⟨_, hws, Or.inr ⟨.and, .single filler, by simp [Phrase.lexemes]⟩⟩, ?_⟩
    refine List.forall_mem_cons.mpr ⟨by decide, List.forall_mem_append.mpr ⟨by decide, ?_⟩⟩
    exact List.forall_mem_cons.mpr ⟨by decide, hinner⟩

/-- **Wherever a reading stands within a rule, something brings it to the end.** -/
theorem exists_awaits {r : Reading} (hstart : r.expected ≠ .start) (hend : r.expected ≠ .nothing) :
    ∃ ws, r.Awaits (ws ++ [.mark .finish]) ∧ ∀ w ∈ ws, w.token.IsInner := by
  obtain ⟨ws, hws, hinner⟩ := exists_closes r.side r.groups
  have hfiller : ∀ w ∈ filler.lexemes ++ ws, w.token.IsInner :=
    List.forall_mem_append.mpr ⟨by decide, hinner⟩
  unfold Awaits
  cases hr : r.expected with
  | start => exact absurd hr hstart
  | nothing => exact absurd hr hend
  | ifWord =>
    exact ⟨.mark .ifWord :: (filler.lexemes ++ ws), ⟨filler, _, by simp, hws⟩,
      List.forall_mem_cons.mpr ⟨by decide, hfiller⟩⟩
  | operand => exact ⟨filler.lexemes ++ ws, ⟨filler, _, by simp, hws⟩, hfiller⟩
  | isWord =>
    exact ⟨.mark .isWord :: .name "x" :: ws, ⟨"x", _, rfl, hws⟩,
      List.forall_mem_cons.mpr ⟨by decide, List.forall_mem_cons.mpr ⟨by decide, hinner⟩⟩⟩
  | term =>
    exact ⟨.name "x" :: ws, ⟨"x", _, rfl, hws⟩, List.forall_mem_cons.mpr ⟨by decide, hinner⟩⟩
  | joint => exact ⟨ws, hws, hinner⟩

/-- Within a rule more is expected, and not the start. -/
theorem expected_of_run {v : Option Vocabulary} {r' : Reading} :
    ∀ {items : List (Token × Lexer)} {r : Reading}, r.run v items = (r', none) →
      (∀ i ∈ items, i.1 ≠ .finish) → r.expected ≠ .start → r.expected ≠ .nothing →
      r'.expected ≠ .start ∧ r'.expected ≠ .nothing
  | [], r, h, _, hstart, hend => by
    cases h
    exact ⟨hstart, hend⟩
  | (t, l) :: items, r, h, hfinish, _, _ => by
    obtain ⟨r₁, move, h⟩ := moves_of_run h
    obtain ⟨ht, hfinish⟩ := List.forall_mem_cons.mp hfinish
    refine expected_of_run h hfinish (fun hr => ?_) fun hr => ht ?_
    · cases move <;> cases hr
    · cases move <;> first | rfl | cases hr

end Reading

/-! ### Texts of tokens -/

/-- A lexeme of the token. -/
def Lexeme.ofToken : Token → Lexeme
  | .ident => .name "x"
  | t => .mark t

theorem Lexeme.token_ofToken (t : Token) : (Lexeme.ofToken t).token = t := by
  cases t <;> rfl

/-- What stands between the start and the end can be written in small letters. -/
theorem isPlain_ofToken {t : Token} (h : t.IsInner) : (Lexeme.ofToken t).IsPlain := by
  have hkeyword : ∀ {k}, k ∈ Token.keywords → Writes (.mark k.2) k.1.toList := fun hk =>
    .keyword hk (List.forall₂_same.mpr fun c _ => Or.inl rfl)
  cases t with
  | start => exact absurd rfl h.1
  | finish => exact absurd rfl h.2
  | leftPar => exact ⟨_, .leftPar, by decide⟩
  | rightPar => exact ⟨_, .rightPar, by decide⟩
  | ident =>
    exact ⟨['x'], @writes_ofWord 'x' [] rfl (by decide), by decide⟩
  | ifWord => exact ⟨_, hkeyword (k := ("if", _)) (by decide), by decide⟩
  | isWord => exact ⟨_, hkeyword (k := ("is", _)) (by decide), by decide⟩
  | thenWord => exact ⟨_, hkeyword (k := ("then", _)) (by decide), by decide⟩
  | connective c =>
    cases c with
    | and => exact ⟨_, hkeyword (k := ("and", _)) (by decide), by decide⟩
    | or => exact ⟨_, hkeyword (k := ("or", _)) (by decide), by decide⟩

/-- **Tokens can be written**: a rule with the given tokens. -/
theorem exists_text {ts : List Token} (h : ∀ t ∈ ts, t.IsInner) (attached : Bool) :
    ∃ text, (ofText text attached).scan = (.start :: (ts ++ [.finish]), none) := by
  have hplain : ∀ x ∈ ts.map Lexeme.ofToken, x.IsPlain :=
    List.forall_mem_map.mpr fun t ht => isPlain_ofToken (h t ht)
  obtain ⟨text, hprinted, hlower⟩ := exists_printed hplain
  have htokens : (ts.map Lexeme.ofToken).map Lexeme.token = ts := by
    rw [List.map_map]
    exact (List.map_congr_left fun t _ => Lexeme.token_ofToken t).trans (List.map_id ts)
  obtain ⟨htypes, hnone⟩ := (Lexer.types_ofText (munch_of_printed hprinted)).1 Lexer.ends_nil
  refine ⟨text, ?_⟩
  unfold scan ofText
  dsimp only
  rw [hlower, htypes, hnone, htokens]

/-! ### The trace of a rule -/

/-- **A reading notes all tokens, or those before the token that is rejected.** -/
theorem trace_cases (v : Option Vocabulary) (r : Rule) :
    ((Reading.ofText v r.text).1.tokens = r.scan.1 ∧ (Reading.ofText v r.text).2 = r.scan.2) ∨
    ∃ before t l behind e, (Lexer.ofText r.text).tokens.1 = before ++ (t, l) :: behind ∧
      Reading.init.run v before = ((Reading.ofText v r.text).1, none) ∧
      (Reading.ofText v r.text).1.step v t l = .error e ∧
      (Reading.ofText v r.text).2 = some e := by
  unfold Reading.ofText scan
  dsimp only
  rcases hrun : Reading.init.run v (Lexer.ofText r.text).tokens.1 with ⟨q, error⟩
  cases error with
  | none => exact Or.inl ⟨Reading.tokens_of_run hrun, rfl⟩
  | some e =>
    obtain ⟨before, t, l, behind, hitems, hbefore, he⟩ := Reading.cut_of_run hrun
    exact Or.inr ⟨before, t, l, behind, e, hitems, hbefore, he, rfl⟩

/-- The end is among the tokens of a text unless there is a lexical error. -/
theorem finish_mem_scan_iff (r : Rule) : .finish ∈ r.scan.1 ↔ r.scan.2 = none := by
  obtain ⟨ts, hinner, hscan | ⟨k, hscan⟩⟩ := scan_cases r
  · rw [hscan]
    simp
  · rw [hscan]
    have hnot : Token.finish ∉ ts := fun h => (hinner _ h).2 rfl
    simp [hnot]

section
variable {text : Text} {attached : Bool}

theorem tokens_parse (v : Option Vocabulary) :
    ((ofText text attached).parse v).tokens =
      (Reading.ofText v (ofText text attached).text).1.tokens := by
  rw [parse_ofText]

/-- **The trace of a fresh rule** are the first tokens of its text, and all of them up to the end
exactly if it is done. -/
theorem tokens_parse_prefix (v : Option Vocabulary) :
    ((ofText text attached).parse v).tokens <+: (ofText text attached).scan.1 ∧
    (((ofText text attached).parse v).status = .done ↔
      ((ofText text attached).parse v).tokens = (ofText text attached).scan.1 ∧
        .finish ∈ (ofText text attached).scan.1) := by
  rw [tokens_parse, status_parse_done_iff_reading, finish_mem_scan_iff]
  obtain ⟨htokens, herror⟩ | ⟨before, t, l, behind, e, hitems, hrun, -, herror⟩ :=
    trace_cases v (ofText text attached)
  · rw [htokens, herror]
    exact ⟨List.prefix_rfl, (and_iff_right rfl).symm⟩
  · have htokens := Reading.tokens_of_run hrun
    have hscan : (ofText text attached).scan.1 =
        before.map (·.1) ++ t :: behind.map (·.1) := by
      unfold scan
      rw [hitems, List.map_append, List.map_cons]
    rw [htokens, hscan, herror]
    refine ⟨⟨_, rfl⟩, iff_of_false (fun h => by cases h) fun ⟨hall, _⟩ => ?_⟩
    have hlength := congrArg List.length hall
    simp [Reading.init] at hlength

end

section
variable {r : Rule} {before behind : List (Token × Lexer)} {t : Token} {l : Lexer} {q : Reading}
  {e : Error}

/-- What is accepted before a token that is rejected: the start, and tokens within a rule. -/
theorem types_before (hitems : (Lexer.ofText r.text).tokens.1 = before ++ (t, l) :: behind)
    (hrun : Reading.init.run none before = (q, none)) (he : q.step none t l = .error e) :
    ∃ l₀ inner, before = (.start, l₀) :: inner ∧ ∀ i ∈ inner, i.1.IsInner := by
  have hscan : r.scan.1 = before.map (·.1) ++ t :: behind.map (·.1) := by
    unfold scan
    rw [hitems, List.map_append, List.map_cons]
  obtain ⟨ts, hinner, hts⟩ := scan_cases r
  obtain ⟨last, hts, hlast⟩ : ∃ last, r.scan.1 = .start :: (ts ++ last) ∧ last.length ≤ 1 := by
    obtain hts | ⟨k, hts⟩ := hts
    · exact ⟨[.finish], by rw [hts], le_refl 1⟩
    · exact ⟨[], by rw [hts, List.append_nil], Nat.zero_le 1⟩
  rw [hscan] at hts
  cases before with
  | nil =>
    -- The start is never rejected.
    cases hrun
    obtain rfl : t = .start := (List.cons.inj hts).1
    cases he
  | cons i inner =>
    obtain ⟨t₀, l₀⟩ := i
    obtain ⟨hstart, hrest⟩ := List.cons.inj hts
    obtain rfl : t₀ = .start := hstart
    have hprefix : inner.map (·.1) <+: ts ++ last := ⟨_, hrest⟩
    have hlength := congrArg List.length hts
    simp only [List.length_append, List.length_cons, List.length_map] at hlength
    have hle : (inner.map (·.1)).length ≤ ts.length := by
      rw [List.length_map]
      omega
    have hshort := List.prefix_of_prefix_length_le hprefix (List.prefix_append ts last) hle
    exact ⟨l₀, inner, rfl, fun i hi => hinner _ (hshort.subset (List.mem_map_of_mem hi))⟩

/-- **What has been accepted can be brought to the end of a rule.** -/
theorem exists_completion (hitems : (Lexer.ofText r.text).tokens.1 = before ++ (t, l) :: behind)
    (hrun : Reading.init.run none before = (q, none)) (he : q.step none t l = .error e) :
    ∃ text, ((ofText text false).parse none).status = .done ∧
      before.map (·.1) <+: (ofText text false).scan.1 := by
  obtain ⟨l₀, inner, rfl, hinner⟩ := types_before hitems hrun he
  obtain ⟨q₀, move, hrun'⟩ := Reading.moves_of_run hrun
  have hq₀ : q₀.expected = .ifWord := by
    cases move with
    | start => rfl
    | conclusionJoint h => cases h
  obtain ⟨hstart, hend⟩ := Reading.expected_of_run hrun' (fun i hi => (hinner i hi).2)
    (by rw [hq₀]; decide) (by rw [hq₀]; decide)
  obtain ⟨ws, hawaits, hws⟩ := Reading.exists_awaits hstart hend
  have hspells := spells_tokens (Lexer.ofText r.text)
  rw [hitems] at hspells
  obtain ⟨ws₀, -, -, hspells⟩ := hspells.cut
  obtain ⟨p, c, hsentence⟩ :=
    Reading.sentence_of_awaits (Reading.awaits_append hspells hrun hawaits)
  -- The tokens of this sentence are those of another text.
  have htypes := isRule_sentence p c
  rw [← hsentence, List.map_append, List.map_append, hspells.map_token] at htypes
  have hall : ∀ t ∈ inner.map (·.1) ++ ws.map Lexeme.token, t.IsInner :=
    List.forall_mem_append.mpr ⟨List.forall_mem_map.mpr hinner, List.forall_mem_map.mpr hws⟩
  obtain ⟨text, hscan⟩ := exists_text hall false
  refine ⟨text, (status_parse_none text false).1.mpr ?_, ?_⟩
  · rw [hscan]
    exact ⟨rfl, by simpa [Lexeme.token] using htypes⟩
  · rw [hscan]
    exact ⟨ws.map Lexeme.token ++ [.finish], by simp⟩

/-- **What is rejected where names need not be defined is rejected everywhere** behind the same
tokens. -/
theorem not_prefix_of_rejected
    (hitems : (Lexer.ofText r.text).tokens.1 = before ++ (t, l) :: behind)
    (hrun : Reading.init.run none before = (q, none)) (he : q.step none t l = .error e)
    {v : Option Vocabulary} {text : Text} {attached : Bool}
    (hdone : ((ofText text attached).parse v).status = .done) :
    ¬ before.map (·.1) ++ [t] <+: (ofText text attached).scan.1 := by
  rintro ⟨ts, hts⟩
  rw [status_parse_done_iff_reading] at hdone
  rcases hall : Reading.init.run v (Lexer.ofText (ofText text attached).text).tokens.1
    with ⟨q', error⟩
  obtain rfl : error = none := by
    have hor := (Option.or_eq_none_iff.mp hdone).1
    rwa [hall] at hor
  -- The other rule begins with the same tokens, and there they are accepted.
  obtain ⟨items₁, items₂, hsplit, htypes, -⟩ := List.map_eq_append_iff.mp hts.symm
  rw [hsplit] at hall
  obtain ⟨q₁, hrun₁, -⟩ := Reading.run_append_ok hall
  have hnames : ∀ i ∈ before ++ [(t, l)], i.1 = .ident → i.2.names ≠ [] := by
    have hspells := spells_tokens (Lexer.ofText r.text)
    rw [hitems] at hspells
    exact fun i hi => hspells.names_ne_nil i (by simp at hi ⊢; tauto)
  have hsame : (before ++ [(t, l)]).map (·.1) = items₁.map (·.1) := by
    rw [htypes, List.map_append]
    rfl
  obtain ⟨q₂, hrun₂, -⟩ := Reading.run_of_stage hrun₁ hsame rfl hnames
  rw [Reading.run_append hrun, Reading.run_of_error he] at hrun₂
  cases hrun₂

end

/-- **The trace of a rule.** What a fresh rule notes are the first tokens of its text, and all of
them up to the end exactly if the rule is done. If it ends, without a vocabulary, in an error of the
order of its tokens, then what it has noted can be continued to the tokens of a rule that is done,
and together with the next token it cannot. -/
theorem trace_of_parse (text : Text) (attached : Bool) :
    (∀ v, ((ofText text attached).parse v).tokens <+: (ofText text attached).scan.1 ∧
      (((ofText text attached).parse v).status = .done ↔
        ((ofText text attached).parse v).tokens = (ofText text attached).scan.1 ∧
          .finish ∈ (ofText text attached).scan.1)) ∧
    ∀ e : Error, ((ofText text attached).parse none).error = some e → e.isSyntax = true →
      (∃ text', ((ofText text' false).parse none).status = .done ∧
        ((ofText text attached).parse none).tokens <+: (ofText text' false).scan.1) ∧
      ∃ t, ((ofText text attached).parse none).tokens ++ [t] <+: (ofText text attached).scan.1 ∧
        ∀ v text' attached', ((ofText text' attached').parse v).status = .done →
          ¬ ((ofText text attached).parse none).tokens ++ [t] <+:
            (ofText text' attached').scan.1 := by
  refine ⟨fun v => tokens_parse_prefix v, fun e he hsyntax => ?_⟩
  rw [parse_ofText] at he
  rw [tokens_parse]
  obtain ⟨-, herror⟩ | ⟨before, t, l, behind, e', hitems, hrun, hstep, -⟩ :=
    trace_cases none (ofText text attached)
  · -- A lexical error is not one of the order of tokens.
    obtain ⟨ts, -, hscan | ⟨k, hscan⟩⟩ := scan_cases (ofText text attached)
    · rw [herror, hscan] at he
      cases he
    · rw [herror, hscan] at he
      cases he
      cases hsyntax
  · have htokens : (Reading.ofText none (ofText text attached).text).1.tokens =
        before.map (·.1) := Reading.tokens_of_run hrun
    rw [htokens]
    refine ⟨exists_completion hitems hrun hstep, t, ⟨behind.map (·.1), ?_⟩,
      fun v text' attached' hdone => not_prefix_of_rejected hitems hrun hstep hdone⟩
    unfold scan
    rw [hitems, List.map_append, List.map_cons, List.append_assoc]
    rfl

/-- A clause that has a variable and no term. -/
theorem trace_of_missing_term :
    ((ofText "if x is then" false).parse none).tokens = [.start, .ifWord, .ident, .isWord] ∧
    ∃ t, [.start, .ifWord, .ident, .isWord] ++ [t] <+: (ofText "if x is then" false).scan.1 ∧
      ∀ v text' attached', ((ofText text' attached').parse v).status = .done →
        ¬ [.start, .ifWord, .ident, .isWord] ++ [t] <+: (ofText text' attached').scan.1 := by
  have htokens : ((ofText "if x is then" false).parse none).tokens =
      [.start, .ifWord, .ident, .isWord] := by decide +kernel
  have herror : ((ofText "if x is then" false).parse none).error = some (.expected .ident) := by
    decide +kernel
  obtain ⟨-, h⟩ := trace_of_parse "if x is then" false
  obtain ⟨-, hrejected⟩ := h _ herror rfl
  rw [htokens] at hrejected
  exact ⟨htokens, hrejected⟩

end FuzzyInference.Rule
