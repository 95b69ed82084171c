import FuzzyInference.Proofs.Rule.Acceptance
import Mathlib.Logic.Function.Iterate

/-!
# Reading on demand

The reading of a rule is the same when its text is not cut into tokens beforehand. A reader has one
token in hand; when it has taken that one in, it calls the lexer for the next one, unless the end
has been found: then the lexer is not called any more, and the end stays in hand.

* `Reading.AsksName`, `Reading.AsksNameBefore`: when taking a token in asks the lexer for names;
  `Reading.step_congr`: it asks for nothing else;
* `Demand`, `Demand.turn`: a reader with a token in hand or one that has stopped, and what it does
  next;
* `Standing`: what the lexer behind the token in hand has found; every turn keeps it;
* `stops_of_standing`: **the reader stops where the reading of the tokens stops**, and each call
  brings the lexer nearer to the end;
* `parse_of_idle`: what becomes of an idle rule.
-/

namespace FuzzyInference.Rule

namespace Reading

variable {v : Option Vocabulary} {r r' : Reading} {t : Token} {l l' : Lexer}

/-! ### Questions to the lexer -/

/-- Taking the token in asks the lexer for the newest name. -/
def AsksName (r : Reading) (t : Token) : Prop :=
  t = .ident ∧ (r.expected = .operand ∨ r.expected = .term)

/-- Taking the token in asks the lexer for the name before the newest one. -/
def AsksNameBefore (r : Reading) (t : Token) : Prop := t = .ident ∧ r.expected = .term

/-- **Taking a token in asks the lexer for nothing else.** -/
theorem step_congr (hname : r.AsksName t → l'.identifier? = l.identifier?)
    (hbefore : r.AsksNameBefore t → l'.lastIdentifier? = l.lastIdentifier?) :
    r.step v t l' = r.step v t l := by
  by_cases ht : t = .ident
  · unfold step
    cases hr : r.expected with
    | operand =>
      rw [ht]
      dsimp only
      rw [hname ⟨ht, Or.inl hr⟩]
    | term => rw [hname ⟨ht, Or.inr hr⟩, hbefore ⟨ht, hr⟩]
    | _ => rfl
  · unfold step
    rw [if_neg ht, if_neg ht]
    cases t with
    | ident => exact absurd rfl ht
    | _ => rfl

/-- Only behind the end nothing is expected. -/
theorem eq_finish_of_moves (h : Moves v l r t r') (hr' : r'.expected = .nothing) :
    t = .finish := by
  cases h with
  | finish => rfl
  | _ => cases hr'

end Reading

/-! ### One turn -/

/-- A reader that calls for its tokens has one in hand, with the lexer behind it, or it has stopped.
Calls to the lexer are counted. -/
inductive Demand where
  | reading (r : Reading) (inHand : Token) (l : Lexer) (calls : ℕ)
  | stopped (r : Reading) (e : Option Error) (calls : ℕ)

namespace Demand

/-- Calls for the next token, unless the end has been found. -/
def fetch (r : Reading) (inHand : Token) (l : Lexer) (calls : ℕ) : Demand :=
  if l.hasMore then
    match l.next with
    | (.ok t, l) => .reading r t l (calls + 1)
    | (.error e, _) => .stopped r (some e) (calls + 1)
  else .reading r inHand l calls

/-- The reader before a text, which has called for the first token. -/
def start (text : Text) : Demand := fetch .init .start (.ofText text) 0

/-- Takes the token in hand in, and calls for the next one. -/
def turn (v : Option Vocabulary) : Demand → Demand
  | .stopped r e calls => .stopped r e calls
  | .reading r t l calls =>
    if r.expected = .nothing then .stopped r none calls
    else
      match r.step v t l with
      | .ok r => fetch r t l calls
      | .error e => .stopped r (some e) calls

section
variable {v : Option Vocabulary} {r r' : Reading} {t t' : Token} {l l' : Lexer} {e : Error}
  {calls : ℕ}

theorem fetch_of_ok (more : l.hasMore = true) (h : l.next = (.ok t', l')) :
    fetch r t l calls = .reading r t' l' (calls + 1) := by
  unfold fetch
  rw [if_pos more, h]

theorem fetch_of_error (more : l.hasMore = true) (h : l.next = (.error e, l')) :
    fetch r t l calls = .stopped r (some e) (calls + 1) := by
  unfold fetch
  rw [if_pos more, h]

theorem fetch_of_not_hasMore (h : l.hasMore = false) :
    fetch r t l calls = .reading r t l calls := by
  unfold fetch
  rw [h]
  rfl

theorem turn_of_nothing (hr : r.expected = .nothing) :
    turn v (.reading r t l calls) = .stopped r none calls :=
  if_pos hr

theorem turn_of_ok (hr : r.expected ≠ .nothing) (h : r.step v t l = .ok r') :
    turn v (.reading r t l calls) = fetch r' t l calls := by
  rw [turn, if_neg hr, h]

theorem turn_of_error (hr : r.expected ≠ .nothing) (h : r.step v t l = .error e) :
    turn v (.reading r t l calls) = .stopped r (some e) calls := by
  rw [turn, if_neg hr, h]

end

/-! ### What every turn keeps -/

/-- What the lexer behind the token in hand has found: the end, if that is the token, and as many
names as may be asked for. -/
structure Standing (r : Reading) (t : Token) (l : Lexer) : Prop where
  finish : t = .finish ↔ l.hasMore = false
  name : t = .ident → 1 ≤ l.names.length
  clause : r.expected = .isWord ∨ r.expected = .term →
    1 ≤ l.names.length ∧ (t = .ident → 2 ≤ l.names.length)

section
variable {v : Option Vocabulary} {r r' : Reading} {t t' : Token} {l l' : Lexer} {e : Error}

/-- Within a clause its variable has been found. -/
theorem Standing.found (h : Standing r t l) (move : Reading.Moves v l r t r')
    (hr' : r'.expected = .isWord ∨ r'.expected = .term) : 1 ≤ l.names.length := by
  cases move with
  | name => exact h.name rfl
  | isWord hr => exact (h.clause (Or.inl hr)).1
  | _ => rcases hr' with hr' | hr' <;> cases hr'

/-- The next token in hand. -/
theorem standing_of_next (hfound : r'.expected = .isWord ∨ r'.expected = .term → 1 ≤ l.names.length)
    (hnext : l.next = (.ok t', l')) : Standing r' t' l' := by
  rcases next_cases hnext with ⟨rfl, hphase, hnames⟩ | ⟨rfl, hphase, x, hnames⟩ |
    ⟨hfinish, hident, hphase, hnames⟩
  · refine ⟨?_, (fun h => by cases h), fun hr' => ⟨hnames ▸ hfound hr', fun h => by cases h⟩⟩
    simp [Lexer.hasMore, hphase]
  · have hlength : l'.names.length = l.names.length + 1 := by rw [hnames, List.length_cons]
    refine ⟨by simp [Lexer.hasMore, hphase], fun _ => by omega, fun hr' => ?_⟩
    have hone := hfound hr'
    exact ⟨by omega, fun _ => by omega⟩
  · refine ⟨by simp [Lexer.hasMore, hphase, hfinish], fun h => absurd h hident, fun hr' => ?_⟩
    exact ⟨hnames ▸ hfound hr', fun h => absurd h hident⟩

/-- The end stays in hand when it has been taken in. -/
theorem standing_of_finish (h : Standing r t l) (move : Reading.Moves v l r t r')
    (hmore : l.hasMore = false) : Standing r' t l := by
  obtain rfl := h.finish.mpr hmore
  have hr' := Reading.expected_of_finish move
  refine ⟨h.finish, h.name, fun hclause => ?_⟩
  rw [hr'] at hclause
  rcases hclause with hclause | hclause <;> cases hclause

end

/-- What a reader keeps: its token in hand is that of the lexer, and it has not stopped for a name
that is missing. -/
def Sound : Demand → Prop
  | .reading r t l _ => Standing r t l
  | .stopped _ e _ => e ≠ some .nameMissing

/-- The only errors of a lexer. -/
theorem next_error {l l' : Lexer} {e : Error} (h : l.next = (.error e, l')) :
    ∃ i, e = .illegalName i := by
  obtain ⟨phase, total, rest, names⟩ := l
  cases phase with
  | starting => cases h
  | finish => cases h
  | scanning =>
    simp only [Lexer.next] at h
    split at h
    · cases h
    · split_ifs at h
      · cases h
      · cases h
      · cases h
      · cases h
      · cases h
        exact ⟨_, rfl⟩

theorem sound_fetch {v : Option Vocabulary} {r r' : Reading} {t : Token} {l : Lexer}
    (h : Standing r t l) (move : Reading.Moves v l r t r') (calls : ℕ) :
    (fetch r' t l calls).Sound := by
  cases hmore : l.hasMore with
  | false =>
    rw [fetch_of_not_hasMore hmore]
    exact standing_of_finish h move hmore
  | true =>
    rcases hnext : l.next with ⟨answer, l'⟩
    cases answer with
    | ok t' =>
      rw [fetch_of_ok hmore hnext]
      exact standing_of_next (h.found move) hnext
    | error e =>
      obtain ⟨i, rfl⟩ := next_error hnext
      rw [fetch_of_error hmore hnext]
      exact fun h => by cases h

/-- **One turn.** -/
theorem sound_turn {d : Demand} (h : d.Sound) (v : Option Vocabulary) : (turn v d).Sound := by
  cases d with
  | stopped r e calls => exact h
  | reading r t l calls =>
    by_cases hr : r.expected = .nothing
    · rw [turn_of_nothing hr]
      exact fun h => by cases h
    · cases hs : r.step v t l with
      | ok r' =>
        rw [turn_of_ok hr hs]
        exact sound_fetch h (Reading.moves_of_step hs) calls
      | error e =>
        rw [turn_of_error hr hs]
        rintro ⟨⟩
        obtain hsyntax | ⟨x, hx⟩ | ⟨-, ht, hnames⟩ := Reading.error_of_step hs
        · cases hsyntax
        · cases hx
        · have hone := h.name ht
          rw [hnames] at hone
          exact absurd hone (by decide)

/-- **All turns.** -/
theorem sound_turns {d : Demand} (h : d.Sound) (v : Option Vocabulary) :
    ∀ n : ℕ, ((turn v)^[n] d).Sound
  | 0 => h
  | n + 1 => by
    rw [Function.iterate_succ_apply']
    exact sound_turn (sound_turns h v n) v

theorem sound_start (text : Text) : (start text).Sound := by
  refine standing_of_next (l := .ofText text) (fun h => ?_) rfl
  rcases h with h | h <;> cases h

/-! ### The last turn -/

/-- A lexer that has more has a token or an error to come. -/
theorem remaining_pos {l : Lexer} (h : l.hasMore = true) : 1 ≤ l.remaining := by
  obtain ⟨phase, total, rest, names⟩ := l
  cases phase with
  | starting => exact Nat.le_add_left 1 _
  | scanning => exact Nat.le_add_left 1 _
  | finish => cases h

/-- **The reader stops where the reading of the tokens stops**, and every call brings the lexer
nearer to the end. -/
theorem stops_of_standing {v : Option Vocabulary} {r : Reading} {t : Token} {l : Lexer}
    (hr : r.expected ≠ .nothing) (h : Standing r t l) (calls : ℕ) :
    ∃ n, ∃ calls' ≤ calls + l.remaining, (turn v)^[n] (.reading r t l calls) =
      .stopped (r.run v ((t, l) :: l.tokens.1)).1
        ((r.run v ((t, l) :: l.tokens.1)).2.or l.tokens.2) calls' := by
  cases hs : r.step v t l with
  | error e =>
    refine ⟨1, calls, Nat.le_add_right _ _, ?_⟩
    rw [Reading.run_of_error hs]
    exact turn_of_error hr hs
  | ok r' =>
    have move := Reading.moves_of_step hs
    rw [Reading.run_of_moves move]
    cases hmore : l.hasMore with
    | false =>
      -- The end has been taken in, so nothing is expected and nothing is called for.
      obtain rfl := h.finish.mpr hmore
      refine ⟨2, calls, Nat.le_add_right _ _, ?_⟩
      rw [tokens_of_not_hasMore (by rw [hmore]; exact Bool.false_ne_true)]
      show turn v (turn v (.reading r .finish l calls)) = _
      rw [turn_of_ok hr hs, fetch_of_not_hasMore hmore,
        turn_of_nothing (Reading.expected_of_finish move)]
      rfl
    | true =>
      have hr' : r'.expected ≠ .nothing := fun hr' => by
        have hfalse := h.finish.mp (Reading.eq_finish_of_moves move hr')
        rw [hmore] at hfalse
        cases hfalse
      rcases hnext : l.next with ⟨answer, l'⟩
      cases answer with
      | error e =>
        refine ⟨1, calls + 1, Nat.add_le_add_left (remaining_pos hmore) calls, ?_⟩
        rw [tokens_of_error hmore hnext]
        exact (turn_of_ok hr hs).trans (fetch_of_error hmore hnext)
      | ok t' =>
        have hlt := Lexer.remaining_next_lt hnext hmore
        obtain ⟨n, calls', hcalls, hstop⟩ :=
          stops_of_standing (v := v) hr' (standing_of_next (h.found move) hnext) (calls + 1)
        refine ⟨n + 1, calls', by omega, ?_⟩
        rw [tokens_of_ok hmore hnext, Function.iterate_succ_apply, turn_of_ok hr hs,
          fetch_of_ok hmore hnext]
        exact hstop
termination_by l.remaining

/-- **A text read on demand** is read as it is when it is cut into tokens first. There is a call to
the lexer for each character at most, and two more. -/
theorem stops_of_text (v : Option Vocabulary) (text : Text) :
    ∃ n, ∃ calls ≤ (Text.lowercase (Text.trim text)).toList.length + 2, (turn v)^[n] (start text) =
      .stopped (Reading.ofText v text).1 (Reading.ofText v text).2 calls := by
  obtain ⟨l, hnext⟩ : ∃ l, (Lexer.ofText text).next = (.ok .start, l) := ⟨_, rfl⟩
  have hstart : start text = .reading .init .start l 1 := fetch_of_ok rfl hnext
  have hsound := sound_start text
  have hlt := Lexer.remaining_next_lt hnext rfl
  rw [hstart] at hsound ⊢
  obtain ⟨n, calls, hcalls, hstop⟩ :=
    stops_of_standing (v := v) (r := .init) (fun h => by cases h) hsound 1
  have hremaining : (Lexer.ofText text).remaining =
      (Text.lowercase (Text.trim text)).toList.length + 2 := rfl
  refine ⟨n, calls, by omega, hstop.trans ?_⟩
  unfold Reading.ofText
  rw [tokens_of_ok rfl hnext]

end Demand

/-- **What becomes of an idle rule.** Its text is read on demand, by a call to the lexer for each
character at most, and two more. Taking a token in asks for a name only if one has been found, for
the name before it only if two have been found, and for nothing else. Then the rule is done without
an error, or in error for a character, the order of its tokens, or a name that is not defined. -/
theorem parse_of_idle {r : Rule} {text : Text} (v : Option Vocabulary) (hidle : r.status = .idle)
    (herror : r.error = none) (htext : r.text = Text.lowercase text) :
    (∃ n, ∃ calls ≤ r.text.toList.length + 2, (Demand.turn v)^[n] (.start r.text) =
      .stopped (Reading.ofText v r.text).1 (Reading.ofText v r.text).2 calls) ∧
    (∀ n reading t l calls, (Demand.turn v)^[n] (.start r.text) = .reading reading t l calls →
      (reading.AsksName t → 1 ≤ l.names.length) ∧
        (reading.AsksNameBefore t → 2 ≤ l.names.length) ∧
        ∀ l', (reading.AsksName t → l'.identifier? = l.identifier?) →
          (reading.AsksNameBefore t → l'.lastIdentifier? = l.lastIdentifier?) →
            reading.step v t l' = reading.step v t l) ∧
    ((r.parse v).status = .done ∧ (r.parse v).errorText = "n/a" ∨
      (r.parse v).status = .erroneous ∧ ∃ e : Error, (r.parse v).errorText = e.message ∧
        ((∃ i, e = .illegalName i) ∨ e.isSyntax = true ∨ ∃ x, e = .undefined x)) := by
  obtain ⟨n, calls, hcalls, hstop⟩ := Demand.stops_of_text v r.text
  have hsound := fun n => Demand.sound_turns (Demand.sound_start r.text) v n
  have hlength : (Text.lowercase (Text.trim r.text)).toList.length ≤ r.text.toList.length := by
    rw [htext, Text.lowercase_trim_lowercase]
    exact (Text.trim_sublist _).length_le
  refine ⟨⟨n, calls, by omega, hstop⟩, fun n reading t l calls hturn => ?_, ?_⟩
  · have hstanding := hsound n
    rw [hturn] at hstanding
    refine ⟨fun h => hstanding.name h.1, fun h => (hstanding.clause (Or.inr h.2)).2 h.1, ?_⟩
    exact fun l' => Reading.step_congr
  · have hmissing := hsound n
    rw [hstop] at hmissing
    unfold parse errorText Status.set
    rw [hidle, herror]
    rcases hread : Reading.ofText v r.text with ⟨reading, error⟩
    rw [hread] at hmissing
    cases error with
    | none => exact Or.inl ⟨rfl, rfl⟩
    | some e =>
      refine Or.inr ⟨rfl, e, rfl, ?_⟩
      cases e with
      | illegalName i => exact Or.inl ⟨i, rfl⟩
      | undefined x => exact Or.inr (Or.inr ⟨x, rfl⟩)
      | nameMissing => exact absurd rfl hmissing
      | _ => exact Or.inr (Or.inl rfl)

/-- A text that is cut off within a group. -/
theorem parse_of_open_group :
    (∃ n, ∃ calls ≤ 12, (Demand.turn none)^[n] (.start "if (x is a") =
      .stopped (Reading.ofText none "if (x is a").1 (Reading.ofText none "if (x is a").2 calls) ∧
    ∃ e : Error, ((ofText "if (x is a" false).parse none).errorText = e.message ∧
      ((∃ i, e = .illegalName i) ∨ e.isSyntax = true ∨ ∃ x, e = .undefined x) := by
  have htext : (ofText "if (x is a" false).text = "if (x is a" := by decide +kernel
  have hlower : (ofText "if (x is a" false).text = Text.lowercase "if (x is a" := rfl
  have hdone : ((ofText "if (x is a" false).parse none).status ≠ .done := by decide +kernel
  obtain ⟨hcalls, -, ⟨hdone', -⟩ | ⟨-, herror⟩⟩ :=
    parse_of_idle none rfl rfl hlower
  · exact absurd hdone' hdone
  · rw [htext] at hcalls
    exact ⟨hcalls, herror⟩

end FuzzyInference.Rule
