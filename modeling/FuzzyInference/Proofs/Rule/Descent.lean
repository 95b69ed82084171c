import FuzzyInference.Proofs.Rule.Demand

/-!
# Reading by recursive descent

A rule is also read by functions that call each other, one for each kind of phrase: a group calls
for its operands, and an operand that is in parentheses calls for a group. So the groups that are
open are known by the calls that have not returned, and no row of them is kept. There is no bound on
their number; how many calls a machine lets stand open is not part of the reading.

* `Draft`: what has been written;
* `Descent`: a reader with a token in hand, `Descent.operand` and the other functions, each of which
  leaves fewer tokens to come or as many;
* `Follows`: what a function does is done turn by turn as well;
* `follows_operand`, `follows_premise`, `follows_conclusion`, `follows_rule`: **each function is
  followed**;
* `ofText_eq`: **the recursion reads what the reading reads**, and stops for the same error;
* `parse_eq`: what becomes of a rule.
-/

namespace FuzzyInference.Rule

/-! ### Drafts -/

/-- What has been written of a rule; connectives are held newest first. -/
structure Draft where
  held : List Connective
  premise : List Entry
  conclusion : List Entry
  tokens : List Token

namespace Draft

/-- Nothing has been written. -/
def blank : Draft := ⟨[], [], [], []⟩

/-- Adds entries to the postfix form of a side. -/
def write (d : Draft) (side : Side) (es : List Entry) : Draft :=
  match side with
  | .premise => { d with premise := d.premise ++ es }
  | .conclusion => { d with conclusion := d.conclusion ++ es }

def note (d : Draft) (t : Token) : Draft := { d with tokens := d.tokens ++ [t] }

def hold (d : Draft) (c : Connective) : Draft := { d with held := c :: d.held }

/-- Writes all that is held, newest first. -/
def release (d : Draft) (side : Side) : Draft :=
  { d.write side (d.held.map .connective) with held := [] }

/-- The reading with the draft. -/
def reading (d : Draft) (side : Side) (expected : Expected) (groups : List Bool) : Reading :=
  ⟨expected, side, groups, d.held, d.premise, d.conclusion, d.tokens⟩

end Draft

/-- The draft of a reading. -/
def Reading.draft (r : Reading) : Draft := ⟨r.held, r.premise, r.conclusion, r.tokens⟩

/-- The connective that a token is. -/
def Token.connective? : Token → Option Connective
  | connective c => some c
  | _ => none

theorem Token.eq_of_connective? {t : Token} {c : Connective} (h : t.connective? = some c) :
    t = .connective c := by
  cases t <;> cases h
  rfl

/-! ### The functions -/

/-- The end is the token of a lexer that has no more. -/
theorem ends_of_next {l l' : Lexer} {t : Token} (h : l.next = (.ok t, l')) :
    t = .finish ↔ l'.hasMore = false := by
  unfold Lexer.hasMore
  rcases next_cases h with ⟨rfl, hphase, -⟩ | ⟨rfl, hphase, -⟩ | ⟨ht, -, hphase, -⟩
  · rw [hphase]
    exact iff_of_true rfl rfl
  · rw [hphase]
    exact iff_of_false (by decide) (by decide)
  · rw [hphase]
    exact iff_of_false ht (by decide)

/-- A reader with a token in hand and the lexer behind it. -/
structure Descent where
  draft : Draft
  inHand : Token
  lexer : Lexer
  ends : inHand = .finish ↔ lexer.hasMore = false

namespace Descent

/-- How many tokens may follow at most. -/
def remaining (m : Descent) : Nat := m.lexer.remaining

/-- What had been written when an error stopped the reader. -/
structure Failure where
  draft : Draft
  error : Error

theorem hasMore {m : Descent} (h : m.inHand ≠ .finish) : m.lexer.hasMore = true :=
  (Bool.eq_false_or_eq_true _).resolve_right fun hmore => h (m.ends.mpr hmore)

/-- Calls the lexer for a token. -/
def call (d : Draft) (l : Lexer) (more : l.hasMore = true) :
    Except Failure { m : Descent // m.remaining < l.remaining } :=
  match h : l.next with
  | (.ok t, l') => .ok ⟨⟨d, t, l', ends_of_next h⟩, Lexer.remaining_next_lt h more⟩
  | (.error e, _) => .error ⟨d, e⟩

/-- Goes on with a draft, on which the token in hand is noted. -/
def get (m : Descent) (d : Draft) (h : m.inHand ≠ .finish) :
    Except Failure { m' : Descent // m'.remaining < m.remaining } :=
  call (d.note m.inHand) m.lexer (hasMore h)

/-- Goes on behind a token that has to be in hand. -/
def take (m : Descent) (d : Draft) (t : Token) (ht : t ≠ .finish) :
    Except Failure { m' : Descent // m'.remaining < m.remaining } :=
  if h : m.inHand = t then m.get d (h ▸ ht) else .error ⟨m.draft, .expected t⟩

variable (v : Option Vocabulary) (side : Side)

/-- The rest of a clause behind its variable: `is` and a term. -/
def clause (m : Descent) : Except Failure { m' : Descent // m'.remaining ≤ m.remaining } := do
  let ⟨m₁, h₁⟩ ← m.take m.draft .isWord (by decide)
  if h : m₁.inHand = .ident then
    match m₁.lexer.identifier?, m₁.lexer.lastIdentifier? with
    | some a, some x =>
      if v.all (·.hasTerm x a) then
        let ⟨m₂, h₂⟩ ← m₁.get (m₁.draft.write side [.name a, .is]) (h ▸ by decide)
        return ⟨m₂, by omega⟩
      else throw ⟨m₁.draft, .undefined a⟩
    | some _, none | none, _ => throw ⟨m₁.draft, .nameMissing⟩
  else throw ⟨m₁.draft, .expected .ident⟩

mutual

/-- An operand: a clause, or a group in parentheses. -/
def operand (m : Descent) : Except Failure { m' : Descent // m'.remaining ≤ m.remaining } := do
  match h : m.inHand with
  | .leftPar =>
    let ⟨m₁, h₁⟩ ← m.get m.draft (h ▸ by decide)
    let ⟨m₂, h₂, _⟩ ← group m₁
    let ⟨m₃, h₃⟩ ← m₂.take (m₂.draft.release side) .rightPar (by decide)
    return ⟨m₃, by omega⟩
  | .ident =>
    match m.lexer.identifier? with
    | some x =>
      if v.all (·.hasVariable x) then
        let ⟨m₁, h₁⟩ ← m.get (m.draft.write side [.name x]) (h ▸ by decide)
        let ⟨m₂, h₂⟩ ← clause v side m₁
        return ⟨m₂, by omega⟩
      else throw ⟨m.draft, .undefined x⟩
    | none => throw ⟨m.draft, .nameMissing⟩
  | _ => throw ⟨m.draft, .expected .ident⟩
termination_by 3 * m.remaining

/-- What stands in parentheses: an operand, and others that connectives join to it. -/
def group (m : Descent) : Except Failure
    { m' : Descent // m'.remaining ≤ m.remaining ∧ m'.inHand.connective? = none } := do
  let ⟨m₁, h₁⟩ ← operand m
  let ⟨m₂, h₂, hnone⟩ ← joints m₁
  return ⟨m₂, by omega, hnone⟩
termination_by 3 * m.remaining + 2

/-- The other operands of a group; there is one at least. -/
def joints (m : Descent) : Except Failure
    { m' : Descent // m'.remaining ≤ m.remaining ∧ m'.inHand.connective? = none } :=
  if m.inHand.connective?.isSome then further m else throw ⟨m.draft, .connectiveExpected⟩
termination_by 3 * m.remaining + 1

/-- As many operands as connectives come. -/
def further (m : Descent) : Except Failure
    { m' : Descent // m'.remaining ≤ m.remaining ∧ m'.inHand.connective? = none } := do
  match h : m.inHand.connective? with
  | some c =>
    let ⟨m₁, h₁⟩ ← m.get (m.draft.hold c) (by rintro ht; rw [ht] at h; cases h)
    let ⟨m₂, h₂⟩ ← operand m₁
    let ⟨m₃, h₃, hnone⟩ ← further m₂
    return ⟨m₃, by omega, hnone⟩
  | none => return ⟨m, Nat.le_refl _, h⟩
termination_by 3 * m.remaining

end

/-- The premise; `then` is in hand behind it. -/
def premise (m : Descent) : Except Failure { m' : Descent // m'.inHand = .thenWord } := do
  let ⟨m₁, _⟩ ← operand v .premise m
  match h : m₁.inHand with
  | .thenWord => return ⟨m₁, h⟩
  | .connective _ =>
    let ⟨m₂, _⟩ ← m₁.get m₁.draft (by rw [h]; exact nofun)
    premise m₂
  | _ => throw ⟨m₁.draft, .connectiveOrThenExpected⟩
termination_by m.remaining

/-- The conclusion, up to the end. -/
def conclusion (m : Descent) : Except Failure { m' : Descent // m'.lexer.hasMore = false } := do
  let ⟨m₁, _⟩ ← operand v .conclusion m
  if h : m₁.lexer.hasMore = false then return ⟨m₁, h⟩
  else
    let ⟨m₂, _⟩ ← m₁.get m₁.draft fun ht => h (m₁.ends.mp ht)
    conclusion m₂
termination_by m.remaining

/-- A rule, but for the end, which is in hand behind it. -/
def rule (text : Text) : Except Failure { m : Descent // m.inHand = .finish } := do
  let ⟨m, _⟩ ← call .blank (.ofText text) rfl
  let ⟨m, _⟩ ← m.take m.draft .start (by decide)
  let ⟨m, _⟩ ← m.take m.draft .ifWord (by decide)
  let ⟨m, h⟩ ← premise v m
  let ⟨m, _⟩ ← m.get m.draft (by rw [h]; decide)
  let ⟨m, _⟩ ← conclusion v m
  if h : m.inHand = .finish then return ⟨m, h⟩
  else throw ⟨m.draft, .expected .finish⟩

/-- What is written of a rule, and the error that stops the reader. -/
def ofText (text : Text) : Draft × Option Error :=
  match rule v text with
  | .ok m => (m.1.draft.note .finish, none)
  | .error f => (f.draft, some f.error)

end Descent

/-! ### Turn by turn -/

namespace Demand

variable {v : Option Vocabulary} {d d' d'' : Demand}

/-- The reader on demand comes from one state to another. -/
def Reaches (v : Option Vocabulary) (d d' : Demand) : Prop := ∃ n, (turn v)^[n] d = d'

theorem Reaches.refl (d : Demand) : Reaches v d d := ⟨0, rfl⟩

theorem Reaches.trans (h : Reaches v d d') (h' : Reaches v d' d'') : Reaches v d d'' := by
  obtain ⟨n, rfl⟩ := h
  obtain ⟨m, rfl⟩ := h'
  exact ⟨m + n, Function.iterate_add_apply _ _ _ _⟩

theorem Reaches.of_turn (h : turn v d = d') : Reaches v d d' := ⟨1, h⟩

/-- A reader that has stopped stays where it is, so it stops once at most. -/
theorem Reaches.eq_of_both_stopped {r r' : Reading} {e e' : Option Error} {calls calls' : ℕ}
    (h : Reaches v d (.stopped r e calls)) (h' : Reaches v d (.stopped r' e' calls')) :
    r = r' ∧ e = e' := by
  obtain ⟨n, hn⟩ := h
  obtain ⟨m, hm⟩ := h'
  have hboth : Demand.stopped r e calls = .stopped r' e' calls' :=
    calc Demand.stopped r e calls
      _ = (turn v)^[m + n] d := by
        rw [Function.iterate_add_apply, hn]
        exact (Function.iterate_fixed rfl m).symm
      _ = (turn v)^[n + m] d := by rw [Nat.add_comm]
      _ = .stopped r' e' calls' := by
        rw [Function.iterate_add_apply, hm]
        exact Function.iterate_fixed rfl n
  cases hboth
  exact ⟨rfl, rfl⟩

end Demand

namespace Descent

open Demand

variable {v : Option Vocabulary} {side : Side} {expected expected' : Expected}
  {groups groups' : List Bool} {p q : Descent → Prop} {start : Demand}

/-- The reader on demand with the same draft and token in hand, at a place of the rule. -/
def demand (m : Descent) (side : Side) (expected : Expected) (groups : List Bool) (calls : ℕ) :
    Demand :=
  .reading (m.draft.reading side expected groups) m.inHand m.lexer calls

/-- **What a function does is followed turn by turn**: where it goes on, so does the reader on demand,
and where it fails, that reader stops with the same draft for the same error. -/
def Follows (v : Option Vocabulary) (start : Demand) (side : Side) (expected : Expected)
    (groups : List Bool) : Except Failure { m : Descent // p m } → Prop
  | .ok m => ∃ calls, Reaches v start (m.1.demand side expected groups calls)
  | .error f => ∃ side expected groups calls,
      Reaches v start (.stopped (f.draft.reading side expected groups) (some f.error) calls)

theorem follows_ok {m : Descent} {calls : ℕ} (hm : p m) :
    Follows v (m.demand side expected groups calls) side expected groups
      (.ok ⟨m, hm⟩ : Except Failure { m : Descent // p m }) :=
  ⟨calls, .refl _⟩

theorem Follows.of_reaches {start' : Demand} {o : Except Failure { m : Descent // p m }}
    (h : Reaches v start start') (hfollows : Follows v start' side expected groups o) :
    Follows v start side expected groups o := by
  cases o with
  | error f =>
    obtain ⟨side, expected, groups, calls, hstop⟩ := hfollows
    exact ⟨side, expected, groups, calls, h.trans hstop⟩
  | ok m =>
    obtain ⟨calls, hreach⟩ := hfollows
    exact ⟨calls, h.trans hreach⟩

/-- One function behind another. -/
theorem Follows.bind {side' : Side} {o : Except Failure { m : Descent // p m }}
    {k : { m : Descent // p m } → Except Failure { m : Descent // q m }}
    (h : Follows v start side expected groups o)
    (hk : ∀ m hm calls, Follows v (m.demand side expected groups calls) side' expected' groups'
      (k ⟨m, hm⟩)) : Follows v start side' expected' groups' (o >>= k) := by
  cases o with
  | error f => exact h
  | ok m =>
    obtain ⟨calls, hreach⟩ := h
    exact (hk m.1 m.2 calls).of_reaches hreach

theorem follows_call {d : Draft} {t : Token} {l : Lexer} (more : l.hasMore = true) (calls : ℕ) :
    Follows v (fetch (d.reading side expected groups) t l calls) side expected groups
      (call d l more) := by
  unfold call
  split
  · next t' l' hnext =>
    rw [fetch_of_ok more hnext]
    exact ⟨_, .refl _⟩
  · next e l' hnext =>
    rw [fetch_of_error more hnext]
    exact ⟨_, _, _, _, .refl _⟩

section
variable {m : Descent} {d : Draft} {side' : Side} {t : Token} {e : Error} {calls : ℕ}

/-- A token that is accepted. -/
theorem follows_get {h : m.inHand ≠ .finish}
    (hstep : (m.draft.reading side expected groups).step v m.inHand m.lexer =
      .ok ((d.note m.inHand).reading side' expected' groups')) (hexpected : expected ≠ .nothing) :
    Follows v (m.demand side expected groups calls) side' expected' groups' (m.get d h) :=
  .of_reaches (.of_turn (turn_of_ok hexpected hstep)) (follows_call (hasMore h) calls)

/-- A token that is rejected. -/
theorem follows_error
    (hstep : (m.draft.reading side expected groups).step v m.inHand m.lexer = .error e)
    (hexpected : expected ≠ .nothing) :
    Follows v (m.demand side expected groups calls) side' expected' groups'
      (.error ⟨m.draft, e⟩ : Except Failure { m : Descent // p m }) :=
  ⟨side, expected, groups, calls, .of_turn (turn_of_error hexpected hstep)⟩

theorem follows_take {ht : t ≠ .finish}
    (haccept : (m.draft.reading side expected groups).step v t m.lexer =
      .ok ((d.note t).reading side' expected' groups'))
    (hreject : m.inHand ≠ t → (m.draft.reading side expected groups).step v m.inHand m.lexer =
      .error (.expected t)) (hexpected : expected ≠ .nothing) :
    Follows v (m.demand side expected groups calls) side' expected' groups' (m.take d t ht) := by
  unfold take
  split
  · next h =>
    rw [← h] at haccept
    exact follows_get haccept hexpected
  · next h => exact follows_error (hreject h) hexpected

end

/-! ### Each function -/

theorem accept_write (d : Draft) (side : Side) (es : List Entry) (t : Token)
    (expected expected' : Expected) (groups : List Bool) :
    ((d.reading side expected groups).write es).accept t expected' =
      ((d.write side es).note t).reading side expected' groups := by
  cases side <;> rfl

theorem accept_release (d : Draft) (side : Side) (t : Token) (expected expected' : Expected)
    (groups groups' : List Bool) :
    ({ (d.reading side expected groups).release with groups := groups' }).accept t expected' =
      ((d.release side).note t).reading side expected' groups' := by
  cases side <;> rfl

theorem follows_clause (m : Descent) (calls : ℕ) :
    Follows v (m.demand side .isWord groups calls) side .joint groups (clause v side m) := by
  have hword : Follows v (m.demand side .isWord groups calls) side .term groups
      (m.take m.draft .isWord (by decide)) :=
    follows_take rfl (fun h => if_neg h) nofun
  unfold clause
  refine hword.bind fun m₁ h₁ calls => ?_
  dsimp only
  split
  · next hident =>
    split
    · next a x ha hx =>
      split
      · next hv =>
        have hterm : (m₁.draft.reading side .term groups).step v m₁.inHand m₁.lexer =
            .ok (((m₁.draft.write side [.name a, .is]).note m₁.inHand).reading side .joint
              groups) := by
          rw [hident, ← accept_write _ _ _ _ .term]
          exact Reading.step_of_moves (.term rfl hx ha hv)
        exact (follows_get hterm nofun).bind fun m₂ h₂ calls => follows_ok _
      · next hv =>
        refine follows_error ?_ nofun
        rw [hident]
        exact Reading.step_undefined_term rfl hx ha hv
    · next a ha hx =>
      refine follows_error ?_ nofun
      rw [hident]
      exact Reading.step_missing_term rfl (Or.inr hx)
    · next ha =>
      refine follows_error ?_ nofun
      rw [hident]
      exact Reading.step_missing_term rfl (Or.inl ha)
  · next hident => exact follows_error (if_neg hident) nofun

mutual

theorem follows_operand (m : Descent) (groups : List Bool) (calls : ℕ) :
    Follows v (m.demand side .operand groups calls) side .joint groups (operand v side m) := by
  rw [operand]
  split
  · next hpar =>
    have hopen : Follows v (m.demand side .operand groups calls) side .operand (false :: groups)
        (m.get m.draft (hpar ▸ by decide)) := by
      refine follows_get ?_ nofun
      rw [hpar]
      rfl
    refine hopen.bind fun m₁ h₁ calls => ?_
    refine (follows_group m₁ groups calls).bind fun m₂ ⟨h₂, hnone⟩ calls => ?_
    have hclose : Follows v (m₂.demand side .joint (true :: groups) calls) side .joint groups
        (m₂.take (m₂.draft.release side) .rightPar (by decide)) := by
      refine follows_take ?_ (fun hpar => ?_) nofun
      · rw [← accept_release _ _ _ .joint .joint (true :: groups)]
        rfl
      · show Reading.groupStep _ true groups m₂.inHand = _
        unfold Reading.groupStep
        split
        · next h =>
          rw [h] at hnone
          cases hnone
        · next h => exact absurd h hpar
        · rfl
    exact hclose.bind fun m₃ h₃ calls => follows_ok _
  · next hident =>
    split
    · next x hx =>
      split
      · next hv =>
        have hname : (m.draft.reading side .operand groups).step v m.inHand m.lexer =
            .ok (((m.draft.write side [.name x]).note m.inHand).reading side .isWord groups) := by
          rw [hident, ← accept_write _ _ _ _ .operand]
          exact Reading.step_of_moves (.name rfl hx hv)
        refine (follows_get hname nofun).bind fun m₁ h₁ calls => ?_
        exact (follows_clause m₁ calls).bind fun m₂ h₂ calls => follows_ok _
      · next hv =>
        refine follows_error ?_ nofun
        rw [hident]
        exact Reading.step_undefined_variable rfl hx hv
    · next hx =>
      refine follows_error ?_ nofun
      rw [hident]
      exact Reading.step_missing_variable rfl hx
  · next hpar hident =>
    refine follows_error ?_ nofun
    unfold Reading.step Draft.reading
    dsimp only
    split
    · next h => exact (hpar h).elim
    · next h => exact (hident h).elim
    · rfl
termination_by 3 * m.remaining

theorem follows_group (m : Descent) (groups : List Bool) (calls : ℕ) :
    Follows v (m.demand side .operand (false :: groups) calls) side .joint (true :: groups)
      (group v side m) := by
  rw [group]
  refine (follows_operand m (false :: groups) calls).bind fun m₁ h₁ calls => ?_
  exact (follows_joints m₁ groups calls).bind fun m₂ ⟨h₂, hnone⟩ calls => follows_ok _
termination_by 3 * m.remaining + 2

theorem follows_joints (m : Descent) (groups : List Bool) (calls : ℕ) :
    Follows v (m.demand side .joint (false :: groups) calls) side .joint (true :: groups)
      (joints v side m) := by
  rw [joints]
  split
  · next h => exact follows_further m false groups calls (Or.inr h)
  · next h =>
    refine follows_error ?_ nofun
    show Reading.groupStep _ false groups m.inHand = _
    unfold Reading.groupStep
    split
    · next hc =>
      rw [hc] at h
      exact absurd rfl h
    · rfl
    · rfl
termination_by 3 * m.remaining + 1

theorem follows_further (m : Descent) (joined : Bool) (groups : List Bool) (calls : ℕ)
    (h : joined = true ∨ m.inHand.connective?.isSome = true) :
    Follows v (m.demand side .joint (joined :: groups) calls) side .joint (true :: groups)
      (further v side m) := by
  rw [further]
  split
  · next c hc =>
    have hjoin : (m.draft.reading side .joint (joined :: groups)).step v m.inHand m.lexer =
        .ok (((m.draft.hold c).note m.inHand).reading side .operand (true :: groups)) := by
      rw [Token.eq_of_connective? hc]
      rfl
    refine (follows_get hjoin nofun).bind fun m₁ h₁ calls => ?_
    refine (follows_operand m₁ (true :: groups) calls).bind fun m₂ h₂ calls => ?_
    exact (follows_further m₂ true groups calls (Or.inl rfl)).bind fun m₃ ⟨h₃, hnone⟩ calls =>
      follows_ok _
  · next hc =>
    obtain rfl | hsome := h
    · exact follows_ok _
    · rw [hc] at hsome
      cases hsome
termination_by 3 * m.remaining

end

/-- **A premise.** -/
theorem follows_premise (m : Descent) (calls : ℕ) :
    Follows v (m.demand .premise .operand [] calls) .premise .joint [] (premise v m) := by
  rw [premise]
  refine (follows_operand m [] calls).bind fun m₁ h₁ calls => ?_
  dsimp only
  split
  · exact follows_ok _
  · next c hc =>
    have hjoint : (m₁.draft.reading .premise .joint []).step v m₁.inHand m₁.lexer =
        .ok ((m₁.draft.note m₁.inHand).reading .premise .operand []) := by
      rw [hc]
      rfl
    exact (follows_get hjoint nofun).bind fun m₂ h₂ calls => follows_premise m₂ calls
  · next hthen hconnective =>
    refine follows_error ?_ nofun
    show Reading.outerStep _ m₁.inHand = _
    unfold Reading.outerStep
    split
    · next c _ hc => exact absurd hc (hconnective c)
    · next _ h => exact absurd h hthen
    · rfl
    · next h _ => cases h
    · next h _ => cases h
termination_by m.remaining

/-- **A conclusion.** -/
theorem follows_conclusion (m : Descent) (calls : ℕ) :
    Follows v (m.demand .conclusion .operand [] calls) .conclusion .joint [] (conclusion v m) := by
  rw [conclusion]
  refine (follows_operand m [] calls).bind fun m₁ h₁ calls => ?_
  dsimp only
  split
  · exact follows_ok _
  · next hmore =>
    have hjoint : (m₁.draft.reading .conclusion .joint []).step v m₁.inHand m₁.lexer =
        .ok ((m₁.draft.note m₁.inHand).reading .conclusion .operand []) :=
      Reading.step_of_moves (.conclusionJoint rfl rfl rfl fun ht => hmore (m₁.ends.mp ht))
    exact (follows_get hjoint nofun).bind fun m₂ h₂ calls => follows_conclusion m₂ calls
termination_by m.remaining

/-- **A rule.** -/
theorem follows_rule (text : Text) :
    Follows v (.start text) .conclusion .joint [] (rule v text) := by
  unfold rule
  have hcall : Follows v (.start text) .premise .start [] (call .blank (.ofText text) rfl) :=
    follows_call (d := .blank) (t := .start) rfl 0
  refine hcall.bind fun m₁ _ calls => ?_
  have hstart : Follows v (m₁.demand .premise .start [] calls) .premise .ifWord []
      (m₁.take m₁.draft .start (by decide)) :=
    follows_take rfl (fun h => if_neg h) nofun
  refine hstart.bind fun m₂ _ calls => ?_
  have hword : Follows v (m₂.demand .premise .ifWord [] calls) .premise .operand []
      (m₂.take m₂.draft .ifWord (by decide)) :=
    follows_take rfl (fun h => if_neg h) nofun
  refine hword.bind fun m₃ _ calls => ?_
  refine (follows_premise m₃ calls).bind fun m₄ h₄ calls => ?_
  have hthen : (m₄.draft.reading .premise .joint []).step v m₄.inHand m₄.lexer =
      .ok ((m₄.draft.note m₄.inHand).reading .conclusion .operand []) := by
    rw [h₄]
    rfl
  refine (follows_get hthen nofun).bind fun m₅ _ calls => ?_
  refine (follows_conclusion m₅ calls).bind fun m₆ h₆ calls => ?_
  dsimp only
  rw [dif_pos (m₆.ends.mpr h₆)]
  exact follows_ok _

/-- **The recursion reads what the reading reads**, and stops for the same error. -/
theorem ofText_eq (v : Option Vocabulary) (text : Text) :
    ofText v text = ((Reading.ofText v text).1.draft, (Reading.ofText v text).2) := by
  obtain ⟨n, calls, -, hstop⟩ := stops_of_text v text
  have hrule := follows_rule (v := v) text
  unfold ofText
  cases hrun : rule v text with
  | error f =>
    rw [hrun] at hrule
    obtain ⟨side, expected, groups, calls', hfail⟩ := hrule
    obtain ⟨hreading, herror⟩ := Reaches.eq_of_both_stopped hfail ⟨n, hstop⟩
    rw [← hreading, ← herror]
    rfl
  | ok m =>
    rw [hrun] at hrule
    obtain ⟨calls', hreach⟩ := hrule
    -- The end is in hand: it is taken in, and the lexer is not called for another token.
    have hfinish := m.2
    have hdone : Reaches v (m.1.demand .conclusion .joint [] calls')
        (.stopped ((m.1.draft.note .finish).reading .conclusion .nothing []) none calls') := by
      have htaken : turn v (m.1.demand .conclusion .joint [] calls') =
          .reading ((m.1.draft.note .finish).reading .conclusion .nothing []) m.1.inHand m.1.lexer
            calls' := by
        rw [← fetch_of_not_hasMore (m.1.ends.mp hfinish)]
        refine turn_of_ok nofun ?_
        rw [hfinish]
        rfl
      exact (Reaches.of_turn htaken).trans (.of_turn (turn_of_nothing rfl))
    obtain ⟨hreading, herror⟩ := Reaches.eq_of_both_stopped (hreach.trans hdone) ⟨n, hstop⟩
    rw [← hreading, ← herror]
    rfl

end Descent

/-- **What becomes of a rule** that is read by recursive descent. -/
theorem parse_eq (v : Option Vocabulary) (r : Rule) :
    r.parse v =
      { r with
        premise := r.premise ++ (Descent.ofText v r.text).1.premise
        conclusion := r.conclusion ++ (Descent.ofText v r.text).1.conclusion
        tokens := r.tokens ++ (Descent.ofText v r.text).1.tokens
        error := (Descent.ofText v r.text).2.or r.error
        status := r.status.set
          (if (Descent.ofText v r.text).2.isSome then .erroneous else .done) } := by
  rw [Descent.ofText_eq]
  rfl

end FuzzyInference.Rule
