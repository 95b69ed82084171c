import FuzzyInference.Proofs.Rule.Vocabulary

/-!
# Status and message

The first reading settles the status of a rule. It does not settle the message: every reading that
fails writes its own over the one before, whatever the status is. So a rule in error has a message
always, and a rule that is done has one as soon as a later reading fails. That takes a vocabulary
without one of the names of the rule, for in all else the readings of a text agree.

* `Error.message_ne`, `errorText_ne_iff`: a rule has a message exactly if it holds an error;
* `readWith`: a rule that is read with one vocabulary after the other;
* `status_parse_of_settled`, `error_parse_of_text`: **what one reading does**;
* `status_readWith`, `error_readWith`: **what several readings do**;
* `undefined_of_done`: what fails where another reading does not;
* `message_of_readings`: which rules have a message, and which of them are in error.
-/

namespace FuzzyInference.Rule

/-- No error is worded like the absence of one. -/
theorem Error.message_ne (e : Error) : e.message ≠ "n/a" := by
  have hfirst : e.message.toList.head? ≠ some (.char 'n') := by
    cases e with
    | illegalName i =>
      have hstring : (toString "Illegal name @").toList = "Illegal name @".toList := rfl
      simp [message, Text.ofString, Text.ofChars, hstring]
    | expected t => exact fun h => by cases h
    | connectiveExpected => decide
    | connectiveOrThenExpected => decide
    | undefined x => exact fun h => by cases h
    | nameMissing => decide
  intro h
  rw [h] at hfirst
  exact hfirst rfl

theorem errorText_ne_iff (r : Rule) : r.errorText ≠ "n/a" ↔ r.error.isSome = true := by
  unfold errorText
  cases r.error with
  | none => simp
  | some e => simp [e.message_ne]

/-- Reads the rule once with each vocabulary. -/
def readWith (r : Rule) (vs : List (Option Vocabulary)) : Rule := vs.foldl (fun r v => r.parse v) r

section
variable {v w : Option Vocabulary} {text : Text} {attached : Bool} {r : Rule}

/-! ### One reading -/

/-- A settled status stays. -/
theorem status_parse_of_settled (h : r.status ≠ .idle) : (r.parse v).status = r.status := by
  unfold parse Status.set
  exact if_neg h

/-- **The error behind a reading** is the one that the text comes to, or else the one before. -/
theorem error_parse_of_text (h : r.text = (ofText text attached).text) :
    (r.parse v).error = ((ofText text attached).parse v).error.or r.error := by
  rw [parse_ofText]
  unfold parse
  rw [h]

/-- A fresh rule is in error exactly if it holds one. -/
theorem erroneous_iff_error : ((ofText text attached).parse v).status = .erroneous ↔
    ((ofText text attached).parse v).error.isSome = true := by
  rw [parse_ofText]
  cases (Reading.ofText v (ofText text attached).text).2 <;> simp

theorem done_iff_error : ((ofText text attached).parse v).status = .done ↔
    ((ofText text attached).parse v).error = none := by
  rw [status_parse_done_iff_reading, parse_ofText]

/-- Where the text is read without error the message stays. -/
theorem errorText_parse_of_done (h : r.text = (ofText text attached).text)
    (hdone : ((ofText text attached).parse v).status = .done) :
    (r.parse v).errorText = r.errorText := by
  have herror := error_parse_of_text (v := v) h
  rw [done_iff_error.mp hdone, Option.none_or] at herror
  unfold errorText
  rw [herror]

/-- Where it is not the message is that of a fresh rule. -/
theorem errorText_parse_of_erroneous (h : r.text = (ofText text attached).text)
    (herroneous : ((ofText text attached).parse v).status = .erroneous) :
    (r.parse v).errorText = ((ofText text attached).parse v).errorText := by
  have herror := error_parse_of_text (v := v) h
  rw [Option.or_of_isSome (erroneous_iff_error.mp herroneous)] at herror
  unfold errorText
  rw [herror]

/-! ### Several readings -/

theorem text_readWith : ∀ (vs : List (Option Vocabulary)) (r : Rule), (r.readWith vs).text = r.text
  | [], _ => rfl
  | v :: vs, r => text_readWith vs (r.parse v)

/-- **A settled status stays for good.** -/
theorem status_readWith : ∀ (vs : List (Option Vocabulary)) {r : Rule}, r.status ≠ .idle →
    (r.readWith vs).status = r.status
  | [], _, _ => rfl
  | v :: vs, r, h => by
    have hstep : (r.parse v).status = r.status := status_parse_of_settled h
    rw [← hstep] at h
    exact (status_readWith vs h).trans hstep

/-- **An error stays until another one takes its place.** -/
theorem error_readWith : ∀ (vs : List (Option Vocabulary)) {r : Rule},
    r.text = (ofText text attached).text →
      ((r.readWith vs).error.isSome = true ↔ r.error.isSome = true ∨
        ∃ w ∈ vs, ((ofText text attached).parse w).status = .erroneous)
  | [], r, _ => by simp [readWith]
  | v :: vs, r, h => by
    have hstep : (r.parse v).error.isSome = true ↔
        ((ofText text attached).parse v).status = .erroneous ∨ r.error.isSome = true := by
      rw [error_parse_of_text h, Option.isSome_or, Bool.or_eq_true, erroneous_iff_error]
    have hrest := error_readWith vs (r := r.parse v) h
    rw [hstep] at hrest
    rw [List.exists_mem_cons_iff, ← or_assoc, or_comm (a := r.error.isSome = true)]
    exact hrest

/-- **What fails where another reading does not** is a name of a clause that is not defined. -/
theorem undefined_of_done (hv : ((ofText text attached).parse v).status = .done)
    (hw : ((ofText text attached).parse w).status = .erroneous) :
    ∃ x ∈ Lexeme.clausesOf (ofText text attached).lexemes, ∃ u, unknown? w x = some u ∧
      ((ofText text attached).parse w).errorText = "Symbol '" ++ u ++ "' is not defined" := by
  obtain ⟨hlex, p, c, hws, -⟩ := status_parse_done_iff.mp hv
  cases hu : (p.clauses ++ c.clauses).findSome? (unknown? w) with
  | none =>
    rw [parse_sentence hlex hws hu] at hw
    cases hw
  | some u =>
    obtain ⟨x, hx, hxu⟩ := List.exists_of_findSome?_eq_some hu
    obtain ⟨-, herror⟩ := parse_sentence_undefined hlex hws hu
    refine ⟨x, ?_, u, hxu, ?_⟩
    · rw [hws, Lexeme.clausesOf_sentence]
      exact hx
    · unfold errorText
      rw [herror]
      rfl

end

/-- **When a rule has a message.** Its status is settled by the first reading, and stays. Its message is
that of the last reading that has failed: it has one exactly if any has. So message and status agree
exactly if the rule is in error or no later reading has failed either. A reading that fails where the
first one has not names a variable or a term in a clause of the rule that is not defined for it. -/
theorem message_of_readings (text : Text) (attached : Bool) (v : Option Vocabulary)
    (vs : List (Option Vocabulary)) :
    let fresh := ofText text attached
    let rule := fresh.readWith (v :: vs)
    (rule.status = (fresh.parse v).status ∧ rule.status ≠ .idle) ∧
    (rule.errorText ≠ "n/a" ↔ ∃ w ∈ v :: vs, (fresh.parse w).status = .erroneous) ∧
    ((rule.errorText ≠ "n/a" ↔ rule.status = .erroneous) ↔
      rule.status = .erroneous ∨ ∀ w ∈ vs, (fresh.parse w).status = .done) ∧
    (∀ w, (rule.parse w).status = rule.status ∧
      ((fresh.parse w).status = .done → (rule.parse w).errorText = rule.errorText) ∧
      ((fresh.parse w).status = .erroneous →
        (rule.parse w).errorText = (fresh.parse w).errorText)) ∧
    (rule.status = .done → ∀ w, (fresh.parse w).status = .erroneous →
      ∃ x ∈ Lexeme.clausesOf fresh.lexemes, ∃ u, unknown? w x = some u ∧
        (fresh.parse w).errorText = "Symbol '" ++ u ++ "' is not defined") := by
  intro fresh rule
  have hidle : (fresh.parse v).status ≠ .idle := status_parse_ne_idle v fresh
  have hstatus : rule.status = (fresh.parse v).status := status_readWith vs hidle
  have hsettled : rule.status ≠ .idle := hstatus ▸ hidle
  have htext : rule.text = fresh.text := text_readWith (v :: vs) fresh
  have hmessage : rule.errorText ≠ "n/a" ↔
      ∃ w ∈ v :: vs, (fresh.parse w).status = .erroneous := by
    rw [errorText_ne_iff, error_readWith (v :: vs) rfl]
    exact or_iff_right (fun h => by cases h)
  refine ⟨⟨hstatus, hsettled⟩, hmessage, ?_, fun w => ⟨status_parse_of_settled hsettled,
    errorText_parse_of_done htext, errorText_parse_of_erroneous htext⟩, fun hdone w hw => ?_⟩
  · have hnone : (∀ w ∈ vs, (fresh.parse w).status = .done) ↔
        ¬ ∃ w ∈ vs, (fresh.parse w).status = .erroneous := by
      simp only [status_parse_erroneous_iff, not_exists, not_and, not_not, fresh]
    rw [hmessage, hnone, List.exists_mem_cons_iff, ← hstatus]
    exact or_iff_left_iff_imp.trans imp_iff_or_not
  · exact undefined_of_done (hstatus ▸ hdone) hw

/-- **A rule that is done may have a message**, and the message may change behind a settled status: a
rule is read without a vocabulary, and then over an empty table. -/
theorem message_of_done_rule :
    (¬ ∀ (text : Text) (attached : Bool) (vs : List (Option Vocabulary)) (v : Option Vocabulary),
      let rule := ((ofText text attached).readWith vs).parse v
      (rule.errorText ≠ "n/a" ↔ rule.status = .erroneous)) ∧
    ¬ ∀ (text : Text) (attached : Bool) (vs : List (Option Vocabulary)) (v : Option Vocabulary),
      let rule := (ofText text attached).readWith vs
      rule.status ≠ .idle →
        (rule.parse v).status = rule.status ∧ (rule.parse v).errorText = rule.errorText := by
  have hdone : ((ofText "if x is a then y is b" false).readWith [none]).status = .done ∧
      ((ofText "if x is a then y is b" false).readWith [none]).errorText = "n/a" := by
    decide +kernel
  have hfailed : (((ofText "if x is a then y is b" false).readWith [none]).parse
        (some (SymbolTable.empty : SymbolTable Float).vocabulary)).status = .done ∧
      (((ofText "if x is a then y is b" false).readWith [none]).parse
        (some (SymbolTable.empty : SymbolTable Float).vocabulary)).errorText =
          "Symbol 'x' is not defined" := by
    decide +kernel
  constructor
  · intro hall
    have herroneous := (hall "if x is a then y is b" false [none]
      (some (SymbolTable.empty : SymbolTable Float).vocabulary)).mp (by
        rw [hfailed.2]
        decide)
    rw [hfailed.1] at herroneous
    cases herroneous
  · intro hall
    obtain ⟨-, hsame⟩ := hall "if x is a then y is b" false [none]
      (some (SymbolTable.empty : SymbolTable Float).vocabulary) (by rw [hdone.1]; decide)
    rw [hfailed.2, hdone.2] at hsame
    exact absurd hsame (by decide)

end FuzzyInference.Rule
