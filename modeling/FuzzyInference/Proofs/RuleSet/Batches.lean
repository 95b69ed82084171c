import FuzzyInference.Proofs.RuleSet
import Mathlib.Data.List.Induction

/-!
# Rule sets read in batches

A rule set takes in rules one by one and reads, whenever it is asked to, all that wait. However the two
are interleaved, the rules that have been read stand in front and those that wait behind, and a rule
that has been read is not read again. So a reading at the end leaves what it would have left if all
rules had been added first: of the rules with one text the first, read once.

* `RuleSet.Call`, `RuleSet.after`: adding a fresh rule and reading those that wait, in any order;
* `RuleSet.readBy`, `RuleSet.readings`: the rules that calls read, in the order in which they do;
* `firsts`, `firsts_snoc`, `nodup_firsts`: of the rules with one text the first;
* `RuleSet.Batched`: what has been read and what waits; `Batched.call`, `Batched.after`: calls keep it;
* `RuleSet.parse_error_iff`: which readings are refused;
* `RuleSet.rules_of_batches`: **what there is after a reading at the end.**
-/

namespace FuzzyInference

/-! ### First occurrences -/

/-- Of the rules with one text the first. -/
def firsts (rs : List Rule) : List Rule := rs.eraseDupsBy fun r r' => r.text == r'.text

theorem firsts_cons (r : Rule) (rs : List Rule) :
    firsts (r :: rs) = r :: firsts (rs.filter fun r' => (r'.text == r.text) = false) :=
  List.eraseDupsBy_cons

/-- A rule at the end is kept if no rule before it has its text. -/
theorem firsts_snoc (r : Rule) : ∀ rs : List Rule, firsts (rs ++ [r]) =
    if (firsts rs).any (·.text == r.text) then firsts rs else firsts rs ++ [r]
  | [] => rfl
  | r' :: rs => by
    rw [List.cons_append, firsts_cons, firsts_cons, List.filter_append, List.any_cons]
    by_cases h : r.text = r'.text
    · have hself : (r'.text == r.text) = true := beq_iff_eq.mpr h.symm
      have hdropped : [r].filter (fun r'' => (r''.text == r'.text) = false) = [] := by simp [h]
      rw [hself, Bool.true_or, if_pos rfl, hdropped, List.append_nil]
    · have hother : (r'.text == r.text) = false := beq_eq_false_iff_ne.mpr (Ne.symm h)
      have hkept : [r].filter (fun r'' => (r''.text == r'.text) = false) = [r] := by simp [h]
      rw [hother, Bool.false_or, hkept, firsts_snoc r]
      split_ifs
      · rfl
      · rfl
termination_by rs => rs.length
decreasing_by exact Nat.lt_succ_of_le (List.length_filter_le _ _)

/-- No text is kept twice. -/
theorem nodup_firsts (rs : List Rule) : ((firsts rs).map (·.text)).Nodup := by
  induction rs using List.reverseRecOn with
  | nil => exact List.nodup_nil
  | append_singleton rs r ih =>
    rw [firsts_snoc]
    split_ifs with h
    · exact ih
    · have hnew : r.text ∉ (firsts rs).map (·.text) := by
        intro hmem
        obtain ⟨r', hr', htext⟩ := List.mem_map.mp hmem
        exact h (List.any_eq_true.mpr ⟨r', hr', beq_iff_eq.mpr htext⟩)
      exact nodup_map_snoc ih hnew

namespace RuleSet

variable {α : Type}

/-! ### Calls -/

/-- What is done to a rule set: a fresh rule is added, or all that are idle are read. -/
inductive Call where
  | add (text : Text) (attached : Bool)
  | parse (workers : Option Int)

/-- The rule that a call adds. -/
def Call.fresh? : Call → Option Rule
  | .add text attached => some (Rule.ofText text attached)
  | .parse _ => none

/-- The rule set after a call; a reading that is refused does nothing. -/
def call (t : Option (SymbolTable α)) (s : RuleSet) : Call → RuleSet
  | .add text attached => (s.add (Rule.ofText text attached)).1
  | .parse workers =>
    match s.parse t workers with
    | .ok s => s
    | .error _ => s

/-- The rules that a call reads. -/
def readBy (t : Option (SymbolTable α)) (s : RuleSet) : Call → List Rule
  | .add _ _ => []
  | .parse workers =>
    match s.parse t workers with
    | .ok _ => s.rules.filter (·.status = .idle)
    | .error _ => []

/-- The rule set after calls, the first one first. -/
def after (t : Option (SymbolTable α)) (s : RuleSet) (calls : List Call) : RuleSet :=
  calls.foldl (call t) s

/-- The rules that calls read, in the order in which they do. -/
def readings (t : Option (SymbolTable α)) (s : RuleSet) : List Call → List Rule
  | [] => []
  | c :: calls => s.readBy t c ++ readings t (s.call t c) calls

/-- The rules that calls add, but for those whose text, in lower case, has come before. -/
def kept (calls : List Call) : List Rule := firsts (calls.filterMap Call.fresh?)

/-- **A reading is refused** exactly if several workers are to share a table that may change. -/
theorem parse_error_iff {t : Option (SymbolTable α)} {workers : Option Int} {s : RuleSet} :
    (∃ f, s.parse t workers = .error f) ↔
      workers.any (1 < ·) = true ∧ t.any (!·.frozen) = true := by
  rw [← Bool.and_eq_true]
  unfold parse
  by_cases h : (workers.any (1 < ·) && t.any (!·.frozen)) = true
  · rw [if_pos h]
    exact iff_of_true ⟨_, rfl⟩ h
  · rw [if_neg h]
    exact iff_of_false (fun ⟨_, hf⟩ => by cases hf) h

/-- A reading that is not refused reads all that wait. -/
theorem parse_ok {t : Option (SymbolTable α)} {workers : Option Int} {s s' : RuleSet}
    (h : s.parse t workers = .ok s') : s' = s.parseIdle (t.map (·.vocabulary)) := by
  unfold parse at h
  split_ifs at h
  exact (Except.ok.inj h).symm

/-- A rule set without a rule that waits is in order or in error. -/
theorem status_of_settled {s : RuleSet} (h : ∀ r ∈ s.rules, r.status ≠ .idle) :
    s.status = .done ∨ s.status = .erroneous := by
  have hidle : s.rules.any (·.status = .idle) = false := by
    simpa using h
  unfold status
  rw [hidle, if_neg Bool.false_ne_true]
  split_ifs
  · exact Or.inr rfl
  · exact Or.inl rfl

/-- What a reading does that is refused, and one that is not. -/
theorem call_parse (t : Option (SymbolTable α)) (workers : Option Int) (s : RuleSet) :
    s.call t (.parse workers) = s ∧ s.readBy t (.parse workers) = [] ∨
      s.call t (.parse workers) = s.parseIdle (t.map (·.vocabulary)) ∧
        s.readBy t (.parse workers) = s.rules.filter (·.status = .idle) := by
  simp only [call, readBy]
  cases hparse : s.parse t workers with
  | error f => exact Or.inl ⟨rfl, rfl⟩
  | ok s' => exact Or.inr ⟨parse_ok hparse, rfl⟩

theorem readings_append (t : Option (SymbolTable α)) :
    ∀ (s : RuleSet) (calls calls' : List Call),
      readings t s (calls ++ calls') = readings t s calls ++ readings t (s.after t calls) calls'
  | _, [], _ => rfl
  | s, c :: calls, calls' => by
    rw [List.cons_append, readings, readings, readings_append t (s.call t c) calls calls',
      List.append_assoc]
    rfl

/-! ### What has been read and what waits -/

/-- Of the rules `fresh` that have come, the first of each text are there, in order: in front those
that have been read, each once, and behind them those that wait. -/
structure Batched (v : Option Rule.Vocabulary) (fresh read waiting : List Rule) (s : RuleSet) :
    Prop where
  firsts : firsts fresh = read ++ waiting
  rules : s.rules = read.map (Rule.parse v) ++ waiting
  idle : ∀ r ∈ waiting, r.status = .idle

namespace Batched

variable {v : Option Rule.Vocabulary} {fresh read waiting : List Rule} {s : RuleSet}

/-- A text is there if a rule with it has come. -/
theorem hasText_eq (h : Batched v fresh read waiting s) (text : Text) :
    s.hasText text = (FuzzyInference.firsts fresh).any (·.text == text) := by
  unfold hasText
  rw [h.rules, h.firsts, List.any_append, List.any_append, List.any_map]
  rfl

/-- One more rule waits, unless its text has come before. -/
theorem add (h : Batched v fresh read waiting s) {r : Rule} (hr : r.status = .idle) :
    ∃ waiting', Batched v (fresh ++ [r]) read waiting' (s.add r).1 := by
  have hfirsts := firsts_snoc r fresh
  rw [← h.hasText_eq] at hfirsts
  unfold RuleSet.add
  by_cases htaken : s.hasText r.text = true
  · rw [if_pos htaken] at hfirsts ⊢
    exact ⟨waiting, hfirsts.trans h.firsts, h.rules, h.idle⟩
  · rw [if_neg htaken] at hfirsts ⊢
    refine ⟨waiting ++ [r], ?_, ?_, ?_⟩
    · rw [hfirsts, h.firsts, List.append_assoc]
    · show s.rules ++ [r] = _
      rw [h.rules, List.append_assoc]
    · intro r' hr'
      rcases List.mem_append.mp hr' with hr' | hr'
      · exact h.idle r' hr'
      · obtain rfl := List.mem_singleton.mp hr'
        exact hr

/-- The idle rules are those that wait. -/
theorem filter_idle (h : Batched v fresh read waiting s) :
    s.rules.filter (·.status = .idle) = waiting := by
  have hread : (read.map (Rule.parse v)).filter (·.status = .idle) = [] := by
    rw [List.filter_eq_nil_iff]
    intro r hr
    obtain ⟨r₀, -, rfl⟩ := List.mem_map.mp hr
    simpa using Rule.status_parse_ne_idle v r₀
  have hwaiting : waiting.filter (·.status = .idle) = waiting :=
    List.filter_eq_self.mpr fun r hr => decide_eq_true (h.idle r hr)
  rw [h.rules, List.filter_append, hread, hwaiting, List.nil_append]

/-- After a reading no rule waits. -/
theorem parseIdle (h : Batched v fresh read waiting s) :
    Batched v fresh (read ++ waiting) [] (s.parseIdle v) := by
  refine ⟨by rw [h.firsts, List.append_nil], ?_, List.forall_mem_nil _⟩
  have hread : (read.map (Rule.parse v)).map
      (fun r => if r.status = .idle then r.parse v else r) = read.map (Rule.parse v) := by
    rw [List.map_map]
    exact List.map_congr_left fun r _ => if_neg (Rule.status_parse_ne_idle v r)
  have hwaiting : waiting.map (fun r => if r.status = .idle then r.parse v else r) =
      waiting.map (Rule.parse v) :=
    List.map_congr_left fun r hr => if_pos (h.idle r hr)
  show s.rules.map _ = _
  rw [h.rules, List.map_append, hread, hwaiting, List.map_append, List.append_nil]

variable {t : Option (SymbolTable α)}

/-- **A call keeps in order what has been read and what waits.** -/
theorem call (h : Batched (t.map (·.vocabulary)) fresh read waiting s) (c : Call) :
    ∃ waiting', Batched (t.map (·.vocabulary)) (fresh ++ c.fresh?.toList) (read ++ s.readBy t c)
      waiting' (s.call t c) := by
  cases c with
  | add text attached =>
    rw [readBy, List.append_nil]
    exact h.add rfl
  | parse workers =>
    rw [Call.fresh?, Option.toList_none, List.append_nil]
    rcases call_parse t workers s with ⟨hset, hread⟩ | ⟨hset, hread⟩
    · rw [hset, hread, List.append_nil]
      exact ⟨waiting, h⟩
    · rw [hset, hread, h.filter_idle]
      exact ⟨[], h.parseIdle⟩

/-- **So do any calls.** -/
theorem after : ∀ (calls : List Call) {fresh read waiting : List Rule} {s : RuleSet},
    Batched (t.map (·.vocabulary)) fresh read waiting s →
      ∃ waiting', Batched (t.map (·.vocabulary)) (fresh ++ calls.filterMap Call.fresh?)
        (read ++ readings t s calls) waiting' (s.after t calls)
  | [], fresh, read, waiting, s, h => by
    rw [List.filterMap_nil, readings, List.append_nil, List.append_nil]
    exact ⟨waiting, h⟩
  | c :: calls, fresh, read, waiting, s, h => by
    obtain ⟨waiting₁, h₁⟩ := h.call c
    obtain ⟨waiting₂, h₂⟩ := after calls h₁
    have hfresh : (c :: calls).filterMap Call.fresh? =
        c.fresh?.toList ++ calls.filterMap Call.fresh? := by
      rw [List.filterMap_cons]
      cases c.fresh? with
      | none => rfl
      | some r => rfl
    rw [List.append_assoc, ← hfresh, List.append_assoc] at h₂
    exact ⟨waiting₂, h₂⟩

end Batched

/-- At the beginning nothing has been read and nothing waits. -/
theorem batched_empty (v : Option Rule.Vocabulary) : Batched v [] [] [] empty :=
  ⟨rfl, rfl, List.forall_mem_nil _⟩

section
variable {t : Option (SymbolTable α)} {calls : List Call} {workers : Option Int} {s : RuleSet}

/-- After calls and a reading that is not refused all that has come has been read. -/
theorem batched_of_parse (h : (empty.after t calls).parse t workers = .ok s) :
    Batched (t.map (·.vocabulary)) (calls.filterMap Call.fresh?)
      (readings t empty (calls ++ [.parse workers])) [] s := by
  obtain ⟨waiting, hcalls⟩ := (batched_empty (t.map (·.vocabulary))).after calls
  have hread : (empty.after t calls).readBy t (.parse workers) = waiting := by
    rw [← hcalls.filter_idle]
    simp only [readBy, h]
  have hreadings : readings t empty (calls ++ [.parse workers]) =
      readings t empty calls ++ waiting := by
    rw [readings_append, readings, readings, List.append_nil, hread]
  obtain rfl := parse_ok h
  rw [hreadings]
  exact hcalls.parseIdle

theorem rules_of_parse (h : (empty.after t calls).parse t workers = .ok s) :
    s.rules = (kept calls).map (Rule.parse (t.map (·.vocabulary))) := by
  have hall := batched_of_parse h
  rw [hall.rules, List.append_nil, kept, hall.firsts, List.append_nil]

/-- **When rules were added and read does not matter**, only which and in what order. -/
theorem parse_of_fresh {calls' : List Call}
    (hfresh : calls'.filterMap Call.fresh? = calls.filterMap Call.fresh?)
    (h : (empty.after t calls).parse t workers = .ok s) :
    (empty.after t calls').parse t workers = .ok s := by
  cases h' : (empty.after t calls').parse t workers with
  | error f =>
    -- Whether a reading is refused does not depend on the rules.
    obtain ⟨f', hrefused⟩ := (parse_error_iff (s := empty.after t calls)).mpr
      (parse_error_iff.mp ⟨f, h'⟩)
    rw [h] at hrefused
    cases hrefused
  | ok s' =>
    have hrules : s'.rules = s.rules := by
      rw [rules_of_parse h', rules_of_parse h, kept, kept, hfresh]
    exact congrArg (fun rules => Except.ok (RuleSet.mk rules)) hrules

end

/-- **Rules added and read in batches.** A reading at the end is refused only if several workers are
to share a table that may change. Otherwise there are, of the rules with one text, the first, each
read once, as if all rules had been added before any was read. -/
theorem rules_of_batches (t : Option (SymbolTable α)) (calls : List Call) (workers : Option Int) :
    ((∃ f, (empty.after t calls).parse t workers = .error f) ↔
      workers.any (1 < ·) = true ∧ t.any (!·.frozen) = true) ∧
    ∀ s, (empty.after t calls).parse t workers = .ok s →
      s.rules = (kept calls).map (Rule.parse (t.map (·.vocabulary))) ∧
      readings t empty (calls ++ [.parse workers]) = kept calls ∧
      ((kept calls).map (·.text)).Nodup ∧
      (empty.after t (calls.filter (·.fresh?.isSome))).parse t workers = .ok s ∧
      (∀ r ∈ s.rules, r.status ≠ .idle) ∧
      (s.status = .done ∨ s.status = .erroneous) ∧
      (s.status = .done ↔ ∀ r ∈ kept calls, (r.parse (t.map (·.vocabulary))).status = .done) := by
  refine ⟨parse_error_iff, fun s hs => ?_⟩
  have hrules := rules_of_parse hs
  have hread : readings t empty (calls ++ [.parse workers]) = kept calls := by
    rw [kept, (batched_of_parse hs).firsts, List.append_nil]
  have hfresh : (calls.filter (·.fresh?.isSome)).filterMap Call.fresh? =
      calls.filterMap Call.fresh? := by
    rw [List.filterMap_filter]
    refine List.filterMap_congr fun c _ => ?_
    cases c.fresh? with
    | none => rfl
    | some r => rfl
  have hsettled : ∀ r ∈ s.rules, r.status ≠ .idle := by
    intro r hr
    rw [hrules] at hr
    obtain ⟨r₀, -, rfl⟩ := List.mem_map.mp hr
    exact Rule.status_parse_ne_idle _ r₀
  refine ⟨hrules, hread, nodup_firsts _, parse_of_fresh hfresh hs, hsettled, status_of_settled hsettled, ?_⟩
  rw [status_done_iff, hrules, List.forall_mem_map]

end RuleSet

end FuzzyInference
