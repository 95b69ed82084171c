import FuzzyInference.Proofs.Model.Listing
import FuzzyInference.Proofs.Text.Lines
import FuzzyInference.Proofs.Text.Lowercase
import FuzzyInference.Proofs.Text.Written

/-!
# Lines that state rules

Whether a line states a rule is told by its first word, which may be written with quotes and
backslashes. The text of the rule is cut out of the line as it is written, behind the first four
characters. So it is what stands behind the first word exactly if that word is written without marks.

* `Heads`: the word of a rule line as it is written, and what stands behind it;
* `ruleText_of_heads`: the text that is cut out; `ruleText_eq_iff`: **which lines state the text
  behind their first word**;
* `statesRule`, `exists_heads`, `statesRule_of_heads`: **which lines state rules**;
* `rules_of_directive`, `rules_of_readFrom`: the rules of one line and of all;
* `rules_of_lines`: **the rules of a listing**, line by line;
* `quoted_rule`: a line that states another text.
-/

namespace FuzzyInference.Listing

open FuzzyInference.Text

variable {line : Text} {w behind : List CodePoint}

/-! ### Words for rules -/

/-- The line opens with a word for a rule, written as `w`. -/
def Heads (line : Text) (w behind : List CodePoint) : Prop :=
  ∃ gap head, Words.Opens line gap w behind head ∧ lowercase head = "rule"

theorem length_of_rule {head : Text} (h : lowercase head = "rule") : head.toList.length = 4 := by
  have hlower : lowerAfter [] head.toList = ("rule" : Text).toList := congrArg Text.toList h
  have hdot : .char '\u0307' ∉ lowerAfter [] head.toList := by
    rw [hlower]
    decide
  rw [← length_lowerAfter hdot, hlower]
  rfl

theorem not_mem_of_settled {head : Text} (h : lowercase head = "rule") {c : CodePoint}
    (hc : Settled c) (hother : c ∉ ("rule" : Text).toList) : c ∉ head.toList := by
  intro hmem
  have hlower : c ∈ (lowercase head).toList := mem_lowerAfter_of_settled hc hmem
  rw [h] at hlower
  exact hother hlower

/-- A word for a rule has four characters and is written with more if it has marks. -/
theorem Heads.length (h : Heads line w behind) :
    4 ≤ w.length ∧ (IsUnmarked w ↔ w.length = 4) := by
  obtain ⟨gap, head, hopens, hrule⟩ := h
  have hlength := length_of_rule hrule
  rcases hopens.writes.eq_or_length_lt with ⟨hw, heq⟩ | ⟨hw, hlt⟩
  · rw [heq]
    exact ⟨hlength.ge, iff_of_true (heq ▸ hw) hlength⟩
  · exact ⟨by omega, iff_of_false hw (by omega)⟩

/-- A blank would be left in the word, and so would the start of a comment. -/
theorem Heads.not_blank (h : Heads line w behind) : ∀ c ∈ w, c.is isBlank = false := by
  obtain ⟨gap, head, hopens, hrule⟩ := h
  intro c hc
  by_contra hblank
  rw [Bool.not_eq_false] at hblank
  rcases hopens.writes.mem c hc with hmem | rfl | rfl | rfl
  · have hletters : ∀ c ∈ ("rule" : Text).toList, c.is isBlank = false := by decide
    refine not_mem_of_settled hrule (settled_of_isBlank hblank) (fun hletter => ?_) hmem
    exact Bool.false_ne_true ((hletters c hletter).symm.trans hblank)
  all_goals exact absurd hblank (by decide)

theorem Heads.not_comment (h : Heads line w behind) : ∀ c ∈ w, (c != .char '#') = true := by
  obtain ⟨gap, head, hopens, hrule⟩ := h
  intro c hc
  rw [bne_iff_ne]
  rintro rfl
  rcases hopens.writes.mem _ hc with hmem | hmark
  · exact not_mem_of_settled hrule (settled_of_isPlain (by decide)) (by decide) hmem
  · revert hmark
    decide

/-! ### Texts of rules -/

/-- What stands behind a word, up to the start of a comment, without blanks around it. -/
def stated (behind : List CodePoint) : Text :=
  trim (ofList (behind.takeWhile (· != .char '#')))

/-- More in front of what stands behind a word, unless it is cut off, makes the text longer. -/
theorem length_stated_lt {cs : List CodePoint} (hne : cs ≠ [])
    (hblank : ∀ c ∈ cs, c.is isBlank = false) (hcomment : ∀ c ∈ cs, (c != .char '#') = true) :
    (stated behind).toList.length < (stated (cs ++ behind)).toList.length := by
  have hlonger : (stated (cs ++ behind)).toList =
      cs ++ (behind.takeWhile (· != .char '#')).rdropWhile (·.is isBlank) := by
    have hfront := trimWith_front (p := (·.is isBlank)) (List.forall_mem_nil _) hne hblank
      (behind.takeWhile (· != .char '#'))
    rw [List.nil_append, ← List.takeWhile_append_of_pos hcomment] at hfront
    exact hfront
  have hle := length_trimWith_le (·.is isBlank) (behind.takeWhile (· != .char '#'))
  have hpos := List.length_pos_iff.mpr hne
  rw [hlonger, List.length_append]
  show (trimWith (·.is isBlank) (behind.takeWhile (· != .char '#'))).length < _
  omega

/-- **The text that is cut out of a rule line**: four characters of the word are left out, however it
is written. -/
theorem ruleText_of_heads (h : Heads line w behind) :
    ruleText line = stated (w.drop 4 ++ behind) := by
  let ⟨gap, head, hopens, _⟩ := h
  have hlength := h.length.1
  have hne : w ≠ [] := List.length_pos_iff.mp (by omega)
  have hgap : ∀ c ∈ gap, c.is isBlank = true :=
    fun c hc => isBlank_of_isSeparator (hopens.gap c hc)
  have htrim : (trim line).toList = w ++ behind.rdropWhile (·.is isBlank) := by
    show trimWith _ line.toList = _
    rw [hopens.line_eq]
    exact trimWith_front hgap hne h.not_blank _
  have hdrop : ∀ c ∈ w.drop 4, (c != .char '#') = true :=
    fun c hc => h.not_comment c (List.mem_of_mem_drop hc)
  unfold ruleText stated
  dsimp only
  rw [htrim, List.drop_append_of_le_length hlength, List.takeWhile_append_of_pos hdrop,
    List.takeWhile_append_of_pos hdrop]
  exact congrArg ofList (trimWith_takeWhile _ _ _)

/-- **Which lines state the text behind their first word**: those that write it without marks. -/
theorem ruleText_eq_iff (h : Heads line w behind) :
    ruleText line = stated behind ↔ IsUnmarked w := by
  obtain ⟨hlength, hunmarked⟩ := h.length
  rw [ruleText_of_heads h, hunmarked]
  constructor
  · intro heq
    by_contra hmarked
    have hne : w.drop 4 ≠ [] := by
      rw [Ne, List.drop_eq_nil_iff]
      omega
    have hlt : (stated behind).toList.length < (stated (w.drop 4 ++ behind)).toList.length :=
      length_stated_lt hne (fun c hc => h.not_blank c (List.mem_of_mem_drop hc))
        fun c hc => h.not_comment c (List.mem_of_mem_drop hc)
    rw [heq] at hlt
    exact lt_irrefl _ hlt
  · intro hfour
    rw [List.drop_eq_nil_iff.mpr hfour.le, List.nil_append]

/-! ### Rules of lines -/

/-- Whether the first word of the line says that it states a rule. -/
def statesRule (line : Text) : Bool :=
  match Words.split line with
  | .ok (head :: _) => lowercase head == "rule"
  | _ => false

theorem statesRule_of_split {head : Text} {rest : List Text}
    (h : Words.split line = .ok (head :: rest)) :
    statesRule line = (lowercase head == "rule") := by
  unfold statesRule
  rw [h]

/-- The word of a line that states a rule has been written in front of it. -/
theorem exists_heads {source : Text} (hline : line ∈ lines source)
    (h : statesRule line = true) : ∃ w behind, Heads line w behind := by
  unfold statesRule at h
  split at h
  · next head rest hsplit =>
    have hbreak : .char '\n' ∉ line.toList := by
      intro hmem
      exact Bool.false_ne_true (unbroken_of_mem_lines hline _ hmem).symm
    obtain ⟨gap, w, behind, hopens⟩ := Words.exists_opens hbreak hsplit
    exact ⟨w, behind, gap, head, hopens, beq_iff_eq.mp h⟩
  · cases h

/-- A line that has been written so states a rule, if it has words at all. -/
theorem statesRule_of_heads {ws : List Text} (h : Heads line w behind)
    (hsplit : Words.split line = .ok ws) : statesRule line = true := by
  obtain ⟨gap, head, hopens, hrule⟩ := h
  have hne : head ≠ Text.empty := by
    rintro rfl
    exact absurd (length_of_rule hrule) (by decide)
  obtain ⟨rest, rfl⟩ := Words.split_of_opens hopens hne hsplit
  rw [statesRule_of_split hsplit, hrule]
  exact beq_self_eq_true _

section
variable {m m' : Model Float}

theorem rules_of_nameModel {words : List Text} (h : nameModel m words = .ok m') :
    m'.rules = m.rules := by
  unfold nameModel at h
  split at h <;> cases h
  rfl

theorem rules_of_setSteps {words : List Text} (h : setSteps m words = .ok m') :
    m'.rules = m.rules := by
  unfold setSteps at h
  split at h
  · split at h
    · cases h
    · split_ifs at h
      cases h
      rfl
  · cases h

theorem rules_of_declareVariable {words : List Text} (h : declareVariable m words = .ok m') :
    m'.rules = m.rules := by
  unfold declareVariable at h
  split at h
  · dsimp only at h
    split_ifs at h
    cases h
    rfl
  · cases h

theorem rules_of_defineTerm {words : List Text} (h : defineTerm m words = .ok m') :
    m'.rules = m.rules := by
  unfold defineTerm at h
  split at h
  · split at h
    · cases h
    · split_ifs at h
      split at h
      · cases h
      · split at h
        · cases h
        · cases h
          rfl
  · cases h

theorem rules_of_stateRule (h : stateRule m line = .ok m') :
    m'.rules = m.rules ++ [ruleText line] := by
  unfold stateRule at h
  dsimp only at h
  split_ifs at h
  cases h
  rfl

/-- **A line adds its rule**, if it states one, and no other. -/
theorem rules_of_directive (h : directive m line = .ok m') :
    m'.rules = m.rules ++ if statesRule line then [ruleText line] else [] := by
  unfold directive at h
  split at h
  · cases h
  · next hsplit =>
    have hnone : statesRule line = false := by
      unfold statesRule
      rw [hsplit]
    cases h
    rw [hnone]
    exact (List.append_nil _).symm
  · next head rest hsplit =>
    rw [statesRule_of_split hsplit]
    dsimp only at h
    split_ifs at h with hmodel hsteps hvar hmf hrule
    · rw [beq_iff_eq.mp hmodel, rules_of_nameModel h]
      exact (List.append_nil _).symm
    · rw [beq_iff_eq.mp hsteps, rules_of_setSteps h]
      exact (List.append_nil _).symm
    · rw [beq_iff_eq.mp hvar, rules_of_declareVariable h]
      exact (List.append_nil _).symm
    · rw [beq_iff_eq.mp hmf, rules_of_defineTerm h]
      exact (List.append_nil _).symm
    · rw [if_pos hrule]
      exact rules_of_stateRule h

/-- **All lines add their rules**, in order. -/
theorem rules_of_readFrom : ∀ {ls : List Text} {m : Model Float} {n : Nat},
    readFrom m n ls = .ok m' → m'.rules = m.rules ++ (ls.filter statesRule).map ruleText
  | [], m, n, h => by
    cases h
    exact (List.append_nil _).symm
  | line :: ls, m, n, h => by
    obtain ⟨m₁, hline, h⟩ := exists_of_readFrom_cons h
    rw [rules_of_readFrom h, rules_of_directive hline, List.filter_cons, List.append_assoc]
    cases statesRule line <;> rfl

/-- A line that is read has words. -/
theorem exists_split_of_directive (h : directive m line = .ok m') :
    ∃ ws, Words.split line = .ok ws := by
  cases hsplit : Words.split line with
  | error f =>
    unfold directive at h
    rw [hsplit] at h
    cases h
  | ok ws => exact ⟨ws, rfl⟩

theorem exists_split_of_readFrom : ∀ {ls : List Text} {m : Model Float} {n : Nat},
    readFrom m n ls = .ok m' → ∀ line ∈ ls, ∃ ws, Words.split line = .ok ws
  | [], _, _, _ => List.forall_mem_nil _
  | line :: ls, m, n, h => by
    obtain ⟨m₁, hline, h⟩ := exists_of_readFrom_cons h
    exact List.forall_mem_cons.mpr ⟨exists_split_of_directive hline, exists_split_of_readFrom h⟩

end

/-! ### Listings -/

/-- **The rules of a listing**, as far as it has been read. There is one for each line that opens with
a word for a rule, in order. The text of the rule is what stands behind four characters of the word as
it is written. So it is what stands behind the word exactly if that has been written without marks. -/
theorem rules_of_lines {source : Text} {k : Nat} {m : Model Float}
    (h : readFrom .empty 1 ((lines source).take k) = .ok m) :
    (∀ line ∈ (lines source).take k,
      (statesRule line = true ↔ ∃ w behind, Heads line w behind)) ∧
    List.Forall₂ (fun line text => ∀ w behind, Heads line w behind →
      text = stated (w.drop 4 ++ behind) ∧ (text = stated behind ↔ IsUnmarked w))
      (((lines source).take k).filter statesRule) m.rules := by
  constructor
  · intro line hline
    obtain ⟨ws, hsplit⟩ := exists_split_of_readFrom h line hline
    constructor
    · exact exists_heads (List.mem_of_mem_take hline)
    · rintro ⟨w, behind, hheads⟩
      exact statesRule_of_heads hheads hsplit
  · rw [rules_of_readFrom h]
    show List.Forall₂ _ _ (((lines source).take k |>.filter statesRule).map ruleText)
    rw [List.forall₂_map_right_iff, List.forall₂_same]
    intro line _ w behind hheads
    exact ⟨ruleText_of_heads hheads, ruleText_eq_iff hheads⟩

/-- A line of each kind, the first with a comment behind its rule. -/
theorem rules_of_two_lines : ∃ (source : Text) (m : Model Float),
    source = "rule if x is a then y is b # so\n'Rule' if y is b then x is a" ∧
    readFrom .empty 1 ((lines source).take 2) = .ok m ∧
    m.rules = ["if x is a then y is b", "e' if y is b then x is a"] ∧
    (∀ line ∈ (lines source).take 2,
      (statesRule line = true ↔ ∃ w behind, Heads line w behind)) ∧
    List.Forall₂ (fun line text => ∀ w behind, Heads line w behind →
      text = stated (w.drop 4 ++ behind) ∧ (text = stated behind ↔ IsUnmarked w))
      (((lines source).take 2).filter statesRule) m.rules := by
  have hread : ((readFrom .empty 1
      ((lines "rule if x is a then y is b # so\n'Rule' if y is b then x is a").take 2)).toOption.map
        fun m => m.rules) = some [("if x is a then y is b" : Text), "e' if y is b then x is a"] := by
    decide +kernel
  obtain ⟨m, hm, hrules⟩ := Option.map_eq_some_iff.mp hread
  have hok := ok_of_toOption hm
  exact ⟨_, m, rfl, hok, hrules, rules_of_lines hok⟩

/-- **A line that states another text**: its word is between quotes, and one of them is left. -/
theorem quoted_rule : ¬ ∀ (source : Text) (k : Nat) (m : Model Float),
    readFrom .empty 1 ((lines source).take k) = .ok m →
      List.Forall₂ (fun line text => ∀ w behind, Heads line w behind → text = stated behind)
        (((lines source).take k).filter statesRule) m.rules := by
  intro h
  have hread : ((readFrom .empty 1
      ((lines "var output y\n\"rule\" if y is a then y is b").take 2)).toOption.map
        fun m => m.rules) = some [("e\" if y is a then y is b" : Text)] := by decide +kernel
  have hlines : ((lines "var output y\n\"rule\" if y is a then y is b").take 2).filter statesRule =
      [("\"rule\" if y is a then y is b" : Text)] := by decide +kernel
  obtain ⟨m, hm, hrules⟩ := Option.map_eq_some_iff.mp hread
  have hall := h _ 2 m (ok_of_toOption hm)
  rw [hlines, hrules, List.forall₂_cons] at hall
  have hbetween : Words.Between ("rule" : Text).toList ("rule" : Text).toList :=
    .refl (by decide)
  have hends : Words.Ends (" if y is a then y is b" : Text).toList := by
    intro c hc
    have hblank : CodePoint.char ' ' = c := Option.some.inj hc
    rw [← hblank]
    exact Or.inl rfl
  have hheads : Heads "\"rule\" if y is a then y is b" ("\"rule\"" : Text).toList
      (" if y is a then y is b" : Text).toList :=
    ⟨[], "rule", ⟨rfl, List.forall_mem_nil _, .double hbetween .nil, hends⟩,
      by decide +kernel⟩
  have hstated := hall.1 _ _ hheads
  revert hstated
  decide +kernel

end FuzzyInference.Listing
