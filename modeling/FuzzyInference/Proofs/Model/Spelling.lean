import FuzzyInference.Proofs.Model.Equality
import FuzzyInference.Proofs.Model.Listing
import FuzzyInference.Proofs.Text.Lines

/-!
# Models that are spelled out

A model is spelled out in a listing: its name and steps, each variable with its terms behind it, and
its rules, each on a line of its own. The listing leads back to the model.

* `SpellsNumber`, `SpellsTerm`, `SpellsVariable`, `Spells`: the lines of a model;
* `Spellable`: the models that can be spelled out;
* `directive_model`, `directive_steps`, `directive_var`, `directive_mf`, `directive_rule`: what each
  kind of line does;
* `readFrom_terms`, `readFrom_variables`, `readFrom_rules`: what the lines of each kind do;
* `read_of_spells`: **a spelled model is read as itself**.
-/

namespace FuzzyInference.Listing

open FuzzyInference.Decimal

/-! ### Spelling -/

/-- The word can stand alone and is read as the number. -/
def SpellsNumber (w : Text) (x : Float) : Prop :=
  w.IsBare ∧ ∃ y, readFloat w = .ok y ∧ (y == x) = true

instance (w : Text) (x : Float) : Decidable (SpellsNumber w x) :=
  decidable_of_iff (w.IsBare ∧ (readFloat w).toOption.any (· == x) = true) <| by
    refine and_congr_right fun _ => ?_
    rw [Option.any_eq_true]
    constructor
    · rintro ⟨y, hy, hyx⟩
      exact ⟨y, ok_of_toOption hy, hyx⟩
    · rintro ⟨y, hy, hyx⟩
      exact ⟨y, by rw [hy]; rfl, hyx⟩

/-- The line defines the term for the variable. -/
def SpellsTerm (variableName : Text) (t : Term Float) (line : Text) : Prop :=
  ∃ words, List.Forall₂ SpellsNumber words t.corners ∧
    line = Text.join " " ("mf" :: variableName :: t.name :: (t.shape.name : Text) :: words)

/-- The lines declare the variable and define its terms. -/
def SpellsVariable (d : Declaration Float) (lines : List Text) : Prop :=
  ∃ terms, List.Forall₂ (SpellsTerm d.name) d.terms terms ∧
    lines = Text.join " " ["var", d.usage, d.name] :: terms

/-- The lines spell the model out. -/
def Spells (m : Model Float) (lines : List Text) : Prop :=
  ∃ steps blocks, steps.IsBare ∧ readInteger steps = .ok m.steps ∧
    List.Forall₂ SpellsVariable m.declarations blocks ∧
    lines = Text.join " " ["model", m.name] :: Text.join " " ["steps", steps] ::
      (blocks.flatten ++ m.rules.map fun r => ("rule" : Text) ++ " " ++ r)

/-- The text of a rule that can stand on a line: it is not empty, trimmed, and has no marks. -/
structure IsRuleText (r : Text) : Prop extends r.IsLine where
  trimmed : Text.trim r = r
  unmarked : Text.IsUnmarked r.toList

/-- The model has a step and an output at least and is consistent, its names can stand alone, and
the texts of its rules can stand on lines. -/
structure Spellable (m : Model Float) : Prop extends m.Consistent where
  steps : 1 ≤ m.steps
  outputs : m.outputs ≠ []
  name : m.name.IsBare
  variableNames : ∀ d ∈ m.declarations, d.name.IsBare
  termNames : ∀ d ∈ m.declarations, ∀ t ∈ d.terms, t.name.IsBare
  rules : ∀ r ∈ m.rules, IsRuleText r

/-! ### Words -/

/-- The words that have a meaning can stand alone, and are written small. -/
theorem keyword_bare : ∀ w ∈ (["model", "steps", "var", "mf", "rule", "tri", "trap", "input",
    "output"] : List Text), w.IsBare ∧ Text.lowercase w = w := by
  decide +kernel

/-- The words of a term can stand alone. -/
theorem bare_of_spellsTerm {variableName : Text} {t : Term Float} {words : List Text}
    (hvariable : variableName.IsBare) (hname : t.name.IsBare)
    (hwords : List.Forall₂ SpellsNumber words t.corners) :
    ∀ w ∈ ("mf" : Text) :: variableName :: t.name :: (t.shape.name : Text) :: words, w.IsBare := by
  have hshape : (t.shape.name : Text).IsBare := by
    cases t.shape with
    | triangle => exact (keyword_bare "tri" (by simp)).1
    | trapezoid => exact (keyword_bare "trap" (by simp)).1
  refine List.forall_mem_cons.mpr ⟨(keyword_bare "mf" (by simp)).1, List.forall_mem_cons.mpr
    ⟨hvariable, List.forall_mem_cons.mpr ⟨hname, List.forall_mem_cons.mpr ⟨hshape, ?_⟩⟩⟩⟩
  intro w hw
  obtain ⟨x, -, hwx⟩ := exists_of_forall₂_left hwords w hw
  exact hwx.1

/-- The words of a variable can stand alone. -/
theorem bare_of_declaration {d : Declaration Float} (hname : d.name.IsBare)
    (husage : d.usage = "input" ∨ d.usage = "output") :
    ∀ w ∈ (["var", d.usage, d.name] : List Text), w.IsBare := by
  have husage' : d.usage.IsBare := by
    rcases husage with h | h
    · exact h ▸ (keyword_bare "input" (by simp)).1
    · exact h ▸ (keyword_bare "output" (by simp)).1
  exact List.forall_mem_cons.mpr ⟨(keyword_bare "var" (by simp)).1,
    List.forall_mem_cons.mpr ⟨husage', List.forall_mem_singleton.mpr hname⟩⟩

/-! ### Corners -/

theorem length_corners (t : Term Float) : t.corners.length = t.shape.cornerCount := by
  unfold Term.corners
  cases t.shape <;> rfl

/-- Corners that ascend do so as they are written. -/
theorem ascends_corners {t : Term Float} (h : t.Ascends) : ascends t.corners = true := by
  unfold Term.corners
  cases hshape : t.shape with
  | triangle =>
    have hfinish : (t.finish == t.finish) = true := beq_self_of_isNaN (isNaN_of_le h.falling).2
    have hfalling : Scalar.le t.leftTop t.finish = true :=
      le_of_beq (Term.tops_of_shape hshape) hfinish h.falling
    exact Bool.and_eq_true_iff.mpr ⟨h.rising, Bool.and_eq_true_iff.mpr ⟨hfalling, rfl⟩⟩
  | trapezoid =>
    exact Bool.and_eq_true_iff.mpr ⟨h.rising, Bool.and_eq_true_iff.mpr
      ⟨h.level, Bool.and_eq_true_iff.mpr ⟨h.falling, rfl⟩⟩⟩

/-- Numbers that equal ascending ones ascend. -/
theorem ascends_of_beq : ∀ {ys xs : List Float}, List.Forall₂ (fun y x => (y == x) = true) ys xs →
    ascends xs = true → ascends ys = true
  | _, _, .nil, _ => rfl
  | _, _, .cons _ .nil, _ => rfl
  | _, _, .cons hy (.cons hz h), hascends => by
    obtain ⟨hle, hrest⟩ := Bool.and_eq_true_iff.mp hascends
    exact Bool.and_eq_true_iff.mpr ⟨le_of_beq hy hz hle, ascends_of_beq (.cons hz h) hrest⟩

/-- Numbers that equal the corners of a term make up an equal term. -/
theorem exists_ofCorners? {t : Term Float} {ys : List Float}
    (h : List.Forall₂ (fun y x => (y == x) = true) ys t.corners) :
    ∃ u, Term.ofCorners? t.name t.shape ys = some u ∧ u.Equals t := by
  unfold Term.corners at h
  cases hshape : t.shape with
  | triangle =>
    rw [hshape] at h
    rcases h with _ | ⟨ha, _ | ⟨hb, _ | ⟨hc, _ | _⟩⟩⟩
    exact ⟨_, rfl, rfl, ha, hb, beq_trans hb (Term.tops_of_shape hshape), hc⟩
  | trapezoid =>
    rw [hshape] at h
    rcases h with _ | ⟨ha, _ | ⟨hb, _ | ⟨hc, _ | ⟨hd, _ | _⟩⟩⟩⟩
    exact ⟨_, rfl, rfl, ha, hb, hc, hd⟩

theorem exists_readNumbers {words : List Text} {xs : List Float}
    (h : List.Forall₂ SpellsNumber words xs) :
    ∃ ys, readNumbers words = .ok ys ∧ List.Forall₂ (fun y x => (y == x) = true) ys xs := by
  induction h with
  | nil => exact ⟨[], rfl, .nil⟩
  | @cons w x words xs hword _ ih =>
    obtain ⟨-, y, hy, hyx⟩ := hword
    obtain ⟨ys, hread, hequal⟩ := ih
    have hone : (readFloat w).mapError Cause.numeral = .ok y := by
      rw [hy]
      rfl
    exact ⟨y :: ys, mapM_ok_iff.mpr (.cons hone (mapM_ok_iff.mp hread)), .cons hyx hequal⟩

/-- **Words that spell the corners of a term** are read as an equal term. -/
theorem readTerm_of_spells {t : Term Float} {words : List Text} (hascends : t.Ascends)
    (hwords : List.Forall₂ SpellsNumber words t.corners) :
    ∃ u, readTerm t.name t.shape words = .ok u ∧ u.Equals t := by
  have hlength : words.length = t.shape.cornerCount :=
    hwords.length_eq.trans (length_corners t)
  obtain ⟨ys, hread, hequal⟩ := exists_readNumbers hwords
  obtain ⟨u, hu, hequals⟩ := exists_ofCorners? hequal
  refine ⟨u, ?_, hequals⟩
  have hordered : ¬ (!ascends ys) = true := by
    rw [ascends_of_beq hequal (ascends_corners hascends)]
    exact Bool.false_ne_true
  unfold readTerm
  rw [if_neg (not_not.mpr hlength), hread]
  dsimp only
  rw [if_neg hordered, hu]

/-! ### Directives -/

section
variable {m : Model Float}

/-- What a line does is told by its first word. -/
theorem directive_of_split {line head : Text} {rest : List Text}
    (hsplit : Text.Words.split line = .ok (head :: rest)) (hsmall : Text.lowercase head = head) :
    directive m line =
      if head == "model" then nameModel m rest
      else if head == "steps" then setSteps m rest
      else if head == "var" then declareVariable m rest
      else if head == "mf" then defineTerm m rest
      else if head == "rule" then stateRule m line
      else .error (.unknownDirective head) := by
  unfold directive
  rw [hsplit]
  dsimp only
  rw [hsmall]

theorem directive_model {name : Text} (hname : name.IsBare) :
    directive m (Text.join " " ["model", name]) = .ok { m with name } := by
  obtain ⟨hhead, hsmall⟩ := keyword_bare "model" (by simp)
  have hwords : ∀ w ∈ (["model", name] : List Text), w.IsBare :=
    List.forall_mem_cons.mpr ⟨hhead, List.forall_mem_singleton.mpr hname⟩
  rw [directive_of_split (Text.Words.split_join hwords) hsmall]
  rfl

theorem directive_steps {word : Text} {steps : Int} (hword : word.IsBare)
    (hread : readInteger word = .ok steps) (hpos : 1 ≤ steps) :
    directive m (Text.join " " ["steps", word]) = .ok { m with steps } := by
  obtain ⟨hhead, hsmall⟩ := keyword_bare "steps" (by simp)
  have hwords : ∀ w ∈ (["steps", word] : List Text), w.IsBare :=
    List.forall_mem_cons.mpr ⟨hhead, List.forall_mem_singleton.mpr hword⟩
  rw [directive_of_split (Text.Words.split_join hwords) hsmall]
  show setSteps m [word] = _
  unfold setSteps
  dsimp only
  rw [hread]
  exact if_neg (not_lt.mpr hpos)

theorem directive_var {d : Declaration Float} (hname : d.name.IsBare)
    (husage : d.usage = "input" ∨ d.usage = "output") (hnew : m.find? d.name = none) :
    directive m (Text.join " " ["var", d.usage, d.name]) =
      .ok { m with declarations := m.declarations ++ [⟨d.usage, d.name, []⟩] } := by
  have hsmall : Text.lowercase d.usage = d.usage := by
    rcases husage with h | h
    · exact h ▸ (keyword_bare "input" (by simp)).2
    · exact h ▸ (keyword_bare "output" (by simp)).2
  have hknown : ¬ (!(d.usage == "input" || d.usage == "output")) = true := by
    simpa [Classical.or_iff_not_imp_left] using husage
  rw [directive_of_split (Text.Words.split_join (bare_of_declaration hname husage))
    (keyword_bare "var" (by simp)).2]
  show declareVariable m [d.usage, d.name] = _
  unfold declareVariable
  dsimp only
  rw [hsmall, if_neg hknown, hnew]
  rfl

/-- The variable that was declared last is found, and changed, if no other goes by its name. -/
theorem find?_of_last {ds : List (Declaration Float)} {d : Declaration Float}
    (hlast : m.declarations = ds ++ [d]) (hother : ∀ e ∈ ds, ¬ e.answersTo d.name = true) :
    m.find? d.name = some d ∧ ∀ f, changeFirst d.name f m.declarations = ds ++ [f d] := by
  have hself : d.answersTo d.name = true := beq_self_eq_true _
  refine ⟨?_, fun f => ?_⟩
  · unfold Model.find?
    rw [hlast, List.find?_append, List.find?_eq_none.mpr hother, Option.none_or]
    exact List.find?_cons_of_pos hself
  · rw [hlast]
    clear hlast
    induction ds with
    | nil => exact if_pos hself
    | cons e ds ih =>
      obtain ⟨he, hds⟩ := List.forall_mem_cons.mp hother
      rw [List.cons_append, changeFirst, if_neg he, ih hds]
      rfl

theorem directive_mf {ds : List (Declaration Float)} {d : Declaration Float} {t : Term Float}
    {line : Text} (hlast : m.declarations = ds ++ [d])
    (hother : ∀ e ∈ ds, ¬ e.answersTo d.name = true)
    (hnew : Text.lowercase t.name ∉ d.terms.map fun t => Text.lowercase t.name)
    (hvariable : d.name.IsBare) (hname : t.name.IsBare) (hascends : t.Ascends)
    (hline : SpellsTerm d.name t line) :
    ∃ u, u.Equals t ∧ directive m line =
      .ok { m with declarations := ds ++ [{ d with terms := d.terms ++ [u] }] } := by
  obtain ⟨words, hwords, rfl⟩ := hline
  obtain ⟨u, hu, hequals⟩ := readTerm_of_spells hascends hwords
  refine ⟨u, hequals, ?_⟩
  obtain ⟨hfound, hchanged⟩ := find?_of_last hlast hother
  have hfree : ¬ (d.terms.any fun u => Text.lowercase u.name == Text.lowercase t.name) = true := by
    simpa using hnew
  have hshape : shapeOf? (Text.lowercase (t.shape.name : Text)) = some t.shape := by
    cases t.shape with
    | triangle => decide +kernel
    | trapezoid => decide +kernel
  rw [directive_of_split (Text.Words.split_join (bare_of_spellsTerm hvariable hname hwords))
    (keyword_bare "mf" (by simp)).2]
  show defineTerm m (d.name :: t.name :: (t.shape.name : Text) :: words) = _
  unfold defineTerm
  dsimp only
  rw [hfound]
  dsimp only
  rw [if_neg hfree, hshape]
  dsimp only
  rw [hu]
  dsimp only
  rw [hchanged]

/-- The text of a rule is what stands behind its directive. -/
theorem ruleText_of_rule {r : Text} (hr : IsRuleText r) :
    ruleText (("rule" : Text) ++ " " ++ r) = r := by
  have hline : (("rule" : Text) ++ " " ++ r).toList =
      .char 'r' :: [.char 'u', .char 'l', .char 'e', .char ' '] ++ r.toList := rfl
  have hdrop : (.char 'r' :: [.char 'u', .char 'l', .char 'e', .char ' '] ++ r.toList :
      List CodePoint).drop 4 = .char ' ' :: r.toList := rfl
  have hwhole : Text.trimWith (·.is Text.isBlank) r.toList = r.toList :=
    congrArg Text.toList hr.trimmed
  have hbehind : (.char ' ' :: r.toList).takeWhile (fun c : CodePoint => c != '#') =
      .char ' ' :: r.toList := by
    refine List.takeWhile_eq_self_iff.mpr (List.forall_mem_cons.mpr ⟨by decide, fun c hc => ?_⟩)
    refine bne_iff_ne.mpr ?_
    rintro rfl
    exact Bool.false_ne_true (hr.unmarked _ hc).symm
  have hblank : CodePoint.is Text.isBlank (.char ' ') = true := by decide
  have hletter : CodePoint.is Text.isBlank (.char 'r') = false := by decide
  unfold ruleText Text.trim
  dsimp only
  rw [hline, Text.trimWith_append hletter hwhole hr.ne_nil, Text.toList_ofList,
    Text.toList_ofList, hdrop, hbehind, Text.trimWith_cons hblank, hwhole]
  rfl

theorem directive_rule {r : Text} (hr : IsRuleText r) :
    directive m (("rule" : Text) ++ " " ++ r) = .ok { m with rules := m.rules ++ [r] } := by
  obtain ⟨hhead, hsmall⟩ := keyword_bare "rule" (by simp)
  have hstated : ¬ r.isEmpty = true := mt List.isEmpty_iff.mp hr.ne_nil
  rw [directive_of_split (Text.Words.split_behind hhead hr.unmarked) hsmall, if_neg (by decide),
    if_neg (by decide), if_neg (by decide), if_neg (by decide), if_pos (by decide)]
  unfold stateRule
  rw [ruleText_of_rule hr]
  exact if_neg hstated

end

/-! ### Lines -/

/-- Lines that are read go on with those behind them. -/
theorem readFrom_append : ∀ {lines : List Text} {m m' : Model Float} {n : Nat},
    readFrom m n lines = .ok m' →
      ∀ rest, readFrom m n (lines ++ rest) = readFrom m' (n + lines.length) rest
  | [], _, _, _, h, _ => by
    cases h
    rfl
  | line :: lines, m, m', n, h, rest => by
    obtain ⟨m₁, hline, h⟩ := exists_of_readFrom_cons h
    rw [List.cons_append, readFrom_cons hline, readFrom_append h, List.length_cons,
      Nat.add_assoc, Nat.add_comm 1]

/-- **The lines of terms** add equal terms to the variable that was declared last. -/
theorem readFrom_terms {ds : List (Declaration Float)} :
    ∀ {ts : List (Term Float)} {lines : List Text} {m : Model Float} {d : Declaration Float}
      {n : Nat}, List.Forall₂ (SpellsTerm d.name) ts lines → m.declarations = ds ++ [d] →
      (∀ e ∈ ds, ¬ e.answersTo d.name = true) → d.name.IsBare →
      (∀ t ∈ ts, t.name.IsBare) → (∀ t ∈ ts, t.Ascends) →
      ((d.terms ++ ts).map fun t => Text.lowercase t.name).Nodup →
      ∃ us, List.Forall₂ Term.Equals us ts ∧ readFrom m n lines =
        .ok { m with declarations := ds ++ [{ d with terms := d.terms ++ us }] }
  | [], [], m, d, n, .nil, hlast, _, _, _, _, _ => by
    refine ⟨[], .nil, ?_⟩
    rw [List.append_nil, ← hlast]
    rfl
  | t :: ts, line :: lines, m, d, n, .cons hline hlines, hlast, hother, hbare, hnames, hascends,
      hnodup => by
    obtain ⟨hname, hnames⟩ := List.forall_mem_cons.mp hnames
    obtain ⟨ht, hascends⟩ := List.forall_mem_cons.mp hascends
    rw [List.append_cons, List.map_append, List.map_append] at hnodup
    have hnew : Text.lowercase t.name ∉ d.terms.map fun t => Text.lowercase t.name := by
      intro hmem
      have hdisjoint := (List.nodup_append.mp (List.nodup_append.mp hnodup).1).2.2
      exact hdisjoint _ hmem _ (List.mem_singleton_self _) rfl
    obtain ⟨u, hu, hdirective⟩ := directive_mf hlast hother hnew hbare hname ht hline
    -- The term that was read has the name of the one that was spelled.
    have hnodup' : ((d.terms ++ [u] ++ ts).map fun t => Text.lowercase t.name).Nodup := by
      rw [List.map_append, List.map_append, List.map_singleton, hu.name]
      exact hnodup
    obtain ⟨us, hus, hread⟩ := readFrom_terms
      (m := { m with declarations := ds ++ [{ d with terms := d.terms ++ [u] }] })
      (d := { d with terms := d.terms ++ [u] }) (n := n + 1) hlines rfl hother hbare hnames
      hascends hnodup'
    refine ⟨u :: us, .cons hu hus, ?_⟩
    rw [readFrom_cons hdirective, List.append_cons d.terms u us]
    exact hread

/-- **The lines of variables** add equal variables. -/
theorem readFrom_variables : ∀ {ds : List (Declaration Float)} {blocks : List (List Text)}
    {m : Model Float} {n : Nat}, List.Forall₂ SpellsVariable ds blocks →
    (∀ d ∈ ds, d.WellFormed) → (∀ d ∈ ds, d.name.IsBare) →
    (∀ d ∈ ds, ∀ t ∈ d.terms, t.name.IsBare) →
    ((m.declarations ++ ds).map fun d => Text.lowercase d.name).Nodup →
    ∃ es, List.Forall₂ Declaration.Equals es ds ∧
      readFrom m n blocks.flatten = .ok { m with declarations := m.declarations ++ es }
  | [], [], m, n, .nil, _, _, _, _ => by
    refine ⟨[], .nil, ?_⟩
    rw [List.append_nil]
    rfl
  | d :: ds, _ :: blocks, m, n, .cons ⟨lines, hlines, heq⟩ hblocks, hwell, hbare, hterms,
      hnodup => by
    subst heq
    obtain ⟨hd, hwell⟩ := List.forall_mem_cons.mp hwell
    obtain ⟨hname, hbare⟩ := List.forall_mem_cons.mp hbare
    obtain ⟨htnames, hterms⟩ := List.forall_mem_cons.mp hterms
    rw [List.append_cons, List.map_append, List.map_append] at hnodup
    have hother : ∀ e ∈ m.declarations, ¬ e.answersTo d.name = true := by
      intro e he hanswers
      have hdisjoint := (List.nodup_append.mp (List.nodup_append.mp hnodup).1).2.2
      exact hdisjoint _ (List.mem_map_of_mem he) _ (List.mem_singleton_self _)
        (beq_iff_eq.mp hanswers)
    have hvar := directive_var hname hd.usage (List.find?_eq_none.mpr hother)
    obtain ⟨us, hus, hread⟩ := readFrom_terms
      (m := { m with declarations := m.declarations ++ [⟨d.usage, d.name, []⟩] })
      (d := ⟨d.usage, d.name, []⟩) (n := n + 1) hlines rfl hother hname htnames hd.ascends hd.terms
    let e : Declaration Float := ⟨d.usage, d.name, us⟩
    have hnodup' : ((m.declarations ++ [e] ++ ds).map fun d => Text.lowercase d.name).Nodup := by
      rw [List.map_append, List.map_append]
      exact hnodup
    obtain ⟨es, hes, hrest⟩ := readFrom_variables
      (m := { m with declarations := m.declarations ++ [e] }) (n := n + 1 + lines.length)
      hblocks hwell hbare hterms hnodup'
    refine ⟨e :: es, .cons ⟨rfl, rfl, hus⟩ hes, ?_⟩
    rw [List.flatten_cons, List.cons_append, readFrom_cons hvar, readFrom_append hread,
      List.append_cons m.declarations e es]
    exact hrest

/-- **The lines of rules** add their texts. -/
theorem readFrom_rules : ∀ {rs : List Text} {m : Model Float} {n : Nat},
    (∀ r ∈ rs, IsRuleText r) →
      readFrom m n (rs.map fun r => ("rule" : Text) ++ " " ++ r) =
        .ok { m with rules := m.rules ++ rs }
  | [], m, n, _ => by
    rw [List.append_nil]
    rfl
  | r :: rs, m, n, h => by
    obtain ⟨hr, hrs⟩ := List.forall_mem_cons.mp h
    rw [List.map_cons, readFrom_cons (directive_rule hr), List.append_cons m.rules r rs]
    exact readFrom_rules hrs

/-! ### Listings -/

/-- What spells a model out is made of lines. -/
theorem isLine_of_spells {m : Model Float} {lines : List Text} (hm : Spellable m)
    (h : Spells m lines) : ∀ line ∈ lines, line.IsLine := by
  obtain ⟨steps, blocks, hsteps, -, hblocks, rfl⟩ := h
  have hmodel : ∀ w ∈ (["model", m.name] : List Text), w.IsBare :=
    List.forall_mem_cons.mpr ⟨(keyword_bare "model" (by simp)).1,
      List.forall_mem_singleton.mpr hm.name⟩
  have hcount : ∀ w ∈ (["steps", steps] : List Text), w.IsBare :=
    List.forall_mem_cons.mpr ⟨(keyword_bare "steps" (by simp)).1,
      List.forall_mem_singleton.mpr hsteps⟩
  refine List.forall_mem_cons.mpr ⟨Text.isLine_join hmodel, List.forall_mem_cons.mpr
    ⟨Text.isLine_join hcount, List.forall_mem_append.mpr ⟨?_, ?_⟩⟩⟩
  · intro line hline
    obtain ⟨block, hblock, hline⟩ := List.mem_flatten.mp hline
    obtain ⟨d, hd, terms, hterms, rfl⟩ := exists_of_forall₂_right hblocks block hblock
    have hname := hm.variableNames d hd
    rcases List.mem_cons.mp hline with rfl | hline
    · exact Text.isLine_join (bare_of_declaration hname (hm.declarations d hd).usage)
    · obtain ⟨t, ht, words, hwords, rfl⟩ := exists_of_forall₂_right hterms line hline
      exact Text.isLine_join (bare_of_spellsTerm hname (hm.termNames d hd t ht) hwords)
  · refine List.forall_mem_map.mpr fun r hr => ⟨List.cons_ne_nil _ _, ?_⟩
    exact List.forall_mem_append.mpr ⟨by decide, (hm.rules r hr).unbroken⟩

/-- The lines of a model lead to an equal one. -/
theorem readFrom_of_spells {m : Model Float} {lines : List Text} (hm : Spellable m)
    (h : Spells m lines) : ∃ n, readFrom .empty 1 lines = .ok n ∧ n.Equals m := by
  obtain ⟨steps, blocks, hsteps, hread, hblocks, rfl⟩ := h
  -- The model behind its name and steps.
  let m₁ : Model Float := ⟨m.name, [], [], m.steps⟩
  obtain ⟨es, hes, hvariables⟩ := readFrom_variables (m := m₁) (n := 3) hblocks hm.declarations
    hm.variableNames hm.termNames hm.names
  refine ⟨⟨m.name, es, m.rules, m.steps⟩, ?_, rfl, hes, rfl, rfl⟩
  rw [readFrom_cons (directive_model hm.name),
    readFrom_cons (directive_steps hsteps hread hm.steps)]
  exact (readFrom_append hvariables _).trans (readFrom_rules hm.rules)

/-- **A spelled model is read as itself.** The listing may end with a line break or without one. -/
theorem read_of_spells {m : Model Float} {lines : List Text} (hm : Spellable m)
    (h : Spells m lines) :
    (∀ text, Text.lines text = lines → ∃ n, read text = .ok n ∧ n.Equals m) ∧
      Text.lines (Text.join "\n" lines) = lines ∧
      Text.lines (Text.join "\n" lines ++ "\n") = lines := by
  have hne : lines ≠ [] := by
    obtain ⟨steps, blocks, -, -, -, rfl⟩ := h
    exact List.cons_ne_nil _ _
  refine ⟨?_, Text.lines_join hne (isLine_of_spells hm h)⟩
  intro text htext
  obtain ⟨n, hread, hequals⟩ := readFrom_of_spells hm h
  have houtputs : ¬ n.outputs.isEmpty = true :=
    mt List.isEmpty_iff.mp (hequals.outputs_ne_nil hm.outputs)
  refine ⟨n, ?_, hequals⟩
  unfold read
  dsimp only
  rw [htext, hread]
  exact if_neg houtputs

/-- A model with a triangle and a rule, its numbers written in several ways. -/
theorem read_of_short_spelling : ∃ m n, Spellable m ∧
    Spells m ["model m", "steps 0_3", "var output y", "mf y a tri -.5 1e0 +1.25", "rule r"] ∧
    read "model m\nsteps 0_3\nvar output y\nmf y a tri -.5 1e0 +1.25\nrule r" = .ok n ∧
    n.Equals m := by
  let t : Term Float := ⟨"a", -0.5, 1.0, 1.0, 1.25⟩
  let d : Declaration Float := ⟨"output", "y", [t]⟩
  let m : Model Float := ⟨"m", [d], ["r"], 3⟩
  have hterm : t.Ascends := ⟨by decide +kernel, by decide +kernel, by decide +kernel⟩
  have hrule : IsRuleText "r" :=
    ⟨⟨by decide, by decide⟩, by decide +kernel, (by decide : ("r" : Text).IsBare).unmarked⟩
  have hm : Spellable m :=
    ⟨⟨List.forall_mem_singleton.mpr ⟨Or.inr rfl, List.forall_mem_singleton.mpr hterm,
      List.nodup_singleton _⟩, List.nodup_singleton _⟩, by decide, by decide +kernel, by decide,
      List.forall_mem_singleton.mpr (by decide),
      List.forall_mem_singleton.mpr (List.forall_mem_singleton.mpr (by decide)),
      List.forall_mem_singleton.mpr hrule⟩
  have hshape : t.shape = .triangle := if_pos (by decide +kernel)
  have hline : SpellsTerm d.name t "mf y a tri -.5 1e0 +1.25" := by
    refine ⟨["-.5", "1e0", "+1.25"], ?_, ?_⟩
    · unfold Term.corners
      rw [hshape]
      exact .cons (by decide +kernel) (.cons (by decide +kernel) (.cons (by decide +kernel) .nil))
    · rw [hshape]
      decide +kernel
  have hspells : Spells m
      ["model m", "steps 0_3", "var output y", "mf y a tri -.5 1e0 +1.25", "rule r"] :=
    ⟨"0_3", [["var output y", "mf y a tri -.5 1e0 +1.25"]], by decide, by decide +kernel,
      .cons ⟨_, .cons hline .nil, by decide +kernel⟩ .nil, by decide +kernel⟩
  obtain ⟨hread, -⟩ := read_of_spells hm hspells
  obtain ⟨n, hn, hequals⟩ :=
    hread "model m\nsteps 0_3\nvar output y\nmf y a tri -.5 1e0 +1.25\nrule r" (by decide +kernel)
  exact ⟨m, n, hm, hspells, hn, hequals⟩

/-- The number of steps is not read where it is written as a decimal: a listing is refused that
spells out all else of a model. -/
theorem steps_not_read_as_decimal :
    Spellable ⟨"m", [⟨"output", "y", []⟩], [], 10⟩ ∧ ("1e1" : Text).IsBare ∧
      (readFloat "1e1").toOption.any (· == 10.0) = true ∧
      (read "model m\nsteps 1e1\nvar output y").toOption.isNone = true := by
  refine ⟨⟨⟨List.forall_mem_singleton.mpr ⟨Or.inr rfl, List.forall_mem_nil _, List.nodup_nil⟩,
    List.nodup_singleton _⟩, by decide, by decide +kernel, by decide,
    List.forall_mem_singleton.mpr (by decide),
    List.forall_mem_singleton.mpr (List.forall_mem_nil _), List.forall_mem_nil _⟩, by decide,
    by decide +kernel, by decide +kernel⟩

end FuzzyInference.Listing
