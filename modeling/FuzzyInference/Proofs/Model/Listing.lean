import FuzzyInference.Model.Listing
import FuzzyInference.Proofs.Engine.Fresh

/-!
# What listings lead to

A listing is checked line by line as it is read, and this is all the checking that its model needs,
but for the number of outputs and the texts of the rules.

* `ascends_of_readTerm`: the terms that are read ascend;
* `Change`: what a line can do to a model; `change_of_directive`: it does nothing else;
* `exists_of_readFrom_cons`: lines are read one after the other;
* `Checked`: what there is to be said of a model after each line; `Change.checked`,
  `checked_of_readFrom`: one line and all lines keep it;
* `read_checked`: **the models of listings, and which of them can be set up.**
-/

namespace FuzzyInference.Listing

/-! ### Terms -/

/-- A term from corners that ascend. -/
theorem ascends_of_ofCorners? {label : Text} {shape : Shape} {corners : List Float}
    {t : Term Float} (ht : Term.ofCorners? label shape corners = some t)
    (h : ascends corners = true) : t.name = label ∧ t.Ascends := by
  unfold Term.ofCorners? at ht
  split at ht
  · cases ht
    simp only [ascends, Bool.and_eq_true, and_true] at h
    exact ⟨rfl, h.1, le_self_of_isNaN (isNaN_of_le h.1).2, h.2⟩
  · cases ht
    simp only [ascends, Bool.and_eq_true, and_true] at h
    exact ⟨rfl, h.1, h.2.1, h.2.2⟩
  · cases ht

theorem ascends_of_readTerm {label : Text} {shape : Shape} {words : List Text} {t : Term Float}
    (h : readTerm label shape words = .ok t) : t.name = label ∧ t.Ascends := by
  unfold readTerm at h
  split_ifs at h with hlength
  cases hcorners : readNumbers words with
  | error c =>
    rw [hcorners] at h
    cases h
  | ok corners =>
    rw [hcorners] at h
    dsimp only at h
    split_ifs at h with hascends
    cases ht : Term.ofCorners? label shape corners with
    | none =>
      rw [ht] at h
      cases h
    | some t' =>
      rw [ht] at h
      cases h
      exact ascends_of_ofCorners? ht (by simpa using hascends)

/-! ### Directives -/

/-- What a line of a listing can do to a model. -/
inductive Change (m : Model Float) : Model Float → Prop
  | nothing : Change m m
  | name (name : Text) : Change m { m with name }
  | steps (steps : Int) (hpos : 1 ≤ steps) : Change m { m with steps }
  | declare (usage name : Text) (husage : usage = "input" ∨ usage = "output")
      (hnew : m.find? name = none) :
      Change m { m with declarations := m.declarations ++ [⟨usage, name, []⟩] }
  | define (name : Text) (d : Declaration Float) (t : Term Float) (hfound : m.find? name = some d)
      (hnew : Text.lowercase t.name ∉ d.terms.map fun t => Text.lowercase t.name)
      (hascends : t.Ascends) :
      Change m { m with
        declarations := changeFirst name (fun d => { d with terms := d.terms ++ [t] })
          m.declarations }
  | state (text : Text) (hstated : text.isEmpty = false) :
      Change m { m with rules := m.rules ++ [text] }

section
variable {m m' : Model Float}

theorem change_of_nameModel {words : List Text} (h : nameModel m words = .ok m') : Change m m' := by
  unfold nameModel at h
  split at h
  · cases h
    exact .name _
  · cases h

theorem change_of_setSteps {words : List Text} (h : setSteps m words = .ok m') : Change m m' := by
  unfold setSteps at h
  split at h
  · split at h
    · cases h
    · next steps _ =>
      split_ifs at h with hnone
      cases h
      exact .steps steps (not_lt.mp hnone)
  · cases h

theorem change_of_declareVariable {words : List Text} (h : declareVariable m words = .ok m') :
    Change m m' := by
  unfold declareVariable at h
  split at h
  · next word name =>
    dsimp only at h
    split_ifs at h with husage htaken
    have hword : Text.lowercase word = "input" ∨ Text.lowercase word = "output" := by
      simpa [Classical.or_iff_not_imp_left] using husage
    cases h
    exact .declare _ name hword (by simpa using htaken)
  · cases h

theorem change_of_defineTerm {words : List Text} (h : defineTerm m words = .ok m') :
    Change m m' := by
  unfold defineTerm at h
  split at h
  · split at h
    · cases h
    · next d hfound =>
      split_ifs at h with htaken
      split at h
      · cases h
      · split at h
        · cases h
        · next t hread =>
          cases h
          obtain ⟨hname, hascends⟩ := ascends_of_readTerm hread
          exact .define _ d t hfound (by simpa [hname] using htaken) hascends
  · cases h

theorem change_of_stateRule {line : Text} (h : stateRule m line = .ok m') : Change m m' := by
  unfold stateRule at h
  dsimp only at h
  split_ifs at h with hempty
  cases h
  exact .state _ (by simpa using hempty)

/-- **A line does nothing to a model but these changes.** -/
theorem change_of_directive {line : Text} (h : directive m line = .ok m') : Change m m' := by
  unfold directive at h
  split at h
  · cases h
  · cases h
    exact .nothing
  · dsimp only at h
    split_ifs at h
    · exact change_of_nameModel h
    · exact change_of_setSteps h
    · exact change_of_declareVariable h
    · exact change_of_defineTerm h
    · exact change_of_stateRule h

end

/-! ### Lines -/

theorem readFrom_cons {m m' : Model Float} {line : Text} (h : directive m line = .ok m')
    (n : Nat) (rest : List Text) : readFrom m n (line :: rest) = readFrom m' (n + 1) rest := by
  rw [readFrom, h]

/-- Lines that are read are read one after the other. -/
theorem exists_of_readFrom_cons {m m' : Model Float} {line : Text} {rest : List Text} {n : Nat}
    (h : readFrom m n (line :: rest) = .ok m') :
    ∃ m₁, directive m line = .ok m₁ ∧ readFrom m₁ (n + 1) rest = .ok m' := by
  cases hline : directive m line with
  | error c =>
    rw [readFrom, hline] at h
    cases h
  | ok m₁ =>
    rw [readFrom_cons hline] at h
    exact ⟨m₁, rfl, h⟩

theorem map_changeFirst {β : Type} {name : Text} {f : Declaration Float → Declaration Float}
    {g : Declaration Float → β} (hf : ∀ d, g (f d) = g d) :
    ∀ ds : List (Declaration Float), (changeFirst name f ds).map g = ds.map g
  | [] => rfl
  | d :: ds => by
    unfold changeFirst
    split_ifs
    · rw [List.map_cons, List.map_cons, hf]
    · rw [List.map_cons, List.map_cons, map_changeFirst hf ds]

theorem mem_changeFirst {name : Text} {f : Declaration Float → Declaration Float}
    {d' : Declaration Float} : ∀ {ds : List (Declaration Float)}, d' ∈ changeFirst name f ds →
      d' ∈ ds ∨ ∃ d, ds.find? (·.answersTo name) = some d ∧ d' = f d
  | [], h => Or.inl h
  | d :: ds, h => by
    unfold changeFirst at h
    split_ifs at h with hanswers
    · rcases List.mem_cons.mp h with rfl | h
      · exact Or.inr ⟨d, List.find?_cons_of_pos hanswers, rfl⟩
      · exact Or.inl (List.mem_cons_of_mem _ h)
    · rcases List.mem_cons.mp h with rfl | h
      · exact Or.inl List.mem_cons_self
      · rcases mem_changeFirst h with h | ⟨d', hd', rfl⟩
        · exact Or.inl (List.mem_cons_of_mem _ h)
        · have hfind : (d :: ds).find? (·.answersTo name) = ds.find? (·.answersTo name) :=
            List.find?_cons_of_neg hanswers
          exact Or.inr ⟨d', hfind.trans hd', rfl⟩

/-- The model is consistent and has a step at least. -/
structure Checked (m : Model Float) : Prop extends m.Consistent where
  steps : 1 ≤ m.steps

theorem checked_empty : Checked .empty :=
  ⟨⟨List.forall_mem_nil _, List.nodup_nil⟩, by decide⟩

/-- **A line keeps what there is to be said of the model.** -/
theorem Change.checked {m m' : Model Float} (h : Change m m') (hm : Checked m) : Checked m' := by
  cases h with
  | nothing => exact hm
  | name => exact ⟨⟨hm.declarations, hm.names⟩, hm.steps⟩
  | steps _ hpos => exact ⟨⟨hm.declarations, hm.names⟩, hpos⟩
  | state => exact ⟨⟨hm.declarations, hm.names⟩, hm.steps⟩
  | declare usage name husage hnew =>
    have hnames := List.find?_eq_none.mp hnew
    have hwell : (⟨usage, name, []⟩ : Declaration Float).WellFormed :=
      ⟨husage, List.forall_mem_nil _, List.nodup_nil⟩
    refine ⟨⟨?_, nodup_map_snoc hm.names fun hmem => ?_⟩, hm.steps⟩
    · exact List.forall_mem_append.mpr ⟨hm.declarations, List.forall_mem_singleton.mpr hwell⟩
    · obtain ⟨d, hd, heq⟩ := List.mem_map.mp hmem
      exact hnames d hd (beq_iff_eq.mpr heq)
  | define name d t hfound hnew hascends =>
    refine ⟨⟨fun d' hd' => ?_, ?_⟩, hm.steps⟩
    · rcases mem_changeFirst hd' with hd' | ⟨d₀, hd₀, rfl⟩
      · exact hm.declarations d' hd'
      · cases hfound.symm.trans hd₀
        exact (hm.declarations d (List.mem_of_find?_eq_some hfound)).addTerm hnew hascends
    · have hkeys : (changeFirst name (fun d => { d with terms := d.terms ++ [t] })
          m.declarations).map (fun d => Text.lowercase d.name) =
            m.declarations.map fun d => Text.lowercase d.name :=
        map_changeFirst (fun _ => by rfl) _
      exact hkeys ▸ hm.names

/-- So do all lines. -/
theorem checked_of_readFrom {m' : Model Float} : ∀ {lines : List Text} {m : Model Float} {n : Nat},
    Checked m → readFrom m n lines = .ok m' → Checked m'
  | [], m, n, hm, h => by
    cases h
    exact hm
  | line :: lines, m, n, hm, h => by
    obtain ⟨m₁, hline, h⟩ := exists_of_readFrom_cons h
    exact checked_of_readFrom ((change_of_directive hline).checked hm) h

/-! ### Listings -/

theorem checked_of_read {text : Text} {m : Model Float} (h : read text = .ok m) :
    Checked m ∧ m.outputs ≠ [] := by
  unfold read at h
  dsimp only at h
  cases hlines : readFrom .empty 1 (Text.lines text) with
  | error f =>
    rw [hlines] at h
    cases h
  | ok m' =>
    rw [hlines] at h
    dsimp only at h
    split_ifs at h with houtputs
    cases h
    exact ⟨checked_of_readFrom checked_empty hlines, by simpa using houtputs⟩

/-- **The models of listings.** They have a step and an output at least, and are consistent, so that
no corner of theirs is undefined. All that can keep an engine from being set up is a second output or
a rule that is stated twice. -/
theorem read_checked {text : Text} {m : Model Float} (h : read text = .ok m) :
    1 ≤ m.steps ∧ m.outputs ≠ [] ∧ m.Consistent ∧
      (∀ d ∈ m.declarations, ∀ t ∈ d.terms,
        ∀ x ∈ [t.start, t.leftTop, t.rightTop, t.finish], x.isNaN = false) ∧
      ∀ workers, ∃ e, Engine.make m none workers = .ok e ∧
        ((∃ f, e.setup = .error f) ↔
          1 < m.outputs.length ∨ ¬ (m.rules.map Text.lowercase).Nodup) := by
  obtain ⟨⟨hconsistent, hsteps⟩, houtputs⟩ := checked_of_read h
  refine ⟨hsteps, houtputs, hconsistent, fun d hd t ht => ?_, fun workers => ?_⟩
  · exact ((hconsistent.declarations d hd).ascends t ht).isNaN
  · have hmake : Engine.make m none workers = .ok ⟨m, m.steps, workers, none⟩ :=
      if_neg (not_lt.mpr hsteps)
    refine ⟨_, hmake, ?_⟩
    have hlength := List.length_pos_of_ne_nil houtputs
    rw [Engine.exists_setup_error_iff rfl, hconsistent.wellFormed_iff, not_and_or]
    exact or_congr_left (by omega)

/-- A listing that leads to an engine, and one that does not: its rules differ in letter case only. -/
theorem setup_of_short_listings :
    (∃ m e e', read "var output y\nmf y a tri 0 1 2" = .ok m ∧
      Engine.make m none none = .ok e ∧ e.setup = .ok e') ∧
    ∃ m e f, read "var output y\nrule r\nrule R" = .ok m ∧
      Engine.make m none none = .ok e ∧ e.setup = .error f := by
  constructor
  · have hread : ((read "var output y\nmf y a tri 0 1 2").toOption.map fun m =>
        (m.outputs.length, m.rules)) = some (1, []) := by decide +kernel
    obtain ⟨m, hm, heq⟩ := Option.map_eq_some_iff.mp hread
    obtain ⟨hlength, hrules⟩ := Prod.mk.inj heq
    have hok := ok_of_toOption hm
    obtain ⟨-, -, -, -, hsetup⟩ := read_checked hok
    obtain ⟨e, he, herror⟩ := hsetup none
    cases houtcome : e.setup with
    | ok e' => exact ⟨m, e, e', hok, he, houtcome⟩
    | error f =>
      have hrefused := herror.mp ⟨f, houtcome⟩
      rw [hlength, hrules] at hrefused
      simp at hrefused
  · have hread : ((read "var output y\nrule r\nrule R").toOption.map fun m =>
        m.rules.map Text.lowercase) = some [("r" : Text), "r"] := by decide +kernel
    obtain ⟨m, hm, heq⟩ := Option.map_eq_some_iff.mp hread
    have hok := ok_of_toOption hm
    obtain ⟨-, -, -, -, hsetup⟩ := read_checked hok
    obtain ⟨e, he, herror⟩ := hsetup none
    obtain ⟨f, hf⟩ := herror.mpr (Or.inr (by rw [heq]; decide))
    exact ⟨m, e, f, hok, he, hf⟩

end FuzzyInference.Listing
