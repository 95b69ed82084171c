import FuzzyInference.Proofs.Model.WellFormed

/-!
# Frozen symbol tables

Freezing a table closes it to further variables. It does not close its variables: they go on to take
values, and also terms. So of what a frozen table tells the names stay for good, and the terms can
only become more.

* `SymbolTable.roster`: the names and usages of the variables in order;
* `Change.Adds`: the change is that a variable gets a term;
* `apply_of_frozen`, `run_of_frozen`: **what becomes of a frozen table** by one change and by many;
* `vocabulary_run_of_frozen`: if no terms are added, the table tells the same;
* `Rule.parse_run_of_done`: a rule that is in order over a table is read the same over a table that
  has been changed, frozen or not.
-/

namespace FuzzyInference

variable {α : Type}

/-- The variable with the term, unless it has one of that name. -/
def Variable.withTerm (label : Text) (f : Membership α) (v : Variable α) : Variable α :=
  if v.hasTerm label = true then v else { v with terms := v.terms ++ [(Text.lowercase label, f)] }

theorem Variable.addTerm_of_hasTerm {v : Variable α} {label : Text} (f : Membership α)
    (h : v.hasTerm label = true) : ∃ e, v.addTerm label f = .error e := by
  cases hadd : v.addTerm label f with
  | error e => exact ⟨e, rfl⟩
  | ok v' => exact absurd (Variable.hasTerm_iff.mp h) (Variable.addTerm_ok_iff.mp ⟨v', hadd⟩)

theorem Variable.addTerm_of_not_hasTerm {v : Variable α} {label : Text} (f : Membership α)
    (h : ¬ v.hasTerm label = true) : v.addTerm label f = .ok (v.withTerm label f) := by
  obtain ⟨v', hadd⟩ := (Variable.addTerm_ok_iff (f := f)).mpr fun hmem =>
    h (Variable.hasTerm_iff.mpr hmem)
  rw [hadd, Variable.addTerm_ok hadd, Variable.withTerm, if_neg h]

theorem Variable.withTerm_name (label : Text) (f : Membership α) (v : Variable α) :
    (v.withTerm label f).name = v.name ∧ (v.withTerm label f).usage = v.usage := by
  unfold Variable.withTerm
  split_ifs
  · exact ⟨rfl, rfl⟩
  · exact ⟨rfl, rfl⟩

theorem Variable.hasTerm_withTerm {label a : Text} {f : Membership α} {v : Variable α} :
    (v.withTerm label f).hasTerm a = true ↔
      v.hasTerm a = true ∨ Text.lowercase label = Text.lowercase a := by
  unfold Variable.withTerm
  split_ifs with h
  · refine ⟨Or.inl, fun ha => ha.elim id fun heq => ?_⟩
    rwa [Variable.hasTerm_iff, ← heq, ← Variable.hasTerm_iff]
  · rw [Variable.hasTerm_iff, Variable.hasTerm_iff, eq_comm]
    unfold Variable.termNames
    rw [List.map_append, List.mem_append, List.map_singleton, List.mem_singleton]

namespace SymbolTable

/-! ### Changes of one variable -/

/-- A change of the first variable of a name does not look at others. -/
theorem modifyFirst_congr {name : Text} {f g : Variable α → Variable α} :
    ∀ {vs : List (Variable α)}, (∀ v, vs.find? (·.answersTo name) = some v → f v = g v) →
      modifyFirst name f vs = modifyFirst name g vs
  | [], _ => rfl
  | v :: vs, h => by
    rw [modifyFirst, modifyFirst]
    by_cases hv : v.answersTo name = true
    · rw [if_pos hv, if_pos hv, h v (List.find?_cons_of_pos hv)]
    · have hrest : ∀ u, vs.find? (·.answersTo name) = some u → f u = g u := by
        intro u hu
        refine h u (Eq.trans ?_ hu)
        exact List.find?_cons_of_neg hv
      rw [if_neg hv, if_neg hv, modifyFirst_congr hrest]

theorem modifyFirst_id (name : Text) : ∀ vs : List (Variable α), modifyFirst name id vs = vs
  | [] => rfl
  | v :: vs => by
    rw [modifyFirst, modifyFirst_id name vs]
    split_ifs
    · rfl
    · rfl

theorem map_modifyFirst {γ : Type} {g : Variable α → γ} {name : Text}
    {f : Variable α → Variable α} (hf : ∀ v, g (f v) = g v) :
    ∀ vs : List (Variable α), (modifyFirst name f vs).map g = vs.map g
  | [] => rfl
  | v :: vs => by
    rw [modifyFirst]
    split_ifs
    · rw [List.map_cons, List.map_cons, hf]
    · rw [List.map_cons, List.map_cons, map_modifyFirst hf vs]

section
variable {t : SymbolTable α} {name : Text}

theorem modify_congr {f g : Variable α → Variable α}
    (h : ∀ v, t.find? name = some v → f v = g v) : t.modify name f = t.modify name g := by
  unfold modify
  rw [modifyFirst_congr h]

theorem modify_id (t : SymbolTable α) (name : Text) : t.modify name id = t := by
  unfold modify
  rw [modifyFirst_id]

theorem modify_of_find?_none (h : t.find? name = none) (f : Variable α → Variable α) :
    t.modify name f = t := by
  refine Eq.trans (modify_congr fun v hv => ?_) (t.modify_id name)
  rw [h] at hv
  cases hv

/-- **A variable gets a term**, if it is there and has none of that name. -/
theorem apply_addTerm (t : SymbolTable α) (name label : Text) (f : Membership α) :
    t.apply (.addTerm name label f) = t.modify name (Variable.withTerm label f) := by
  cases hv : t.find? name with
  | none =>
    have hmissing : t.perform (.addTerm name label f) = .error .variableMissing := by
      simp only [perform, hv]
    rw [apply_of_error hmissing, modify_of_find?_none hv]
  | some v =>
    have hfound : ∀ {g : Variable α → Variable α}, g v = v.withTerm label f →
        t.modify name g = t.modify name (Variable.withTerm label f) := fun hg =>
      modify_congr fun u hu => by
        obtain rfl := Option.some.inj (hv.symm.trans hu)
        exact hg
    by_cases h : v.hasTerm label = true
    · obtain ⟨e, he⟩ := Variable.addTerm_of_hasTerm f h
      have htaken : t.perform (.addTerm name label f) = .error e := by
        simp only [perform, hv, he, Except.map]
      have hsame : id v = v.withTerm label f := (if_pos h).symm
      rw [apply_of_error htaken, ← hfound hsame, modify_id]
    · have hadded : t.perform (.addTerm name label f) =
          .ok (t.modify name fun _ => v.withTerm label f) := by
        simp only [perform, hv, Variable.addTerm_of_not_hasTerm f h, Except.map]
      rw [apply_of_ok hadded]
      exact hfound rfl

/-- **A variable gets a value**, if it is there. -/
theorem apply_setValue (t : SymbolTable α) (name : Text) (x : α) :
    t.apply (.setValue name x) = t.modify name fun v => { v with value := x } := by
  cases hv : t.find? name with
  | none =>
    have hmissing : t.perform (.setValue name x) = .error .variableMissing := by
      simp [perform, setValue, hasVariable, hv]
    rw [apply_of_error hmissing, modify_of_find?_none hv]
  | some v =>
    refine apply_of_ok ?_
    simp [perform, setValue, hasVariable, hv]

end

/-! ### What a table tells -/

/-- The names and usages of the variables, in order. -/
def roster (t : SymbolTable α) : List (Text × Usage) := t.entries.map fun v => (v.name, v.usage)

/-- The change adds the term `a` to the variable `n`, in any spelling. -/
def Change.Adds (n a : Text) : Change α → Prop
  | addTerm name label _ =>
    Text.lowercase name = Text.lowercase n ∧ Text.lowercase label = Text.lowercase a
  | register _ => False
  | setValue _ _ => False
  | freeze => False

section
variable {t t' : SymbolTable α}

theorem hasVariable_of_roster (h : t'.roster = t.roster) (n : Text) :
    t'.hasVariable n = t.hasVariable n := by
  have hkeys : ∀ u : SymbolTable α, u.keys = u.roster.map fun p => Text.lowercase p.1 := by
    intro u
    unfold keys roster
    rw [List.map_map]
    rfl
  rw [Bool.eq_iff_iff, hasVariable_iff, hasVariable_iff, hkeys, hkeys, h]

theorem roster_modify {f : Variable α → Variable α}
    (hf : ∀ v, (f v).name = v.name ∧ (f v).usage = v.usage) (name : Text) :
    (t.modify name f).roster = t.roster :=
  map_modifyFirst (fun v => by rw [(hf v).1, (hf v).2]) t.entries

theorem hasTerm_modify {f : Variable α → Variable α} (hf : ∀ v, (f v).name = v.name)
    (name n a : Text) : (t.modify name f).hasTerm n a =
      if Text.lowercase n = Text.lowercase name then (t.find? n).any fun v => (f v).hasTerm a
      else t.hasTerm n a := by
  have hkeeps : ∀ v : Variable α, v.answersTo name = true → (f v).answersTo name = true := by
    intro v hv
    unfold Variable.answersTo
    rw [hf]
    exact hv
  have hfind : (t.modify name f).find? n = _ := find?_modifyFirst (n := n) hkeeps t.entries
  unfold hasTerm
  rw [hfind]
  split_ifs
  · rw [Option.any_map]
    rfl
  · rfl

/-! ### What stays -/

/-- **A change of a frozen table** keeps its variables, and adds no term but the one that it adds to a
variable of the table. -/
theorem apply_of_frozen (h : t.frozen = true) (c : Change α) :
    (t.apply c).frozen = true ∧ (t.apply c).roster = t.roster ∧
      ∀ n a, (t.apply c).hasTerm n a = true ↔
        t.hasTerm n a = true ∨ t.hasVariable n = true ∧ c.Adds n a := by
  cases c with
  | register v =>
    have hrefused : t.perform (.register v) = .error (.tableFrozen v.name) := by
      simp [perform, register, h, Except.map]
    rw [apply_of_error hrefused]
    exact ⟨h, rfl, fun n a => by simp [Change.Adds]⟩
  | freeze => exact ⟨rfl, rfl, fun n a => by simp [Change.Adds]; rfl⟩
  | setValue name x =>
    rw [apply_setValue]
    have hkeeps : ∀ v : Variable α, ({ v with value := x } : Variable α).name = v.name ∧
        ({ v with value := x } : Variable α).usage = v.usage := fun _ => ⟨rfl, rfl⟩
    refine ⟨h, roster_modify hkeeps name, fun n a => ?_⟩
    rw [hasTerm_modify fun v => (hkeeps v).1]
    have hsame : ((t.find? n).any fun v => Variable.hasTerm { v with value := x } a) =
        t.hasTerm n a := rfl
    rw [hsame, ite_self]
    simp [Change.Adds]
  | addTerm name label f =>
    rw [apply_addTerm]
    refine ⟨h, roster_modify (Variable.withTerm_name label f) name, fun n a => ?_⟩
    rw [hasTerm_modify fun v => (v.withTerm_name label f).1]
    by_cases hn : Text.lowercase n = Text.lowercase name
    · rw [if_pos hn]
      unfold hasTerm hasVariable
      cases t.find? n with
      | none => simp
      | some v => simp [Change.Adds, hn, Variable.hasTerm_withTerm]
    · rw [if_neg hn]
      simp [Change.Adds, Ne.symm hn]

/-- **So do any changes.** -/
theorem run_of_frozen : ∀ (cs : List (Change α)) {t : SymbolTable α}, t.frozen = true →
    (t.run cs).frozen = true ∧ (t.run cs).roster = t.roster ∧
      ∀ n a, (t.run cs).hasTerm n a = true ↔
        t.hasTerm n a = true ∨ t.hasVariable n = true ∧ ∃ c ∈ cs, c.Adds n a
  | [], t, h => ⟨h, rfl, fun n a => by simp [run]⟩
  | c :: cs, t, h => by
    obtain ⟨hfrozen, hroster, hterm⟩ := apply_of_frozen h c
    obtain ⟨hfrozens, hrosters, hterms⟩ := run_of_frozen cs hfrozen
    refine ⟨hfrozens, hrosters.trans hroster, fun n a => ?_⟩
    have hrun : (t.run (c :: cs)).hasTerm n a = ((t.apply c).run cs).hasTerm n a := rfl
    rw [hrun, hterms, hterm, hasVariable_of_roster hroster, List.exists_mem_cons_iff, and_or_left,
      or_assoc]

/-- **Without new terms** a frozen table tells the same for good. -/
theorem vocabulary_run_of_frozen (h : t.frozen = true) {cs : List (Change α)}
    (hcs : ∀ c ∈ cs, ∀ n a, t.hasVariable n = true → ¬ c.Adds n a) :
    (t.run cs).vocabulary = t.vocabulary := by
  obtain ⟨-, hroster, hterms⟩ := run_of_frozen cs h
  have hvariable : (t.run cs).hasVariable = t.hasVariable :=
    funext fun n => hasVariable_of_roster hroster n
  have hterm : (t.run cs).hasTerm = t.hasTerm := by
    funext n a
    rw [Bool.eq_iff_iff, hterms]
    exact or_iff_left fun ⟨hn, c, hc, hadds⟩ => hcs c hc n a hn hadds
  unfold vocabulary
  rw [hvariable, hterm]

end

end SymbolTable

/-- **A rule in order** is read the same over a table that has been changed. -/
theorem Rule.parse_run_of_done {t : SymbolTable α} {text : Text} {attached : Bool}
    (h : ((ofText text attached).parse (some t.vocabulary)).status = .done)
    (cs : List (SymbolTable.Change α)) :
    (ofText text attached).parse (some (t.run cs).vocabulary) =
      (ofText text attached).parse (some t.vocabulary) := by
  obtain ⟨hlex, p, c, hws, hu⟩ := status_parse_done_iff.mp h
  have hdefined := findSome?_eq_none_iff.mp hu
  have hu' := findSome?_eq_none_iff.mpr fun x hx => SymbolTable.defines_run (hdefined x hx) cs
  rw [parse_sentence hlex hws hu, parse_sentence hlex hws hu']

end FuzzyInference
