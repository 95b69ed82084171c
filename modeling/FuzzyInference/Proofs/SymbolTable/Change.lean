import FuzzyInference.Proofs.Membership
import FuzzyInference.SymbolTable
import Mathlib.Tactic.SplitIfs

/-!
# Changes of symbol tables

A rule is read once and evaluated later, and its table may change in between: variables are
registered, terms added, crisp values set, and the table may be frozen. A change that is refused
leaves the table as it was.

* `SymbolTable.Defines`: a clause's variable is registered and has the clause's term;
* `SymbolTable.Change`, `SymbolTable.apply`: the changes and what they do;
* `Effect`, `effect_apply`: the ways in which a change can come out;
* `find?_apply`: what a name stands for stays, and its terms stay the first of its terms;
* `defines_run`: what is defined stays defined;
* `SymbolTable.Valid`, `valid_run`: all functions of a table have passed `Membership.make`, and no
  change with such functions breaks this.
-/

namespace FuzzyInference

variable {α : Type}

/-- All terms of the variable have valid functions. -/
def Variable.Valid [Scalar α] (v : Variable α) : Prop := ∀ x ∈ v.terms, x.2.Valid

theorem Variable.addTerm_ok {v v' : Variable α} {label : Text} {f : Membership α}
    (h : v.addTerm label f = .ok v') :
    v' = { v with terms := v.terms ++ [(Text.lowercase label, f)] } := by
  unfold Variable.addTerm at h
  dsimp only at h
  split_ifs at h with htaken
  cases h
  rfl

theorem Variable.term?_of_prefix {v v' : Variable α} {label : Text} {f : Membership α}
    (hv : v.terms <+: v'.terms) (h : v.term? label = some f) : v'.term? label = some f := by
  obtain ⟨more, hmore⟩ := hv
  unfold Variable.term? at h ⊢
  rw [← hmore, List.lookup_append, h, Option.some_or]

theorem Variable.hasTerm_of_prefix {v v' : Variable α} {label : Text}
    (hv : v.terms <+: v'.terms) (h : v.hasTerm label = true) : v'.hasTerm label = true := by
  obtain ⟨f, hf⟩ := Option.isSome_iff_exists.mp h
  exact Option.isSome_iff_exists.mpr ⟨f, Variable.term?_of_prefix hv hf⟩

theorem Variable.mem_of_term? {v : Variable α} {label : Text} {f : Membership α}
    (h : v.term? label = some f) : (Text.lowercase label, f) ∈ v.terms := by
  obtain ⟨xs, ys, hterms, -⟩ := List.lookup_eq_some_iff.mp h
  rw [hterms]
  simp

theorem Variable.valid_of_term? [Scalar α] {v : Variable α} {label : Text} {f : Membership α}
    (hv : v.Valid) (h : v.term? label = some f) : f.Valid :=
  hv _ (Variable.mem_of_term? h)

namespace SymbolTable

/-- The variable of a clause `x.1 is x.2` is registered, and `x.2` is one of its terms. -/
def Defines (t : SymbolTable α) (x : Text × Text) : Prop :=
  ∃ v, t.find? x.1 = some v ∧ v.hasTerm x.2 = true

/-- All functions of the table are valid. -/
def Valid [Scalar α] (t : SymbolTable α) : Prop := ∀ v ∈ t.entries, v.Valid

/-- What may be done to a table and its variables. -/
inductive Change (α : Type) where
  | register (v : Variable α)
  | addTerm (name label : Text) (f : Membership α)
  | setValue (name : Text) (x : α)
  | freeze

/-- A change brings no function that is not valid. -/
def Change.Valid [Scalar α] : Change α → Prop
  | register v => v.Valid
  | addTerm _ _ f => f.Valid
  | setValue _ _ => True
  | freeze => True

/-- The changed table, or why the change is refused. -/
def perform (t : SymbolTable α) : Change α → Except (Fault α) (SymbolTable α)
  | .register v => (t.register v).map Prod.fst
  | .addTerm name label f =>
    match t.find? name with
    | some v => (v.addTerm label f).map fun v => t.modify name fun _ => v
    | none => .error .variableMissing
  | .setValue name x => t.setValue name x
  | .freeze => .ok t.freeze

/-- The table behind a change; a change that is refused does nothing. -/
def apply (t : SymbolTable α) (c : Change α) : SymbolTable α :=
  match t.perform c with
  | .ok t' => t'
  | .error _ => t

theorem apply_of_ok {t t' : SymbolTable α} {c : Change α} (h : t.perform c = .ok t') :
    t.apply c = t' := by
  unfold apply
  rw [h]

theorem apply_of_error {t : SymbolTable α} {c : Change α} {e : Fault α}
    (h : t.perform c = .error e) : t.apply c = t := by
  unfold apply
  rw [h]

/-- How a registration can come out, by itself and as a change. -/
theorem register_cases (t : SymbolTable α) (v : Variable α) :
    (∃ e, t.register v = .error e ∧ t.apply (.register v) = t) ∨
    (t.register v = .ok (t, false) ∧ t.apply (.register v) = t) ∨
    ∃ t', t.register v = .ok (t', true) ∧ t.apply (.register v) = t' := by
  simp only [apply, perform, register]
  split_ifs
  · exact Or.inl ⟨_, rfl, rfl⟩
  · exact Or.inr (Or.inl ⟨rfl, rfl⟩)
  · exact Or.inr (Or.inr ⟨_, rfl, rfl⟩)

/-- **How a change can come out.** -/
inductive Effect (t : SymbolTable α) : Change α → SymbolTable α → Prop where
  | refused (c : Change α) : Effect t c t
  | registered {v : Variable α} (hfrozen : ¬ t.frozen = true)
      (hname : ¬ t.hasVariable v.name = true) :
      Effect t (.register v) { t with entries := t.entries ++ [v] }
  | added {name label : Text} {f : Membership α} {v : Variable α} (hv : t.find? name = some v) :
      Effect t (.addTerm name label f) (t.modify name fun _ =>
        { v with terms := v.terms ++ [(Text.lowercase label, f)] })
  | valueSet {name : Text} {x : α} :
      Effect t (.setValue name x) (t.modify name fun v => { v with value := x })
  | frozen : Effect t .freeze { t with frozen := true }

theorem effect_apply (t : SymbolTable α) (c : Change α) : Effect t c (t.apply c) := by
  cases hp : t.perform c with
  | error e =>
    rw [apply_of_error hp]
    exact .refused c
  | ok t' =>
    rw [apply_of_ok hp]
    cases c with
    | register v =>
      simp only [perform, register] at hp
      split_ifs at hp with hfrozen htaken
      · cases hp
      · cases hp
        exact .refused _
      · cases hp
        exact .registered hfrozen htaken
    | addTerm name label f =>
      simp only [perform] at hp
      cases hv : t.find? name with
      | none =>
        rw [hv] at hp
        cases hp
      | some v =>
        rw [hv] at hp
        cases hadd : v.addTerm label f with
        | error e =>
          simp only [hadd, Except.map] at hp
          cases hp
        | ok v' =>
          obtain rfl := Variable.addTerm_ok hadd
          simp only [hadd, Except.map] at hp
          cases hp
          exact .added hv
    | setValue name x =>
      simp only [perform, setValue] at hp
      split_ifs at hp with hname
      cases hp
      exact .valueSet
    | freeze =>
      cases hp
      exact .frozen

/-- The table behind several changes. -/
def run (t : SymbolTable α) (cs : List (Change α)) : SymbolTable α := cs.foldl apply t

/-! ### Changes of one variable -/

/-- The variables of other names stay, if the changed one keeps its name. -/
theorem find?_modifyFirst {name n : Text} {f : Variable α → Variable α}
    (hf : ∀ v, v.answersTo name = true → (f v).answersTo name = true) (vs : List (Variable α)) :
    (modifyFirst name f vs).find? (·.answersTo n) =
      if Text.lowercase n = Text.lowercase name then (vs.find? (·.answersTo n)).map f
      else vs.find? (·.answersTo n) := by
  induction vs with
  | nil => simp [modifyFirst]
  | cons v vs ih =>
    unfold modifyFirst
    by_cases hn : Text.lowercase n = Text.lowercase name
    · have same : ∀ u : Variable α, u.answersTo n = u.answersTo name := fun u => by
        unfold Variable.answersTo
        rw [hn]
      rw [if_pos hn] at ih ⊢
      by_cases hv : v.answersTo name = true
      · rw [if_pos hv, List.find?_cons_of_pos (by rw [same]; exact hf v hv),
          List.find?_cons_of_pos (by rw [same]; exact hv), Option.map_some]
      · rw [if_neg hv, List.find?_cons_of_neg (by rw [same]; exact hv),
          List.find?_cons_of_neg (by rw [same]; exact hv), ih]
    · have other : ∀ u : Variable α, u.answersTo name = true → ¬ u.answersTo n = true := by
        intro u hu hun
        unfold Variable.answersTo at hu hun
        rw [beq_iff_eq] at hu hun
        exact hn (hun.symm.trans hu)
      rw [if_neg hn] at ih ⊢
      by_cases hv : v.answersTo name = true
      · have hnot : ¬ (f v).answersTo n = true := other _ (hf v hv)
        rw [if_pos hv, List.find?_cons, List.find?_cons, Bool.eq_false_iff.mpr hnot,
          Bool.eq_false_iff.mpr (other v hv)]
      · rw [if_neg hv, List.find?_cons, List.find?_cons, ih]

/-- Where names differ, the first variable of a name is the only one. -/
theorem modifyFirst_eq_map {name : Text} {f : Variable α → Variable α} :
    ∀ {vs : List (Variable α)}, (vs.map fun v => Text.lowercase v.name).Nodup →
      modifyFirst name f vs = vs.map fun v => if v.answersTo name then f v else v
  | [], _ => rfl
  | v :: vs, h => by
    rw [List.map_cons, List.nodup_cons] at h
    rw [modifyFirst, List.map_cons]
    by_cases hv : v.answersTo name = true
    · have hothers : ∀ u ∈ vs, ¬ u.answersTo name = true := by
        intro u hu hun
        unfold Variable.answersTo at hv hun
        rw [beq_iff_eq] at hv hun
        exact h.1 (List.mem_map.mpr ⟨u, hu, hun.trans hv.symm⟩)
      rw [if_pos hv, if_pos hv, List.map_congr_left fun u hu => if_neg (hothers u hu), List.map_id']
    · rw [if_neg hv, if_neg hv, modifyFirst_eq_map h.2]

theorem mem_modifyFirst {name : Text} {f : Variable α → Variable α} {u : Variable α} :
    ∀ {vs : List (Variable α)}, u ∈ modifyFirst name f vs →
      u ∈ vs ∨ ∃ v ∈ vs, u = f v
  | [], h => by cases h
  | v :: vs, h => by
    unfold modifyFirst at h
    split at h
    · rcases List.mem_cons.mp h with rfl | h
      · exact Or.inr ⟨v, by simp, rfl⟩
      · exact Or.inl (List.mem_cons_of_mem v h)
    · rcases List.mem_cons.mp h with rfl | h
      · exact Or.inl (by simp)
      · rcases mem_modifyFirst h with h | ⟨w, hw, rfl⟩
        · exact Or.inl (List.mem_cons_of_mem v h)
        · exact Or.inr ⟨w, List.mem_cons_of_mem v hw, rfl⟩

/-- A changed variable that keeps its name and gains terms only. -/
theorem find?_modify {t : SymbolTable α} {name n : Text} {f : Variable α → Variable α}
    {v : Variable α} (hf : ∀ u, u.answersTo name = true → (f u).answersTo name = true)
    (hterms : ∀ u, t.find? name = some u → u.terms <+: (f u).terms) (h : t.find? n = some v) :
    ∃ v', (t.modify name f).find? n = some v' ∧ v.terms <+: v'.terms := by
  have hfind : (t.modify name f).find? n = _ := find?_modifyFirst (n := n) hf t.entries
  by_cases hn : Text.lowercase n = Text.lowercase name
  · have hname : t.find? name = some v := by
      rw [← h]
      unfold find? Variable.answersTo
      rw [hn]
    rw [if_pos hn] at hfind
    refine ⟨f v, ?_, hterms v hname⟩
    rw [hfind]
    exact congrArg (Option.map f) h
  · rw [if_neg hn] at hfind
    exact ⟨v, hfind.trans h, List.prefix_refl _⟩

/-! ### What stays -/

theorem answersTo_of_find? {t : SymbolTable α} {n : Text} {v : Variable α}
    (h : t.find? n = some v) : v.answersTo n = true := by
  have hv := List.find?_some h
  exact hv

/-- **What a name stands for stays through a change, and gains terms only.** -/
theorem find?_apply {t : SymbolTable α} {n : Text} {v : Variable α} (c : Change α)
    (h : t.find? n = some v) : ∃ v', (t.apply c).find? n = some v' ∧ v.terms <+: v'.terms := by
  have stays : ∃ v', t.find? n = some v' ∧ v.terms <+: v'.terms := ⟨v, h, List.prefix_refl _⟩
  have he := effect_apply t c
  generalize t.apply c = t' at he
  cases he with
  | refused => exact stays
  | registered _ _ =>
    refine ⟨v, ?_, List.prefix_refl _⟩
    unfold find? at h ⊢
    rw [List.find?_append, h, Option.some_or]
  | @added name _ _ w hw =>
    have hname := answersTo_of_find? hw
    refine find?_modify (fun _ _ => hname) (fun u hu => ?_) h
    rw [hw] at hu
    cases hu
    exact List.prefix_append _ _
  | valueSet => exact find?_modify (fun u hu => hu) (fun u _ => List.prefix_refl _) h
  | frozen => exact stays

theorem find?_run {n : Text} : ∀ (cs : List (Change α)) {t : SymbolTable α} {v : Variable α},
    t.find? n = some v → ∃ v', (t.run cs).find? n = some v' ∧ v.terms <+: v'.terms
  | [], _, v, h => ⟨v, h, List.prefix_refl _⟩
  | c :: cs, t, v, h => by
    obtain ⟨v₁, h₁, hp₁⟩ := find?_apply c h
    obtain ⟨v₂, h₂, hp₂⟩ := find?_run cs h₁
    exact ⟨v₂, h₂, hp₁.trans hp₂⟩

/-- **What is defined stays defined.** -/
theorem defines_run {t : SymbolTable α} {x : Text × Text} (h : t.Defines x)
    (cs : List (Change α)) : (t.run cs).Defines x := by
  obtain ⟨v, hv, hx⟩ := h
  obtain ⟨v', hv', hp⟩ := find?_run cs hv
  exact ⟨v', hv', Variable.hasTerm_of_prefix hp hx⟩

/-! ### Validity -/

section Valid
variable [Scalar α] {t : SymbolTable α}

theorem valid_modify {name : Text} {f : Variable α → Variable α} (ht : t.Valid)
    (hf : ∀ v ∈ t.entries, (f v).Valid) : (t.modify name f).Valid := by
  intro u hu
  rcases mem_modifyFirst hu with hu | ⟨v, hv, rfl⟩
  · exact ht u hu
  · exact hf v hv

theorem valid_of_find? {n : Text} {v : Variable α} (ht : t.Valid) (h : t.find? n = some v) :
    v.Valid :=
  ht v (List.mem_of_find?_eq_some h)

/-- A valid change keeps the table valid. -/
theorem valid_apply (ht : t.Valid) {c : Change α} (hc : c.Valid) : (t.apply c).Valid := by
  have he := effect_apply t c
  generalize t.apply c = t' at he
  cases he with
  | refused => exact ht
  | registered _ _ =>
    intro u hu
    rcases List.mem_append.mp hu with hu | hu
    · exact ht u hu
    · obtain rfl := List.mem_singleton.mp hu
      exact hc
  | added hw =>
    refine valid_modify ht fun _ _ x hx => ?_
    rcases List.mem_append.mp hx with hx | hx
    · exact valid_of_find? ht hw x hx
    · obtain rfl := List.mem_singleton.mp hx
      exact hc
  | valueSet => exact valid_modify ht fun v hv => ht v hv
  | frozen => exact ht

theorem valid_run : ∀ (cs : List (Change α)) {t : SymbolTable α}, t.Valid →
    (∀ c ∈ cs, c.Valid) → (t.run cs).Valid
  | [], _, ht, _ => ht
  | c :: cs, _, ht, hcs =>
    valid_run cs (valid_apply ht (hcs c (by simp))) fun d hd => hcs d (by simp [hd])

end Valid

end SymbolTable

end FuzzyInference
