import FuzzyInference.Proofs.Session

/-!
# Calls for variables

Variables are made, registered, given terms and values, and the table is frozen. A variable that is
made or registered, and a term that is added, may be refused.

* `Session.Call`, `Call.step`: what can be called in a session;
* `Session.Fails`, `Session.Refused`: a call that fails, and why it should; `fails_iff`: **these are the
  same**;
* `step_of_fails`: **a call that fails changes nothing**.
-/

namespace FuzzyInference

/-! ### Tables and variables -/

section
variable {α : Type} {t : SymbolTable α} {v : Variable α}

theorem SymbolTable.register_of_open (hopen : t.frozen = false)
    (hnew : t.hasVariable v.name = false) :
    t.register v = .ok ({ t with entries := t.entries ++ [v] }, true) := by
  unfold register
  rw [hopen, hnew]
  rfl

theorem SymbolTable.register_of_closed
    (hclosed : ¬ (t.frozen = false ∧ t.hasVariable v.name = false)) :
    (∃ e, t.register v = .error e) ∨ t.register v = .ok (t, false) := by
  unfold register
  split_ifs with hfrozen htaken
  · exact Or.inl ⟨_, rfl⟩
  · exact Or.inr rfl
  · exact absurd ⟨Bool.eq_false_iff.mpr hfrozen, Bool.eq_false_iff.mpr htaken⟩ hclosed

theorem SymbolTable.insert_of_open (hopen : t.frozen = false)
    (hnew : t.hasVariable v.name = false) :
    t.insert v = .ok { t with entries := t.entries ++ [v] } := by
  unfold insert
  rw [register_of_open hopen hnew]

theorem SymbolTable.insert_of_closed
    (hclosed : ¬ (t.frozen = false ∧ t.hasVariable v.name = false)) :
    ∃ e, t.insert v = .error e := by
  unfold insert
  rcases register_of_closed hclosed with ⟨e, he⟩ | hfalse
  · rw [he]
    exact ⟨e, rfl⟩
  · rw [hfalse]
    exact ⟨_, rfl⟩

theorem SymbolTable.hasVariable_lowercase (n : Text) :
    t.hasVariable (Text.lowercase n) = t.hasVariable n := by
  rw [Bool.eq_iff_iff, hasVariable_iff, hasVariable_iff, Text.lowercase_lowercase]

theorem SymbolTable.closed_iff {n : Text} :
    ¬ (t.frozen = false ∧ t.hasVariable n = false) ↔ t.frozen = true ∨ t.hasVariable n = true := by
  rw [not_and_or, Bool.not_eq_false, Bool.not_eq_false]

end

section
variable {α : Type} [Scalar α]

theorem Variable.make_ok_iff {name usage : Text} :
    (∃ v : Variable α, Variable.make name usage = .ok v) ↔ usage = "input" ∨ usage = "output" := by
  unfold Variable.make Usage.ofName?
  simp only [beq_iff_eq]
  by_cases hinput : usage = "input"
  · rw [if_pos hinput]
    exact iff_of_true ⟨_, rfl⟩ (Or.inl hinput)
  · by_cases houtput : usage = "output"
    · rw [if_neg hinput, if_pos houtput]
      exact iff_of_true ⟨_, rfl⟩ (Or.inr houtput)
    · rw [if_neg hinput, if_neg houtput]
      exact iff_of_false (fun ⟨_, h⟩ => by cases h) (not_or.mpr ⟨hinput, houtput⟩)

theorem Variable.name_of_make {name usage : Text} {v : Variable α}
    (hv : Variable.make name usage = .ok v) : v.name = Text.lowercase name := by
  unfold Variable.make at hv
  cases husage : Usage.ofName? usage with
  | none =>
    rw [husage] at hv
    cases hv
  | some u =>
    rw [husage] at hv
    cases hv
    rfl

end

namespace Session

/-! ### Calls -/

/-- The variable of a handle, or the one that the table has under a name. -/
inductive Reference where
  | handle (handle : Text)
  | name (name : Text)

/-- What can be called; a variable may be registered at once when it is made. -/
inductive Call (α : Type) where
  | make (handle name usage : Text) (atOnce : Bool)
  | register (handle : Text)
  | addTerm (of : Reference) (label : Text) (f : Membership α)
  | setValue (of : Reference) (x : α)
  | freeze

/-- The call in a session. -/
def Call.step {α : Type} : Call α → Step α
  | make handle name usage atOnce => .declare handle name usage atOnce
  | register handle => .register handle
  | addTerm (.handle handle) label f => .addTerm handle label f
  | addTerm (.name name) label f => .change (.addTerm name label f)
  | setValue (.handle handle) x => .setValue handle x
  | setValue (.name name) x => .change (.setValue name x)
  | freeze => .change .freeze

section
variable {α : Type} [Scalar α] {s : Session α}

/-- The variable that is meant. -/
def at? {α : Type} (s : Session α) : Reference → Option (Variable α)
  | .handle handle => s.variableAt? handle
  | .name name => s.table.find? name

/-- The call fails: it raises a fault, or tells that nothing was registered. -/
inductive Fails (s : Session α) : Call α → Prop
  | make {handle name usage : Text} {atOnce : Bool} {e : Fault α}
      (fault : s.declare handle name usage atOnce = .error e) :
      Fails s (.make handle name usage atOnce)
  | register {handle : Text} {v : Variable α} {e : Fault α} (meant : s.variableAt? handle = some v)
      (fault : s.register handle v = .error e) : Fails s (.register handle)
  | nothing {handle : Text} {v : Variable α} {s' : Session α}
      (meant : s.variableAt? handle = some v) (told : s.register handle v = .ok (s', false)) :
      Fails s (.register handle)
  | addTerm {of : Reference} {label : Text} {f : Membership α} {v : Variable α} {e : Fault α}
      (meant : s.at? of = some v) (fault : v.addTerm label f = .error e) :
      Fails s (.addTerm of label f)

/-- Why a call fails: the usage is none, the table is frozen, or a name is taken. -/
inductive Refused (s : Session α) : Call α → Prop
  | usage {handle name usage : Text} {atOnce : Bool} (input : usage ≠ "input")
      (output : usage ≠ "output") : Refused s (.make handle name usage atOnce)
  | makeFrozen {handle name usage : Text} (frozen : s.table.frozen = true) :
      Refused s (.make handle name usage true)
  | makeTaken {handle name usage : Text} (taken : s.table.hasVariable name = true) :
      Refused s (.make handle name usage true)
  | registerFrozen {handle : Text} {v : Variable α} (meant : s.variableAt? handle = some v)
      (frozen : s.table.frozen = true) : Refused s (.register handle)
  | registerTaken {handle : Text} {v : Variable α} (meant : s.variableAt? handle = some v)
      (taken : s.table.hasVariable v.name = true) : Refused s (.register handle)
  | term {of : Reference} {label : Text} {f : Membership α} {v : Variable α}
      (meant : s.at? of = some v) (taken : v.hasTerm label = true) :
      Refused s (.addTerm of label f)

/-! ### Calls that fail -/

theorem register_of_open {α : Type} {s : Session α} (handle : Text) {v : Variable α}
    (hopen : s.table.frozen = false)
    (hnew : s.table.hasVariable v.name = false) : ∃ s', s.register handle v = .ok (s', true) := by
  unfold register
  rw [SymbolTable.register_of_open hopen hnew]
  exact ⟨_, rfl⟩

theorem closed_of_register {α : Type} {s : Session α} {handle : Text} {v : Variable α}
    (h : ∀ s', s.register handle v ≠ .ok (s', true)) :
    s.table.frozen = true ∨ s.table.hasVariable v.name = true := by
  rw [← SymbolTable.closed_iff]
  rintro ⟨hfrozen, hnew⟩
  obtain ⟨s', hs'⟩ := register_of_open handle hfrozen hnew
  exact h s' hs'

theorem refused_of_fails {c : Call α} (hc : s.Fails c) : s.Refused c := by
  cases hc with
  | @make handle name usage atOnce e fault =>
    unfold declare at fault
    cases hv : Variable.make (α := α) name usage with
    | error e' =>
      have hnone : ¬ (usage = "input" ∨ usage = "output") := fun husage => by
        obtain ⟨v, hmade⟩ : ∃ v : Variable α, Variable.make name usage = .ok v :=
          Variable.make_ok_iff.mpr husage
        rw [hmade] at hv
        cases hv
      exact .usage (not_or.mp hnone).1 (not_or.mp hnone).2
    | ok v =>
      rw [hv] at fault
      cases atOnce with
      | false => cases fault
      | true =>
        have hclosed : ¬ (s.table.frozen = false ∧ s.table.hasVariable v.name = false) := by
          rintro ⟨hfrozen, hnew⟩
          dsimp only at fault
          rw [if_pos rfl, SymbolTable.insert_of_open hfrozen hnew] at fault
          cases fault
        rw [SymbolTable.closed_iff, Variable.name_of_make hv,
          SymbolTable.hasVariable_lowercase] at hclosed
        exact hclosed.elim .makeFrozen .makeTaken
  | @register handle v e meant fault =>
    have hclosed := closed_of_register (v := v) fun s' (hs' : s.register handle v = _) => by
      cases fault.symm.trans hs'
    exact hclosed.elim (.registerFrozen meant) (.registerTaken meant)
  | @nothing handle v s' meant told =>
    have hclosed := closed_of_register (v := v) fun s' (hs' : s.register handle v = _) => by
      cases told.symm.trans hs'
    exact hclosed.elim (.registerFrozen meant) (.registerTaken meant)
  | @addTerm of label f v e meant fault =>
    refine .term meant (by_contra fun hterm => ?_)
    rw [Variable.addTerm_of_not_hasTerm f hterm] at fault
    cases fault

theorem fails_of_closed_make {handle name usage : Text}
    (hclosed : s.table.frozen = true ∨ s.table.hasVariable name = true) :
    s.Fails (.make handle name usage true) := by
  have hfault : ∃ e, s.declare handle name usage true = .error e := by
    unfold declare
    cases hv : Variable.make (α := α) name usage with
    | error e => exact ⟨e, rfl⟩
    | ok v =>
      rw [← SymbolTable.hasVariable_lowercase, ← Variable.name_of_make hv,
        ← SymbolTable.closed_iff] at hclosed
      obtain ⟨e, he⟩ := SymbolTable.insert_of_closed hclosed
      dsimp only
      rw [if_pos rfl, he]
      exact ⟨e, rfl⟩
  exact .make hfault.choose_spec

theorem fails_of_closed_register {handle : Text} {v : Variable α}
    (hv : s.variableAt? handle = some v)
    (hclosed : s.table.frozen = true ∨ s.table.hasVariable v.name = true) :
    s.Fails (.register handle) := by
  rcases SymbolTable.register_of_closed (SymbolTable.closed_iff.mpr hclosed) with ⟨e, he⟩ | hfalse
  · refine .register (e := e) hv ?_
    unfold register
    rw [he]
  · have htold : s.register handle v = .ok (s, false) := by
      unfold register
      rw [hfalse]
    exact .nothing hv htold

/-- **Which calls fail.** -/
theorem fails_iff {c : Call α} : s.Fails c ↔ s.Refused c := by
  refine ⟨refused_of_fails, fun hc => ?_⟩
  cases hc with
  | @usage handle name usage atOnce input output =>
    have hfault : ∃ e, s.declare handle name usage atOnce = .error e := by
      unfold declare
      cases hv : Variable.make (α := α) name usage with
      | error e => exact ⟨e, rfl⟩
      | ok v => exact absurd (Variable.make_ok_iff.mp ⟨v, hv⟩) (not_or.mpr ⟨input, output⟩)
    exact .make hfault.choose_spec
  | makeFrozen frozen => exact fails_of_closed_make (Or.inl frozen)
  | makeTaken taken => exact fails_of_closed_make (Or.inr taken)
  | registerFrozen meant frozen => exact fails_of_closed_register meant (Or.inl frozen)
  | registerTaken meant taken => exact fails_of_closed_register meant (Or.inr taken)
  | @term of label f v meant taken =>
    obtain ⟨e, he⟩ := Variable.addTerm_of_hasTerm f taken
    exact .addTerm meant he

/-- **A call that fails changes nothing.** -/
theorem step_of_fails {c : Call α} (hc : s.Fails c) : s.step c.step = s := by
  cases hc with
  | make fault =>
    rw [Call.step, step, fault]
  | register meant fault =>
    rw [Call.step, step, meant]
    dsimp only
    rw [fault]
  | @nothing handle v s' meant told =>
    have hsame : s' = s := by
      unfold register at told
      split at told
      · cases told
      · cases told
      · exact (Prod.ext_iff.mp (Except.ok.inj told)).1.symm
    rw [Call.step, step, meant]
    dsimp only
    rw [told]
    exact hsame
  | @addTerm of label f v e meant fault =>
    cases of with
    | handle handle =>
      rw [Call.step, step]
      rw [at?] at meant
      rw [meant]
      dsimp only
      rw [fault]
    | name n =>
      rw [at?] at meant
      have hrefused : s.table.perform (.addTerm n label f) = .error e := by
        unfold SymbolTable.perform
        dsimp only
        rw [meant]
        dsimp only
        rw [fault]
        rfl
      rw [Call.step, step, SymbolTable.apply_of_error hrefused]

end

end Session

end FuzzyInference
