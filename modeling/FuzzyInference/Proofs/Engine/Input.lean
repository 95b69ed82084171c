import FuzzyInference.Proofs.Engine.Call
import FuzzyInference.Proofs.Model.WellFormed

/-!
# Inputs of an engine

Readings are checked against the model and then written into the table, one after the other. The two
go by different lists of names, but these are the same in lower case: so what has been checked can be
written, and what is refused is refused before the first value is written.

* `lastReading?`: the last scalar that readings give for a name, in any spelling;
* `SymbolTable.given`, `assign_eq`: a table after readings, in which each variable has the last
  scalar given for it;
* `Model.NamesInput`, `checkNames_ok_iff`: the names that are let pass;
* `readAll_ok_iff`, `readAll_error_iff`: what items of input are read as;
* `setInputs_cases`: **how the setting of inputs can come out**; `setInputs_ok_iff`: when they are
  accepted;
* `setInputs_all_or_nothing`: the same for items of input.
-/

namespace FuzzyInference

variable {α : Type}

/-! ### Readings -/

/-- The last scalar that is given for a name, in any spelling. -/
def lastReading? (readings : Readings α) (name : Text) : Option α :=
  (readings.filter fun p => p.1.any fun n => Text.lowercase n == Text.lowercase name).getLast?.map
    (·.2)

theorem lastReading?_cons (n : Text) (x : α) (readings : Readings α) (name : Text) :
    lastReading? ((some n, x) :: readings) name = (lastReading? readings name).or
      (if Text.lowercase n = Text.lowercase name then some x else none) := by
  unfold lastReading?
  rw [List.filter_cons]
  by_cases h : Text.lowercase n = Text.lowercase name
  · simp only [Option.any_some, h, beq_self_eq_true, if_true, List.getLast?_cons]
    cases (readings.filter fun p =>
      p.1.any fun n => Text.lowercase n == Text.lowercase name).getLast? with
    | none => rfl
    | some p => rfl
  · simp [h]

theorem lastReading?_eq_none {readings : Readings α} {name : Text}
    (h : ∀ p ∈ readings, ∀ n, p.1 = some n → Text.lowercase n ≠ Text.lowercase name) :
    lastReading? readings name = none := by
  have hnone : readings.filter (fun p =>
      p.1.any fun n => Text.lowercase n == Text.lowercase name) = [] := by
    rw [List.filter_eq_nil_iff]
    rintro ⟨none | n, x⟩ hp
    · simp
    · simpa using h _ hp n rfl
  unfold lastReading?
  rw [hnone]
  rfl

/-- The variable with the last scalar given for it, if there is one. -/
def Variable.given (readings : Readings α) (v : Variable α) : Variable α :=
  { v with value := (lastReading? readings v.name).getD v.value }

theorem Variable.given_cons (n : Text) (x : α) (readings : Readings α) (v : Variable α) :
    v.given ((some n, x) :: readings) =
      (if v.answersTo n then { v with value := x } else v).given readings := by
  unfold Variable.given Variable.answersTo
  rw [lastReading?_cons]
  by_cases h : Text.lowercase n = Text.lowercase v.name
  · cases hlast : lastReading? readings v.name with
    | none => simp [h, hlast]
    | some y => simp [h, hlast]
  · simp [h, Ne.symm h]

/-- The table with the last scalars given for its variables. -/
def SymbolTable.given (readings : Readings α) (t : SymbolTable α) : SymbolTable α :=
  { t with entries := t.entries.map (Variable.given readings) }

/-! ### Writing -/

namespace SymbolTable

section
variable {t : SymbolTable α}

/-- Writing a value changes no name. -/
theorem keys_modify (ht : t.keys.Nodup) (n : Text) (x : α) :
    (t.modify n fun v => { v with value := x }).keys = t.keys := by
  unfold keys modify
  dsimp only
  rw [modifyFirst_eq_map ht, List.map_map]
  refine List.map_congr_left fun v _ => ?_
  rw [Function.comp_apply]
  split_ifs
  · rfl
  · rfl

/-- Readings after a value has been written: it is as if it were the first of them. -/
theorem given_modify (ht : t.keys.Nodup) (n : Text) (x : α) (readings : Readings α) :
    (t.modify n fun v => { v with value := x }).given readings =
      t.given ((some n, x) :: readings) := by
  have hgiven : Variable.given ((some n, x) :: readings) =
      Variable.given readings ∘ fun v => if v.answersTo n then { v with value := x } else v :=
    funext fun v => Variable.given_cons n x readings v
  unfold given modify
  rw [modifyFirst_eq_map ht, List.map_map, hgiven]

end

end SymbolTable

namespace Engine

/-- **A table after readings** whose names it all has: each variable has the last scalar given for
it. -/
theorem assign_eq : ∀ {readings : Readings α} {t : SymbolTable α}, t.keys.Nodup →
    (∀ p ∈ readings, ∃ n, p.1 = some n ∧ Text.lowercase n ∈ t.keys) →
      assign t readings = (t.given readings, .ok ())
  | [], t, _, _ => by
    have hgiven : ∀ v : Variable α, v.given [] = v := fun _ => rfl
    rw [assign, SymbolTable.given, List.map_congr_left fun v _ => hgiven v, List.map_id']
  | (name, x) :: readings, t, ht, h => by
    rw [List.forall_mem_cons] at h
    obtain ⟨⟨n, rfl, hn⟩, hrest⟩ := h
    have hset : t.setValue n x = .ok (t.modify n fun v => { v with value := x }) :=
      if_pos (SymbolTable.hasVariable_iff.mpr hn)
    have hkeys := SymbolTable.keys_modify ht n x
    rw [assign, Option.getD_some, hset]
    dsimp only
    rw [assign_eq (by rwa [hkeys]) (by rwa [hkeys]), SymbolTable.given_modify ht]

end Engine

/-! ### Checking -/

/-- The name is, in lower case, that of an input of the model. -/
def Model.NamesInput (m : Model α) (name : Option Text) : Prop :=
  ∃ n, name = some n ∧
    ∃ d ∈ m.declarations, d.usage = "input" ∧ Text.lowercase d.name = Text.lowercase n

theorem Model.isInput_iff {m : Model α} {n : Text} :
    m.isInput n = true ↔ m.NamesInput (some n) := by
  simp [Model.isInput, Model.inputs, Model.NamesInput, Declaration.answersTo]

namespace Engine

theorem checkNames_ok_iff {m : Model α} : ∀ {readings : Readings α},
    checkNames m readings = .ok () ↔ ∀ p ∈ readings, m.NamesInput p.1
  | [] => by simp [checkNames]
  | (none, x) :: readings => by
    simp [checkNames, Model.NamesInput]
  | (some n, x) :: readings => by
    rw [checkNames, List.forall_mem_cons, ← Model.isInput_iff]
    by_cases h : m.isInput n = true
    · rw [if_pos h, checkNames_ok_iff]
      simp [h]
    · rw [if_neg h]
      simp [h]

end Engine

/-! ### Items of input -/

theorem readAll_eq : ∀ items : List Input,
    Input.readAll items = (items.mapM Input.read).map List.flatten
  | [] => rfl
  | i :: items => by
    rw [Input.readAll, readAll_eq items, List.mapM_cons]
    cases i.read with
    | error f => rfl
    | ok here =>
      cases items.mapM Input.read with
      | error f => rfl
      | ok more => rfl

/-- Items of input are read one by one, and their readings put together. -/
theorem readAll_ok_iff {items : List Input} {readings : Readings Float} :
    Input.readAll items = .ok readings ↔
      ∃ rs, List.Forall₂ (fun i r => i.read = .ok r) items rs ∧ rs.flatten = readings := by
  simp only [readAll_eq, ← mapM_ok_iff]
  cases items.mapM Input.read with
  | error f => simp [Except.map]
  | ok rs => simp [Except.map]

/-- They cannot be read if one of them cannot. -/
theorem readAll_error_iff {items : List Input} :
    (∃ f, Input.readAll items = .error f) ↔ ∃ i ∈ items, ∃ f, i.read = .error f := by
  rw [← mapM_error_iff, readAll_eq]
  cases items.mapM Input.read with
  | error f => simp [Except.map]
  | ok rs => simp [Except.map]

/-! ### Inputs of a model that has been set up -/

variable [Scalar α]

namespace Model.Underlies

variable {m : Model α} {s : Setup α}

/-- The names of the declarations differ. -/
theorem nodup_names (h : m.Underlies s) :
    (m.declarations.map fun d => Text.lowercase d.name).Nodup := by
  obtain ⟨workers, s₀, hbuild, -, -⟩ := h
  exact ((Setup.build_ok_iff workers).mp ⟨s₀, hbuild⟩).2.2.1

/-- The names of the table are those of the declarations. -/
theorem keys_eq (h : m.Underlies s) :
    s.table.keys = m.declarations.map fun d => Text.lowercase d.name := by
  have hnames : ∀ {ds : List (Declaration α)} {vs : List (Variable α)},
      List.Forall₂ Declaration.Describes ds vs →
        (vs.map fun v => Text.lowercase v.name) = ds.map fun d => Text.lowercase d.name := by
    intro ds vs hds
    induction hds with
    | nil => rfl
    | cons hd _ ih => rw [List.map_cons, List.map_cons, ih, hd.name, Text.lowercase_lowercase]
  exact hnames h.describes

theorem nodup_keys (h : m.Underlies s) : s.table.keys.Nodup := h.keys_eq ▸ h.nodup_names

/-- A name that is let pass is that of an input of the table. -/
theorem exists_input (h : m.Underlies s) {name : Option Text} (hname : m.NamesInput name) :
    ∃ n, name = some n ∧ ∃ v ∈ s.table.entries, v.usage = .input ∧ v.answersTo n = true := by
  obtain ⟨n, rfl, d, hd, husage, hn⟩ := hname
  obtain ⟨v, hv, hdescribes⟩ := exists_of_forall₂_left h.describes d hd
  refine ⟨n, rfl, v, hv, ?_, ?_⟩
  · have hword := hdescribes.usage
    rw [husage] at hword
    exact (Option.some.inj hword).symm
  · rw [hdescribes.answersTo]
    exact beq_iff_eq.mpr hn

/-- A name that is let pass is not that of the output. -/
theorem lastReading?_output (h : m.Underlies s) {readings : Readings α}
    (hnames : ∀ p ∈ readings, m.NamesInput p.1) {v : Variable α} (hv : v ∈ s.table.entries)
    (husage : v.usage = .output) : lastReading? readings v.name = none := by
  refine lastReading?_eq_none fun p hp n hn heq => ?_
  obtain ⟨n', hn', u, hu, hinput, hanswers⟩ := h.exists_input (hnames p hp)
  rw [hn] at hn'
  cases hn'
  have hsame : Text.lowercase u.name = Text.lowercase v.name :=
    (beq_iff_eq.mp hanswers).trans heq
  cases List.inj_on_of_nodup_map h.nodup_keys hu hv hsame
  rw [husage] at hinput
  cases hinput

end Model.Underlies

/-- The setup with the last scalars given for its variables. -/
def Setup.given (readings : Readings α) (s : Setup α) : Setup α :=
  { s with table := s.table.given readings }

namespace Engine

/-- **How the setting of inputs can come out**, once the setup is there or can be made: the inputs
cannot be read, or a name is not let pass, and then the setup stays; or each variable has the last
scalar given for it. -/
theorem setInputs_cases {e : Engine α} {s : Setup α} (hm : e.model.Underlies s)
    (hs : e.current = .ok s) (inputs : Except InputFault (Readings α)) :
    (∃ f, inputs = .error f ∧
      e.setInputs inputs = ({ e with built := some s }, .error (.input f))) ∨
    (∃ readings f, inputs = .ok readings ∧ (∃ p ∈ readings, ¬ e.model.NamesInput p.1) ∧
      e.setInputs inputs = ({ e with built := some s }, .error f)) ∨
    ∃ readings, inputs = .ok readings ∧ (∀ p ∈ readings, e.model.NamesInput p.1) ∧
      e.setInputs inputs =
        ({ e with built := some (s.given readings) }, .ok (s.given readings)) := by
  cases inputs with
  | error f =>
    refine Or.inl ⟨f, rfl, ?_⟩
    unfold setInputs
    rw [hs]
  | ok readings =>
    right
    cases hcheck : checkNames e.model readings with
    | error f =>
      refine Or.inl ⟨readings, f, rfl, ?_, ?_⟩
      · by_contra hnone
        have hall : ∀ p ∈ readings, e.model.NamesInput p.1 := fun p hp =>
          by_contra fun hp' => hnone ⟨p, hp, hp'⟩
        rw [checkNames_ok_iff.mpr hall] at hcheck
        cases hcheck
      · unfold setInputs
        simp only [hs, hcheck]
    | ok _ =>
      have hnames := checkNames_ok_iff.mp hcheck
      have hkeys : ∀ p ∈ readings, ∃ n, p.1 = some n ∧ Text.lowercase n ∈ s.table.keys := by
        intro p hp
        obtain ⟨n, hn, d, hd, -, heq⟩ := hnames p hp
        refine ⟨n, hn, ?_⟩
        rw [hm.keys_eq, ← heq]
        exact List.mem_map_of_mem hd
      have hassign := assign_eq hm.nodup_keys hkeys
      refine Or.inr ⟨readings, rfl, hnames, ?_⟩
      unfold setInputs
      simp only [hs, hcheck, hassign]
      rfl

/-- **What it takes for inputs to be accepted**, once the setup is there or can be made, and what they
lead to. -/
theorem setInputs_ok_iff {e : Engine α} {s s' : Setup α} (hm : e.model.Underlies s)
    (hs : e.current = .ok s) {inputs : Except InputFault (Readings α)} :
    (e.setInputs inputs).2 = .ok s' ↔ ∃ readings, inputs = .ok readings ∧
      (∀ p ∈ readings, e.model.NamesInput p.1) ∧ s' = s.given readings := by
  rcases setInputs_cases hm hs inputs with
    ⟨f, rfl, hout⟩ | ⟨readings, f, rfl, ⟨p, hp, hnot⟩, hout⟩ | ⟨readings, rfl, hnames, hout⟩
  · rw [hout]
    simp
  · rw [hout]
    constructor
    · intro h
      cases h
    · rintro ⟨readings', hread, hnames, -⟩
      cases hread
      exact absurd (hnames p hp) hnot
  · rw [hout]
    constructor
    · intro h
      exact ⟨readings, rfl, hnames, (Except.ok.inj h).symm⟩
    · rintro ⟨readings', hread, -, rfl⟩
      cases hread
      rfl

/-- **The setting of inputs is all or nothing.** Over a model that can be set up, whatever the engine
has been called for:

* items of input are refused exactly if one of them cannot be read, or one of their names is not, in
  lower case, that of an input of the model;
* if they are refused, the engine has the setup it had, with all its values;
* if they are accepted, each name is that of an input, each variable has the last scalar that is
  given for it in any spelling, or the value it had if there is none, and so has the output. -/
theorem setInputs_all_or_nothing {m : Model Float} {steps workers : Option Int}
    {e₀ : Engine Float} (hmake : make m steps workers = .ok e₀) (calls : List (Call Float))
    {s : Setup Float} (hs : (e₀.after calls).current = .ok s) (items : List Input) :
    let e := e₀.after calls
    let outcome := e.setInputs (Input.readAll items)
    ((∃ f, outcome.2 = .error f) ↔ (∃ i ∈ items, ∃ f, i.read = .error f) ∨
      ∃ i ∈ items, ∃ r, i.read = .ok r ∧ ∃ p ∈ r, ¬ m.NamesInput p.1) ∧
    (∀ f, outcome.2 = .error f → outcome.1 = { e with built := some s }) ∧
    ∀ s', outcome.2 = .ok s' → outcome.1 = { e with built := some s' } ∧ s'.rules = s.rules ∧
      ∃ rs, List.Forall₂ (fun i r => i.read = .ok r) items rs ∧
        (∀ p ∈ rs.flatten, ∃ n, p.1 = some n ∧
          ∃ v ∈ s.table.entries, v.usage = .input ∧ v.answersTo n = true) ∧
        List.Forall₂ (fun v v' =>
            v' = { v with value := (lastReading? rs.flatten v.name).getD v.value } ∧
              (v.usage = .output → v' = v))
          s.table.entries s'.table.entries := by
  intro e outcome
  obtain ⟨he, hmodel⟩ := underlies_after hmake calls
  have hm : e.model.Underlies s := he.underlies hs
  rcases setInputs_cases hm hs (Input.readAll items) with
    ⟨f, hread, hout⟩ | ⟨readings, f, hread, hname, hout⟩ | ⟨readings, hread, hnames, hout⟩
  · have hfails : outcome.2 = .error (.input f) := congrArg Prod.snd hout
    refine ⟨⟨fun _ => Or.inl (readAll_error_iff.mp ⟨f, hread⟩), fun _ => ⟨_, hfails⟩⟩,
      fun _ _ => congrArg Prod.fst hout, fun s' hs' => ?_⟩
    rw [hfails] at hs'
    cases hs'
  · have hfails : outcome.2 = .error f := congrArg Prod.snd hout
    obtain ⟨rs, hrs, rfl⟩ := readAll_ok_iff.mp hread
    refine ⟨⟨fun _ => Or.inr ?_, fun _ => ⟨f, hfails⟩⟩, fun _ _ => congrArg Prod.fst hout,
      fun s' hs' => ?_⟩
    · obtain ⟨p, hp, hnot⟩ := hname
      obtain ⟨r, hr, hpr⟩ := List.mem_flatten.mp hp
      obtain ⟨i, hi, hir⟩ := exists_of_forall₂_right hrs r hr
      exact ⟨i, hi, r, hir, p, hpr, hmodel ▸ hnot⟩
    · rw [hfails] at hs'
      cases hs'
  · have hok : outcome.2 = .ok (s.given readings) := congrArg Prod.snd hout
    obtain ⟨rs, hrs, rfl⟩ := readAll_ok_iff.mp hread
    refine ⟨⟨?_, ?_⟩, fun f hf => ?_, fun s' hs' => ?_⟩
    · rintro ⟨f, hf⟩
      rw [hok] at hf
      cases hf
    · rintro (⟨i, hi, f, hf⟩ | ⟨i, hi, r, hr, p, hp, hnot⟩)
      · obtain ⟨f', hf'⟩ := readAll_error_iff.mpr ⟨i, hi, f, hf⟩
        rw [hread] at hf'
        cases hf'
      · obtain ⟨r', hr', hir'⟩ := exists_of_forall₂_left hrs i hi
        cases hr.symm.trans hir'
        exact absurd (hmodel ▸ hnames p (List.mem_flatten.mpr ⟨r, hr', hp⟩)) hnot
    · rw [hok] at hf
      cases hf
    · cases hok.symm.trans hs'
      refine ⟨congrArg Prod.fst hout, rfl, rs, hrs, fun p hp => hm.exists_input (hnames p hp), ?_⟩
      show List.Forall₂ _ _ (s.table.entries.map (Variable.given rs.flatten))
      rw [List.forall₂_map_right_iff, List.forall₂_same]
      refine fun v hv => ⟨rfl, fun husage => ?_⟩
      unfold Variable.given
      rw [hm.lastReading?_output hnames hv husage]
      rfl

end Engine

/-! ### Spellings of one input -/

/-- A model of an input and an output without terms and rules. -/
def Model.bare : Model Float := ⟨"m", [⟨"input", "x", []⟩, ⟨"output", "y", []⟩], [], 3⟩

/-- The setup of this model. -/
def Setup.bare : Setup Float :=
  ⟨⟨[⟨"x", .input, [], 0.0⟩, ⟨"y", .output, [], 0.0⟩], true⟩, ⟨[]⟩⟩

namespace Engine

/-- An engine over this model. -/
def bare : Engine Float := ⟨Model.bare, 3, none, none⟩

/-- A pair, a mapping and a record that name one input: the last scalar counts. With a pair behind
them that names the output, none does. -/
theorem bare_all_or_nothing :
    let items : List Input := [.item (.list [.text "X", .int 1]),
      .item (.map [(.text "x", .float 2.5), (.text "X", .float 3.5)]),
      .record (.text "X") (.float 4.5)]
    (∃ s', (bare.setInputs (Input.readAll items)).2 = .ok s' ∧
      (bare.setInputs (Input.readAll items)).1 = { bare with built := some s' } ∧
      s'.table.entries.map (·.value) = [4.5, 0.0]) ∧
    (bare.setInputs (Input.readAll (items ++ [.item (.list [.text "y", .int 1])]))).1 =
      { bare with built := some Setup.bare } := by
  intro items
  have hmake : make Model.bare none none = .ok bare := rfl
  have hs : (bare.after []).current = .ok Setup.bare := rfl
  refine ⟨?_, ?_⟩
  · obtain ⟨-, -, haccepted⟩ := setInputs_all_or_nothing hmake [] hs items
    have hvalues : ((bare.setInputs (Input.readAll items)).2.toOption.map fun s =>
        s.table.entries.map (·.value)) = some [4.5, 0.0] := by decide +kernel
    obtain ⟨s', hs', hvalues⟩ := Option.map_eq_some_iff.mp hvalues
    have houtcome := ok_of_toOption hs'
    exact ⟨s', houtcome, (haccepted s' houtcome).1, hvalues⟩
  · obtain ⟨hiff, hrefused, -⟩ := setInputs_all_or_nothing hmake [] hs
      (items ++ [.item (.list [.text "y", .int 1])])
    have houtput : ¬ Model.bare.NamesInput (some "y") := by
      rw [← Model.isInput_iff]
      decide +kernel
    obtain ⟨f, hf⟩ := hiff.mpr (Or.inr ⟨_, List.mem_append_right _ List.mem_cons_self, _, rfl, _,
      List.mem_cons_self, houtput⟩)
    exact hrefused f hf

end Engine

end FuzzyInference
