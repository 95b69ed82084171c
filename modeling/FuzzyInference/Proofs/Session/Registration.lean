import FuzzyInference.Proofs.Session.Heap

/-!
# Variables that are registered

* `Simulates.call`, `Simulates.run`: whatever is called, a session is that of the variables that were
  made;
* `Simulates.grows_run`: registered variables keep their places and their names;
* `Session.registrations`, `names_run`: the names in the table are those that calls have registered;
* `table_of_calls`: **what the table is** behind any calls.
-/

namespace FuzzyInference.Session

section
variable {α : Type} [Scalar α] {s : Session α} {h : Heap α}

/-! ### Calls -/

theorem lower_of_make {name usage : Text} {v : Variable α} (hv : Variable.make name usage = .ok v) :
    Text.lowercase v.name = v.name := by
  rw [Variable.name_of_make hv, Text.lowercase_lowercase]

namespace Simulates

variable (hs : Simulates s h)
include hs

theorem step_make (handle name usage : Text) (atOnce : Bool) :
    Simulates (s.step (.declare handle name usage atOnce))
      (h.call (.make handle name usage atOnce)) := by
  rw [Session.step, Session.declare, Heap.call]
  cases hv : Variable.make (α := α) name usage with
  | error e => exact hs
  | ok v =>
    have hloose := hs.make (lower_of_make hv) handle
    dsimp only
    cases atOnce with
    | false => exact hloose
    | true =>
      rw [if_pos rfl, if_pos rfl]
      by_cases hopen : h.isOpen v.name = true
      · obtain ⟨hfrozen, hnew⟩ := (hs.isOpen_iff _).mp hopen
        have hentered := hloose.enter List.lookup_cons_self List.getElem?_concat_length hnew
        rw [if_pos hopen, SymbolTable.insert_of_open hfrozen hnew]
        refine hentered.congr rfl fun t => ?_
        by_cases ht : t = handle
        · subst ht
          exact List.lookup_cons_self.trans List.lookup_cons_self.symm
        · rw [lookup_hold ht, lookup_hold ht]
          exact (lookup_hold ht).symm
      · obtain ⟨e, he⟩ := SymbolTable.insert_of_closed (mt (hs.isOpen_iff v.name).mpr hopen)
        rw [if_neg hopen, he]
        exact hs

theorem step_register (handle : Text) :
    Simulates (s.step (.register handle)) (h.call (.register handle)) := by
  rw [Session.step, Heap.call, hs.variableAt?_eq]
  cases hi : h.handles.lookup handle with
  | none => exact hs
  | some i =>
    obtain ⟨v, hv⟩ := (hs.holdings handle).exists_made hi
    rw [Option.bind_some, hv]
    dsimp only
    rw [hv, Option.any_some]
    unfold Session.register
    by_cases hopen : h.isOpen v.name = true
    · obtain ⟨hfrozen, hnew⟩ := (hs.isOpen_iff _).mp hopen
      rw [if_pos hopen, SymbolTable.register_of_open hfrozen hnew]
      exact hs.enter hi hv hnew
    · rw [if_neg hopen]
      rcases SymbolTable.register_of_closed (mt (hs.isOpen_iff v.name).mpr hopen) with
        ⟨e, he⟩ | hfalse
      · rw [he]
        exact hs
      · rw [hfalse]
        exact hs

theorem step_addTerm (of : Reference) (label : Text) (f : Membership α) :
    Simulates (s.step (Call.addTerm of label f).step) (h.call (.addTerm of label f)) := by
  have hkeeps : ∀ v : Variable α, (v.withTerm label f).name = v.name := fun v =>
    (v.withTerm_name label f).1
  cases of with
  | name n =>
    rw [Call.step, Session.step, SymbolTable.apply_addTerm, Heap.call, Heap.find?]
    refine hs.modify_found n hkeeps (fun hn => ?_) fun i hn => ?_
    · rw [hn]
    · rw [hn]
  | handle handle =>
    rw [Call.step, Session.step, Heap.call, Heap.find?, hs.variableAt?_eq]
    cases hi : h.handles.lookup handle with
    | none => exact hs
    | some i =>
      obtain ⟨v, hv⟩ := (hs.holdings handle).exists_made hi
      rw [Option.bind_some, hv]
      dsimp only
      by_cases hterm : v.hasTerm label = true
      · obtain ⟨e, he⟩ := Variable.addTerm_of_hasTerm f hterm
        have hsame : v.withTerm label f = v := if_pos hterm
        rw [he, change_eq_self hv hsame]
        exact hs
      · rw [Variable.addTerm_of_not_hasTerm f hterm]
        exact hs.changeVariable hi hv hkeeps

theorem step_setValue (of : Reference) (x : α) :
    Simulates (s.step (Call.setValue of x).step) (h.call (.setValue of x)) := by
  have hkeeps : ∀ v : Variable α, ({ v with value := x } : Variable α).name = v.name := fun _ => rfl
  cases of with
  | name n =>
    rw [Call.step, Session.step, SymbolTable.apply_setValue, Heap.call, Heap.find?]
    refine hs.modify_found n hkeeps (fun hn => ?_) fun i hn => ?_
    · rw [hn]
    · rw [hn]
  | handle handle =>
    rw [Call.step, Session.step, Heap.call, Heap.find?, hs.variableAt?_eq]
    cases hi : h.handles.lookup handle with
    | none => exact hs
    | some i =>
      obtain ⟨v, hv⟩ := (hs.holdings handle).exists_made hi
      rw [Option.bind_some, hv]
      exact hs.changeVariable hi hv hkeeps

theorem step_freeze :
    Simulates (s.step (.change .freeze)) (h.call .freeze) where
  frozen := rfl
  entries := hs.entries
  holdings := fun handle => (hs.holdings handle).freeze
  own := hs.own
  lower := hs.lower
  distinct := hs.distinct

/-- **Whatever is called**, the session is that of the variables. -/
theorem call (c : Call α) : Simulates (s.step c.step) (h.call c) := by
  cases c with
  | make handle name usage atOnce => exact hs.step_make handle name usage atOnce
  | register handle => exact hs.step_register handle
  | addTerm of label f => exact hs.step_addTerm of label f
  | setValue of x => exact hs.step_setValue of x
  | freeze => exact hs.step_freeze

end Simulates

/-- **So it is behind any calls.** -/
theorem Simulates.run : ∀ (calls : List (Call α)) {s : Session α} {h : Heap α},
    Simulates s h → Simulates (s.run (calls.map Call.step)) (h.run calls)
  | [], _, _, hs => hs
  | c :: calls, _, _, hs => run calls (hs.call c)

theorem Simulates.grows_call (hs : Simulates s h) (c : Call α) : h.Grows (h.call c) := by
  cases c with
  | make handle name usage atOnce =>
    rw [Heap.call]
    cases Variable.make (α := α) name usage with
    | error e => exact .refl h
    | ok v =>
      have hmade := hs.grows_make handle v
      dsimp only
      split_ifs
      · exact hmade.trans (Heap.grows_enter _ _)
      · exact .refl h
      · exact hmade
  | register handle =>
    rw [Heap.call]
    cases h.handles.lookup handle with
    | none => exact .refl h
    | some i =>
      dsimp only
      split_ifs
      · exact h.grows_enter i
      · exact .refl h
  | addTerm of label f =>
    rw [Heap.call]
    cases h.find? of with
    | none => exact .refl h
    | some i => exact h.grows_change i fun v => (v.withTerm_name label f).1
  | setValue of x =>
    rw [Heap.call]
    cases h.find? of with
    | none => exact .refl h
    | some i => exact h.grows_change i fun _ => rfl
  | freeze => exact ⟨⟨[], (List.append_nil _).symm⟩, fun _ _ => rfl⟩

theorem Simulates.grows_run : ∀ (calls : List (Call α)) {s : Session α} {h : Heap α},
    Simulates s h → h.Grows (h.run calls)
  | [], _, h, _ => .refl h
  | c :: calls, _, _, hs => (hs.grows_call c).trans (grows_run calls (hs.call c))

/-! ### Names -/

/-- The name that a call registers, if it succeeds in this. -/
def registered? (s : Session α) : Call α → Option Text
  | .make handle name usage true => (s.declare handle name usage true).toOption.map (·.2.name)
  | .register handle =>
    match s.variableAt? handle with
    | none => none
    | some v =>
      match s.register handle v with
      | .ok (_, true) => some v.name
      | _ => none
  | _ => none

/-- The names that several calls register, in their order. -/
def registrations (s : Session α) : List (Call α) → List Text
  | [] => []
  | c :: calls => (s.registered? c).toList ++ registrations (s.step c.step) calls

theorem names_declare (s : Session α) (handle name usage : Text) :
    (s.step (.declare handle name usage true)).table.entries.map (·.name) =
      s.table.entries.map (·.name) ++ (s.registered? (.make handle name usage true)).toList := by
  rw [step, registered?]
  unfold declare
  cases Variable.make (α := α) name usage with
  | error e => exact (List.append_nil _).symm
  | ok v =>
    dsimp only
    rw [if_pos rfl]
    by_cases hopen : s.table.frozen = false ∧ s.table.hasVariable v.name = false
    · rw [SymbolTable.insert_of_open hopen.1 hopen.2]
      exact List.map_append
    · obtain ⟨e, he⟩ := SymbolTable.insert_of_closed hopen
      rw [he]
      exact (List.append_nil _).symm

theorem names_register (s : Session α) (handle : Text) :
    (s.step (.register handle)).table.entries.map (·.name) =
      s.table.entries.map (·.name) ++ (s.registered? (.register handle)).toList := by
  rw [step, registered?]
  cases s.variableAt? handle with
  | none => exact (List.append_nil _).symm
  | some v =>
    dsimp only
    unfold Session.register
    by_cases hopen : s.table.frozen = false ∧ s.table.hasVariable v.name = false
    · rw [SymbolTable.register_of_open hopen.1 hopen.2]
      exact List.map_append
    · rcases SymbolTable.register_of_closed hopen with ⟨e, he⟩ | hfalse
      · rw [he]
        exact (List.append_nil _).symm
      · rw [hfalse]
        exact (List.append_nil _).symm

/-- No other change of a table brings a name into it. -/
theorem names_of_change {s : Session α} {a : Step α}
    (ha : ∀ v, s.change? a ≠ some (.register v)) :
    (s.step a).table.entries.map (·.name) = s.table.entries.map (·.name) := by
  rw [table_step]
  cases hc : s.change? a with
  | none => rfl
  | some c =>
    show (s.table.apply c).entries.map (·.name) = _
    cases c with
    | register v => exact absurd hc (ha v)
    | addTerm n label f =>
      rw [SymbolTable.apply_addTerm]
      exact SymbolTable.map_modifyFirst (fun v => (v.withTerm_name label f).1) s.table.entries
    | setValue n x =>
      have hname : ∀ v : Variable α, ({ v with value := x } : Variable α).name = v.name :=
        fun _ => rfl
      rw [SymbolTable.apply_setValue]
      exact SymbolTable.map_modifyFirst hname s.table.entries
    | freeze => rfl

/-- **The names in the table** behind a call. -/
theorem names_call (s : Session α) (c : Call α) :
    (s.step c.step).table.entries.map (·.name) =
      s.table.entries.map (·.name) ++ (s.registered? c).toList := by
  have hkeeps : s.registered? c = none → (∀ v, s.change? c.step ≠ some (.register v)) →
      (s.step c.step).table.entries.map (·.name) =
        s.table.entries.map (·.name) ++ (s.registered? c).toList := fun hnone hc => by
    rw [names_of_change hc, hnone]
    exact (List.append_nil _).symm
  have hmapped : ∀ {γ : Type} {o : Option γ} {g : γ → SymbolTable.Change α},
      (∀ x v, g x ≠ .register v) → ∀ v, o.map g ≠ some (.register v) := fun hg v h => by
    obtain ⟨x, -, hx⟩ := Option.map_eq_some_iff.mp h
    exact hg x v hx
  cases c with
  | make handle name usage atOnce =>
    cases atOnce with
    | false => exact hkeeps rfl fun v h => by cases h
    | true => exact s.names_declare handle name usage
  | register handle => exact s.names_register handle
  | addTerm of label f =>
    refine hkeeps rfl ?_
    cases of with
    | handle handle => exact hmapped fun n v h => by cases h
    | name n => exact fun v h => by cases h
  | setValue of x =>
    refine hkeeps rfl ?_
    cases of with
    | handle handle => exact hmapped fun n v h => by cases h
    | name n => exact fun v h => by cases h
  | freeze => exact hkeeps rfl fun v h => by cases h

/-- **So they are behind any calls.** -/
theorem names_run : ∀ (calls : List (Call α)) (s : Session α),
    (s.run (calls.map Call.step)).table.entries.map (·.name) =
      s.table.entries.map (·.name) ++ s.registrations calls
  | [], s => (List.append_nil _).symm
  | c :: calls, s => by
    have hrun : s.run ((c :: calls).map Call.step) =
        (s.step c.step).run (calls.map Call.step) := rfl
    rw [hrun, names_run calls, names_call, List.append_assoc]
    rfl

/-! ### The table behind calls -/

theorem hasTerm_iff {t : SymbolTable α} {n a : Text} :
    t.hasTerm n a = true ↔
      ∃ v, t.find? n = some v ∧ (∃ f, v.function a = .ok f) ∧ ∃ x, v.fuzzify a = .ok x := by
  unfold SymbolTable.hasTerm
  rw [Option.any_eq_true]
  refine exists_congr fun v => and_congr_right fun _ => ?_
  unfold Variable.hasTerm Variable.function Variable.fuzzify
  cases v.term? a with
  | none => exact iff_of_false (fun h => by cases h) fun h => by cases h.1.choose_spec
  | some f => exact iff_of_true rfl ⟨⟨f, rfl⟩, _, rfl⟩

/-- **What the table is** behind any calls:

* the names in it are those that calls have registered, in the order of these calls; they are in lower
  case and differ from one another;
* a name in any letter case stands for the variable that is called so, which is the first one that was
  registered under it: it keeps its place in the table and its handle, however it changes;
* it has a term of a name if a variable of the name is there, and the function of the term and its
  degree are given out;
* a call fails if its usage is none, its table is frozen or its name is taken, and then nothing
  changes. -/
theorem table_of_calls (calls : List (Call α)) :
    let s := (Session.empty : Session α).run (calls.map Call.step)
    let h := (Heap.empty : Heap α).run calls
    s.table.entries.map (·.name) = Session.empty.registrations calls ∧
    s.table.entries.map some = h.members.map (h.made[·]?) ∧
    s.table.frozen = h.frozen ∧
    (∀ v ∈ s.table.entries, Text.lowercase v.name = v.name) ∧
    (s.table.entries.map (·.name)).Nodup ∧
    (∀ n v, s.table.find? n = some v ↔ v ∈ s.table.entries ∧ v.name = Text.lowercase n) ∧
    (∀ n, s.table.find? n = (h.named? n).bind (h.made[·]?)) ∧
    (∀ before after, calls = before ++ after →
      (∃ more, h.members = (Heap.empty.run before).members ++ more) ∧
      ∀ n i, (Heap.empty.run before).named? n = some i → h.named? n = some i) ∧
    (∀ handle, s.variableAt? handle = (h.handles.lookup handle).bind (h.made[·]?)) ∧
    (∀ n a, s.table.hasTerm n a = true ↔
      ∃ v, s.table.find? n = some v ∧ (∃ f, v.function a = .ok f) ∧ ∃ x, v.fuzzify a = .ok x) ∧
    ∀ c, (s.Fails c ↔ s.Refused c) ∧ (s.Fails c → s.step c.step = s) := by
  intro s h
  have hs : Simulates s h := Simulates.run calls simulates_empty
  have hgrows : ∀ before after, calls = before ++ after → (Heap.empty.run before).Grows h := by
    rintro before after rfl
    have hafter : h = (Heap.empty.run before).run after := List.foldl_append
    rw [hafter]
    exact (Simulates.run before simulates_empty).grows_run after
  refine ⟨names_run calls .empty, hs.entries, hs.frozen, fun v => hs.lower_entry, hs.distinct,
    hs.find?_eq_some_iff, hs.find?_eq, fun before after hcalls => ?_, hs.variableAt?_eq,
    fun n a => hasTerm_iff, fun c => ⟨fails_iff, step_of_fails⟩⟩
  exact ⟨(hgrows before after hcalls).members, fun n i => (hgrows before after hcalls).named?⟩

end

end FuzzyInference.Session
