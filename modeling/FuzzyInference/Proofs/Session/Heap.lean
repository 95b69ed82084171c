import FuzzyInference.Proofs.Session.Call
import Mathlib.Data.List.Find

/-!
# The variables of a session

A session is compared with a list of the variables that were made, each of which has a number that it
keeps. A handle leads to a number, and the table is a list of numbers, in the order in which they were
registered; it takes one more as long as it is open and no variable in it has the name.

* `Heap`, `Heap.call`, `Heap.run`: the variables that were made, and what becomes of them by calls;
* `Holds`, `Simulates`: what a handle holds, and the whole session, is that of the variables;
* `find?_eq`, `find?_eq_some_iff`, `variableAt?_eq`: what a name and a handle stand for;
* `Simulates.make`, `Simulates.enter`, `Simulates.modify`, `Simulates.changeVariable`: one more variable,
  one more that is registered, and one that changes;
* `Heap.Grows`: variables are registered behind those that are, and keep their names.
-/

namespace FuzzyInference

namespace Session

/-! ### The variables that were made -/

/-- The variables in the order in which they were made, the numbers of those that handles lead to, and
of those that are registered, in the order of their registration. -/
structure Heap (α : Type) where
  made : List (Variable α)
  handles : List (Text × Nat)
  members : List Nat
  frozen : Bool

namespace Heap

variable {α : Type}

def empty : Heap α := ⟨[], [], [], false⟩

/-- The first registered variable that goes by a name. -/
def named? (h : Heap α) (name : Text) : Option Nat :=
  h.members.find? fun i => (h.made[i]?).any (·.answersTo name)

/-- The number of the variable that is meant. -/
def find? (h : Heap α) : Reference → Option Nat
  | .handle handle => h.handles.lookup handle
  | .name name => h.named? name

/-- Whether a variable of a name may be registered. -/
def isOpen (h : Heap α) (name : Text) : Bool := !h.frozen && (h.named? name).isNone

/-- One more variable, with a handle. -/
def make (h : Heap α) (handle : Text) (v : Variable α) : Heap α :=
  { h with made := h.made ++ [v], handles := (handle, h.made.length) :: h.handles }

/-- The variable of a number is registered. -/
def enter (h : Heap α) (i : Nat) : Heap α := { h with members := h.members ++ [i] }

/-- The variable of a number changes. -/
def change (h : Heap α) (i : Nat) (f : Variable α → Variable α) : Heap α :=
  { h with made := h.made.modify i f }

/-- The variables behind a call. -/
def call [Scalar α] (h : Heap α) : Call α → Heap α
  | .make handle name usage atOnce =>
    match Variable.make name usage with
    | .error _ => h
    | .ok v =>
      if atOnce then
        if h.isOpen v.name then (h.make handle v).enter h.made.length else h
      else h.make handle v
  | .register handle =>
    match h.handles.lookup handle with
    | none => h
    | some i => if (h.made[i]?).any fun v => h.isOpen v.name then h.enter i else h
  | .addTerm of label f =>
    match h.find? of with
    | none => h
    | some i => h.change i (Variable.withTerm label f)
  | .setValue of x =>
    match h.find? of with
    | none => h
    | some i => h.change i fun v => { v with value := x }
  | .freeze => { h with frozen := true }

/-- The variables behind several calls. -/
def run [Scalar α] (h : Heap α) (calls : List (Call α)) : Heap α := calls.foldl call h

end Heap

/-! ### Sessions of variables -/

section
variable {α : Type} {s : Session α} {h : Heap α}

theorem getElem?_change (i : Nat) (f : Variable α → Variable α) (j : Nat) :
    (h.change i f).made[j]? = (h.made[j]?).map fun v => if i = j then f v else v :=
  List.getElem?_modify f i h.made j

theorem change_eq_self {i : Nat} {v : Variable α} {f : Variable α → Variable α}
    (hv : h.made[i]? = some v) (hf : f v = v) : h.change i f = h := by
  have hmade : (h.change i f).made = h.made := by
    refine List.ext_getElem? fun j => ?_
    rw [getElem?_change]
    by_cases hij : i = j
    · rw [← hij, hv, Option.map_some, if_pos rfl, hf]
    · simp only [if_neg hij, Option.map_id']
  exact congrArg (fun made => { h with made }) hmade

theorem lookup_hold {handle handle' : Text} {holding : Holding α} (hne : handle' ≠ handle) :
    (s.hold handle holding).holdings.lookup handle' = s.holdings.lookup handle' := by
  unfold Session.hold
  rw [List.lookup_cons, beq_eq_false_iff_ne.mpr hne]

theorem lookup_make {handle handle' : Text} {v : Variable α} (hne : handle' ≠ handle) :
    (h.make handle v).handles.lookup handle' = h.handles.lookup handle' := by
  unfold Heap.make
  rw [List.lookup_cons, beq_eq_false_iff_ne.mpr hne]

/-- What a handle holds in a session is the variable to which it leads. -/
inductive Holds (h : Heap α) : Option (Holding α) → Option Nat → Prop
  | none : Holds h none none
  | loose {v : Variable α} {i : Nat} (made : h.made[i]? = some v) (outside : i ∉ h.members) :
      Holds h (some (.loose v)) (some i)
  | registered {name : Text} {v : Variable α} {i : Nat} (made : h.made[i]? = some v)
      (inside : i ∈ h.members) (spelled : v.name = name) :
      Holds h (some (.registered name)) (some i)

namespace Holds

variable {holding : Option (Holding α)} {number : Option Nat} {i : Nat} {v : Variable α}

theorem exists_made (hh : Holds h holding number) (hi : number = some i) :
    ∃ v, h.made[i]? = some v := by
  cases hh with
  | none => cases hi
  | loose made _ =>
    cases hi
    exact ⟨_, made⟩
  | registered made _ _ =>
    cases hi
    exact ⟨_, made⟩

theorem make (hh : Holds h holding number) (handle : Text) (v : Variable α) :
    Holds (h.make handle v) holding number := by
  have hmade : ∀ {i : Nat} {u : Variable α}, h.made[i]? = some u →
      (h.make handle v).made[i]? = some u := fun hu =>
    (List.getElem?_append_left (List.getElem?_eq_some_iff.mp hu).1).trans hu
  cases hh with
  | none => exact .none
  | loose made outside => exact .loose (hmade made) outside
  | registered made inside spelled => exact .registered (hmade made) inside spelled

theorem enter (hh : Holds h holding number) (hne : number ≠ some i) :
    Holds (h.enter i) holding number := by
  cases hh with
  | none => exact .none
  | loose made outside =>
    refine .loose made fun hmem => ?_
    rcases List.mem_append.mp hmem with hmem | hmem
    · exact outside hmem
    · exact hne (congrArg some (List.mem_singleton.mp hmem))
  | registered made inside spelled =>
    exact .registered made (List.mem_append_left _ inside) spelled

theorem freeze (hh : Holds h holding number) : Holds { h with frozen := true } holding number := by
  cases hh with
  | none => exact .none
  | loose made outside => exact .loose made outside
  | registered made inside spelled => exact .registered made inside spelled

theorem change (hh : Holds h holding number) {f : Variable α → Variable α}
    (hf : ∀ v, (f v).name = v.name) (hother : i ∈ h.members ∨ number ≠ some i) :
    Holds (h.change i f) holding number := by
  cases hh with
  | none => exact .none
  | @loose u j made outside =>
    have hij : i ≠ j := by
      rintro rfl
      exact hother.elim outside fun hne => hne rfl
    refine .loose ?_ outside
    rw [getElem?_change, made, Option.map_some, if_neg hij]
  | @registered name u j made inside spelled =>
    have hmade : (h.change i f).made[j]? = some (if i = j then f u else u) := by
      rw [getElem?_change, made, Option.map_some]
    refine .registered hmade inside ?_
    split_ifs
    · exact (hf u).trans spelled
    · exact spelled

end Holds

/-- The table is that of the registered variables, and handles hold the variables to which they
lead. -/
structure Simulates (s : Session α) (h : Heap α) : Prop where
  frozen : s.table.frozen = h.frozen
  entries : s.table.entries.map some = h.members.map (h.made[·]?)
  holdings : ∀ handle, Holds h (s.holdings.lookup handle) (h.handles.lookup handle)
  own : ∀ {handle handle' : Text} {i : Nat}, h.handles.lookup handle = some i →
    h.handles.lookup handle' = some i → handle = handle'
  lower : ∀ {i : Nat} {v : Variable α}, h.made[i]? = some v → Text.lowercase v.name = v.name
  distinct : (s.table.entries.map (·.name)).Nodup

namespace Simulates

variable (hs : Simulates s h)
include hs

theorem exists_made {i : Nat} (hi : i ∈ h.members) :
    ∃ v ∈ s.table.entries, h.made[i]? = some v := by
  have hmem : h.made[i]? ∈ s.table.entries.map some := by
    rw [hs.entries]
    exact List.mem_map_of_mem hi
  obtain ⟨v, hv, heq⟩ := List.mem_map.mp hmem
  exact ⟨v, hv, heq.symm⟩

theorem exists_member {v : Variable α} (hv : v ∈ s.table.entries) :
    ∃ i ∈ h.members, h.made[i]? = some v := by
  have hmem : some v ∈ h.members.map (h.made[·]?) := by
    rw [← hs.entries]
    exact List.mem_map_of_mem hv
  exact List.mem_map.mp hmem

theorem lower_entry {v : Variable α} (hv : v ∈ s.table.entries) :
    Text.lowercase v.name = v.name := by
  obtain ⟨i, -, hi⟩ := hs.exists_member hv
  exact hs.lower hi

/-- Registered variables of one name are one variable. -/
theorem eq_of_name {i j : Nat} {u v : Variable α} (hi : i ∈ h.members) (hj : j ∈ h.members)
    (hu : h.made[i]? = some u) (hv : h.made[j]? = some v) (hname : u.name = v.name) : i = j := by
  have hnames : (s.table.entries.map (·.name)).map some =
      h.members.map fun i => (h.made[i]?).map (·.name) := by
    have hentries := congrArg (List.map (Option.map (·.name))) hs.entries
    rw [List.map_map, List.map_map] at hentries
    rw [List.map_map]
    exact hentries
  have hnodup := hs.distinct.map (Option.some_injective Text)
  rw [hnames] at hnodup
  refine List.inj_on_of_nodup_map hnodup hi hj ?_
  rw [hu, hv]
  exact congrArg some hname

/-- **What a name stands for** is the first registered variable that goes by it. -/
theorem find?_eq (n : Text) : s.table.find? n = (h.named? n).bind (h.made[·]?) := by
  have hfind := congrArg (List.find? (Option.any (·.answersTo n))) hs.entries
  rw [List.find?_map, List.find?_map] at hfind
  have htable : s.table.find? n =
      s.table.entries.find? (Option.any (·.answersTo n) ∘ some) := rfl
  have hheap : h.named? n = h.members.find? (Option.any (·.answersTo n) ∘ (h.made[·]?)) := rfl
  rw [← htable, ← hheap] at hfind
  cases hn : h.named? n with
  | none =>
    rw [hn] at hfind
    exact Option.map_eq_none_iff.mp hfind
  | some i =>
    rw [hn] at hfind
    obtain ⟨v, hv, hi⟩ := Option.map_eq_some_iff.mp hfind
    rw [hv, Option.bind_some]
    exact hi

theorem named?_of_member {i : Nat} {v : Variable α} (hi : i ∈ h.members)
    (hv : h.made[i]? = some v) : h.named? v.name = some i := by
  cases hn : h.named? v.name with
  | none =>
    refine absurd ?_ (List.find?_eq_none.mp hn i hi)
    rw [hv]
    exact beq_self_eq_true _
  | some j =>
    have hj : j ∈ h.members := List.mem_of_find?_eq_some hn
    obtain ⟨u, -, hu⟩ := hs.exists_made hj
    have hname := List.find?_some hn
    rw [hu, Option.any_some, Variable.answersTo, beq_iff_eq, hs.lower hu, hs.lower hv] at hname
    rw [hs.eq_of_name hj hi hu hv hname]

theorem find?_eq_some_iff (n : Text) (v : Variable α) :
    s.table.find? n = some v ↔ v ∈ s.table.entries ∧ v.name = Text.lowercase n := by
  constructor
  · intro hv
    have hmem : v ∈ s.table.entries := List.mem_of_find?_eq_some hv
    have hname := SymbolTable.answersTo_of_find? hv
    unfold Variable.answersTo at hname
    rw [beq_iff_eq, hs.lower_entry hmem] at hname
    exact ⟨hmem, hname⟩
  · rintro ⟨hmem, hname⟩
    obtain ⟨i, hi, hv⟩ := hs.exists_member hmem
    have hspelled : h.named? n = h.named? v.name := by
      unfold Heap.named? Variable.answersTo
      rw [hname, Text.lowercase_lowercase]
    rw [hs.find?_eq, hspelled, hs.named?_of_member hi hv]
    exact hv

theorem variableAt?_eq (handle : Text) :
    s.variableAt? handle = (h.handles.lookup handle).bind (h.made[·]?) := by
  have hholds := hs.holdings handle
  unfold Session.variableAt?
  generalize s.holdings.lookup handle = holding at hholds ⊢
  generalize h.handles.lookup handle = number at hholds ⊢
  cases hholds with
  | none => rfl
  | loose made _ => exact made.symm
  | registered made inside spelled =>
    subst spelled
    dsimp only
    rw [hs.find?_eq, hs.named?_of_member inside made]

theorem isOpen_iff (n : Text) :
    h.isOpen n = true ↔ s.table.frozen = false ∧ s.table.hasVariable n = false := by
  unfold Heap.isOpen SymbolTable.hasVariable
  rw [Bool.and_eq_true, Bool.not_eq_true', hs.frozen, hs.find?_eq]
  refine and_congr_right fun _ => ?_
  cases hn : h.named? n with
  | none => exact iff_of_true rfl rfl
  | some i =>
    obtain ⟨v, -, hv⟩ := hs.exists_made (List.mem_of_find?_eq_some hn)
    rw [Option.bind_some, hv]
    exact iff_of_false (fun h => by cases h) fun h => by cases h

theorem lt_of_member {i : Nat} (hi : i ∈ h.members) : i < h.made.length := by
  obtain ⟨v, -, hv⟩ := hs.exists_made hi
  exact (List.getElem?_eq_some_iff.mp hv).1

theorem lt_of_handle {handle : Text} {i : Nat} (hi : h.handles.lookup handle = some i) :
    i < h.made.length := by
  obtain ⟨v, hv⟩ := (hs.holdings handle).exists_made hi
  exact (List.getElem?_eq_some_iff.mp hv).1

/-! ### One more variable -/

/-- Only the table and what handles hold matters. -/
theorem congr {s' : Session α} (htable : s'.table = s.table)
    (hholdings : ∀ handle, s'.holdings.lookup handle = s.holdings.lookup handle) :
    Simulates s' h where
  frozen := htable ▸ hs.frozen
  entries := htable ▸ hs.entries
  holdings := fun handle => hholdings handle ▸ hs.holdings handle
  own := hs.own
  lower := hs.lower
  distinct := htable ▸ hs.distinct

theorem make {v : Variable α} (hv : Text.lowercase v.name = v.name) (handle : Text) :
    Simulates (s.hold handle (.loose v)) (h.make handle v) where
  frozen := hs.frozen
  entries := by
    refine hs.entries.trans (List.map_congr_left fun i hi => ?_)
    exact (List.getElem?_append_left (hs.lt_of_member hi)).symm
  holdings := fun handle' => by
    by_cases heq : handle' = handle
    · subst heq
      have hlast : (h.make handle' v).made[h.made.length]? = some v := List.getElem?_concat_length
      unfold Session.hold Heap.make
      rw [List.lookup_cons_self, List.lookup_cons_self]
      exact .loose hlast fun hmem => absurd (hs.lt_of_member hmem) (lt_irrefl _)
    · rw [lookup_hold heq, lookup_make heq]
      exact (hs.holdings handle').make handle v
  own := fun {t t' i} ht ht' => by
    have hfresh : ∀ {u : Text}, u ≠ handle → (h.make handle v).handles.lookup u = some i →
        i ≠ h.made.length := by
      rintro u hu hi rfl
      rw [lookup_make hu] at hi
      exact lt_irrefl _ (hs.lt_of_handle hi)
    have hself : (h.make handle v).handles.lookup handle = some h.made.length :=
      List.lookup_cons_self
    by_cases heq : t = handle
    · by_cases heq' : t' = handle
      · exact heq.trans heq'.symm
      · rw [heq, hself] at ht
        exact absurd (Option.some.inj ht).symm (hfresh heq' ht')
    · by_cases heq' : t' = handle
      · rw [heq', hself] at ht'
        exact absurd (Option.some.inj ht').symm (hfresh heq ht)
      · rw [lookup_make heq] at ht
        rw [lookup_make heq'] at ht'
        exact hs.own ht ht'
  lower := fun {i u} hu => by
    rcases List.mem_append.mp (List.mem_of_getElem? hu) with hmem | hmem
    · obtain ⟨j, hj⟩ := List.mem_iff_getElem?.mp hmem
      exact hs.lower hj
    · rw [List.mem_singleton.mp hmem]
      exact hv
  distinct := hs.distinct

/-! ### One more registered variable -/

/-- The variable of a handle is registered, if its name is not taken. -/
theorem enter {handle : Text} {i : Nat} {v : Variable α} (hi : h.handles.lookup handle = some i)
    (hv : h.made[i]? = some v) (hnew : s.table.hasVariable v.name = false) :
    Simulates ({ s with table := { s.table with entries := s.table.entries ++ [v] } }.hold handle
      (.registered v.name)) (h.enter i) where
  frozen := hs.frozen
  entries := by
    show (s.table.entries ++ [v]).map some = (h.members ++ [i]).map (h.made[·]?)
    rw [List.map_append, List.map_append, hs.entries, List.map_singleton, List.map_singleton, hv]
  holdings := fun handle' => by
    by_cases heq : handle' = handle
    · subst heq
      unfold Session.hold Heap.enter
      rw [List.lookup_cons_self, hi]
      exact .registered hv (List.mem_append_right _ (List.mem_singleton_self i)) rfl
    · rw [lookup_hold heq]
      exact (hs.holdings handle').enter fun hi' => heq (hs.own hi' hi)
  own := hs.own
  lower := hs.lower
  distinct := by
    refine nodup_map_snoc hs.distinct fun hmem => ?_
    obtain ⟨u, hu, hname⟩ := List.mem_map.mp hmem
    refine Bool.false_ne_true (hnew.symm.trans (SymbolTable.hasVariable_iff.mpr ?_))
    refine List.mem_map.mpr ⟨u, hu, ?_⟩
    rw [hname]

/-! ### Variables that change -/

theorem lower_change {i : Nat} {f : Variable α → Variable α} (hf : ∀ v, (f v).name = v.name)
    {j : Nat} {v : Variable α} (hv : (h.change i f).made[j]? = some v) :
    Text.lowercase v.name = v.name := by
  rw [getElem?_change] at hv
  obtain ⟨u, hu, rfl⟩ := Option.map_eq_some_iff.mp hv
  split_ifs
  · rw [hf]
    exact hs.lower hu
  · exact hs.lower hu

/-- The registered variable of a name changes. -/
theorem modify {n : Text} {i : Nat} (hi : h.named? n = some i) {f : Variable α → Variable α}
    (hf : ∀ v, (f v).name = v.name) :
    Simulates { s with table := s.table.modify n f } (h.change i f) := by
  have hmember : i ∈ h.members := List.mem_of_find?_eq_some hi
  obtain ⟨v, -, hv⟩ := hs.exists_made hmember
  have hnamed : v.answersTo n = true := by
    have hany := List.find?_some hi
    rwa [hv] at hany
  -- No other registered variable goes by the name.
  have honly : ∀ {j : Nat} {u : Variable α}, j ∈ h.members → h.made[j]? = some u →
      (u.answersTo n = true ↔ i = j) := by
    intro j u hj hu
    constructor
    · intro hun
      refine hs.eq_of_name hmember hj hv hu ?_
      unfold Variable.answersTo at hnamed hun
      rw [beq_iff_eq] at hnamed hun
      rw [← hs.lower hv, ← hs.lower hu, hnamed, hun]
    · rintro rfl
      cases hv.symm.trans hu
      exact hnamed
  have hkeys : (s.table.entries.map fun v => Text.lowercase v.name).Nodup := by
    rw [List.map_congr_left fun v hv => hs.lower_entry hv]
    exact hs.distinct
  constructor
  · exact hs.frozen
  · show (SymbolTable.modifyFirst n f s.table.entries).map some = _
    have hentries := congrArg
      (List.map (Option.map fun v => if v.answersTo n = true then f v else v)) hs.entries
    rw [List.map_map, List.map_map] at hentries
    rw [SymbolTable.modifyFirst_eq_map hkeys, List.map_map]
    refine hentries.trans (List.map_congr_left fun j hj => ?_)
    obtain ⟨u, -, hu⟩ := hs.exists_made hj
    rw [getElem?_change]
    show Option.map _ h.made[j]? = _
    rw [hu, Option.map_some, Option.map_some]
    exact congrArg some (if_congr (honly hj hu) rfl rfl)
  · exact fun handle => (hs.holdings handle).change hf (Or.inl hmember)
  · exact hs.own
  · exact hs.lower_change hf
  · show ((SymbolTable.modifyFirst n f s.table.entries).map (·.name)).Nodup
    rw [SymbolTable.map_modifyFirst hf]
    exact hs.distinct

/-- A variable that is not registered changes. -/
theorem changeLoose {handle : Text} {i : Nat} {v : Variable α}
    (hi : h.handles.lookup handle = some i) (hv : h.made[i]? = some v) (houtside : i ∉ h.members)
    {f : Variable α → Variable α} (hf : ∀ v, (f v).name = v.name) :
    Simulates (s.hold handle (.loose (f v))) (h.change i f) where
  frozen := hs.frozen
  entries := by
    refine hs.entries.trans (List.map_congr_left fun j hj => ?_)
    have hij : i ≠ j := by
      rintro rfl
      exact houtside hj
    simp only [getElem?_change, if_neg hij, Option.map_id']
  holdings := fun handle' => by
    by_cases heq : handle' = handle
    · subst heq
      have hmade : (h.change i f).made[i]? = some (f v) := by
        rw [getElem?_change, hv, Option.map_some, if_pos rfl]
      unfold Session.hold
      rw [List.lookup_cons_self]
      show Holds (h.change i f) _ (h.handles.lookup handle')
      rw [hi]
      exact .loose hmade houtside
    · rw [lookup_hold heq]
      exact (hs.holdings handle').change hf (Or.inr fun hi' => heq (hs.own hi' hi))
  own := hs.own
  lower := hs.lower_change hf
  distinct := hs.distinct

/-- The variable of a handle changes. -/
theorem changeVariable {handle : Text} {i : Nat} {v : Variable α}
    (hi : h.handles.lookup handle = some i) (hv : h.made[i]? = some v)
    {f : Variable α → Variable α} (hf : ∀ v, (f v).name = v.name) :
    Simulates (s.changeVariable handle (f v)) (h.change i f) := by
  have hholds := hs.holdings handle
  rw [hi] at hholds
  unfold Session.changeVariable
  generalize s.holdings.lookup handle = holding at hholds ⊢
  cases hholds with
  | loose _ outside => exact hs.changeLoose hi hv outside hf
  | registered made inside spelled =>
    cases hv.symm.trans made
    subst spelled
    have hnamed := hs.named?_of_member inside hv
    have hmodify : s.table.modify v.name (fun _ => f v) = s.table.modify v.name f := by
      refine SymbolTable.modify_congr fun u hu => ?_
      rw [hs.find?_eq, hnamed, Option.bind_some, hv] at hu
      cases hu
      rfl
    dsimp only
    rw [hmodify]
    exact hs.modify hnamed hf

/-- The variable that a name stands for changes, if there is one. -/
theorem modify_found (n : Text) {f : Variable α → Variable α} (hf : ∀ v, (f v).name = v.name)
    {h' : Heap α} (hnone : h.named? n = none → h' = h)
    (hsome : ∀ i, h.named? n = some i → h' = h.change i f) :
    Simulates { s with table := s.table.modify n f } h' := by
  cases hn : h.named? n with
  | none =>
    have hmissing : s.table.find? n = none := by
      rw [hs.find?_eq, hn]
      rfl
    rw [SymbolTable.modify_of_find?_none hmissing, hnone hn]
    exact hs
  | some i =>
    rw [hsome i hn]
    exact hs.modify hn hf

end Simulates

theorem simulates_empty : Simulates (Session.empty : Session α) .empty where
  frozen := rfl
  entries := rfl
  holdings := fun _ => .none
  own := fun hi => by cases hi
  lower := fun hv => by cases hv
  distinct := List.nodup_nil

/-! ### What stays -/

/-- Variables are registered behind those that are, and keep their names. -/
structure Heap.Grows (h h' : Heap α) : Prop where
  members : ∃ more, h'.members = h.members ++ more
  names : ∀ i ∈ h.members, (h'.made[i]?).map (·.name) = (h.made[i]?).map (·.name)

theorem Heap.Grows.refl (h : Heap α) : h.Grows h := ⟨⟨[], (List.append_nil _).symm⟩, fun _ _ => rfl⟩

theorem Heap.Grows.trans {h' h'' : Heap α} (hg : h.Grows h') (hg' : h'.Grows h'') :
    h.Grows h'' := by
  obtain ⟨more, hmore⟩ := hg.members
  obtain ⟨more', hmore'⟩ := hg'.members
  refine ⟨⟨more ++ more', ?_⟩, fun i hi => ?_⟩
  · rw [hmore', hmore, List.append_assoc]
  · refine (hg'.names i ?_).trans (hg.names i hi)
    rw [hmore]
    exact List.mem_append_left _ hi

theorem Simulates.grows_make (hs : Simulates s h) (handle : Text) (v : Variable α) :
    h.Grows (h.make handle v) := by
  refine ⟨⟨[], (List.append_nil _).symm⟩, fun i hi => ?_⟩
  exact congrArg _ (List.getElem?_append_left (hs.lt_of_member hi))

theorem Heap.grows_enter (h : Heap α) (i : Nat) : h.Grows (h.enter i) :=
  ⟨⟨[i], rfl⟩, fun _ _ => rfl⟩

theorem Heap.grows_change (h : Heap α) (i : Nat) {f : Variable α → Variable α}
    (hf : ∀ v, (f v).name = v.name) : h.Grows (h.change i f) := by
  refine ⟨⟨[], (List.append_nil _).symm⟩, fun j _ => ?_⟩
  rw [getElem?_change, Option.map_map]
  cases h.made[j]? with
  | none => rfl
  | some v =>
    refine congrArg some ?_
    show (if i = j then f v else v).name = v.name
    split_ifs
    · exact hf v
    · rfl

/-- **The first registered variable of a name** stays the first. -/
theorem Heap.Grows.named? {h' : Heap α} (hg : h.Grows h') {n : Text} {i : Nat}
    (hn : h.named? n = some i) : h'.named? n = some i := by
  obtain ⟨more, hmore⟩ := hg.members
  have hanswers : ∀ j ∈ h.members, (h'.made[j]?).any (·.answersTo n) =
      (h.made[j]?).any (·.answersTo n) := by
    intro j hj
    have hname : ∀ made : Option (Variable α), made.any (·.answersTo n) =
        (made.map (·.name)).any fun name => Text.lowercase name == Text.lowercase n := by
      rintro (_ | v)
      · rfl
      · rfl
    rw [hname, hname, hg.names j hj]
  unfold Heap.named? at hn ⊢
  rw [hmore, List.find?_append, List.find?_congr hanswers, hn, Option.some_or]

end

end Session

end FuzzyInference
