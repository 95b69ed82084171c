import FuzzyInference.Proofs.SymbolTable.Change

/-!
# Crisp values of symbol tables

Once a table is frozen only the crisp values in it change. What does not depend on them can be read
off the table without its values; what does depend on them is read through the names of variables.

* `SymbolTable.cleared`: the table with all values zero;
* `find?_of_cleared`, `defines_of_cleared`: names and terms are the same in tables that differ in
  their values only;
* `find?_setValue`: setting a value changes the one variable that goes by the name;
* `SymbolTable.AgreeOn`: two tables that differ in their values only, and there in none that the
  given names are read for;
* `AgreeOn.setValue`: setting a value in both keeps this.
-/

namespace FuzzyInference

variable {α : Type}

/-! ### Setting a value -/

namespace SymbolTable

theorem setValue_eq {t u : SymbolTable α} {n : Text} {x : α}
    (h : t.setValue n x = .ok u) :
    t.hasVariable n = true ∧ u = t.modify n fun v => { v with value := x } := by
  unfold setValue at h
  split_ifs at h with hn
  cases h
  exact ⟨hn, rfl⟩

/-- **Setting a value** changes the one variable that goes by the name. -/
theorem find?_setValue {t u : SymbolTable α} {n : Text} {x : α} (h : t.setValue n x = .ok u)
    (k : Text) : u.find? k = if Text.lowercase k = Text.lowercase n
      then (t.find? k).map fun v => { v with value := x } else t.find? k := by
  have hkeeps : ∀ v : Variable α, v.answersTo n = true →
      ({ v with value := x } : Variable α).answersTo n = true := fun _ hv => hv
  obtain ⟨-, rfl⟩ := setValue_eq h
  exact find?_modifyFirst hkeeps t.entries

/-- What is set is there. -/
theorem value_setValue {t u : SymbolTable α} {n : Text} {x : α} (h : t.setValue n x = .ok u) :
    ∃ v, u.find? n = some v ∧ v.value = x := by
  obtain ⟨v, hv⟩ := Option.isSome_iff_exists.mp (setValue_eq h).1
  refine ⟨{ v with value := x }, ?_, rfl⟩
  rw [find?_setValue h, if_pos rfl, hv]
  rfl

end SymbolTable

/-! ### Tables without values -/

variable [Scalar α]

/-- The variable with its crisp value zero. -/
def Variable.cleared (v : Variable α) : Variable α := { v with value := Scalar.zero }

theorem Variable.terms_of_cleared {v v' : Variable α} (h : v'.cleared = v.cleared) :
    v'.terms = v.terms :=
  (Variable.mk.inj h).2.2.1

namespace SymbolTable

/-- The table with all crisp values zero. -/
def cleared (t : SymbolTable α) : SymbolTable α :=
  { t with entries := t.entries.map Variable.cleared }

theorem find?_cleared (t : SymbolTable α) (n : Text) :
    t.cleared.find? n = (t.find? n).map Variable.cleared := by
  unfold find? cleared
  rw [List.find?_map]
  rfl

section
variable {t t' : SymbolTable α}

/-- What a name stands for in a table that differs in its values only. -/
theorem find?_of_cleared {n : Text} {v : Variable α} (h : t'.cleared = t.cleared)
    (hv : t.find? n = some v) : ∃ v', t'.find? n = some v' ∧ v'.cleared = v.cleared := by
  have hfind : (t'.find? n).map Variable.cleared = some v.cleared := by
    rw [← find?_cleared, h, find?_cleared, hv]
    rfl
  obtain ⟨v', hv', heq⟩ := Option.map_eq_some_iff.mp hfind
  exact ⟨v', hv', heq⟩

theorem hasVariable_of_cleared (h : t'.cleared = t.cleared) (n : Text) :
    t'.hasVariable n = t.hasVariable n := by
  have hfind : (t'.find? n).map Variable.cleared = (t.find? n).map Variable.cleared := by
    rw [← find?_cleared, h, find?_cleared]
  unfold hasVariable
  rw [← Option.isSome_map, hfind, Option.isSome_map]

/-- What is defined does not depend on the values. -/
theorem defines_of_cleared {x : Text × Text} (h : t'.cleared = t.cleared) (hx : t.Defines x) :
    t'.Defines x := by
  obtain ⟨v, hv, hterm⟩ := hx
  obtain ⟨v', hv', hc⟩ := find?_of_cleared h hv
  refine ⟨v', hv', ?_⟩
  unfold Variable.hasTerm Variable.term? at hterm ⊢
  rw [Variable.terms_of_cleared hc]
  exact hterm

/-- Setting a value changes values only. -/
theorem cleared_setValue {n : Text} {x : α} {u : SymbolTable α} (h : t.setValue n x = .ok u) :
    u.cleared = t.cleared := by
  have hmodify : ∀ vs : List (Variable α),
      (modifyFirst n (fun v => { v with value := x }) vs).map Variable.cleared =
        vs.map Variable.cleared := by
    intro vs
    induction vs with
    | nil => rfl
    | cons v vs ih =>
      unfold modifyFirst
      split
      · rfl
      · rw [List.map_cons, List.map_cons, ih]
  obtain ⟨-, rfl⟩ := setValue_eq h
  unfold cleared modify
  dsimp only
  rw [hmodify]

end

/-! ### Tables that agree -/

/-- The tables differ in their values only, and what the given names stand for is the same in
both. -/
structure AgreeOn (names : Text → Prop) (t t' : SymbolTable α) : Prop where
  cleared : t'.cleared = t.cleared
  find : ∀ n, names n → t'.find? n = t.find? n

/-- **Tables that agree go on to agree** where the same value is set in both. -/
theorem AgreeOn.setValue {names : Text → Prop} {t t' u : SymbolTable α} {n : Text} {x : α}
    (h : AgreeOn names t t') (hu : t.setValue n x = .ok u) :
    ∃ u', t'.setValue n x = .ok u' ∧ AgreeOn names u u' := by
  obtain ⟨hn, -⟩ := setValue_eq hu
  have hn' : t'.hasVariable n = true := by rw [hasVariable_of_cleared h.cleared, hn]
  obtain ⟨u', hu'⟩ : ∃ u', t'.setValue n x = .ok u' := ⟨_, if_pos hn'⟩
  refine ⟨u', hu', ⟨?_, fun k hk => ?_⟩⟩
  · rw [cleared_setValue hu', cleared_setValue hu, h.cleared]
  · rw [find?_setValue hu', find?_setValue hu, h.find k hk]

/-- Tables that differ in one value agree on all other names. -/
theorem agreeOn_setValue {t u : SymbolTable α} {n : Text} {x : α} (h : t.setValue n x = .ok u) :
    AgreeOn (fun k => Text.lowercase k ≠ Text.lowercase n) t u := by
  refine ⟨cleared_setValue h, fun k hk => ?_⟩
  rw [find?_setValue h, if_neg hk]

end SymbolTable

end FuzzyInference
