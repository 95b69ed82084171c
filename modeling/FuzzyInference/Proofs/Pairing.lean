import Mathlib.Data.List.Forall2
import Mathlib.Data.List.Nodup

/-!
# Lists item by item

* `exists_of_forall₂_left`, `exists_of_forall₂_right`: an item of one of two related lists has a
  partner in the other;
* `exists_forall₂`: a list of partners;
* `nodup_map_snoc`: a list whose items have different keys, and one more;
* `bind_ok_iff`, `bind_error_iff`: one operation that may fail after another;
* `mapM_ok_iff`, `exists_split_of_mapM_error`, `mapM_error_iff`: an operation that may fail, on all
  items of a list;
* `mapM_congr`, `mapM_eq_of_forall₂`: what it gives depends on the items only;
* `ok_of_toOption`, `exists_of_map_ok`: an operation that gives something;
* `ok_of_mapError`, `exists_of_mapError`: an operation whose failures are renamed.
-/

namespace FuzzyInference

variable {β γ ε : Type} {R : β → γ → Prop}

theorem exists_of_forall₂_left {xs : List β} {ys : List γ} (h : List.Forall₂ R xs ys) :
    ∀ x ∈ xs, ∃ y ∈ ys, R x y := by
  induction h with
  | nil => simp
  | cons hxy _ ih =>
    intro x hx
    rcases List.mem_cons.mp hx with rfl | hx
    · exact ⟨_, List.mem_cons_self, hxy⟩
    · obtain ⟨y, hy, hR⟩ := ih x hx
      exact ⟨y, List.mem_cons_of_mem _ hy, hR⟩

theorem exists_of_forall₂_right {xs : List β} {ys : List γ} (h : List.Forall₂ R xs ys) :
    ∀ y ∈ ys, ∃ x ∈ xs, R x y := by
  induction h with
  | nil => simp
  | cons hxy _ ih =>
    intro y hy
    rcases List.mem_cons.mp hy with rfl | hy
    · exact ⟨_, List.mem_cons_self, hxy⟩
    · obtain ⟨x, hx, hR⟩ := ih y hy
      exact ⟨x, List.mem_cons_of_mem _ hx, hR⟩

/-- Where each item has a partner, they can be listed. -/
theorem exists_forall₂ : ∀ {xs : List β}, (∀ x ∈ xs, ∃ y, R x y) → ∃ ys, List.Forall₂ R xs ys
  | [], _ => ⟨[], .nil⟩
  | x :: xs, h => by
    obtain ⟨y, hy⟩ := h x List.mem_cons_self
    obtain ⟨ys, hys⟩ := exists_forall₂ fun z hz => h z (List.mem_cons_of_mem x hz)
    exact ⟨y :: ys, .cons hy hys⟩

/-- One more item, under a new key. -/
theorem nodup_map_snoc {key : β → γ} {xs : List β} {x : β} (h : (xs.map key).Nodup)
    (hnew : key x ∉ xs.map key) : ((xs ++ [x]).map key).Nodup := by
  rw [List.map_append, List.map_singleton, ← List.concat_eq_append]
  exact h.concat hnew

/-- **Two operations succeed** one after the other if both do. -/
theorem bind_ok_iff {r : Except ε β} {f : β → Except ε γ} {y : γ} :
    r >>= f = .ok y ↔ ∃ x, r = .ok x ∧ f x = .ok y := by
  cases r with
  | error e =>
    constructor
    · intro h
      cases h
    · rintro ⟨x, h, -⟩
      cases h
  | ok x =>
    constructor
    · exact fun h => ⟨x, rfl, h⟩
    · rintro ⟨x', h, hf⟩
      cases h
      exact hf

/-- **They fail** if the first does, or the second does after it. -/
theorem bind_error_iff {r : Except ε β} {f : β → Except ε γ} {e : ε} :
    r >>= f = .error e ↔ r = .error e ∨ ∃ x, r = .ok x ∧ f x = .error e := by
  cases r with
  | error e' =>
    constructor
    · intro h
      cases h
      exact Or.inl rfl
    · rintro (h | ⟨x, h, -⟩)
      · cases h
        rfl
      · cases h
  | ok x =>
    constructor
    · exact fun h => Or.inr ⟨x, rfl, h⟩
    · rintro (h | ⟨x', h, hf⟩)
      · cases h
      · cases h
        exact hf

/-- **All items succeed** exactly if the whole list does, with the results in order. -/
theorem mapM_ok_iff {f : β → Except ε γ} : ∀ {xs : List β} {ys : List γ},
    xs.mapM f = .ok ys ↔ List.Forall₂ (fun x y => f x = .ok y) xs ys
  | [], ys => by
    rw [List.mapM_nil, List.forall₂_nil_left_iff]
    exact ⟨fun h => (Except.ok.inj h).symm, fun h => congrArg Except.ok h.symm⟩
  | x :: xs, ys => by
    rw [List.mapM_cons, List.forall₂_cons_left_iff, bind_ok_iff]
    constructor
    · rintro ⟨y, hy, h⟩
      obtain ⟨zs, hzs, h⟩ := bind_ok_iff.mp h
      exact ⟨y, zs, hy, mapM_ok_iff.mp hzs, (Except.ok.inj h).symm⟩
    · rintro ⟨y, zs, hy, hzs, rfl⟩
      exact ⟨y, hy, bind_ok_iff.mpr ⟨zs, mapM_ok_iff.mpr hzs, rfl⟩⟩

/-- The failure of a list is that of an item, and all before it succeed. -/
theorem exists_split_of_mapM_error {f : β → Except ε γ} {e : ε} : ∀ {xs : List β},
    xs.mapM f = .error e → ∃ before x behind ys, xs = before ++ x :: behind ∧
      List.Forall₂ (fun x y => f x = .ok y) before ys ∧ f x = .error e
  | [], h => by cases h
  | x :: xs, h => by
    rw [List.mapM_cons] at h
    rcases bind_error_iff.mp h with hx | ⟨y, hy, h⟩
    · exact ⟨[], x, xs, [], rfl, .nil, hx⟩
    · rcases bind_error_iff.mp h with hxs | ⟨ys, -, h⟩
      · obtain ⟨before, z, behind, ys, rfl, hbefore, hz⟩ := exists_split_of_mapM_error hxs
        exact ⟨x :: before, z, behind, y :: ys, rfl, .cons hy hbefore, hz⟩
      · cases h

theorem exists_of_mapM_error {f : β → Except ε γ} {e : ε} {xs : List β}
    (h : xs.mapM f = .error e) : ∃ x ∈ xs, f x = .error e := by
  obtain ⟨before, x, behind, -, rfl, -, hx⟩ := exists_split_of_mapM_error h
  exact ⟨x, List.mem_append_right _ List.mem_cons_self, hx⟩

/-- **Some item fails** exactly if the whole list does. -/
theorem mapM_error_iff {f : β → Except ε γ} {xs : List β} :
    (∃ e, xs.mapM f = .error e) ↔ ∃ x ∈ xs, ∃ e, f x = .error e := by
  constructor
  · rintro ⟨e, he⟩
    obtain ⟨x, hx, hxe⟩ := exists_of_mapM_error he
    exact ⟨x, hx, e, hxe⟩
  · rintro ⟨x, hx, e, he⟩
    cases hxs : xs.mapM f with
    | error e' => exact ⟨e', rfl⟩
    | ok ys =>
      obtain ⟨y, -, hy⟩ := exists_of_forall₂_left (mapM_ok_iff.mp hxs) x hx
      rw [he] at hy
      cases hy

theorem mapM_congr {f g : β → Except ε γ} {xs : List β} (h : ∀ x ∈ xs, f x = g x) :
    xs.mapM f = xs.mapM g := by
  induction xs with
  | nil => rw [List.mapM_nil, List.mapM_nil]
  | cons x xs ih =>
    rw [List.mapM_cons, List.mapM_cons, h x List.mem_cons_self,
      ih fun y hy => h y (List.mem_cons_of_mem x hy)]

/-- Operations that give the same on partners give the same on lists of partners. -/
theorem mapM_eq_of_forall₂ {δ : Type} {f : β → Except ε δ} {g : γ → Except ε δ} {xs : List β}
    {ys : List γ} (h : List.Forall₂ (fun x y => f x = g y) xs ys) : xs.mapM f = ys.mapM g := by
  induction h with
  | nil => rw [List.mapM_nil, List.mapM_nil]
  | cons hxy _ ih => rw [List.mapM_cons, List.mapM_cons, hxy, ih]

theorem ok_of_toOption {r : Except ε β} {x : β} (h : r.toOption = some x) : r = .ok x := by
  cases r with
  | error e => cases h
  | ok y => exact congrArg Except.ok (Option.some.inj h)

theorem exists_of_map_ok {r : Except ε β} {f : β → γ} {y : γ} (h : r.map f = .ok y) :
    ∃ x, r = .ok x ∧ f x = y := by
  cases r with
  | error e => cases h
  | ok x => exact ⟨x, rfl, Except.ok.inj h⟩

theorem ok_of_mapError {ε' : Type} {r : Except ε β} {f : ε → ε'} {x : β}
    (h : r.mapError f = .ok x) : r = .ok x := by
  cases r with
  | error e => cases h
  | ok y =>
    cases h
    rfl

theorem exists_of_mapError {ε' : Type} {r : Except ε β} {f : ε → ε'} {e' : ε'}
    (h : r.mapError f = .error e') : ∃ e, r = .error e ∧ f e = e' := by
  cases r with
  | error e => exact ⟨e, rfl, Except.error.inj h⟩
  | ok y => cases h

end FuzzyInference
