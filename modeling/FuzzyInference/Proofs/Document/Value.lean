import FuzzyInference.Document.Display
import FuzzyInference.Proofs.Decimal.Numeral
import FuzzyInference.Proofs.Pairing
import Mathlib.Data.List.Induction

/-!
# Parts of documents

* `isWritable_of_get?`, `isWritable_of_entry`, `isWritable_of_mem`: what can be written out has parts
  that can be;
* `isWritable_of_toInteger`: a whole number that is read from it can be, too;
* `toInteger_error`, `toFloat_error`: which values have no number since they are too great;
* `lookup?_put`, `mem_of_mem_put`, `nodup_put`: entries under texts, after one is put among them;
* `collect`, `lookup?_collect`: entries that are put one after the other: **of equal texts the last
  one counts**.
-/

namespace FuzzyInference.Document.Value

/-! ### Values that can be written out -/

theorem mem_of_get? {entries : List (Value × Value)} {key : Text} {v : Value}
    (h : (map entries).get? key = some v) : ∃ k, (k, v) ∈ entries := by
  obtain ⟨⟨k, w⟩, hfound, rfl⟩ := Option.map_eq_some_iff.mp h
  exact ⟨k, List.mem_of_find?_eq_some hfound⟩

theorem allWritable_iff {items : List Value} :
    allWritable items = true ↔ ∀ v ∈ items, v.isWritable = true := by
  induction items with
  | nil => exact iff_of_true rfl (List.forall_mem_nil _)
  | cons v rest ih => rw [allWritable, Bool.and_eq_true, ih, List.forall_mem_cons]

theorem entriesWritable_iff {entries : List (Value × Value)} :
    entriesWritable entries = true ↔
      ∀ e ∈ entries, e.1.isWritable = true ∧ e.2.isWritable = true := by
  induction entries with
  | nil => exact iff_of_true rfl (List.forall_mem_nil _)
  | cons e rest ih =>
    rw [entriesWritable, Bool.and_eq_true, Bool.and_eq_true, ih, List.forall_mem_cons]

theorem isWritable_of_mem {items : List Value} (h : (list items).isWritable = true) :
    ∀ v ∈ items, v.isWritable = true := by
  rw [isWritable] at h
  exact allWritable_iff.mp h

theorem isWritable_of_get? {d v : Value} {key : Text} (hd : d.isWritable = true)
    (h : d.get? key = some v) : v.isWritable = true := by
  cases d with
  | map entries =>
    rw [isWritable] at hd
    obtain ⟨k, hmem⟩ := mem_of_get? h
    exact (entriesWritable_iff.mp hd _ hmem).2
  | _ => cases h

theorem isWritable_of_entry {d default : Value} {key : Text} (hd : d.isWritable = true)
    (hdefault : default.isWritable = true) : ((d.get? key).getD default).isWritable = true := by
  cases hraw : d.get? key with
  | none => exact hdefault
  | some v => exact isWritable_of_get? hd hraw

/-- **The whole number of a value** is not too long, if the value is not. -/
theorem isWritable_of_toInteger {v : Value} {i : Int} (hv : v.isWritable = true)
    (h : v.toInteger = .ok i) : (int i).isWritable = true := by
  unfold toInteger at h
  cases v with
  | bool b =>
    cases h
    cases b <;> decide +kernel
  | int j =>
    cases h
    exact hv
  | float x => exact isWritable_of_truncate h
  | text s => exact Decimal.isWritable_of_readInteger (ok_of_mapError h)
  | _ => cases h

/-! ### Numbers that are too great -/

/-- **An infinity has no whole number**, and nothing else fails for such a reason. -/
theorem toInteger_error {v : Value} {f : NumberFault} (h : v.toInteger = .error f) :
    f = .wholeOfInfinity ∧ (∃ x, v = .float x ∧ x.isInf = true) ∨
      f ≠ .wholeOfInfinity ∧ f ≠ .tooLarge := by
  unfold toInteger at h
  cases v with
  | bool | int => cases h
  | float x =>
    by_cases hx : x.isInf = true
    · have hfault : truncate x = .error .wholeOfInfinity := truncate_error_iff.mpr hx
      cases hfault.symm.trans h
      exact Or.inl ⟨rfl, x, rfl, hx⟩
    · refine Or.inr ⟨?_, ?_⟩
      · rintro rfl
        exact hx (truncate_error_iff.mp h)
      · rintro rfl
        dsimp only at h
        unfold truncate at h
        cases hbinary : Decimal.Binary.ofFloat x with
        | notANumber | infinite | finite =>
          rw [hbinary] at h
          cases h
  | text s =>
    obtain ⟨g, -, rfl⟩ := exists_of_mapError h
    exact Or.inr ⟨by simp, by simp⟩
  | _ =>
    cases h
    exact Or.inr ⟨by simp, by simp⟩

/-- **A whole number may be too great for a double**, and nothing else is. -/
theorem toFloat_error {v : Value} {f : NumberFault} (h : v.toFloat = .error f) :
    f = .tooLarge ∧ (∃ i, v = .int i ∧ Decimal.ofInt? i = none) ∨
      f ≠ .wholeOfInfinity ∧ f ≠ .tooLarge := by
  unfold toFloat at h
  cases v with
  | bool | float => cases h
  | int i =>
    dsimp only at h
    cases hi : Decimal.ofInt? i with
    | some x =>
      rw [hi] at h
      cases h
    | none =>
      rw [hi] at h
      cases h
      exact Or.inl ⟨rfl, i, rfl, hi⟩
  | text s =>
    obtain ⟨g, -, rfl⟩ := exists_of_mapError h
    exact Or.inr ⟨by simp, by simp⟩
  | _ =>
    cases h
    exact Or.inr ⟨by simp, by simp⟩

/-! ### Entries under texts -/

theorem sameKey_text_iff {key : Value} {s : Text} : key.sameKey (text s) = true ↔ key = text s := by
  cases key with
  | text t => rw [text.injEq]; exact beq_iff_eq
  | _ => exact iff_of_false (fun h => by cases h) (fun h => by cases h)

theorem lookup?_cons {β : Type} {key key' : Value} {x : β} {rest : List (Value × β)} :
    lookup? key' ((key, x) :: rest) =
      if key.sameKey key' then some x else lookup? key' rest := by
  unfold lookup?
  rw [List.find?_cons]
  cases key.sameKey key' <;> rfl

/-- **An entry that is put among others** is found under its text, and hides no other. -/
theorem lookup?_put {β : Type} {s t : Text} {x : β} : ∀ {entries : List (Value × β)},
    lookup? (text s) (put (text t) x entries) = if t = s then some x else lookup? (text s) entries
  | [] => by
    rw [put, lookup?_cons]
    refine if_congr ?_ rfl rfl
    rw [sameKey_text_iff, text.injEq]
  | (key, y) :: rest => by
    rw [put]
    by_cases hkey : key.sameKey (text t) = true
    · rw [if_pos hkey, lookup?_cons, lookup?_cons, sameKey_text_iff.mp hkey]
      by_cases hst : t = s
      · rw [if_pos hst, if_pos (sameKey_text_iff.mpr (congrArg text hst))]
      · have hne : ¬ (text t).sameKey (text s) = true :=
          mt sameKey_text_iff.mp fun h => hst (text.inj h)
        rw [if_neg hst, if_neg hne, if_neg hne]
    · rw [if_neg hkey, lookup?_cons, lookup?_cons, lookup?_put]
      by_cases hst : t = s
      · rw [if_pos hst, if_pos hst, if_neg (hst ▸ hkey)]
      · rw [if_neg hst, if_neg hst]

theorem put_ne_nil {β : Type} {key : Value} {x : β} {entries : List (Value × β)} :
    put key x entries ≠ [] := by
  cases entries with
  | nil => exact List.cons_ne_nil _ _
  | cons e rest =>
    unfold put
    split_ifs <;> exact List.cons_ne_nil _ _

theorem mem_of_mem_put {β : Type} {key : Value} {x : β} : ∀ {entries : List (Value × β)}
    {e : Value × β}, e ∈ put key x entries → e.1 = key ∨ ∃ d ∈ entries, d.1 = e.1
  | [], e, h => by
    rw [put, List.mem_singleton] at h
    exact Or.inl (congrArg Prod.fst h)
  | d :: rest, e, h => by
    rw [put] at h
    split_ifs at h
    · rcases List.mem_cons.mp h with rfl | h
      · exact Or.inr ⟨d, List.mem_cons_self, rfl⟩
      · exact Or.inr ⟨e, List.mem_cons_of_mem _ h, rfl⟩
    · rcases List.mem_cons.mp h with rfl | h
      · exact Or.inr ⟨e, List.mem_cons_self, rfl⟩
      · rcases mem_of_mem_put h with h | ⟨d', hd', he⟩
        · exact Or.inl h
        · exact Or.inr ⟨d', List.mem_cons_of_mem _ hd', he⟩

theorem nodup_put {β : Type} {t : Text} {x : β} : ∀ {entries : List (Value × β)},
    (entries.map Prod.fst).Nodup → ((put (text t) x entries).map Prod.fst).Nodup
  | [], _ => List.nodup_singleton _
  | (key, y) :: rest, h => by
    rw [put]
    by_cases hkey : key.sameKey (text t) = true
    · rw [if_pos hkey]
      exact h
    · rw [if_neg hkey, List.map_cons]
      rw [List.map_cons, List.nodup_cons] at h
      refine List.nodup_cons.mpr ⟨fun hmem => ?_, nodup_put h.2⟩
      obtain ⟨e, he, hfst⟩ := List.mem_map.mp hmem
      rcases mem_of_mem_put he with hput | ⟨d, hd, hde⟩
      · exact hkey (sameKey_text_iff.mpr (hfst.symm.trans hput))
      · exact h.1 (List.mem_map.mpr ⟨d, hd, hde.trans hfst⟩)

/-! ### Entries that are put one after the other -/

/-- The entries of pairs. -/
def collect {β : Type} (pairs : List (Text × β)) : List (Value × β) :=
  pairs.foldl (fun entries (t, x) => put (text t) x entries) []

section
variable {β : Type} {pairs : List (Text × β)} {t : Text} {x : β}

theorem collect_snoc : collect (pairs ++ [(t, x)]) = put (text t) x (collect pairs) :=
  List.foldl_append

/-- **Of equal texts the last one counts.** -/
theorem lookup?_collect : lookup? (text t) (collect pairs) = pairs.reverse.lookup t := by
  induction pairs using List.reverseRecOn with
  | nil => rfl
  | append_singleton pairs p ih =>
    rw [collect_snoc, lookup?_put, List.reverse_append, ih]
    by_cases h : p.1 = t
    · rw [if_pos h, ← h]
      exact List.lookup_cons_self.symm
    · have hne : (t == p.1) = false := beq_eq_false_iff_ne.mpr (Ne.symm h)
      rw [if_neg h]
      show _ = List.lookup t (p :: pairs.reverse)
      rw [List.lookup_cons, hne]

theorem exists_of_mem_collect {e : Value × β} (h : e ∈ collect pairs) :
    ∃ p ∈ pairs, e.1 = text p.1 := by
  induction pairs using List.reverseRecOn generalizing e with
  | nil => cases h
  | append_singleton pairs p ih =>
    rw [collect_snoc] at h
    rcases mem_of_mem_put h with h | ⟨d, hd, h⟩
    · exact ⟨p, List.mem_append_right _ (List.mem_singleton_self p), h⟩
    · obtain ⟨p', hp', heq⟩ := ih hd
      exact ⟨p', List.mem_append_left _ hp', h.symm.trans heq⟩

theorem nodup_collect : ((collect pairs).map Prod.fst).Nodup := by
  induction pairs using List.reverseRecOn with
  | nil => exact List.nodup_nil
  | append_singleton pairs p ih =>
    rw [collect_snoc]
    exact nodup_put ih

theorem collect_eq_nil_iff : collect pairs = [] ↔ pairs = [] := by
  induction pairs using List.reverseRecOn with
  | nil => exact iff_of_true rfl rfl
  | append_singleton pairs p ih =>
    rw [collect_snoc]
    exact iff_of_false put_ne_nil (List.append_ne_nil_of_right_ne_nil _ (List.cons_ne_nil _ _))

end

end FuzzyInference.Document.Value
