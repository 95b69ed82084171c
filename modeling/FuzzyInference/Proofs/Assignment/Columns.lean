import FuzzyInference.Proofs.Assignment
import FuzzyInference.Proofs.Decimal.Figure
import FuzzyInference.Proofs.Document.Value

/-!
# Columns that are written out

Columns for variables are given by items `name=column` with commas between them. A column of decimal
digits is a number and one that is no run of figures is a name. What looks like a number and is none
is neither: such an item is refused, but not with a fault of form.

* `Column`: what a column is; `Gives`, `Refuses`: what an item gives, and why it gives nothing;
* `readColumnItem_cases`: **each item** either gives a column or is refused;
* `readColumns_of_text`: **the columns of a text**, of equal names the last one, or the first item
  that is refused;
* `unreported_column`: a column that is refused for no fault of form.
-/

namespace FuzzyInference.Assignment

open FuzzyInference.Decimal FuzzyInference.Document

variable {item k v : Text}

/-! ### Items -/

/-- **What a column is**: the number that its digits spell out, unless they are too many, or else its
name. -/
inductive Column (v : Text) : Value → Prop
  | number (digits : IsDigits v) (short : v.length ≤ maxDigits) : Column v (.int (spelled v))
  | name (other : ¬ IsFigures v) : Column v (.text v)

/-- An item with a name and a column, not blank. -/
structure Assigns (item k v : Text) : Prop where
  halves : Halves item k v
  name_ne : k ≠ Text.empty
  column_ne : v ≠ Text.empty

/-- Why an item has no column. -/
inductive Refuses (item : Text) : Fault → Prop
  | noSign (sign : .char '=' ∉ item.toList) : Refuses item (.noColumn item)
  | incomplete {k v : Text} (halves : Halves item k v) (blank : k = Text.empty ∨ v = Text.empty) :
      Refuses item (.incomplete item)
  | column {k v : Text} {f : NumeralFault} (assigns : Assigns item k v) (figures : IsFigures v)
      (other : ¬ (IsDigits v ∧ v.length ≤ maxDigits)) (unread : readInteger v = .error f) :
      Refuses item (.column f)

theorem isEmpty_iff {t : Text} : t.isEmpty = true ↔ t = Text.empty := by
  constructor
  · exact fun h => congrArg Text.mk (List.isEmpty_iff.mp h)
  · rintro rfl
    rfl

/-- A column is read as what it is, unless it has figures that are no digits or too many of them. -/
theorem readColumn_cases (hne : v ≠ Text.empty) :
    (∃ c, readColumn v = .ok c ∧ Column v c) ∨
      ∃ f, readColumn v = .error (.column f) ∧ IsFigures v ∧
        ¬ (IsDigits v ∧ v.length ≤ maxDigits) ∧ readInteger v = .error f := by
  unfold readColumn
  by_cases hfigures : IsFigures v
  · rw [if_pos (List.all_eq_true.mpr hfigures), readInteger_of_figures hfigures hne]
    split_ifs with hlong hdigits
    · refine Or.inr ⟨_, rfl, hfigures, fun h => ?_, rfl⟩
      have hlength : (v.toList.takeWhile isDecimal).length ≤ v.length :=
        (List.takeWhile_sublist _).length_le
      omega
    · have hall : v.toList.takeWhile isDecimal = v.toList := List.takeWhile_eq_self_iff.mpr hdigits
      rw [hall] at hlong
      exact Or.inl ⟨_, rfl, .number hdigits (Nat.le_of_not_gt hlong)⟩
    · exact Or.inr ⟨_, rfl, hfigures, fun h => hdigits h.1, rfl⟩
  · rw [if_neg (mt List.all_eq_true.mp hfigures)]
    exact Or.inl ⟨_, rfl, .name hfigures⟩

/-- **Each item** either gives a column or is refused. -/
theorem readColumnItem_cases (item : Text) :
    (∃ k v c, readColumnItem item = .ok (k, c) ∧ Assigns item k v ∧ Column v c) ∨
      ∃ f, readColumnItem item = .error f ∧ Refuses item f := by
  unfold readColumnItem
  cases hhalves : halves? item with
  | none => exact Or.inr ⟨_, rfl, .noSign (halves?_eq_none_iff.mp hhalves)⟩
  | some halves =>
    obtain ⟨k, v⟩ := halves
    rw [halves?_eq_some_iff] at hhalves
    dsimp only
    by_cases hblank : k = Text.empty ∨ v = Text.empty
    · have hempty : (k.isEmpty || v.isEmpty) = true := by
        rw [Bool.or_eq_true, isEmpty_iff, isEmpty_iff]
        exact hblank
      rw [if_pos hempty]
      exact Or.inr ⟨_, rfl, .incomplete hhalves hblank⟩
    · have hgiven : ¬ (k.isEmpty || v.isEmpty) = true := by
        rw [Bool.or_eq_true, isEmpty_iff, isEmpty_iff]
        exact hblank
      obtain ⟨hk, hv⟩ := not_or.mp hblank
      rw [if_neg hgiven]
      rcases readColumn_cases hv with ⟨c, hread, hcolumn⟩ | ⟨f, hread, hfigures, hother, hf⟩
      · rw [hread]
        exact Or.inl ⟨k, v, c, rfl, ⟨hhalves, hk, hv⟩, hcolumn⟩
      · rw [hread]
        exact Or.inr ⟨_, rfl, .column ⟨hhalves, hk, hv⟩ hfigures hother hf⟩

theorem Column.isInt_iff {c : Value} (h : Column v c) :
    (∃ i, c = .int i) ↔ IsDigits v ∧ v.length ≤ maxDigits := by
  cases h with
  | number digits short => exact iff_of_true ⟨_, rfl⟩ ⟨digits, short⟩
  | name other =>
    refine iff_of_false ?_ fun h => other h.1.isFigures
    rintro ⟨i, hi⟩
    cases hi

theorem Halves.unique {k' v' : Text} (h : Halves item k v) (h' : Halves item k' v') :
    k = k' ∧ v = v' := by
  rw [← halves?_eq_some_iff] at h h'
  exact Prod.mk.inj (Option.some.inj (h.symm.trans h'))

/-- A fault of form is one of an item without name and column. -/
theorem Refuses.isReported_iff {f : Fault} (h : Refuses item f) :
    f.isReported = true ↔ ¬ ∃ k v, Assigns item k v := by
  cases h with
  | noSign sign =>
    refine iff_of_true rfl ?_
    rintro ⟨k, v, ⟨as, bs, hitem, -⟩, -⟩
    refine sign ?_
    rw [hitem]
    exact List.mem_append_right _ List.mem_cons_self
  | incomplete halves blank =>
    refine iff_of_true rfl ?_
    rintro ⟨k, v, hassigns⟩
    obtain ⟨rfl, rfl⟩ := halves.unique hassigns.halves
    rcases blank with hk | hv
    · exact hassigns.name_ne hk
    · exact hassigns.column_ne hv
  | column assigns =>
    exact iff_of_false (fun h => by cases h) fun h => h ⟨_, _, assigns⟩

/-! ### Texts -/

/-- **The columns of a text.** Each item gives a column, which is a number exactly if it is a run of
digits and not too long; of equal names the last one counts, and there are no other names. Or else
there is a first item that is refused, with a fault of form exactly if it has no name or no column. -/
theorem readColumns_of_text (t : Text) :
    (∃ pairs columns, readColumns t = .ok columns ∧
      List.Forall₂ (fun item pair => ∃ v, Assigns item pair.1 v ∧ Column v pair.2 ∧
        ((∃ i, pair.2 = .int i) ↔ IsDigits v ∧ v.length ≤ maxDigits)) (items t) pairs ∧
      (columns.map Prod.fst).Nodup ∧ (∀ entry ∈ columns, ∃ pair ∈ pairs, entry.1 = .text pair.1) ∧
      ∀ k, Value.lookup? (.text k) columns = pairs.reverse.lookup k) ∨
    ∃ before item behind f, items t = before ++ item :: behind ∧
      (∀ i ∈ before, ∃ k v c, Assigns i k v ∧ Column v c) ∧ readColumns t = .error f ∧
      Refuses item f ∧ (f.isReported = true ↔ ¬ ∃ k v, Assigns item k v) := by
  have hgives : ∀ item p, readColumnItem item = .ok p →
      ∃ v, Assigns item p.1 v ∧ Column v p.2 := by
    intro item p hitem
    rcases readColumnItem_cases item with ⟨k, v, c, hread, hassigns, hcolumn⟩ | ⟨f, hread, -⟩
    · cases hread.symm.trans hitem
      exact ⟨v, hassigns, hcolumn⟩
    · cases hread.symm.trans hitem
  cases hpairs : (items t).mapM readColumnItem with
  | ok pairs =>
    refine Or.inl ⟨pairs, Value.collect pairs, ?_, ?_, Value.nodup_collect,
      fun entry hentry => Value.exists_of_mem_collect hentry, fun k => Value.lookup?_collect⟩
    · unfold readColumns
      rw [hpairs]
      rfl
    · refine (mapM_ok_iff.mp hpairs).imp fun item pair hitem => ?_
      obtain ⟨v, hassigns, hcolumn⟩ := hgives item pair hitem
      exact ⟨v, hassigns, hcolumn, hcolumn.isInt_iff⟩
  | error f =>
    obtain ⟨before, item, behind, ys, hitems, hbefore, hitem⟩ := exists_split_of_mapM_error hpairs
    have hread : readColumns t = .error f := by
      unfold readColumns
      rw [hpairs]
      rfl
    refine Or.inr ⟨before, item, behind, f, hitems, fun i hi => ?_, hread, ?_⟩
    · obtain ⟨p, -, hp⟩ := exists_of_forall₂_left hbefore i hi
      obtain ⟨v, hassigns, hcolumn⟩ := hgives i p hp
      exact ⟨p.1, v, p.2, hassigns, hcolumn⟩
    · rcases readColumnItem_cases item with ⟨k, v, c, hok, -⟩ | ⟨g, hg, hrefuses⟩
      · cases hok.symm.trans hitem
      · cases hg.symm.trans hitem
        exact ⟨hrefuses, hrefuses.isReported_iff⟩

/-- **A column that is refused for no fault of form**: a raised two, which looks like a digit. -/
theorem unreported_column : ¬ ∀ t : Text, (∃ columns, readColumns t = .ok columns) ∨
    ∃ f, readColumns t = .error f ∧ f.isReported = true := by
  intro h
  have hfault : (match readColumns "x=²" with
    | .ok _ => true
    | .error f => f.isReported) = false := by decide +kernel
  rcases h "x=²" with ⟨columns, hcolumns⟩ | ⟨f, hf, hreported⟩
  · rw [hcolumns] at hfault
    cases hfault
  · rw [hf] at hfault
    exact Bool.false_ne_true (hfault.symm.trans hreported)

end FuzzyInference.Assignment
