import FuzzyInference.Batch
import FuzzyInference.Proofs.Document.Value

/-!
# Columns that are found for inputs

If no columns are said outright, inputs take their values from the columns that the header names for
them, and if it names none, from the columns in order.

* `Table.Heads`: a column that the header names for an input;
* `gather_eq_collect`: of equal variables, the last one counts;
* `resolve_of_names`: **which input has which column**, and which are left out;
* `left_out`: an input without a column.
-/

namespace FuzzyInference

open FuzzyInference.Document

/-- The header names the column so, in any letter case, and none before it. -/
structure Table.Heads (t : Table) (name : Text) (i : Nat) : Prop where
  header : t.hasHeader = true
  named : ∃ c, t.columns[i]? = some c ∧ Text.lowercase c = Text.lowercase name
  first : ∀ j < i, ∀ c, t.columns[j]? = some c → Text.lowercase c ≠ Text.lowercase name

theorem Table.columnLike?_eq_some_iff {t : Table} {name : Text} {i : Nat} :
    t.columnLike? name = some i ↔ t.Heads name i := by
  unfold Table.columnLike?
  split_ifs with hheader
  · rw [List.findIdx?_eq_some_iff_getElem]
    constructor
    · rintro ⟨hi, hname, hfirst⟩
      refine ⟨hheader, ⟨_, List.getElem?_eq_getElem hi, beq_iff_eq.mp hname⟩, fun j hj c hc => ?_⟩
      obtain ⟨hj', rfl⟩ := List.getElem?_eq_some_iff.mp hc
      exact fun h => hfirst j hj (beq_iff_eq.mpr h)
    · rintro ⟨-, ⟨c, hc, hname⟩, hfirst⟩
      obtain ⟨hi, rfl⟩ := List.getElem?_eq_some_iff.mp hc
      refine ⟨hi, beq_iff_eq.mpr hname, fun j hj h => ?_⟩
      exact hfirst j hj _ (List.getElem?_eq_getElem (hj.trans hi)) (beq_iff_eq.mp h)
  · exact iff_of_false (fun h => by cases h) fun h => hheader h.header

theorem Table.Heads.lt {t : Table} {name : Text} {i : Nat} (h : t.Heads name i) :
    i < t.columns.length := by
  obtain ⟨c, hc, -⟩ := h.named
  exact (List.getElem?_eq_some_iff.mp hc).1

namespace Batch

/-! ### Variables with columns -/

variable {columns : List (Text × Nat)} {name : Text} {i : Nat}

/-- The columns are put one after the other, so that of equal variables the last one counts. -/
theorem gather_eq_collect : gather columns = Value.collect columns := rfl

theorem mem_of_lookup?_gather (h : Value.lookup? (.text name) (gather columns) = some i) :
    (name, i) ∈ columns := by
  rw [gather_eq_collect, Value.lookup?_collect, List.lookup_eq_some_iff] at h
  obtain ⟨before, behind, hcolumns, -⟩ := h
  rw [← List.mem_reverse, hcolumns]
  exact List.mem_append_right _ List.mem_cons_self

theorem lookup?_gather_eq_none_iff :
    Value.lookup? (.text name) (gather columns) = none ↔ ∀ i, (name, i) ∉ columns := by
  rw [gather_eq_collect, Value.lookup?_collect, List.lookup_eq_none_iff]
  constructor
  · intro h i hi
    exact absurd rfl (bne_iff_ne.mp (h (name, i) (List.mem_reverse.mpr hi)))
  · rintro h ⟨n, i⟩ hi
    rw [bne_iff_ne]
    rintro rfl
    exact h i (List.mem_reverse.mp hi)

/-! ### Inputs -/

variable {t : Table} {inputs : List Text}

theorem mem_headed_iff :
    (name, i) ∈ inputs.filterMap (fun name => (t.columnLike? name).map fun i => (name, i)) ↔
      name ∈ inputs ∧ t.Heads name i := by
  rw [List.mem_filterMap]
  constructor
  · rintro ⟨n, hn, h⟩
    obtain ⟨j, hj, heq⟩ := Option.map_eq_some_iff.mp h
    cases heq
    exact ⟨hn, Table.columnLike?_eq_some_iff.mp hj⟩
  · rintro ⟨hn, h⟩
    exact ⟨name, hn, Option.map_eq_some_iff.mpr ⟨i, Table.columnLike?_eq_some_iff.mpr h, rfl⟩⟩

theorem lookup?_fromHeader_eq_some_iff :
    Value.lookup? (.text name) (fromHeader t inputs) = some i ↔ name ∈ inputs ∧ t.Heads name i := by
  constructor
  · exact fun h => mem_headed_iff.mp (mem_of_lookup?_gather h)
  · rintro ⟨hname, hheads⟩
    cases h : Value.lookup? (.text name) (fromHeader t inputs) with
    | none => exact absurd (mem_headed_iff.mpr ⟨hname, hheads⟩) (lookup?_gather_eq_none_iff.mp h i)
    | some j =>
      have hj : t.Heads name j := (mem_headed_iff.mp (mem_of_lookup?_gather h)).2
      rw [← Table.columnLike?_eq_some_iff] at hheads hj
      rw [← hheads, hj]

theorem fromHeader_eq_nil_iff :
    fromHeader t inputs = [] ↔ ∀ name ∈ inputs, ∀ i, ¬ t.Heads name i := by
  unfold fromHeader
  rw [gather_eq_collect, Value.collect_eq_nil_iff, List.eq_nil_iff_forall_not_mem]
  constructor
  · exact fun h name hname i hheads => h (name, i) (mem_headed_iff.mpr ⟨hname, hheads⟩)
  · rintro h ⟨name, i⟩ hmem
    exact h name (mem_headed_iff.mp hmem).1 i (mem_headed_iff.mp hmem).2

theorem exists_lookup?_byOrder (h : name ∈ inputs) :
    ∃ i, Value.lookup? (.text name) (byOrder inputs) = some i := by
  obtain ⟨i, hi⟩ := List.mem_iff_getElem?.mp h
  rw [← Option.ne_none_iff_exists']
  exact fun hnone =>
    lookup?_gather_eq_none_iff.mp hnone i (List.mem_zipIdx_iff_getElem?.mpr hi)

theorem resolve_of_unnamed (h : ∀ name ∈ inputs, ∀ i, ¬ t.Heads name i) :
    resolve t [] inputs = if t.columns.length < inputs.length then
      .error (.tooFewColumns t.columns.length inputs.length) else .ok (byOrder inputs) := by
  have hfrom : (!(fromHeader t inputs).isEmpty) = false := by
    rw [fromHeader_eq_nil_iff.mpr h]
    rfl
  exact if_neg (Bool.eq_false_iff.mp hfrom)

theorem resolve_of_named (h : ¬ ∀ name ∈ inputs, ∀ i, ¬ t.Heads name i) :
    resolve t [] inputs = .ok (fromHeader t inputs) := by
  have hfrom : (!(fromHeader t inputs).isEmpty) = true := by
    rw [Bool.not_eq_true', Bool.eq_false_iff]
    exact fun hempty => h (fromHeader_eq_nil_iff.mp (List.isEmpty_iff.mp hempty))
  exact if_pos hfrom

/-- **Which input has which column**, if none is said outright. There are too few columns for the
inputs, and the header names none of them; or each input has the first column that the header names
for it; or the header names no input, and each has the column in its place. Only inputs that the
header does not name are without a column, and only if it names another one. -/
theorem resolve_of_names (t : Table) (inputs : List Text) :
    ((∀ name ∈ inputs, ∀ i, ¬ t.Heads name i) ∧ t.columns.length < inputs.length ∧
      resolve t [] inputs = .error (.tooFewColumns t.columns.length inputs.length)) ∨
    ∃ sources, resolve t [] inputs = .ok sources ∧
      (∀ source ∈ sources, ∃ name ∈ inputs, source.1 = .text name) ∧
      ∀ name ∈ inputs,
        (∀ i, Value.lookup? (.text name) sources = some i → i < t.columns.length ∧
          (t.Heads name i ∨ inputs[i]? = some name)) ∧
        (∀ i, t.Heads name i → Value.lookup? (.text name) sources = some i) ∧
        (Value.lookup? (.text name) sources = none ↔
          (∀ i, ¬ t.Heads name i) ∧ ∃ other ∈ inputs, ∃ i, t.Heads other i) := by
  by_cases hnamed : ∀ name ∈ inputs, ∀ i, ¬ t.Heads name i
  · rw [resolve_of_unnamed hnamed]
    split_ifs with hfew
    · exact Or.inl ⟨hnamed, hfew, rfl⟩
    · refine Or.inr ⟨_, rfl, fun source hsource => ?_, fun name hname => ⟨fun i hi => ?_, ?_, ?_⟩⟩
      · obtain ⟨c, hc, hsource⟩ := Value.exists_of_mem_collect hsource
        exact ⟨c.1, List.mem_of_getElem? (List.mem_zipIdx_iff_getElem?.mp hc), hsource⟩
      · have hplace : inputs[i]? = some name :=
          List.mem_zipIdx_iff_getElem?.mp (mem_of_lookup?_gather hi)
        have hlt : i < inputs.length := (List.getElem?_eq_some_iff.mp hplace).1
        exact ⟨by omega, Or.inr hplace⟩
      · exact fun i hi => absurd hi (hnamed name hname i)
      · obtain ⟨i, hi⟩ := exists_lookup?_byOrder hname
        rw [hi]
        refine iff_of_false (fun h => by cases h) ?_
        rintro ⟨-, other, hother, j, hj⟩
        exact hnamed other hother j hj
  · rw [resolve_of_named hnamed]
    refine Or.inr ⟨_, rfl, fun source hsource => ?_, fun name hname => ⟨fun i hi => ?_, ?_, ?_⟩⟩
    · obtain ⟨c, hc, hsource⟩ := Value.exists_of_mem_collect hsource
      exact ⟨c.1, (mem_headed_iff.mp hc).1, hsource⟩
    · have hheads := (lookup?_fromHeader_eq_some_iff.mp hi).2
      exact ⟨hheads.lt, Or.inl hheads⟩
    · exact fun i hi => lookup?_fromHeader_eq_some_iff.mpr ⟨hname, hi⟩
    · constructor
      · refine fun hnone => ⟨fun i hi => ?_, ?_⟩
        · rw [lookup?_fromHeader_eq_some_iff.mpr ⟨hname, hi⟩] at hnone
          cases hnone
        · push Not at hnamed
          exact hnamed
      · rintro ⟨hnot, -⟩
        rw [Option.eq_none_iff_forall_ne_some]
        exact fun i hi => hnot i (lookup?_fromHeader_eq_some_iff.mp hi).2

/-- **An input without a column**: the header names the other one. -/
theorem left_out : ¬ ∀ (t : Table) (inputs : List Text), (∃ f, resolve t [] inputs = .error f) ∨
    ∃ sources, resolve t [] inputs = .ok sources ∧ ∀ name ∈ inputs,
      ∃ i < t.columns.length, Value.lookup? (.text name) sources = some i ∧
        ∀ j, t.Heads name j → i = j := by
  intro h
  let t : Table := ⟨true, ["x"], [], false⟩
  have hresolve : resolve t [] ["x", "y"] = .ok [(.text "x", 0)] := by rfl
  rcases h t ["x", "y"] with ⟨f, hf⟩ | ⟨sources, hsources, hall⟩
  · rw [hresolve] at hf
    cases hf
  · rw [hresolve] at hsources
    cases hsources
    obtain ⟨i, -, hi, -⟩ := hall "y" (List.mem_cons_of_mem _ (List.mem_singleton_self _))
    have hnone : Value.lookup? (.text "y") [(Value.text "x", 0)] = none := by decide +kernel
    rw [hnone] at hi
    cases hi

end Batch

end FuzzyInference
