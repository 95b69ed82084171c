import FuzzyInference.Batch
import FuzzyInference.Proofs.Pairing
import FuzzyInference.Proofs.Text.Whole

/-!
# Runs over records

A batch takes the records of a file one after the other. Each gives a line, up to the first one in
which a value is missing or no number, or for which the engine fails.

* `Table.numbered`: the records that count, with their numbers in the file;
* `HasNumber`: a field of a record that is a number;
* `Evaluates`: records, one after the other, with their lines;
* `Refuses`: a record without a line, and why it has none;
* `run_evaluates`: **what a batch does**.
-/

namespace FuzzyInference

open FuzzyInference.Decimal FuzzyInference.Document

/-! ### Records -/

namespace Table

/-- The records of a file that have fields, each with its number, without the header: the first
record is one if one of its fields is no number. -/
def numbered (first : List Text) (rest : List (List Text)) : List (List Text × Nat) :=
  (((first :: rest).zipIdx 1).drop (if first.all isNumber then 0 else 1)).filter
    fun row => !row.1.isEmpty

theorem rows_of_ofRecords? {isCut : Bool} {first : List Text} {rest : List (List Text)} {t : Table}
    (h : ofRecords? isCut (first :: rest) = some t) :
    t.rows = numbered first rest ∧ t.isCut = isCut := by
  rw [ofRecords?] at h
  unfold numbered
  by_cases hfirst : first.all isNumber = true
  · rw [if_pos hfirst] at h ⊢
    cases h
    exact ⟨rfl, rfl⟩
  · rw [if_neg hfirst] at h ⊢
    cases h
    exact ⟨rfl, rfl⟩

end Table

namespace Batch

/-! ### Values -/

/-- The record has a field in the column, and it is the number `x`, but for blanks around it. -/
def HasNumber (record : List Text) (column : Nat) (x : Float) : Prop :=
  ∃ cell, record[column]? = some cell ∧ readFloat? cell.trim = some x

theorem readFloat?_field {record : List Text} {column : Nat} {x : Float} :
    readFloat? (field record column) = some x ↔ HasNumber record column x := by
  unfold field HasNumber
  cases record[column]? with
  | none =>
    have hempty : readFloat? (Text.trim "") = none := by decide +kernel
    rw [Option.getD_none, hempty]
    exact iff_of_false (fun h => by cases h) fun ⟨_, h, _⟩ => by cases h
  | some cell =>
    rw [Option.getD_some]
    constructor
    · exact fun h => ⟨cell, rfl, h⟩
    · rintro ⟨_, ⟨⟩, h⟩
      exact h

/-- The record has a number for each of the variables. -/
def HasNumbers (record : List Text) (sources : Sources) (xs : List Float) : Prop :=
  List.Forall₂ (fun source x => HasNumber record source.2 x) sources xs

/-- The value of a record for one variable. -/
def value (row : List Text × Nat) (source : Value × Nat) : Except Fault Float :=
  match readFloat? (field row.1 source.2) with
  | some x => .ok x
  | none => .error (.notNumber row.2 (field row.1 source.2) source.1)

section
variable {e next : Engine Float} {sources : Sources} {row : List Text × Nat}
  {rows : List (List Text × Nat)} {xs : List Float}

theorem value_ok_iff {source : Value × Nat} {x : Float} :
    value row source = .ok x ↔ HasNumber row.1 source.2 x := by
  rw [← readFloat?_field]
  unfold value
  cases readFloat? (field row.1 source.2) with
  | none => exact iff_of_false (fun h => by cases h) fun h => by cases h
  | some y => rw [Except.ok.injEq, Option.some.injEq]

theorem value_error {source : Value × Nat} {f : Fault} (h : value row source = .error f) :
    (∀ x, ¬ HasNumber row.1 source.2 x) ∧
      f = .notNumber row.2 (field row.1 source.2) source.1 := by
  refine ⟨fun x hx => ?_, ?_⟩
  · rw [value_ok_iff.mpr hx] at h
    cases h
  · unfold value at h
    cases hfield : readFloat? (field row.1 source.2) with
    | none =>
      rw [hfield] at h
      exact (Except.error.inj h).symm
    | some y =>
      rw [hfield] at h
      cases h

theorem values_eq : values sources row = sources.mapM (value row) := by
  refine mapM_congr fun source _ => ?_
  obtain ⟨name, column⟩ := source
  rfl

theorem values_ok_iff : values sources row = .ok xs ↔ HasNumbers row.1 sources xs := by
  rw [values_eq, mapM_ok_iff]
  exact ⟨fun h => h.imp fun _ _ => value_ok_iff.mp, fun h => h.imp fun _ _ => value_ok_iff.mpr⟩

/-! ### Rows -/

/-- The records have values and results, one after the other: their lines, and the engine behind
them. -/
inductive Evaluates (sources : Sources) :
    Engine Float → List (List Text × Nat) → List Text → Engine Float → Prop
  | nil (e : Engine Float) : Evaluates sources e [] [] e
  | cons {e next last : Engine Float} {row : List Text × Nat} {rows : List (List Text × Nat)}
      {xs : List Float} {name : Text} {result : Float} {lines : List Text}
      (numbers : HasNumbers row.1 sources xs)
      (evaluates : e.evaluate (.ok (readings sources xs)) = (next, .ok (name, result)))
      (later : Evaluates sources next rows lines last) :
      Evaluates sources e (row :: rows) (resultLine xs result :: lines) last

/-- The record has no line: the value of a variable is missing or no number, and those of the
variables before it are in order; or all are, and the engine fails. -/
inductive Refuses (sources : Sources) (e : Engine Float) (row : List Text × Nat) : Fault → Prop
  | cell {before behind : Sources} {source : Value × Nat} {xs : List Float}
      (split : sources = before ++ source :: behind) (numbers : HasNumbers row.1 before xs)
      (none : ∀ x, ¬ HasNumber row.1 source.2 x) :
      Refuses sources e row (.notNumber row.2 (field row.1 source.2) source.1)
  | engine {next : Engine Float} {xs : List Float} {f : FuzzyInference.Fault Float}
      (numbers : HasNumbers row.1 sources xs)
      (fails : e.evaluate (.ok (readings sources xs)) = (next, .error f)) :
      Refuses sources e row (.engine f)

theorem Evaluates.length_eq {lines : List Text} (h : Evaluates sources e rows lines next) :
    lines.length = rows.length := by
  induction h with
  | nil => rfl
  | cons _ _ _ ih => exact congrArg (· + 1) ih

/-- The lines can stand in a file. -/
theorem isWhole_resultLine (xs : List Float) (result : Float) : (resultLine xs result).IsWhole := by
  refine Csv.isWhole_line fun field hfield => ?_
  obtain ⟨s, -, rfl⟩ := List.mem_map.mp hfield
  exact Text.isWhole_ofString s

theorem Evaluates.isWhole {sources : Sources} {e last : Engine Float}
    {rows : List (List Text × Nat)} {lines : List Text} (h : Evaluates sources e rows lines last) :
    ∀ line ∈ lines, line.IsWhole := by
  induction h with
  | nil => exact List.forall_mem_nil _
  | cons _ _ _ ih => exact List.forall_mem_cons.mpr ⟨isWhole_resultLine _ _, ih⟩

theorem refuses_of_values_error {f : Fault} (h : values sources row = .error f) :
    Refuses sources e row f := by
  rw [values_eq] at h
  obtain ⟨before, source, behind, xs, hsplit, hbefore, hsource⟩ := exists_split_of_mapM_error h
  obtain ⟨hnone, rfl⟩ := value_error hsource
  exact .cell hsplit (hbefore.imp fun _ _ => value_ok_iff.mp) hnone

theorem run_of_values_error {f : Fault} (h : values sources row = .error f) :
    run e sources (row :: rows) = ⟨[], [], some f⟩ := by
  rw [run, h]

theorem run_of_evaluate_error {f : FuzzyInference.Fault Float} (h : values sources row = .ok xs)
    (he : e.evaluate (.ok (readings sources xs)) = (next, .error f)) :
    run e sources (row :: rows) = ⟨[], [(e, readings sources xs)], some (.engine f)⟩ := by
  rw [run, h]
  dsimp only
  rw [he]

theorem run_of_evaluate {name : Text} {result : Float} (h : values sources row = .ok xs)
    (he : e.evaluate (.ok (readings sources xs)) = (next, .ok (name, result))) :
    run e sources (row :: rows) = ⟨resultLine xs result :: (run next sources rows).lines,
      (e, readings sources xs) :: (run next sources rows).visits,
      (run next sources rows).fault⟩ := by
  rw [run, h]
  dsimp only
  rw [he]

end

/-- **What a batch does**: the lines are those of the records up to the first one that has none, and
the fault is why it has none. -/
theorem run_evaluates (sources : Sources) (rows : List (List Text × Nat)) (e : Engine Float) :
    ∃ k last, k ≤ rows.length ∧
      Evaluates sources e (rows.take k) (run e sources rows).lines last ∧
      (k = rows.length ∧ (run e sources rows).fault = none ∨
        ∃ row f, rows[k]? = some row ∧ Refuses sources last row f ∧
          (run e sources rows).fault = some f) := by
  induction rows generalizing e with
  | nil => exact ⟨0, e, Nat.zero_le _, .nil e, Or.inl ⟨rfl, rfl⟩⟩
  | cons row rows ih =>
    cases hvalues : values sources row with
    | error f =>
      rw [run_of_values_error hvalues]
      exact ⟨0, e, Nat.zero_le _, .nil e,
        Or.inr ⟨row, f, rfl, refuses_of_values_error hvalues, rfl⟩⟩
    | ok xs =>
      have hnumbers : HasNumbers row.1 sources xs := values_ok_iff.mp hvalues
      obtain ⟨next, hresult⟩ : ∃ next, (e.evaluate (.ok (readings sources xs))).1 = next := ⟨_, rfl⟩
      cases heval : (e.evaluate (.ok (readings sources xs))).2 with
      | error f =>
        have he : e.evaluate (.ok (readings sources xs)) = (next, .error f) :=
          Prod.ext hresult heval
        rw [run_of_evaluate_error hvalues he]
        exact ⟨0, e, Nat.zero_le _, .nil e,
          Or.inr ⟨row, _, rfl, .engine hnumbers he, rfl⟩⟩
      | ok named =>
        have he : e.evaluate (.ok (readings sources xs)) = (next, .ok (named.1, named.2)) :=
          Prod.ext hresult heval
        obtain ⟨k, last, hk, hlines, hends⟩ := ih next
        rw [run_of_evaluate hvalues he]
        refine ⟨k + 1, last, Nat.succ_le_succ hk, .cons hnumbers he hlines, ?_⟩
        rcases hends with ⟨rfl, hfault⟩ | ⟨row', f, hrow', hrefuses, hfault⟩
        · exact Or.inl ⟨rfl, hfault⟩
        · exact Or.inr ⟨row', f, hrow', hrefuses, hfault⟩

end Batch

end FuzzyInference
