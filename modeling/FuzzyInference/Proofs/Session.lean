import FuzzyInference.Proofs.SymbolTable.Frozen
import FuzzyInference.Session

/-!
# What a session does to its table

Whatever is done in a session, by whatever handle, changes its table in at most one of the ways in which
a table can change. So what is known of tables that change is known of the table of a session.

* `Session.Step`, `Session.step`, `Session.run`: what can be done in a session, and what becomes of it;
* `Session.change?`, `Session.changes`: what a step, and what several steps, do to the table;
  `table_step`, `table_run`: that this is all;
* `table_of_frozen`: **what becomes of a frozen table** in a session;
* `frozenOne_gains_term`: a term that comes after the freeze, and a rule that it puts in order.
-/

namespace FuzzyInference.Session

variable {α : Type} [Scalar α]

/-! ### Steps -/

/-- What can be done in a session. A table can also be changed from outside: it can be frozen, be given
variables that no handle is known for, and its variables can be changed by whoever finds them in it. -/
inductive Step (α : Type) where
  | declare (handle name usage : Text) (register : Bool)
  | register (handle : Text)
  | addTerm (handle label : Text) (f : Membership α)
  | setValue (handle : Text) (x : α)
  | change (c : SymbolTable.Change α)
  | makeRule (handle text : Text) (attached : Bool)
  | parse (handle : Text) (withTable : Bool)
  | addRule (handle : Text)
  | parseAll (withTable : Bool) (workers : Option Int)

/-- The session behind a step; a step that is refused, or whose handle is not known, does nothing. -/
def step (s : Session α) : Step α → Session α
  | .declare handle name usage register =>
    match s.declare handle name usage register with
    | .ok (s, _) => s
    | .error _ => s
  | .register handle =>
    match s.variableAt? handle with
    | none => s
    | some v =>
      match s.register handle v with
      | .ok (s, _) => s
      | .error _ => s
  | .addTerm handle label f =>
    match s.variableAt? handle with
    | none => s
    | some v =>
      match v.addTerm label f with
      | .ok v => s.changeVariable handle v
      | .error _ => s
  | .setValue handle x =>
    match s.variableAt? handle with
    | none => s
    | some v => s.changeVariable handle { v with value := x }
  | .change c => { s with table := s.table.apply c }
  | .makeRule handle text attached => (s.makeRule handle text attached).1
  | .parse handle withTable =>
    match s.rule? handle with
    | none => s
    | some (n, r) => s.changeRule n (r.parse (s.vocabulary? withTable))
  | .addRule handle =>
    match s.rule? handle with
    | none => s
    | some (n, r) => (s.addRule n r).1
  | .parseAll withTable workers =>
    match s.parseAll withTable workers with
    | .ok s => s
    | .error _ => s

/-- The session behind several steps. -/
def run (s : Session α) (steps : List (Step α)) : Session α := steps.foldl step s

/-! ### Steps as changes of the table -/

/-- The name under which the variable of a handle is registered. -/
def registeredName? (s : Session α) (handle : Text) : Option Text :=
  match s.holdings.lookup handle with
  | some (.registered name) => some name
  | _ => none

/-- What a step does to the table, or tries to do. -/
def change? (s : Session α) : Step α → Option (SymbolTable.Change α)
  | .declare _ name usage register =>
    if register then (Variable.make (α := α) name usage).toOption.map .register else none
  | .register handle => (s.variableAt? handle).map .register
  | .addTerm handle label f => (s.registeredName? handle).map (.addTerm · label f)
  | .setValue handle x => (s.registeredName? handle).map (.setValue · x)
  | .change c => some c
  | .makeRule _ _ _ => none
  | .parse _ _ => none
  | .addRule _ => none
  | .parseAll _ _ => none

/-- What several steps do to the table. -/
def changes (s : Session α) : List (Step α) → List (SymbolTable.Change α)
  | [] => []
  | a :: steps => (s.change? a).toList ++ changes (s.step a) steps

theorem changes_cons (s : Session α) (a : Step α) (steps : List (Step α)) :
    s.changes (a :: steps) = (s.change? a).toList ++ (s.step a).changes steps := rfl

/-- A variable that is made and registered at once. -/
theorem table_declare (s : Session α) (handle name usage : Text) (register : Bool) :
    (s.step (.declare handle name usage register)).table =
      s.table.run (s.change? (.declare handle name usage register)).toList := by
  rw [step, change?]
  unfold declare
  cases Variable.make (α := α) name usage with
  | error e => cases register <;> rfl
  | ok v =>
    cases register with
    | false => rfl
    | true =>
      show _ = s.table.apply (.register v)
      unfold SymbolTable.insert
      rcases s.table.register_cases v with ⟨e, h, happly⟩ | ⟨h, happly⟩ | ⟨t', h, happly⟩
      · simp [h, happly]
      · simp [h, happly]
      · simp [h, happly, hold]

/-- A variable that is registered later. -/
theorem table_register (s : Session α) (handle : Text) :
    (s.step (.register handle)).table =
      s.table.run (s.change? (.register handle)).toList := by
  rw [step, change?]
  unfold register
  cases s.variableAt? handle with
  | none => rfl
  | some v =>
    show _ = s.table.apply (.register v)
    rcases s.table.register_cases v with ⟨e, h, happly⟩ | ⟨h, happly⟩ | ⟨t', h, happly⟩
    · simp [h, happly]
    · simp [h, happly]
    · simp [h, happly, hold]

/-- What a handle stands for. -/
theorem variableAt?_cases {α : Type} (s : Session α) (handle : Text) :
    s.variableAt? handle = none ∧ s.registeredName? handle = none ∨
    (∃ v, s.variableAt? handle = some v ∧ s.registeredName? handle = none ∧
      ∀ v', (s.changeVariable handle v').table = s.table) ∨
    ∃ name, s.variableAt? handle = s.table.find? name ∧ s.registeredName? handle = some name ∧
      ∀ v', (s.changeVariable handle v').table = s.table.modify name fun _ => v' := by
  unfold variableAt? registeredName? changeVariable
  rcases s.holdings.lookup handle with _ | ⟨v⟩ | ⟨name⟩
  · exact Or.inl ⟨rfl, rfl⟩
  · exact Or.inr (Or.inl ⟨v, rfl, rfl, fun _ => rfl⟩)
  · exact Or.inr (Or.inr ⟨name, rfl, rfl, fun _ => rfl⟩)

/-- A term for the variable of a handle. -/
theorem table_addTerm (s : Session α) (handle label : Text) (f : Membership α) :
    (s.step (.addTerm handle label f)).table =
      s.table.run (s.change? (.addTerm handle label f)).toList := by
  rw [step, change?]
  rcases s.variableAt?_cases handle with ⟨hv, hn⟩ | ⟨v, hv, hn, hkeeps⟩ | ⟨name, hv, hn, hchange⟩
  · rw [hv, hn]
    rfl
  · rw [hv, hn]
    dsimp only
    cases v.addTerm label f with
    | error e => rfl
    | ok v' => exact hkeeps v'
  · rw [hv, hn]
    show _ = s.table.apply (.addTerm name label f)
    unfold SymbolTable.apply SymbolTable.perform
    dsimp only
    cases s.table.find? name with
    | none => rfl
    | some v =>
      dsimp only
      cases v.addTerm label f with
      | error e => rfl
      | ok v' => exact hchange v'

/-- A value for the variable of a handle. -/
theorem table_setValue (s : Session α) (handle : Text) (x : α) :
    (s.step (.setValue handle x)).table =
      s.table.run (s.change? (.setValue handle x)).toList := by
  rw [step, change?]
  rcases s.variableAt?_cases handle with ⟨hv, hn⟩ | ⟨v, hv, hn, hkeeps⟩ | ⟨name, hv, hn, hchange⟩
  · rw [hv, hn]
    rfl
  · rw [hv, hn]
    exact hkeeps _
  · rw [hv, hn]
    show _ = s.table.apply (.setValue name x)
    rw [SymbolTable.apply_setValue]
    cases hfound : s.table.find? name with
    | none => rw [SymbolTable.modify_of_find?_none hfound]
    | some v =>
      refine (hchange _).trans (SymbolTable.modify_congr fun u hu => ?_)
      obtain rfl := Option.some.inj (hfound.symm.trans hu)
      rfl

/-- The reading of rules leaves the table alone. -/
theorem table_parseAll (s : Session α) (withTable : Bool) (workers : Option Int) :
    (s.step (.parseAll withTable workers)).table = s.table := by
  have hrules : ∀ {f : Session α → Nat × Rule → Session α}, (∀ s p, (f s p).table = s.table) →
      ∀ (xs : List (Nat × Rule)) (s : Session α), (xs.foldl f s).table = s.table := by
    intro f hf xs
    induction xs with
    | nil => exact fun _ => rfl
    | cons p xs ih => exact fun s => (ih (f s p)).trans (hf s p)
  rw [step, parseAll]
  cases s.ruleSet.parse (if withTable = true then some s.table else none) workers with
  | error e => rfl
  | ok set =>
    dsimp only
    refine hrules ?_ _ s
    rintro s ⟨n, r⟩
    rfl

/-- **A step changes the table** in at most one of the ways in which a table can change. -/
theorem table_step (s : Session α) (a : Step α) :
    (s.step a).table = s.table.run (s.change? a).toList := by
  cases a with
  | declare handle name usage register => exact s.table_declare handle name usage register
  | register handle => exact s.table_register handle
  | addTerm handle label f => exact s.table_addTerm handle label f
  | setValue handle x => exact s.table_setValue handle x
  | change c => rfl
  | makeRule handle text attached => rfl
  | parse handle withTable =>
    rw [step]
    cases s.rule? handle with
    | none => rfl
    | some p => rfl
  | addRule handle =>
    rw [step]
    cases s.rule? handle with
    | none => rfl
    | some p =>
      dsimp only [addRule]
      split_ifs
      · rfl
      · rfl
  | parseAll withTable workers => exact s.table_parseAll withTable workers

/-- **So do several steps.** -/
theorem table_run : ∀ (steps : List (Step α)) (s : Session α),
    (s.run steps).table = s.table.run (s.changes steps)
  | [], _ => rfl
  | a :: steps, s => by
    have hrun : (s.run (a :: steps)).table = ((s.step a).run steps).table := rfl
    have happend : s.table.run (s.changes (a :: steps)) =
        (s.table.run (s.change? a).toList).run ((s.step a).changes steps) := by
      rw [changes_cons]
      exact List.foldl_append
    rw [hrun, happend, table_run steps, table_step]

/-! ### Frozen tables -/

/-- **What becomes of a frozen table** in a session, whatever is done in it:

* it stays frozen, and the names and usages of its variables stay as they are, in order; no name comes
  to stand for a variable, or ceases to;
* a variable has the terms that it had and those that it is given, and no others;
* as long as no variable of the table is given a term, each rule is read as it would have been when the
  table was frozen; and a rule that would have been in order then is always read as it would have
  been. -/
theorem table_of_frozen {s : Session α} (hfrozen : s.table.frozen = true)
    (steps : List (Step α)) :
    let t := (s.run steps).table
    t.frozen = true ∧ t.roster = s.table.roster ∧
    (∀ n, t.hasVariable n = s.table.hasVariable n) ∧
    (∀ n a, t.hasTerm n a = true ↔ s.table.hasTerm n a = true ∨
      s.table.hasVariable n = true ∧ ∃ c ∈ s.changes steps, c.Adds n a) ∧
    ((∀ c ∈ s.changes steps, ∀ n a, s.table.hasVariable n = true → ¬ c.Adds n a) →
      ∀ r : Rule, r.parse (some t.vocabulary) = r.parse (some s.table.vocabulary)) ∧
    ∀ text attached,
      ((Rule.ofText text attached).parse (some s.table.vocabulary)).status = .done →
        (Rule.ofText text attached).parse (some t.vocabulary) =
          (Rule.ofText text attached).parse (some s.table.vocabulary) := by
  intro t
  have hrun : t = s.table.run (s.changes steps) := table_run steps s
  clear_value t
  subst hrun
  obtain ⟨hstays, hroster, hterms⟩ := SymbolTable.run_of_frozen (s.changes steps) hfrozen
  refine ⟨hstays, hroster, SymbolTable.hasVariable_of_roster hroster, hterms, fun hadds r => ?_,
    fun text attached h => Rule.parse_run_of_done h _⟩
  rw [SymbolTable.vocabulary_run_of_frozen hfrozen hadds]

/-- A session whose table is frozen with one variable, which has one term. -/
def frozenOne : Session Float :=
  empty.run [.declare "x" "x" "input" true, .addTerm "x" "a" ⟨0, 1, 2, 3, 1⟩, .change .freeze]

/-- A second variable, a value, and a second term: the first is refused, the last is there. -/
theorem frozenOne_gains_no_variable :
    let t := (frozenOne.run [.declare "y" "y" "input" true, .setValue "x" 2,
      .addTerm "x" "b" ⟨1, 2, 3, 4, 1⟩]).table
    t.frozen = true ∧ t.roster = [(("x" : Text), Usage.input)] ∧
      (Rule.ofText "if x is a then x is a" true).parse (some t.vocabulary) =
        (Rule.ofText "if x is a then x is a" true).parse (some frozenOne.table.vocabulary) := by
  have hfrozen : frozenOne.table.frozen = true := by decide +kernel
  have hdone : ((Rule.ofText "if x is a then x is a" true).parse
      (some frozenOne.table.vocabulary)).status = .done := by decide +kernel
  have hvariables : frozenOne.table.roster = [(("x" : Text), Usage.input)] := by decide +kernel
  obtain ⟨hstays, hroster, -, -, -, hparse⟩ := table_of_frozen hfrozen
    [.declare "y" "y" "input" true, .setValue "x" 2, .addTerm "x" "b" ⟨1, 2, 3, 4, 1⟩]
  exact ⟨hstays, hroster.trans hvariables, hparse _ _ hdone⟩

/-- **A term that comes after the freeze** is there, and a rule that was in error is in order. -/
theorem frozenOne_gains_term :
    let late := frozenOne.run [.addTerm "x" "b" ⟨1, 2, 3, 4, 1⟩]
    let rule := Rule.ofText "if x is b then x is a" true
    frozenOne.table.frozen = true ∧ frozenOne.table.hasTerm "x" "b" = false ∧
      late.table.hasTerm "x" "b" = true ∧
      (rule.parse (some frozenOne.table.vocabulary)).status = .erroneous ∧
      (rule.parse (some late.table.vocabulary)).status = .done := by
  refine ⟨?_, ?_, ?_, ?_, ?_⟩ <;> decide +kernel

end FuzzyInference.Session
