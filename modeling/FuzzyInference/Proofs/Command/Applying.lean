import FuzzyInference.Command.Action
import FuzzyInference.Proofs.Batch.Rows
import FuzzyInference.Proofs.Model.Document

/-!
# Tables that are evaluated

`apply` writes a line for each record of a table, behind a first line with the names, and keeps what
it has written where a record has no result.

* `Outlet.takes_iff`: what can be printed;
* `Gives`, `Tells`: steps of a command that succeed and leave a console as it is, but for what is told;
* `Job`: what the settings name, up to the columns of the variables;
* `apply_writes`: **what is written**, and how the command ends;
* `unwritten`: nothing is, where there is no engine, or where the first line can be neither kept nor
  printed; and the command fails where the path of its file cannot be printed.
-/

namespace FuzzyInference

open FuzzyInference.Document

theorem Directory.put_put (names : List Text) (text text' : String) :
    ∀ files : List (List Text × String), put names text' (put names text files) = put names text' files
  | [] => if_pos rfl
  | f :: rest => by
    by_cases hf : f.1 = names
    · rw [put, if_pos hf, put, if_pos rfl, put, if_pos hf]
    · rw [put, if_neg hf, put, if_neg hf, put_put names text text' rest, put, if_neg hf]

/-- What is stored last under some names, is there. -/
theorem Directory.store_store (d : Directory) (names : List Text) (text text' : String) :
    (d.store names text).store names text' = d.store names text' :=
  congrArg (fun files => { d with files }) (put_put names text text' d.files)

namespace Outlet

variable {outlet : Outlet} {s t : Text}

/-- **What can be printed:** a buffer takes every text, a stream those without halves. -/
theorem takes_iff : outlet.takes t = true ↔ (∃ b, outlet = .buffer b) ∨ t.IsWhole := by
  cases outlet with
  | buffer b => exact iff_of_true rfl (Or.inl ⟨b, rfl⟩)
  | stream b =>
    rw [← Text.exists_string?_iff]
    show t.string?.isSome = true ↔ _
    rw [Option.isSome_iff_exists]
    constructor
    · exact Or.inr
    · rintro (⟨b, hb⟩ | h)
      · cases hb
      · exact h

theorem takes_append (hs : outlet.takes s = true) (ht : outlet.takes t = true) :
    outlet.takes (s ++ t) = true := by
  rw [takes_iff] at hs ht ⊢
  rcases hs with hs | hs
  · exact Or.inl hs
  · exact ht.imp_right hs.append

theorem takes_ofString (s : String) : outlet.takes (.ofString s) = true :=
  takes_iff.mpr (Or.inr (Text.isWhole_ofString s))

end Outlet

namespace Command

/-! ### Steps that succeed -/

section
variable {β γ : Type} {x : Command β} {c c' : Console} {y : β}

/-- The step gives a result on any console and leaves the console as it is. -/
def Gives (x : Command β) (y : β) : Prop := ∀ c, x.run.run c = (.ok y, c)

/-- The step gives a result on any console and changes nothing but what is told. -/
def Tells (x : Command β) (y : β) : Prop := ∀ c, ∃ told, x.run.run c = (.ok y, { c with told })

theorem run_bind_of_ok (h : x.run.run c = (.ok y, c')) (k : β → Command γ) :
    (x >>= k).run.run c = (k y).run.run c' := by
  rw [ExceptT.run_bind, StateT.run_bind, h]
  rfl

theorem tells_note (records : List Record) : Tells (note records) () := fun _ => ⟨_, rfl⟩

/-- Steps that only tell something, for one item after the other. -/
theorem tells_forIn {δ : Type} {f : δ → PUnit → Command (ForInStep PUnit)}
    (h : ∀ x, Tells (f x ⟨⟩) (.yield ⟨⟩)) (xs : List δ) : Tells (forIn xs PUnit.unit f) ⟨⟩ := by
  induction xs with
  | nil => exact fun c => ⟨c.told, rfl⟩
  | cons x xs ih =>
    intro c
    obtain ⟨told, htold⟩ := h x c
    obtain ⟨told', htold'⟩ := ih { c with told }
    refine ⟨told', ?_⟩
    rw [List.forIn_cons, run_bind_of_ok htold]
    exact htold'

end

theorem run_write {names : List Text} {text : Text} {s : String} (h : text.string? = some s)
    (c : Console) : (write names text).run.run c =
      (.ok (), { c with directory := c.directory.store names s }) := by
  unfold write
  rw [h]
  rfl

theorem run_print {text : Text} {c : Console} (h : c.outlet.takes text = true) :
    (print text).run.run c = (.ok (), { c with printed := c.printed ++ text }) := by
  unfold print
  show (if (!c.outlet.takes text) = true then _ else _ : Command Unit).run.run c = _
  rw [h]
  rfl

theorem run_printLine {line : Text} {c : Console} (h : c.outlet.takes line = true) :
    (printLines [line]).run.run c = (.ok (), { c with printed := c.printed ++ (line ++ "\n") }) :=
  run_bind_of_ok (run_print (Outlet.takes_append h (Outlet.takes_ofString _))) _

/-! ### What settings name -/

/-- Where results go to: they are printed, or a file holds them, given by its path and names. -/
inductive Target (s : Settings) (d : Directory) : Option (Text × List Text) → Prop
  | printed (unset : ((s.get? "out").getD .null).isTruthy = false) : Target s d none
  | file {path : Text} {names : List Text} (set : s.get? "out" = some (.text path))
      (given : path.isEmpty = false) (writable : d.writable path = .ok names) :
      Target s d (some (path, names))

/-- The directory when the file that results go to has been emptied. -/
def emptied (d : Directory) : Option (Text × List Text) → Directory
  | none => d
  | some (_, names) => d.store names ""

/-- The text is where results go to, and behind what was printed before. -/
def Written (target : Option (Text × List Text)) (c c' : Console) (text : Text) : Prop :=
  (target = none → c'.printed = c.printed ++ text ∧ c'.directory = c.directory) ∧
    ∀ path names, target = some (path, names) →
      ∃ w, text.string? = some w ∧ c'.directory = c.directory.store names w

/-- What is written to a file that was emptied before replaces what it held. -/
theorem Written.of_emptied {target : Option (Text × List Text)} {c c' : Console} {text told : Text}
    (h : Written target { c with told, directory := emptied c.directory target } c' text)
    {printed : Text} (hprinted : target = none → printed = c'.printed) :
    Written target c { c' with printed } text := by
  refine ⟨fun htarget => ?_, fun path names htarget => ?_⟩
  · obtain ⟨hall, hdirectory⟩ := h.1 htarget
    rw [htarget] at hdirectory
    exact ⟨(hprinted htarget).trans hall, hdirectory⟩
  · obtain ⟨w, hw, hdirectory⟩ := h.2 path names htarget
    rw [htarget] at hdirectory
    exact ⟨w, hw, hdirectory.trans (Directory.store_store _ _ _ _)⟩

/-- A model, a table whose file has a first record, and the columns of the variables. -/
structure Job (s : Settings) (d : Directory) where
  modelPath : Text
  model : Model Float
  columns : List (Value × Value)
  target : Option (Text × List Text)
  path : Text
  text : String
  first : List Text
  rest : List (List Text)
  isCut : Bool
  table : Table
  sources : Batch.Sources
  named : s.get? "model" = some (.text modelPath)
  loads : Model.load d modelPath = .ok model
  said : Gives (Command.columns s) (some columns)
  leads : Target s d target
  file : s.get? "csv" = some (.text path)
  reads : (emptied d target).read path = .ok text
  records : Csv.readable text = (first :: rest, isCut)
  hasTable : Table.ofRecords? isCut (first :: rest) = some table
  resolves : Batch.resolve table columns (model.inputs.map (·.name)) = .ok sources

namespace Job

variable {s : Settings} {d : Directory} (job : Job s d)

/-- The records that count, with their numbers in the file. -/
def rows : List (List Text × Nat) := Table.numbered job.first job.rest

/-- The first line: the variables and the output. -/
def header : Text :=
  Csv.line (job.sources.map (Batch.label ·.1) ++ [job.model.outputName?.getD ""])

/-- If steps are set, there is one at least; and the first line can go where results go, and the path
of a file that holds them can be printed. -/
structure Ready (outlet : Outlet) : Prop where
  steps : ∀ v, s.get? "steps" = some v → v = .null ∨ ∃ i, v.toInteger = .ok i ∧ 1 ≤ i
  names : ∀ source ∈ job.sources, source.1.isWritable = true
  printed : job.target = none → outlet.takes job.header = true
  kept : ∀ path names, job.target = some (path, names) →
    job.header.IsWhole ∧ outlet.takes path = true

end Job

/-! ### The parts of the command -/

section
variable {s : Settings} {c : Console}

theorem tells_loadModel {path : Text} {m : Model Float} (hs : s.get? "model" = some (.text path))
    (h : Model.load c.directory path = .ok m) :
    ∃ told, (loadModel s).run.run c = (.ok m, { c with told }) := by
  refine ⟨((note [Journal.debug ("Loading model from " ++ path)]).run.run c).2.told, ?_⟩
  unfold loadModel setting
  rw [hs]
  show (require Stop.load (Model.load c.directory path)).run.run _ = _
  rw [h]
  rfl

theorem storable_of_load {d : Directory} {path : Text} {m : Model Float}
    (h : Model.load d path = .ok m) : m.Storable := by
  unfold Model.load at h
  dsimp only at h
  split_ifs at h
  · cases hread : d.read path with
    | error f =>
      rw [hread] at h
      cases h
    | ok text =>
      rw [hread] at h
      exact Model.storable_of_read (ok_of_mapError h)
  · cases hread : loadDocument d "model document" path with
    | error f =>
      rw [hread] at h
      cases h
    | ok v =>
      rw [hread] at h
      exact Model.storable_of_ofDocument (ok_of_mapError h)

theorem gives_require {β ε : Type} {stop : ε → Stop} {r : Except ε β} {x : β} (h : r = .ok x) :
    Gives (require stop r) x := by
  rw [h]
  exact fun _ => rfl

/-- Steps that are positive make an engine. -/
theorem gives_engine {m : Model Float} {steps : Option Int} (h : ¬ steps.getD m.steps < 1) :
    Gives (do
      if steps.getD m.steps < 1 then
        discard (requireText (Decimal.writeInteger (steps.getD m.steps)))
      require .engine (Engine.make m steps none)) ⟨m, steps.getD m.steps, none, none⟩ := by
  rw [if_neg h]
  exact gives_require (if_neg h)

theorem gives_makeEngine {m : Model Float} (hm : 1 ≤ m.steps)
    (hs : ∀ v, s.get? "steps" = some v → v = .null ∨ ∃ i, v.toInteger = .ok i ∧ 1 ≤ i) :
    ∃ e, Gives (makeEngine m s) e := by
  have hdefault : ¬ (none : Option Int).getD m.steps < 1 := not_lt.mpr hm
  unfold makeEngine
  cases hget : s.get? "steps" with
  | none => exact ⟨_, fun c => (run_bind_of_ok rfl _).trans (gives_engine hdefault c)⟩
  | some v =>
    rcases hs v hget with rfl | ⟨i, hi, hpos⟩
    · exact ⟨_, fun c => (run_bind_of_ok rfl _).trans (gives_engine hdefault c)⟩
    · have hgiven : ¬ (some i).getD m.steps < 1 := not_lt.mpr hpos
      cases v with
      | null => cases hi
      | _ =>
        dsimp only
        rw [hi]
        exact ⟨_, fun c => (run_bind_of_ok rfl _).trans (gives_engine hgiven c)⟩

theorem run_target {target : Option (Text × List Text)} (h : Target s c.directory target) :
    (Command.target s).run.run c =
      (.ok target, { c with directory := emptied c.directory target }) := by
  unfold Command.target
  dsimp only
  cases h with
  | printed unset =>
    rw [unset]
    rfl
  | @file path names set given writable =>
    have htruthy : ((s.get? "out").getD .null).isTruthy = true := by
      rw [set]
      show (!path.isEmpty) = true
      rw [given]
      rfl
    rw [htruthy, set]
    show ((require Stop.file (c.directory.writable path)) >>= _).run.run c = _
    rw [writable]
    rfl

theorem run_readTable {path : Text} {text : String} {first : List Text} {rest : List (List Text)}
    {isCut : Bool} {t : Table} (hread : c.directory.read path = .ok text)
    (hrecords : Csv.readable text = (first :: rest, isCut))
    (ht : Table.ofRecords? isCut (first :: rest) = some t) :
    (readTable path).run.run c = (.ok t, c) := by
  unfold readTable
  show ((require Stop.file (c.directory.read path)) >>= _).run.run c = _
  refine (run_bind_of_ok (gives_require hread c) _).trans ?_
  rw [hrecords]
  dsimp only
  rw [ht]
  rfl

theorem headerLine_of_ready {d : Directory} {job : Job s d} {outlet : Outlet}
    (h : job.Ready outlet) :
    Batch.headerLine job.sources job.model.outputName? = .ok job.header :=
  if_pos (List.all_eq_true.mpr h.names)

/-- How the command ends after a batch. -/
def ending (outcome : Batch.Outcome) (isCut : Bool) : Except Stop Nat :=
  match outcome.fault with
  | some f => .error (.batch f)
  | none => if isCut then .error .fieldTooLong else .ok 0

theorem tells_visits (visits : List (Engine Float × Readings Float)) :
    Tells (forIn visits PUnit.unit fun x _ => do
      noteAction x.1 fun _ => Journal.evaluate x.1 (.ok x.2)
      pure (ForInStep.yield PUnit.unit)) ⟨⟩ :=
  tells_forIn (fun _ _ => ⟨_, rfl⟩) visits

section
variable {target : Option (Text × List Text)} {header : Text} {outcome : Batch.Outcome}

/-- The lines of a batch are put where results go, if the first line can be. -/
theorem run_deliver (hlines : (Text.concat outcome.lines).IsWhole)
    (hprinted : target = none → c.outlet.takes header = true)
    (hkept : ∀ path names, target = some (path, names) → header.IsWhole) :
    ∃ c', (deliver target header outcome).run.run c = (.ok (), c') ∧ c'.outlet = c.outlet ∧
      Written target c c' (header ++ Text.concat outcome.lines) := by
  unfold deliver
  cases target with
  | none =>
    let c₁ : Console := { c with printed := c.printed ++ header }
    have hhead : (print header).run.run c = (.ok (), c₁) := run_print (hprinted rfl)
    obtain ⟨told, hvisits⟩ := tells_visits outcome.visits c₁
    refine ⟨_, (run_bind_of_ok hhead _).trans ((run_bind_of_ok hvisits _).trans (run_print ?_)),
      rfl, fun _ => ⟨?_, rfl⟩, fun path names h => by cases h⟩
    · exact Outlet.takes_iff.mpr (Or.inr hlines)
    · exact congrArg Text.mk (List.append_assoc _ _ _)
  | some place =>
    obtain ⟨path, names⟩ := place
    have hheader : header.IsWhole := hkept path names rfl
    obtain ⟨head, hhead⟩ := Text.exists_string?_iff.mpr hheader
    obtain ⟨all, hall⟩ := Text.exists_string?_iff.mpr (hheader.append hlines)
    obtain ⟨told, hvisits⟩ := tells_visits outcome.visits
      { c with directory := c.directory.store names head }
    refine ⟨_, (run_bind_of_ok (run_write hhead c) _).trans
      ((run_bind_of_ok hvisits _).trans (run_write hall _)), rfl, ?_, ?_⟩
    · intro h
      cases h
    · rintro _ _ ⟨⟩
      exact ⟨all, hall, Directory.store_store _ _ _ _⟩

/-- The end of the command tells how many results a file holds, if all records have one. -/
theorem run_finish (isCut : Bool)
    (hpath : ∀ path names, target = some (path, names) → c.outlet.takes path = true) :
    ∃ printed, (finish target outcome isCut).run.run c =
        (ending outcome isCut, { c with printed }) ∧ (target = none → printed = c.printed) := by
  unfold finish ending
  cases outcome.fault with
  | some f => exact ⟨c.printed, rfl, fun _ => rfl⟩
  | none =>
    cases isCut with
    | true => exact ⟨c.printed, rfl, fun _ => rfl⟩
    | false =>
      cases target with
      | none => exact ⟨c.printed, rfl, fun _ => rfl⟩
      | some place =>
        obtain ⟨path, names⟩ := place
        have htaken : c.outlet.takes
            (s!"[apply] {outcome.lines.length} results written to " ++ path) = true :=
          Outlet.takes_append (Outlet.takes_ofString _) (hpath path names rfl)
        exact ⟨_, run_bind_of_ok (run_printLine htaken) _, fun h => by cases h⟩

end

theorem run_apply (job : Job s c.directory) (hready : job.Ready c.outlet) {e : Engine Float}
    (he : Gives (makeEngine job.model s) e) :
    ∃ c', (apply s).run.run c =
        (ending (Batch.run e job.sources job.table.rows) job.table.isCut, c') ∧
      Written job.target c c' (job.header ++
        Text.concat (Batch.run e job.sources job.table.rows).lines) := by
  obtain ⟨told₁, hloads⟩ := tells_loadModel job.named job.loads
  have hleads := run_target (c := { c with told := told₁ }) job.leads
  have hcsv : Gives (setting s "csv") (.text job.path) := by
    unfold setting
    rw [job.file]
    exact fun _ => rfl
  have hreads := run_readTable
    (c := { c with told := told₁, directory := emptied c.directory job.target })
    job.reads job.records job.hasTable
  have hpath : Gives (pathOf "csv" (.text job.path)) job.path := fun _ => rfl
  have hheader := headerLine_of_ready hready
  obtain ⟨told₂, hnote⟩ := tells_note (Batch.columnRecords job.table job.sources)
    { c with told := told₁, directory := emptied c.directory job.target }
  have hlines : (Text.concat (Batch.run e job.sources job.table.rows).lines).IsWhole := by
    obtain ⟨k, last, -, hevaluates, -⟩ := Batch.run_evaluates job.sources job.table.rows e
    exact Text.isWhole_concat hevaluates.isWhole
  obtain ⟨c', hdeliver, houtlet, hwritten⟩ := run_deliver
    (c := { c with told := told₂, directory := emptied c.directory job.target }) hlines
    hready.printed fun path names h => (hready.kept path names h).1
  obtain ⟨printed, hfinish, hprinted⟩ := run_finish (c := c') job.table.isCut fun path names h => by
    rw [houtlet]
    exact (hready.kept path names h).2
  unfold apply
  rw [run_bind_of_ok hloads, run_bind_of_ok (he _), run_bind_of_ok (job.said _),
    run_bind_of_ok hleads, run_bind_of_ok (hcsv _), run_bind_of_ok (hpath _),
    run_bind_of_ok hreads]
  dsimp only
  rw [run_bind_of_ok (gives_require job.resolves _), run_bind_of_ok hnote,
    run_bind_of_ok (gives_require hheader _), run_bind_of_ok hdeliver]
  exact ⟨_, hfinish, hwritten.of_emptied hprinted⟩

/-- **What the command writes, and how it ends.** The first line is written, and behind it one line
for each record with fields, in the order of the file and without the header, up to the first record
in which a value is missing or no number, or for which the engine fails. Without such a record the
command ends well, unless a field is too long to read on; otherwise it fails, and tells the number of
a record with a value that is none. -/
theorem apply_writes (job : Job s c.directory) (hready : job.Ready c.outlet) :
    ∃ e k last lines c', Gives (makeEngine job.model s) e ∧ k ≤ job.rows.length ∧
      Batch.Evaluates job.sources e (job.rows.take k) lines last ∧ lines.length = k ∧
      Written job.target c c' (job.header ++ Text.concat lines) ∧
      (k = job.rows.length ∧
          (apply s).run.run c = (if job.isCut then .error .fieldTooLong else .ok 0, c') ∨
        ∃ row f, job.rows[k]? = some row ∧ Batch.Refuses job.sources last row f ∧
          (apply s).run.run c = (.error (.batch f), c') ∧
          ∀ n field name, f = .notNumber n field name →
            n = row.2 ∧ (Stop.batch f).isReported = true ∧ (Stop.batch f).message =
              s!"Row {row.2}: value '" ++ field ++ "' for " ++ name.display ++ " is not a number") := by
  obtain ⟨hrows, hcut⟩ := Table.rows_of_ofRecords? job.hasTable
  obtain ⟨e, he⟩ := gives_makeEngine (storable_of_load job.loads).steps hready.steps
  obtain ⟨c', hrun, hwritten⟩ := run_apply job hready he
  obtain ⟨k, last, hk, hlines, hends⟩ := Batch.run_evaluates job.sources job.table.rows e
  rw [hrows] at hrun hwritten hk hlines hends
  have hlength := hlines.length_eq
  rw [List.length_take, min_eq_left hk] at hlength
  refine ⟨e, k, last, _, c', he, hk, hlines, hlength, hwritten, ?_⟩
  unfold ending at hrun
  rcases hends with ⟨hall, hfault⟩ | ⟨row, f, hrow, hrefuses, hfault⟩
  · rw [hfault, hcut] at hrun
    exact Or.inl ⟨hall, hrun⟩
  · rw [hfault] at hrun
    refine Or.inr ⟨row, f, hrow, hrefuses, hrun, ?_⟩
    intro n field name hf
    cases hrefuses with
    | cell split numbers none =>
      cases hf
      exact ⟨rfl, rfl, rfl⟩
    | engine numbers fails => cases hf

end

/-! ### Tables with one column -/

/-- A model with one input, and a table with a header of one column. -/
theorem exists_job {s : Settings} {d : Directory} {path csv : Text} (input : Text)
    (output : Option Text) (target : Option (Text × List Text)) (table : String)
    (first : List Text) (rest : List (List Text)) (named : s.get? "model" = some (.text path))
    (loads : ((Model.load d path).toOption.map fun m => (m.inputs.map (·.name), m.outputName?)) =
      some ([input], output))
    (unsaid : (s.get? "map").getD .null = .null) (leads : Target s d target)
    (file : s.get? "csv" = some (.text csv)) (reads : (emptied d target).read csv = .ok table)
    (records : Csv.readable table = (first :: rest, false))
    (hasTable : Table.ofRecords? false (first :: rest) = some ⟨true, first, rest, false⟩)
    (resolves : Batch.resolve ⟨true, first, rest, false⟩ [] [input] = .ok [(.text input, 0)]) :
    ∃ job : Job s d, job.target = target ∧ job.sources = [(.text input, 0)] ∧
      job.rows = Table.numbered first rest ∧ job.header = Csv.line [input, output.getD ""] := by
  obtain ⟨m, hm, hnames⟩ := Option.map_eq_some_iff.mp loads
  obtain ⟨hinputs, houtput⟩ := Prod.mk.inj hnames
  have said : Gives (Command.columns s) (some []) := by
    unfold Command.columns
    rw [unsaid]
    exact fun _ => rfl
  rw [← hinputs] at resolves
  refine ⟨{
    modelPath := path, model := m, columns := [], target, path := csv, text := table, first, rest,
    isCut := false, table := ⟨true, first, rest, false⟩, sources := [(.text input, 0)], named,
    loads := ok_of_toOption hm, said, leads, file, reads, records, hasTable, resolves },
    rfl, rfl, rfl, ?_⟩
  show Csv.line ([Batch.label (.text input)] ++ [m.outputName?.getD ""]) = _
  rw [houtput]
  rfl

/-- A model without rules, and a table. -/
def sample (table : String) : Directory := .ofFiles []
  [("m.fz", "model m\nvar input x\nvar output y\n"), ("t.csv", table)]

/-- The table is to be evaluated, with these settings besides. -/
def sampleSettings (more : Settings) : Settings :=
  ("model", .text "m.fz") :: ("csv", .text "t.csv") :: more

/-- The first line is printed, and the record is told of. -/
theorem header_before_bad_cell : ∃ (s : Settings) (c : Console) (job : Job s c.directory),
    c.outlet = .stream false ∧ job.Ready c.outlet ∧ ∃ c', (apply s).run.run c =
        (.error (.batch (.notNumber 2 "fast" (.text "x"))), c') ∧ c'.printed = "x,y\r\n" := by
  let c : Console := ⟨sample "x\nfast\n", Text.empty, Text.empty, .warning, .stream false⟩
  obtain ⟨job, htarget, hsources, hrows, hheader⟩ :
      ∃ job : Job (sampleSettings []) c.directory, job.target = none ∧
        job.sources = [(.text "x", 0)] ∧ job.rows = Table.numbered ["x"] [["fast"]] ∧
          job.header = Csv.line ["x", (some ("y" : Text)).getD ""] :=
    exists_job "x" (some "y") none "x\nfast\n" ["x"] [["fast"]] rfl (by decide +kernel) rfl
      (.printed rfl) rfl (by decide +kernel) (by decide +kernel) (by decide +kernel) rfl
  have hnumbered : Table.numbered ["x"] [["fast"]] = [([("fast" : Text)], 2)] := by decide +kernel
  rw [hnumbered] at hrows
  have hready : job.Ready c.outlet := by
    refine ⟨fun v hv => ?_, ?_, fun _ => ?_, fun path names h => ?_⟩
    · cases hv
    · rw [hsources]
      exact List.forall_mem_singleton.mpr rfl
    · rw [hheader]
      decide +kernel
    · rw [htarget] at h
      cases h
  have hnone : ∀ xs, ¬ Batch.HasNumbers ["fast"] [(.text "x", 0)] xs := by
    intro xs h
    cases h with
    | cons hx _ =>
      obtain ⟨cell, hcell, hx⟩ := hx
      cases hcell
      have hnumber : Decimal.readFloat? (Text.trim "fast") = none := by decide +kernel
      rw [hnumber] at hx
      cases hx
  obtain ⟨e, k, last, lines, c', -, hk, hlines, hlength, hwritten, hends⟩ :=
    apply_writes (c := c) job hready
  refine ⟨_, c, job, rfl, hready, c', ?_⟩
  rw [hrows, hsources] at hlines hends
  cases k with
  | zero =>
    have hnil : lines = [] := List.eq_nil_of_length_eq_zero hlength
    have hprinted := (hwritten.1 htarget).1
    rw [hheader, hnil] at hprinted
    rcases hends with ⟨hall, -⟩ | ⟨row, f, hrow, hrefuses, hrun, -⟩
    · cases hall
    · cases hrow
      cases hrefuses with
      | engine numbers _ => exact absurd numbers (hnone _)
      | @cell before behind source xs split _ _ =>
        cases before with
        | nil =>
          cases split
          exact ⟨hrun, hprinted.trans (by decide +kernel)⟩
        | cons b before => cases before <;> cases split
  | succ k =>
    cases hlines with
    | cons numbers _ _ => exact absurd numbers (hnone _)

/-- A model with a half in a name, and a table with a header only. -/
def halved : Directory := .ofFiles []
  [("m.json", "\x7b\"variables\": [\x7b\"usage\": \"input\", \"name\": \"\\ud800\"\x7d]\x7d"),
    ("t.csv", "x\n")]

def halvedSettings (more : Settings) : Settings :=
  ("model", .text "m.json") :: ("csv", .text "t.csv") :: more

/-- The name of its input. -/
def halfName : Text := ⟨[.half 0]⟩

/-- A half that stands for a byte, which is the name of a file. -/
def bytePath : Text := ⟨[.half 0x4ff]⟩

/-- **Nothing is written** where there is no engine, or where the first line has a half, which neither
a file nor a stream can hold: the command fails before any record. It fails behind all of them where
the path of its file cannot be printed. -/
theorem unwritten :
    (∃ (s : Settings) (c : Console) (job : Job s c.directory), job.target = none ∧
      ((apply s).run.run c).1.isOk = false ∧ ((apply s).run.run c).2.printed = c.printed ∧
        job.header.isEmpty = false) ∧
    (∃ (s : Settings) (c : Console) (job : Job s c.directory), job.rows = [] ∧
      ((apply s).run.run c).1.isOk = false ∧
        ((apply s).run.run c).2.directory.file? ["o.csv"] = some "") ∧
    (∃ (s : Settings) (c : Console) (job : Job s c.directory), job.rows = [] ∧
      job.target = none ∧ ((apply s).run.run c).1.isOk = false ∧
        ((apply s).run.run c).2.printed = c.printed) ∧
    ∃ (s : Settings) (c : Console) (job : Job s c.directory), job.rows = [] ∧
      ((apply s).run.run c).1.isOk = false ∧ ∃ names, job.target = some (bytePath, names) ∧
        ((apply s).run.run c).2.directory.file? names = some "x,y\r\n" := by
  refine ⟨?_, ?_, ?_, ?_⟩
  · let c : Console := ⟨sample "x\nfast\n", Text.empty, Text.empty, .warning, .stream false⟩
    obtain ⟨job, htarget, -, -, hheader⟩ :
        ∃ job : Job (sampleSettings [("steps", .int 0)]) c.directory, job.target = none ∧
          job.sources = [(.text "x", 0)] ∧ job.rows = Table.numbered ["x"] [["fast"]] ∧
            job.header = Csv.line ["x", (some ("y" : Text)).getD ""] :=
      exists_job "x" (some "y") none "x\nfast\n" ["x"] [["fast"]] rfl (by decide +kernel) rfl
        (.printed rfl) rfl (by decide +kernel) (by decide +kernel) (by decide +kernel) rfl
    refine ⟨_, c, job, htarget, ?_, ?_, ?_⟩
    · decide +kernel
    · decide +kernel
    · rw [hheader]
      decide +kernel
  · let c : Console := ⟨halved, Text.empty, Text.empty, .warning, .stream false⟩
    obtain ⟨job, -, -, hrows, -⟩ := exists_job (s := halvedSettings [("out", .text "o.csv")])
      (d := c.directory) halfName none (some ("o.csv", ["o.csv"])) "x\n" ["x"] [] rfl
      (by decide +kernel) rfl (.file rfl rfl (by decide +kernel)) rfl (by decide +kernel)
      (by decide +kernel) (by decide +kernel) rfl
    refine ⟨_, c, job, hrows, ?_, ?_⟩ <;> decide +kernel
  · let c : Console := ⟨halved, Text.empty, Text.empty, .warning, .stream false⟩
    obtain ⟨job, htarget, -, hrows, -⟩ := exists_job (s := halvedSettings []) (d := c.directory)
      halfName none none "x\n" ["x"] [] rfl (by decide +kernel) rfl (.printed rfl) rfl
      (by decide +kernel) (by decide +kernel) (by decide +kernel) rfl
    refine ⟨_, c, job, hrows, htarget, ?_, ?_⟩ <;> decide +kernel
  · let c : Console := ⟨sample "x\n", Text.empty, Text.empty, .warning, .stream false⟩
    obtain ⟨job, htarget, -, hrows, -⟩ := exists_job (s := sampleSettings [("out", .text bytePath)])
      (d := c.directory) "x" (some "y") (some (bytePath, [bytePath])) "x\n" ["x"] [] rfl
      (by decide +kernel) rfl (.file rfl rfl (by decide +kernel)) rfl (by decide +kernel)
      (by decide +kernel) (by decide +kernel) rfl
    refine ⟨_, c, job, hrows, ?_, _, htarget, ?_⟩ <;> decide +kernel

end Command

end FuzzyInference
