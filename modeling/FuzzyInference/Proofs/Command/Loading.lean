import FuzzyInference.Command.Line
import FuzzyInference.Proofs.Model.DocumentFault

/-!
# Models that a command cannot load

Each command but `run` begins by loading a model. Where there is none, the fault ends the command.

* `Stops`: a step of a command that stops; `Stops.bind`: so does all that begins with it;
* `Entry.stops`: the commands begin by loading a model;
* `Call.Loads`: a call that names a file with a document;
* `ending_of_document`: **how calls end whose document is no model**, and why it is none.
-/

namespace FuzzyInference.Command

open FuzzyInference.Document FuzzyInference.Model

/-! ### Steps that stop -/

/-- The step stops on the console, for the given cause. -/
def Stops {β : Type} (x : Command β) (c : Console) (stop : Stop) : Prop :=
  ∃ c', x.run.run c = (.error stop, c')

/-- What begins with a step that stops, stops. -/
theorem Stops.bind {β γ : Type} {x : Command β} {c : Console} {stop : Stop} (h : Stops x c stop)
    (k : β → Command γ) : Stops (x >>= k) c stop := by
  obtain ⟨c', hc'⟩ := h
  refine ⟨c', ?_⟩
  rw [ExceptT.run_bind, StateT.run_bind, hc']
  rfl

section
variable {s : Settings} {c : Console} {path : Text} {f : LoadFault}

theorem stops_loadModel (hs : s.get? "model" = some (.text path))
    (h : Model.load c.directory path = .error f) : Stops (loadModel s) c (.load f) := by
  unfold loadModel setting
  rw [hs]
  refine ⟨((note [Journal.debug ("Loading model from " ++ path)]).run.run c).2, ?_⟩
  show (require Stop.load (Model.load c.directory path)).run.run _ = _
  rw [h]
  rfl

/-- **Each command but `run` begins by loading a model.** -/
theorem Entry.stops {e : Entry} (he : e ∈ Entry.all) (hne : e.name ≠ "run")
    (hs : s.get? "model" = some (.text path)) (h : Model.load c.directory path = .error f) :
    Stops (e.action s) c (.load f) := by
  have hbegins : ∃ k : Model Float → Command Nat, e.action s = loadModel s >>= k := by
    simp only [Entry.all, List.mem_cons, List.not_mem_nil, or_false] at he
    rcases he with rfl | rfl | rfl | rfl | rfl | rfl
    · exact ⟨_, rfl⟩
    · exact ⟨_, rfl⟩
    · exact ⟨_, rfl⟩
    · exact ⟨_, rfl⟩
    · exact ⟨_, rfl⟩
    · exact absurd rfl hne
  obtain ⟨k, hk⟩ := hbegins
  rw [hk]
  exact (stops_loadModel hs h).bind k

end

/-- A call whose command stops is told of, or breaks off. -/
theorem Call.run_of_stops {call : Call} {c : Console} {stop : Stop}
    (h : Stops (call.entry.action call.settings) { c with level := call.level } stop) :
    (call.run c).1 = (if stop.isReported then .exit 1 else .broken stop) ∧
      (stop.isReported = true → ∃ told, (call.run c).2.told =
        told ++ "error: " ++ stop.message ++ "\n") := by
  obtain ⟨c', hc'⟩ := h
  unfold Call.run
  rw [hc']
  dsimp only
  split_ifs with hreported
  · exact ⟨rfl, fun _ => ⟨c'.told, rfl⟩⟩
  · exact ⟨rfl, fun h => absurd h hreported⟩

/-! ### Documents -/

/-- The extensions of files that hold documents. -/
def documentExtensions : List Text := [".yml", ".yaml", ".json"]

/-- The call is one of a command that loads a model, and names a file with the document `v`. -/
structure Call.Loads (call : Call) (c : Console) (v : Value) : Prop where
  entry : call.entry ∈ Entry.all
  name : call.entry.name ≠ "run"
  file : ∃ path, call.settings.get? "model" = some (.text path) ∧
    Text.lowercase (extension path) ∈ documentExtensions ∧
    loadDocument c.directory "model document" path = .ok v

theorem load_of_document {d : Directory} {path : Text} {v : Value} {f : DocumentFault}
    (hext : Text.lowercase (extension path) ∈ documentExtensions)
    (hv : loadDocument d "model document" path = .ok v) (h : ofDocument v = .error f) :
    Model.load d path = .error (.document f) := by
  have hdocument : ∀ ext ∈ documentExtensions, ext ≠ ".fz" ∧
      (ext == ".yml" || ext == ".yaml" || ext == ".json") = true := by decide
  obtain ⟨hlisting, hknown⟩ := hdocument _ hext
  unfold Model.load
  dsimp only
  rw [if_neg (mt beq_iff_eq.mp hlisting), if_pos hknown, hv]
  dsimp only
  rw [h]
  rfl

/-- **Documents that are no models, and the calls that load them.** A document is one of a model, or
its fault is reported, unless its steps are infinite, a corner is too great, or something in it
cannot be written out; infinite steps are never reported. A fault that is reported gives the exit
code 1 and is told of; the others break the run off. -/
theorem ending_of_document (v : Value) :
    ((∃ m, ofDocument v = .ok m) ∨ ∃ f, ofDocument v = .error f ∧
      (f.isReported = true ∨ InfiniteSteps v ∧ f = .outOfRange .wholeOfInfinity ∨
        LargeInModel v ∧ f = .outOfRange .tooLarge ∨ v.isWritable = false ∧ f = .unwritable)) ∧
    (InfiniteSteps v → ofDocument v = .error (.outOfRange .wholeOfInfinity)) ∧
    ∀ (call : Call) (c : Console), call.Loads c v → ∀ f, ofDocument v = .error f →
      (call.run c).1 = (if f.isReported then .exit 1 else .broken (.load (.document f))) ∧
        (f.isReported = true → ∃ told, (call.run c).2.told =
          told ++ "error: " ++ f.message ++ "\n") := by
  refine ⟨?_, ofDocument_of_infiniteSteps, ?_⟩
  · cases h : ofDocument v with
    | ok m => exact Or.inl ⟨m, rfl⟩
    | error f => exact Or.inr ⟨f, rfl, fault_of_ofDocument h⟩
  · rintro call c ⟨hentry, hname, path, hpath, hext, hv⟩ f hf
    have hload : Model.load c.directory path = .error (.document f) := load_of_document hext hv hf
    have hstops : Stops (call.entry.action call.settings) { c with level := call.level }
        (.load (.document f)) := Entry.stops hentry hname hpath hload
    exact Call.run_of_stops hstops

/-- A file with infinite steps breaks off the run. -/
theorem broken_by_infinite_steps : ∃ (call : Call) (c : Console) (v : Value), call.Loads c v ∧
    InfiniteSteps v ∧
      (call.run c).1 = .broken (.load (.document (.outOfRange .wholeOfInfinity))) := by
  let d : Directory := .ofFiles [] [("m.json", "\x7b\"steps\": Infinity\x7d")]
  have hread : ((loadDocument d "model document" "m.json").toOption.map fun v =>
      (v.get? "steps").map fun steps => decide (steps.toInteger = .error .wholeOfInfinity)) =
        some (some true) := by decide +kernel
  obtain ⟨v, hv, hsteps⟩ := Option.map_eq_some_iff.mp hread
  obtain ⟨steps, hsteps, hnumber⟩ := Option.map_eq_some_iff.mp hsteps
  have hinfinite : InfiniteSteps v := by
    rcases Value.toInteger_error (of_decide_eq_true hnumber) with ⟨-, x, rfl, hx⟩ | ⟨hne, -⟩
    · exact ⟨x, hsteps, hx⟩
    · exact absurd rfl hne
  let call : Call := ⟨⟨"validate", [modelOption], none, validate⟩, .warning,
    [("model", .text "m.json")]⟩
  have hloads : call.Loads ⟨d, "", "", .warning, false⟩ v :=
    ⟨List.mem_cons_self, by decide, "m.json", rfl, by decide +kernel, ok_of_toOption hv⟩
  obtain ⟨-, hends, hcalls⟩ := ending_of_document v
  exact ⟨call, _, v, hloads, hinfinite, (hcalls call _ hloads _ (hends hinfinite)).1⟩

end FuzzyInference.Command
