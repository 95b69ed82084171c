import FuzzyInference.Proofs.Engine.Call
import FuzzyInference.Proofs.Model.WellFormed

/-!
# The setup of a fresh engine

An engine is set up when it is first called. Either its model is well-formed, and the setup is there
from then on, whatever becomes of the model; or it is not, and no call does anything to the engine, so
that the model can be repaired and the engine be called again.

* `setup_of_current`, `setup_of_current_error`: a call of the setup, by what there is to be set up;
* `exists_setup_iff`, `exists_setup_error_iff`: which engines without one can be set up;
* `after_of_current_error`: an engine that cannot be set up stays as it is;
* `setup_of_fresh`: **which fresh engines can be set up, and what becomes of each.**
-/

namespace FuzzyInference

namespace Engine

variable {α : Type} [Scalar α]

theorem setup_of_current {e : Engine α} {s : Setup α} (hs : e.current = .ok s) :
    e.setup = .ok { e with built := some s } := by
  unfold setup
  rw [hs]

theorem setup_of_current_error {e : Engine α} {f : Fault α} (hf : e.current = .error f) :
    e.setup = .error f := by
  unfold setup
  rw [hf]

/-- An engine that has not been set up can be if its model is well-formed. -/
theorem exists_setup_iff {e : Engine Float} (h : e.built = none) :
    (∃ e', e.setup = .ok e') ↔ e.model.WellFormed := by
  rw [← Setup.build_ok_iff_wellFormed e.workers]
  unfold setup current
  rw [h]
  dsimp only
  cases Setup.build e.model e.workers with
  | error f => simp
  | ok s => simp

theorem exists_setup_error_iff {e : Engine Float} (h : e.built = none) :
    (∃ f, e.setup = .error f) ↔ ¬ e.model.WellFormed := by
  rw [← exists_setup_iff h]
  cases e.setup with
  | error f => simp
  | ok e' => simp

/-- **A setup that fails leaves no trace**, whatever call it was made for. -/
theorem after_of_current_error {e : Engine α} {f : Fault α} (hf : e.current = .error f)
    {calls : List (Call α)} (hcalls : ∀ c ∈ calls, c.KeepsSteps) : e.after calls = e := by
  rcases after_keeps calls e hcalls with h | ⟨s, -, hs, -, -⟩
  · exact h
  · rw [hf] at hs
    cases hs

/-- **The setup of a fresh engine.** It succeeds exactly if the model is well-formed.

* If it fails, no call does anything to the engine, so that a setup after the model has been repaired
  is that of a fresh engine.
* If it succeeds, the table is frozen and holds the variables of the model with their terms, in order
  and by their names in lower case; the rules are those of the model in order, each read over the
  table; and a further setup does nothing, also if the model has been changed. -/
theorem setup_of_fresh (m : Model Float) (steps : Int) (workers : Option Int) :
    let e : Engine Float := ⟨m, steps, workers, none⟩
    ((∃ e', e.setup = .ok e') ↔ m.WellFormed) ∧
    (∀ f, e.setup = .error f → ∀ calls : List (Call Float), (∀ c ∈ calls, c.KeepsSteps) →
      e.after calls = e ∧
      ∀ m' : Model Float, { e.after calls with model := m' }.setup =
        (⟨m', steps, workers, none⟩ : Engine Float).setup) ∧
    ∀ e', e.setup = .ok e' → ∃ s, e' = { e with built := some s } ∧
      s.table.frozen = true ∧
      List.Forall₂ Declaration.Describes m.declarations s.table.entries ∧
      s.rules.rules =
        m.rules.map (fun text => (Rule.ofText text true).parse (some s.table.vocabulary)) ∧
      (∀ r ∈ s.rules.rules, r.status ≠ .idle) ∧
      ∀ m' : Model Float, { e' with model := m' }.setup = .ok { e' with model := m' } := by
  intro e
  have hcurrent : e.current = Setup.build m workers := rfl
  cases hbuild : Setup.build m workers with
  | error f =>
    rw [hbuild] at hcurrent
    have hsetup := setup_of_current_error hcurrent
    refine ⟨exists_setup_iff rfl, fun f' _ calls hcalls => ?_, fun e' he' => ?_⟩
    · have hafter := after_of_current_error hcurrent hcalls
      exact ⟨hafter, fun m' => by rw [hafter]⟩
    · rw [hsetup] at he'
      cases he'
  | ok s =>
    rw [hbuild] at hcurrent
    have hsetup := setup_of_current hcurrent
    refine ⟨exists_setup_iff rfl, fun f hf => ?_, fun e' he' => ?_⟩
    · rw [hsetup] at hf
      cases hf
    · rw [hsetup] at he'
      cases he'
      obtain ⟨-, htable, hrules⟩ := Setup.rules_of_build hbuild
      obtain ⟨hfrozen, hdescribes⟩ := Setup.describes_of_buildTable htable
      refine ⟨s, rfl, hfrozen, hdescribes, hrules, fun r hr => ?_, fun m' => rfl⟩
      rw [hrules] at hr
      obtain ⟨text, -, rfl⟩ := List.mem_map.mp hr
      exact Rule.status_parse_ne_idle _ _

end Engine

end FuzzyInference
