import FuzzyInference.Csv
import FuzzyInference.Proofs.Text.Words

/-!
# Texts without halves

* `Text.IsWhole`: the text is made of characters, so that a file can hold it (`exists_string?_iff`);
* `isWhole_concat`, `Csv.isWhole_line`: so is what is put together from such texts.
-/

namespace FuzzyInference

namespace Text

/-- The text is made of characters. -/
def IsWhole (t : Text) : Prop := ∀ c ∈ t.toList, ∃ x, c = .char x

theorem exists_mapM_char?_iff : ∀ {cs : List CodePoint},
    (∃ xs, cs.mapM (·.char?) = some xs) ↔ ∀ c ∈ cs, ∃ x, c = .char x
  | [] => iff_of_true ⟨[], rfl⟩ (List.forall_mem_nil _)
  | .half h :: cs => by
    refine iff_of_false ?_ fun hall => ?_
    · rintro ⟨xs, hxs⟩
      rw [List.mapM_cons] at hxs
      cases hxs
    · obtain ⟨x, hx⟩ := hall _ List.mem_cons_self
      cases hx
  | .char c :: cs => by
    rw [List.forall_mem_cons, ← exists_mapM_char?_iff, List.mapM_cons]
    constructor
    · rintro ⟨xs, hxs⟩
      refine ⟨⟨c, rfl⟩, ?_⟩
      cases hcs : cs.mapM (·.char?) with
      | none =>
        rw [hcs] at hxs
        cases hxs
      | some ys => exact ⟨ys, rfl⟩
    · rintro ⟨-, ys, hys⟩
      rw [hys]
      exact ⟨c :: ys, rfl⟩

theorem exists_string?_iff {t : Text} : (∃ s, t.string? = some s) ↔ t.IsWhole := by
  rw [IsWhole, ← exists_mapM_char?_iff]
  constructor
  · rintro ⟨s, hs⟩
    obtain ⟨xs, hxs, -⟩ := Option.map_eq_some_iff.mp hs
    exact ⟨xs, hxs⟩
  · rintro ⟨xs, hxs⟩
    exact ⟨_, Option.map_eq_some_iff.mpr ⟨xs, hxs, rfl⟩⟩

theorem isWhole_ofString (s : String) : (ofString s).IsWhole := by
  intro c hc
  obtain ⟨x, -, rfl⟩ := List.mem_map.mp hc
  exact ⟨x, rfl⟩

theorem IsWhole.append {t u : Text} (ht : t.IsWhole) (hu : u.IsWhole) : (t ++ u).IsWhole :=
  List.forall_mem_append.mpr ⟨ht, hu⟩

theorem isWhole_concat {ts : List Text} (h : ∀ t ∈ ts, t.IsWhole) : (concat ts).IsWhole := by
  intro c hc
  obtain ⟨t, ht, hc⟩ := List.mem_flatMap.mp hc
  exact h t ht c hc

end Text

namespace Csv

theorem isWhole_writeField {field : Text} (h : field.IsWhole) : (writeField field).IsWhole := by
  unfold writeField
  split_ifs
  · refine List.forall_mem_append.mpr ⟨List.forall_mem_cons.mpr ⟨⟨'"', rfl⟩, fun c hc => ?_⟩, ?_⟩
    · obtain ⟨d, hd, hc⟩ := List.mem_flatMap.mp hc
      obtain ⟨x, rfl⟩ := h d hd
      split_ifs at hc
      · rcases List.mem_cons.mp hc with rfl | hc
        · exact ⟨x, rfl⟩
        · exact ⟨x, List.mem_singleton.mp hc⟩
      · exact ⟨x, List.mem_singleton.mp hc⟩
    · exact fun c hc => ⟨'"', List.mem_singleton.mp hc⟩
  · exact h

/-- The line of texts for files is one. -/
theorem isWhole_line {fields : List Text} (h : ∀ field ∈ fields, field.IsWhole) :
    (line fields).IsWhole := by
  unfold line
  split_ifs
  · exact Text.isWhole_ofString _
  · refine Text.IsWhole.append ?_ (Text.isWhole_ofString _)
    refine Text.forall_mem_join (P := fun c => ∃ x, c = .char x) (Text.isWhole_ofString ",") ?_
    intro w hw
    obtain ⟨field, hfield, rfl⟩ := List.mem_map.mp hw
    exact isWhole_writeField (h field hfield)

end Csv

end FuzzyInference
