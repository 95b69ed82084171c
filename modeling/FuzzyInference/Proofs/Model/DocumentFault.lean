import FuzzyInference.Model.Document
import FuzzyInference.Proofs.Document.Value

/-!
# Documents that are no models

Most faults of a document are reported. Three end the run instead: infinite steps have no whole
number, a whole number may be too great to be a corner, and a number that has too many digits cannot
be written out where it is needed as a name or in a message.

* `InfiniteSteps`, `LargeInModel`: the first two of these, as they are found in a document;
* `Explained`: a fault of a part of a document, with its reason if it is not reported;
* `explained_of_readTerm`, `explained_of_readVariable`: the faults of terms and variables;
* `fault_of_ofDocument`: **the faults of documents**;
* `ofDocument_of_infiniteSteps`: infinite steps always end the run.
-/

namespace FuzzyInference.Model

open FuzzyInference.Document

/-! ### What ends a run -/

/-- The steps are infinite. -/
def InfiniteSteps (v : Value) : Prop := ∃ x, v.get? "steps" = some (.float x) ∧ x.isInf = true

/-- Some corner is a whole number that is too great for a double. -/
def LargeCorner (raw : Value) : Prop :=
  ∃ items, raw = .list items ∧ ∃ i, .int i ∈ items ∧ Decimal.ofInt? i = none

/-- A term has such a corner. -/
def LargeInTerm (v : Value) : Prop :=
  ∃ shape raw, v.get? (Shape.name shape) = some raw ∧ LargeCorner raw

/-- A variable has a term that has such a corner. -/
def LargeInVariable (v : Value) : Prop :=
  ∃ items, v.get? "terms" = some (.list items) ∧ ∃ t ∈ items, LargeInTerm t

/-- A model has a variable that has a term that has such a corner. -/
def LargeInModel (v : Value) : Prop :=
  ∃ items, v.get? "variables" = some (.list items) ∧ ∃ d ∈ items, LargeInVariable d

/-- The fault of a part `v` of a document is reported, or it is a number that is too great, for
which there is the reason `large`, or the part cannot be written out. -/
def Explained (v : Value) (large : Prop) (f : DocumentFault) : Prop :=
  f.isReported = true ∨ large ∧ f = .outOfRange .tooLarge ∨
    v.isWritable = false ∧ f = .unwritable

section
variable {v w : Value} {large large' : Prop} {f : DocumentFault}

/-- A fault of a part is a fault of the whole. -/
theorem Explained.of_part (h : Explained v large f)
    (hpart : w.isWritable = true → v.isWritable = true) (hlarge : large → large') :
    Explained w large' f := by
  rcases h with hreported | ⟨hl, hf⟩ | ⟨hv, hf⟩
  · exact Or.inl hreported
  · exact Or.inr (Or.inl ⟨hlarge hl, hf⟩)
  · refine Or.inr (Or.inr ⟨?_, hf⟩)
    rw [Bool.eq_false_iff] at hv ⊢
    exact mt hpart hv

theorem explained_showing (hf : f.isReported = true) : Explained v large (.showing v f) := by
  unfold DocumentFault.showing
  split_ifs with hv
  · exact Or.inl hf
  · exact Or.inr (Or.inr ⟨Bool.eq_false_iff.mpr hv, rfl⟩)

theorem explained_of_nameOf (h : nameOf v = .error f) : Explained v large f := by
  obtain ⟨g, hg, rfl⟩ := exists_of_mapError h
  unfold Value.toName at hg
  split_ifs at hg with hv
  cases hg
  exact Or.inr (Or.inr ⟨Bool.eq_false_iff.mpr hv, rfl⟩)

end

/-! ### Numbers -/

/-- Why a value is no number. -/
theorem fault_of_asNumber {β : Type} {what : Text} {v : Value}
    {read : Value → Except NumberFault β} {f : DocumentFault}
    (h : asNumber what v read = .error f) :
    read v = .error .wholeOfInfinity ∧ f = .outOfRange .wholeOfInfinity ∨
      read v = .error .tooLarge ∧ f = .outOfRange .tooLarge ∨
      f = .showing v (.notNumber what v) := by
  unfold asNumber at h
  cases hread : read v with
  | ok x =>
    rw [hread] at h
    cases h
  | error g =>
    rw [hread] at h
    cases g with
    | wholeOfInfinity =>
      cases h
      exact Or.inl ⟨rfl, rfl⟩
    | tooLarge =>
      cases h
      exact Or.inr (Or.inl ⟨rfl, rfl⟩)
    | numeral | notNumeric | wholeOfNaN =>
      cases h
      exact Or.inr (Or.inr rfl)

theorem ok_of_asNumber {β : Type} {what : Text} {v : Value} {read : Value → Except NumberFault β}
    {x : β} (h : asNumber what v read = .ok x) : read v = .ok x := by
  unfold asNumber at h
  cases hread : read v with
  | ok y =>
    rw [hread] at h
    cases h
    rfl
  | error g =>
    rw [hread] at h
    cases g <;> cases h

/-- Why a value is no corner. -/
theorem explained_of_corner {what : Text} {v : Value} {f : DocumentFault}
    (h : asNumber what v Value.toFloat = .error f) :
    Explained v (∃ i, v = .int i ∧ Decimal.ofInt? i = none) f := by
  rcases fault_of_asNumber h with ⟨hread, -⟩ | ⟨hread, rfl⟩ | rfl
  · rcases Value.toFloat_error hread with ⟨hother, -⟩ | ⟨hne, -⟩
    · cases hother
    · exact absurd rfl hne
  · rcases Value.toFloat_error hread with ⟨-, hlarge⟩ | ⟨-, hne⟩
    · exact Or.inr (Or.inl ⟨hlarge, rfl⟩)
    · exact absurd rfl hne
  · exact explained_showing rfl

/-- Why a document has no number of steps. -/
theorem fault_of_readSteps {v : Value} {f : DocumentFault} (h : readSteps v = .error f) :
    InfiniteSteps v ∧ f = .outOfRange .wholeOfInfinity ∨ Explained v False f := by
  unfold readSteps at h
  have hwritable : v.isWritable = true →
      ((v.get? "steps").getD (.int defaultSteps)).isWritable = true :=
    fun hv => Value.isWritable_of_entry hv (by decide +kernel)
  rcases bind_error_iff.mp h with hnone | ⟨steps, hsome, hfew⟩
  · rcases fault_of_asNumber hnone with ⟨hread, rfl⟩ | ⟨hread, -⟩ | rfl
    · rcases Value.toInteger_error hread with ⟨-, x, hx, hinfinite⟩ | ⟨hne, -⟩
      · cases hsteps : v.get? "steps" with
        | none =>
          rw [hsteps] at hx
          cases hx
        | some raw =>
          rw [hsteps] at hx
          cases hx
          exact Or.inl ⟨⟨x, hsteps, hinfinite⟩, rfl⟩
      · exact absurd rfl hne
    · rcases Value.toInteger_error hread with ⟨hother, -⟩ | ⟨-, hne⟩
      · cases hother
      · exact absurd rfl hne
    · exact Or.inr ((explained_showing rfl).of_part hwritable id)
  · split_ifs at hfew
    rw [← Except.error.inj hfew]
    refine Or.inr ((explained_showing rfl).of_part (fun hv => ?_) id)
    exact Value.isWritable_of_toInteger (hwritable hv) (ok_of_asNumber hsome)

/-! ### Lists -/

theorem mem_of_firstWrong? {kind : EntryKind} : ∀ {items : List Value} {place place' : Nat}
    {v : Value}, firstWrong? kind place items = some (place', v) → v ∈ items
  | [], _, _, _, h => by cases h
  | w :: rest, place, _, _, h => by
    unfold firstWrong? at h
    split_ifs at h with hw
    · exact List.mem_cons_of_mem w (mem_of_firstWrong? h)
    · cases h
      exact List.mem_cons_self

/-- A list is empty or one that is there. -/
theorem items_of_listUnder {v : Value} {key owner : Text} {kind : EntryKind} {items : List Value}
    (h : listUnder v key kind owner = .ok items) :
    items = [] ∨ v.get? key = some (.list items) := by
  unfold listUnder at h
  split at h
  · exact Or.inl (Except.ok.inj h).symm
  · exact Or.inl (Except.ok.inj h).symm
  · next hlist =>
    split at h
    · cases h
    · cases h
      exact Or.inr hlist
  · cases h

theorem explained_of_listUnder {v : Value} {key owner : Text} {kind : EntryKind} {large : Prop}
    {f : DocumentFault} (h : listUnder v key kind owner = .error f) : Explained v large f := by
  unfold listUnder at h
  split at h
  · cases h
  · cases h
  · next items hlist =>
    split at h
    · next place w hwrong =>
      rw [← Except.error.inj h]
      refine (explained_showing rfl).of_part (fun hv => ?_) id
      exact Value.isWritable_of_mem (Value.isWritable_of_get? hv hlist) w
        (mem_of_firstWrong? hwrong)
    · cases h
  · cases h
    exact Or.inl rfl

/-! ### Terms, variables and models -/

theorem explained_of_readCorners {full : Text} {shape : Shape} {raw : Value} {f : DocumentFault}
    (h : readCorners full shape raw = .error f) : Explained raw (LargeCorner raw) f := by
  unfold readCorners at h
  dsimp only at h
  split at h
  · next items =>
    obtain ⟨v, hv, hcorner⟩ := exists_of_mapM_error h
    refine (explained_of_corner hcorner).of_part (fun hraw => ?_) ?_
    · exact Value.isWritable_of_mem hraw v hv
    · rintro ⟨i, rfl, hi⟩
      exact ⟨items, rfl, i, hv, hi⟩
  · rw [← Except.error.inj h]
    exact explained_showing rfl

theorem explained_of_shapedTerm {full name : Text} {shape : Shape} {raw : Value}
    {f : DocumentFault} (h : shapedTerm full name shape raw = .error f) :
    Explained raw (LargeCorner raw) f := by
  unfold shapedTerm at h
  cases hcorners : readCorners full shape raw with
  | error e =>
    rw [hcorners] at h
    cases h
    exact explained_of_readCorners hcorners
  | ok corners =>
    rw [hcorners] at h
    dsimp only at h
    split at h
    · cases h
    · cases h
      exact Or.inl rfl

theorem explained_of_readTerm {variableName : Text} {v : Value} {f : DocumentFault}
    (h : readTerm variableName v = .error f) : Explained v (LargeInTerm v) f := by
  have hshape : ∀ (shape : Shape) {full name : Text} {raw : Value},
      v.get? shape.name = some raw → shapedTerm full name shape raw = .error f →
        Explained v (LargeInTerm v) f := fun shape _ _ _ hraw hterm =>
    (explained_of_shapedTerm hterm).of_part (fun hv => Value.isWritable_of_get? hv hraw)
      fun hlarge => ⟨shape, _, hraw, hlarge⟩
  unfold readTerm at h
  split at h
  · cases h
    exact Or.inl rfl
  · next raw hraw =>
    rcases bind_error_iff.mp h with hname | ⟨name, -, h⟩
    · exact (explained_of_nameOf hname).of_part (fun hv => Value.isWritable_of_get? hv hraw) id
    · dsimp only at h
      split at h
      · next raw' _ htri => exact hshape .triangle htri h
      · next raw' htri htrap => exact hshape .trapezoid htrap h
      · cases h
        exact Or.inl rfl

theorem explained_of_readUsage {v : Value} {large : Prop} {f : DocumentFault}
    (h : readUsage v = .error f) : Explained v large f := by
  unfold readUsage at h
  rcases bind_error_iff.mp h with husage | ⟨usage, -, h⟩
  · exact (explained_of_nameOf husage).of_part (fun hv => Value.isWritable_of_entry hv rfl) id
  · dsimp only at h
    split_ifs at h
    · cases h
    · rcases bind_error_iff.mp h with hname | ⟨name, -, h⟩
      · exact (explained_of_nameOf hname).of_part (fun hv => Value.isWritable_of_entry hv rfl) id
      · cases h
        exact Or.inl rfl

theorem explained_of_readVariable {v : Value} {f : DocumentFault}
    (h : readVariable v = .error f) : Explained v (LargeInVariable v) f := by
  unfold readVariable at h
  rcases bind_error_iff.mp h with husage | ⟨usage, -, h⟩
  · exact explained_of_readUsage husage
  · split at h
    · cases h
      exact Or.inl rfl
    · next raw hraw =>
      rcases bind_error_iff.mp h with hname | ⟨name, -, h⟩
      · exact (explained_of_nameOf hname).of_part (fun hv => Value.isWritable_of_get? hv hraw) id
      · rcases bind_error_iff.mp h with hitems | ⟨items, hitems, h⟩
        · exact explained_of_listUnder hitems
        · rcases bind_error_iff.mp h with hterms | ⟨terms, -, h⟩
          · obtain ⟨t, ht, hterm⟩ := exists_of_mapM_error hterms
            rcases items_of_listUnder hitems with rfl | hlist
            · cases ht
            · refine (explained_of_readTerm hterm).of_part (fun hv => ?_) fun hlarge => ?_
              · exact Value.isWritable_of_mem (Value.isWritable_of_get? hv hlist) t ht
              · exact ⟨items, hlist, t, ht, hlarge⟩
          · cases h

/-- **The faults of documents.** They are reported, unless the steps are infinite, a corner is too
great, or something in the document cannot be written out. -/
theorem fault_of_ofDocument {v : Value} {f : DocumentFault} (h : ofDocument v = .error f) :
    f.isReported = true ∨ InfiniteSteps v ∧ f = .outOfRange .wholeOfInfinity ∨
      LargeInModel v ∧ f = .outOfRange .tooLarge ∨ v.isWritable = false ∧ f = .unwritable := by
  suffices hcases : InfiniteSteps v ∧ f = .outOfRange .wholeOfInfinity ∨
      Explained v (LargeInModel v) f by
    rcases hcases with hinfinite | hreported | hother
    · exact Or.inr (Or.inl hinfinite)
    · exact Or.inl hreported
    · exact Or.inr (Or.inr hother)
  cases v with
  | map entries =>
    rcases bind_error_iff.mp h with hsteps | ⟨steps, -, h⟩
    · exact (fault_of_readSteps hsteps).imp_right (·.of_part id False.elim)
    right
    rcases bind_error_iff.mp h with hname | ⟨name, -, h⟩
    · exact (explained_of_nameOf hname).of_part (fun hv => Value.isWritable_of_entry hv rfl) id
    rcases bind_error_iff.mp h with hitems | ⟨items, hitems, h⟩
    · exact explained_of_listUnder hitems
    rcases bind_error_iff.mp h with hvariables | ⟨declarations, -, h⟩
    · obtain ⟨d, hd, hvariable⟩ := exists_of_mapM_error hvariables
      rcases items_of_listUnder hitems with rfl | hlist
      · cases hd
      · refine (explained_of_readVariable hvariable).of_part (fun hv => ?_) fun hlarge => ?_
        · exact Value.isWritable_of_mem (Value.isWritable_of_get? hv hlist) d hd
        · exact ⟨items, hlist, d, hd, hlarge⟩
    rcases bind_error_iff.mp h with hrules | ⟨rules, -, h⟩
    · exact explained_of_listUnder hrules
    · cases h
  | _ =>
    cases h
    exact Or.inr (Or.inl rfl)

/-- **Infinite steps** always end the run. -/
theorem ofDocument_of_infiniteSteps {v : Value} (h : InfiniteSteps v) :
    ofDocument v = .error (.outOfRange .wholeOfInfinity) := by
  obtain ⟨x, hsteps, hinfinite⟩ := h
  have hnumber : Value.toInteger (.float x) = .error .wholeOfInfinity :=
    truncate_error_iff.mpr hinfinite
  have hread : readSteps v = .error (.outOfRange .wholeOfInfinity) := by
    unfold readSteps asNumber
    rw [hsteps, Option.getD_some, hnumber]
    rfl
  cases v with
  | map entries =>
    exact bind_error_iff.mpr (Or.inl hread)
  | _ => cases hsteps

/-- The mapping with infinite steps and nothing else. -/
theorem unreported_infinite_steps :
    ofDocument (.map [(.text "steps", .float (1.0 / 0.0))]) =
      .error (.outOfRange .wholeOfInfinity) ∧
    (DocumentFault.outOfRange .wholeOfInfinity).isReported = false :=
  ⟨ofDocument_of_infiniteSteps ⟨1.0 / 0.0, rfl, by decide +kernel⟩, rfl⟩

end FuzzyInference.Model
