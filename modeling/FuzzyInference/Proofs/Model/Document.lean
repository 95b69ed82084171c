import FuzzyInference.Proofs.Document.Value
import FuzzyInference.Proofs.Model.Equality
import FuzzyInference.Proofs.Model.Listing

/-!
# Models that are written as documents

A model that was read is written as a document that leads back to it, though not by the way it came:
a trapezoid whose tops are equal is written as a triangle.

* `Term.written`, `Declaration.written`, `Model.written`: the model as its document has it;
  `Model.written_equals`: it equals the model;
* `Storable`: what all models have that were read (`storable_of_ofDocument`, `storable_of_read`);
* `ofDocument_toDocument`: **the model of a model's document**;
* `ofDocument_of_read`: **models that were read are read again from their documents.**
-/

namespace FuzzyInference

open FuzzyInference.Document

/-! ### What is written -/

/-- The term as its document has it: a triangle if its tops are equal. -/
def Term.written (t : Term Float) : Term Float :=
  match t.shape with
  | .triangle => .triangle t.name t.start t.leftTop t.finish
  | .trapezoid => t

/-- The variable as its document has it. -/
def Declaration.written (d : Declaration Float) : Declaration Float :=
  { d with terms := d.terms.map Term.written }

/-- The model as its document has it. -/
def Model.written (m : Model Float) : Model Float :=
  { m with declarations := m.declarations.map Declaration.written }

theorem Term.written_equals {t : Term Float} (h : t.HasNumbers) : t.written.Equals t := by
  obtain ⟨hstart, h⟩ := List.forall_mem_cons.mp h
  obtain ⟨hleft, h⟩ := List.forall_mem_cons.mp h
  obtain ⟨hright, h⟩ := List.forall_mem_cons.mp h
  have hfinish := List.forall_mem_singleton.mp h
  unfold Term.written
  cases hshape : t.shape with
  | trapezoid =>
    exact ⟨rfl, beq_self_of_isNaN hstart, beq_self_of_isNaN hleft, beq_self_of_isNaN hright,
      beq_self_of_isNaN hfinish⟩
  | triangle =>
    exact ⟨rfl, beq_self_of_isNaN hstart, beq_self_of_isNaN hleft, Term.tops_of_shape hshape,
      beq_self_of_isNaN hfinish⟩

/-- **A model equals what its document says**, unless a corner is undefined. -/
theorem Model.written_equals {m : Model Float} (h : m.HasNumbers) : m.written.Equals m := by
  refine ⟨rfl, ?_, rfl, rfl⟩
  refine List.forall₂_map_left_iff.mpr (List.forall₂_same.mpr fun d hd => ⟨rfl, rfl, ?_⟩)
  exact List.forall₂_map_left_iff.mpr
    (List.forall₂_same.mpr fun t ht => Term.written_equals (h d hd t ht))

namespace Model

/-! ### What is read -/

/-- **What makes a document one of a variable.** -/
theorem readVariable_ok_iff {v : Value} {d : Declaration Float} :
    readVariable v = .ok d ↔ readUsage v = .ok d.usage ∧ ∃ name items,
      v.get? "name" = some name ∧ nameOf name = .ok d.name ∧
      listUnder v "terms" .mapping ("variable '" ++ d.name ++ "'") = .ok items ∧
      items.mapM (readTerm d.name) = .ok d.terms := by
  unfold readVariable
  rw [bind_ok_iff]
  constructor
  · rintro ⟨usage, husage, h⟩
    cases hname : v.get? "name" with
    | none =>
      rw [hname] at h
      cases h
    | some name =>
      rw [hname] at h
      obtain ⟨name', hname', h⟩ := bind_ok_iff.mp h
      obtain ⟨items, hitems, h⟩ := bind_ok_iff.mp h
      obtain ⟨terms, hterms, h⟩ := bind_ok_iff.mp h
      cases h
      exact ⟨husage, name, items, rfl, hname', hitems, hterms⟩
  · rintro ⟨husage, name, items, hname, hname', hitems, hterms⟩
    refine ⟨d.usage, husage, ?_⟩
    rw [hname]
    exact bind_ok_iff.mpr ⟨d.name, hname', bind_ok_iff.mpr ⟨items, hitems,
      bind_ok_iff.mpr ⟨d.terms, hterms, rfl⟩⟩⟩

/-- **What makes a document one of a model.** -/
theorem ofDocument_ok_iff {v : Value} {m : Model Float} :
    ofDocument v = .ok m ↔ (∃ entries, v = .map entries) ∧ readSteps v = .ok m.steps ∧
      nameOf ((v.get? "name").getD (.text "model")) = .ok m.name ∧
      (∃ items, listUnder v "variables" .mapping "model" = .ok items ∧
        items.mapM readVariable = .ok m.declarations) ∧
      ∃ rules, listUnder v "rules" .text "model" = .ok rules ∧ rules.map ruleText = m.rules := by
  unfold ofDocument
  constructor
  · intro h
    cases v with
    | map entries =>
      obtain ⟨steps, hsteps, h⟩ := bind_ok_iff.mp h
      obtain ⟨name, hname, h⟩ := bind_ok_iff.mp h
      obtain ⟨items, hitems, h⟩ := bind_ok_iff.mp h
      obtain ⟨declarations, hdeclarations, h⟩ := bind_ok_iff.mp h
      obtain ⟨rules, hrules, h⟩ := bind_ok_iff.mp h
      cases h
      exact ⟨⟨entries, rfl⟩, hsteps, hname, ⟨items, hitems, hdeclarations⟩, rules, hrules, rfl⟩
    | _ => cases h
  · rintro ⟨⟨entries, rfl⟩, hsteps, hname, ⟨items, hitems, hdeclarations⟩, rules, hrules, heq⟩
    refine bind_ok_iff.mpr ⟨m.steps, hsteps, bind_ok_iff.mpr ⟨m.name, hname, ?_⟩⟩
    refine bind_ok_iff.mpr ⟨items, hitems, bind_ok_iff.mpr ⟨m.declarations, hdeclarations, ?_⟩⟩
    refine bind_ok_iff.mpr ⟨rules, hrules, ?_⟩
    rw [heq]
    rfl

/-! ### What is read from a model's document -/

theorem nameOf_text (s : Text) : nameOf (.text s) = .ok s := rfl

theorem readCorners_floats (full : Text) (shape : Shape) (xs : List Float) :
    readCorners full shape (.list (xs.map .float)) = .ok xs :=
  mapM_ok_iff.mpr (List.forall₂_map_left_iff.mpr (List.forall₂_same.mpr fun _ _ => rfl))

theorem firstWrong?_eq_none_iff {kind : EntryKind} : ∀ {items : List Value} {place : Nat},
    firstWrong? kind place items = none ↔ ∀ v ∈ items, kind.admits v = true
  | [], _ => iff_of_true rfl (List.forall_mem_nil _)
  | v :: rest, place => by
    rw [firstWrong?, List.forall_mem_cons]
    split_ifs with hv
    · rw [firstWrong?_eq_none_iff]
      exact ⟨fun h => ⟨hv, h⟩, fun h => h.2⟩
    · exact iff_of_false (by simp) fun h => hv h.1

theorem listUnder_of_admits {d : Value} {key owner : Text} {kind : EntryKind} {items : List Value}
    (h : d.get? key = some (.list items)) (hall : ∀ v ∈ items, kind.admits v = true) :
    listUnder d key kind owner = .ok items := by
  unfold listUnder
  rw [h]
  dsimp only
  rw [firstWrong?_eq_none_iff.mpr hall]

/-- The term of a term's document. -/
theorem readTerm_termDocument (variableName : Text) (t : Term Float) :
    readTerm variableName (termDocument t) = .ok t.written := by
  have hname : (termDocument t).get? "name" = some (.text t.name) := rfl
  unfold readTerm
  rw [hname]
  dsimp only
  rw [nameOf_text, bind_ok_iff]
  refine ⟨t.name, rfl, ?_⟩
  unfold termDocument Term.corners Term.written
  cases t.shape with
  | triangle =>
    show shapedTerm _ t.name .triangle (.list ([t.start, t.leftTop, t.finish].map .float)) = _
    unfold shapedTerm
    rw [readCorners_floats]
    rfl
  | trapezoid =>
    show shapedTerm _ t.name .trapezoid
      (.list ([t.start, t.leftTop, t.rightTop, t.finish].map .float)) = _
    unfold shapedTerm
    rw [readCorners_floats]
    rfl

theorem readUsage_variableDocument {d : Declaration Float}
    (h : d.usage = "input" ∨ d.usage = "output") :
    readUsage (variableDocument d) = .ok d.usage := by
  have husage : (variableDocument d).get? "usage" = some (.text d.usage) := rfl
  have hlower : Text.lowercase d.usage = d.usage := by
    rcases h with h | h
    · rw [h]
      decide +kernel
    · rw [h]
      decide +kernel
  have hknown : (d.usage == "input" || d.usage == "output") = true := by simpa using h
  unfold readUsage
  rw [husage, Option.getD_some, nameOf_text, bind_ok_iff]
  refine ⟨d.usage, rfl, ?_⟩
  dsimp only
  rw [hlower, if_pos hknown]
  rfl

/-- The variable of a variable's document. -/
theorem readVariable_variableDocument {d : Declaration Float}
    (h : d.usage = "input" ∨ d.usage = "output") :
    readVariable (variableDocument d) = .ok d.written := by
  have hterms : (variableDocument d).get? "terms" = some (.list (d.terms.map termDocument)) := rfl
  have hmappings : ∀ v ∈ d.terms.map termDocument, EntryKind.mapping.admits v = true :=
    List.forall_mem_map.mpr fun _ _ => rfl
  refine readVariable_ok_iff.mpr ⟨readUsage_variableDocument h, .text d.name,
    d.terms.map termDocument, rfl, nameOf_text d.name, listUnder_of_admits hterms hmappings, ?_⟩
  exact mapM_ok_iff.mpr (List.forall₂_map_left_iff.mpr (List.forall₂_map_right_iff.mpr
    (List.forall₂_same.mpr fun t _ => readTerm_termDocument d.name t)))

/-! ### Models that were read -/

/-- The model has a step at least, and the usages of its variables are the two that there are. -/
structure Storable (m : Model Float) : Prop where
  steps : 1 ≤ m.steps
  usage : ∀ d ∈ m.declarations, d.usage = "input" ∨ d.usage = "output"

/-- **The model of a model's document.** -/
theorem ofDocument_toDocument {m : Model Float} (h : m.Storable) :
    ofDocument (toDocument m) = .ok m.written := by
  have hsteps : (toDocument m).get? "steps" = some (.int m.steps) := rfl
  have hvariables : (toDocument m).get? "variables" =
      some (.list (m.declarations.map variableDocument)) := rfl
  have hrules : (toDocument m).get? "rules" = some (.list (m.rules.map .text)) := rfl
  have hmappings : ∀ v ∈ m.declarations.map variableDocument,
      EntryKind.mapping.admits v = true := List.forall_mem_map.mpr fun _ _ => rfl
  have htexts : ∀ v ∈ m.rules.map Value.text, EntryKind.text.admits v = true :=
    List.forall_mem_map.mpr fun _ _ => rfl
  refine ofDocument_ok_iff.mpr ⟨⟨_, rfl⟩, ?_, nameOf_text m.name,
    ⟨_, listUnder_of_admits hvariables hmappings, ?_⟩, _, listUnder_of_admits hrules htexts, ?_⟩
  · unfold readSteps
    rw [hsteps, Option.getD_some, bind_ok_iff]
    exact ⟨m.steps, rfl, if_neg (not_lt.mpr h.steps)⟩
  · exact mapM_ok_iff.mpr (List.forall₂_map_left_iff.mpr (List.forall₂_map_right_iff.mpr
      (List.forall₂_same.mpr fun d hd => readVariable_variableDocument (h.usage d hd))))
  · rw [List.map_map]
    exact List.map_id m.rules

theorem storable_of_ofDocument {v : Value} {m : Model Float} (h : ofDocument v = .ok m) :
    m.Storable := by
  obtain ⟨-, hsteps, -, ⟨items, -, hdeclarations⟩, -⟩ := ofDocument_ok_iff.mp h
  constructor
  · unfold readSteps at hsteps
    obtain ⟨steps, -, hsteps⟩ := bind_ok_iff.mp hsteps
    split_ifs at hsteps with hnone
    cases hsteps
    exact not_lt.mp hnone
  · intro d hd
    obtain ⟨v, -, hv⟩ := exists_of_forall₂_right (mapM_ok_iff.mp hdeclarations) d hd
    have husage := (readVariable_ok_iff.mp hv).1
    unfold readUsage at husage
    obtain ⟨raw, -, husage⟩ := bind_ok_iff.mp husage
    dsimp only at husage
    split_ifs at husage with hknown
    · rw [← Except.ok.inj husage]
      simpa using hknown
    · obtain ⟨name, -, husage⟩ := bind_ok_iff.mp husage
      cases husage

theorem storable_of_read {text : Text} {m : Model Float} (h : Listing.read text = .ok m) :
    m.Storable := by
  obtain ⟨hchecked, -⟩ := Listing.checked_of_read h
  exact ⟨hchecked.steps, fun d hd => (hchecked.declarations d hd).usage⟩

/-- **Models that were read are read again from their documents**, if no corner of theirs is
undefined: the document is one of a model, and its model equals the first one. This is so although a
trapezoid whose tops are equal is written as a triangle. -/
theorem ofDocument_of_read {m : Model Float}
    (hread : (∃ v, ofDocument v = .ok m) ∨ ∃ text, Listing.read text = .ok m)
    (hnumbers : m.HasNumbers) :
    (∃ n, ofDocument (toDocument m) = .ok n ∧ n.Equals m) ∧
      ∀ d ∈ m.declarations, ∀ t ∈ d.terms, (t.leftTop == t.rightTop) = true →
        termDocument t = .ofFields [("name", .text t.name),
          ("tri", .list [.float t.start, .float t.leftTop, .float t.finish])] := by
  have hstorable : m.Storable := by
    rcases hread with ⟨v, hv⟩ | ⟨text, htext⟩
    · exact storable_of_ofDocument hv
    · exact storable_of_read htext
  refine ⟨⟨m.written, ofDocument_toDocument hstorable, written_equals hnumbers⟩, ?_⟩
  intro d _ t _ htops
  have hshape : t.shape = .triangle := if_pos htops
  unfold termDocument Term.corners
  rw [hshape]
  rfl

/-- A listing with a trapezoid whose tops are equal. -/
theorem ofDocument_of_short_listing : ∃ m n,
    Listing.read "var output y\nmf y a trap 0 1 1 2" = .ok m ∧
      ofDocument (toDocument m) = .ok n ∧ n.Equals m ∧
      ∃ d ∈ m.declarations, ∃ t ∈ d.terms, termDocument t = .ofFields [("name", .text t.name),
        ("tri", .list [.float t.start, .float t.leftTop, .float t.finish])] := by
  have hread : ((Listing.read "var output y\nmf y a trap 0 1 1 2").toOption.map fun m =>
      m.declarations.any fun d => d.terms.any fun t => t.leftTop == t.rightTop) = some true := by
    decide +kernel
  obtain ⟨m, hm, hsome⟩ := Option.map_eq_some_iff.mp hread
  have hok := ok_of_toOption hm
  obtain ⟨-, -, -, hnumbers, -⟩ := Listing.read_checked hok
  obtain ⟨⟨n, hn, hequals⟩, hwritten⟩ := ofDocument_of_read (Or.inr ⟨_, hok⟩) hnumbers
  obtain ⟨d, hd, hsome⟩ := List.any_eq_true.mp hsome
  obtain ⟨t, ht, htops⟩ := List.any_eq_true.mp hsome
  exact ⟨m, n, hok, hn, hequals, d, hd, t, ht, hwritten d hd t ht htops⟩

end Model

end FuzzyInference
