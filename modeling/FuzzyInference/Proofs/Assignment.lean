import FuzzyInference.Assignment
import FuzzyInference.Proofs.Decimal.Numeral
import FuzzyInference.Proofs.Pairing
import Mathlib.Data.List.TakeDrop

/-!
# Assignments that are joined

Assignments may be given one by one, several in a text, or both. Texts are cut at their commas and
what is blank between them is left out, so that it does not matter where a list of texts is cut: it is
read as its texts joined by commas.

* `items_join`: the items of joined texts;
* `readItems_list`, `readItems_text`: lists and texts are read item by item, up to the first fault;
* `Halves`: the texts around an equals sign;
* `Spelling`: a name and a numeral that can stand in an assignment;
* `readItems_joined`: **texts that are joined**, and assignments that are written out and joined.
-/

namespace FuzzyInference.Assignment

open FuzzyInference.Decimal FuzzyInference.Document

/-! ### Items -/

theorem items_append_comma (xs ys : List CodePoint) :
    items ⟨xs ++ .char ',' :: ys⟩ = items ⟨xs⟩ ++ items ⟨ys⟩ := by
  have hsplit : (xs ++ CodePoint.char ',' :: ys).splitOn (.char ',') =
      xs.splitOn (.char ',') ++ ys.splitOn (.char ',') :=
    List.splitOnP_append_cons xs ys (beq_self_eq_true (CodePoint.char ','))
  unfold items Text.splitOn
  rw [hsplit, List.map_append, List.map_append, List.filter_append]

/-- **The items of joined texts** are those of each text. -/
theorem items_join : ∀ xs : List Text, items (Text.join "," xs) = xs.flatMap items
  | [] => rfl
  | [x] => by
    have hjoin : Text.join "," [x] = x := congrArg Text.mk (Text.toList_join_singleton "," x)
    rw [hjoin, List.flatMap_singleton]
  | x :: y :: xs => by
    have hjoin : Text.join "," (x :: y :: xs) =
        ⟨x.toList ++ .char ',' :: (Text.join "," (y :: xs)).toList⟩ := by
      refine congrArg Text.mk ((Text.toList_join_cons _ _ _ _).trans ?_)
      exact List.append_assoc _ _ _
    rw [hjoin, items_append_comma, List.flatMap_cons]
    exact congrArg (items x ++ ·) (items_join (y :: xs))

theorem readElements_texts : ∀ xs : List Text,
    readElements (xs.map .text) = (xs.flatMap items).mapM read
  | [] => rfl
  | x :: xs => by
    have helement : readElement (.text x) = (items x).mapM read := rfl
    rw [List.map_cons, readElements, readElements_texts xs, helement, List.flatMap_cons,
      List.mapM_append]
    cases (items x).mapM read with
    | error f => rfl
    | ok here =>
      cases (xs.flatMap items).mapM read with
      | error f => rfl
      | ok more => rfl

/-- **A list of texts** is read item by item. -/
theorem readItems_list (xs : List Text) :
    readItems (.list (xs.map .text)) = (xs.flatMap items).mapM read := by
  cases xs with
  | nil => rfl
  | cons x xs => exact readElements_texts (x :: xs)

/-- **So is a text**; the empty one has no items. -/
theorem readItems_text (t : Text) : readItems (.text t) = (items t).mapM read := by
  by_cases ht : t.isEmpty = true
  · have hempty : t = Text.empty := congrArg Text.mk (List.isEmpty_iff.mp ht)
    rw [hempty]
    rfl
  · have hgiven : (!(Value.text t).isTruthy) = false := by
      show (!!t.isEmpty) = false
      rw [Bool.not_not, Bool.eq_false_iff.mpr ht]
    have helements := readElements_texts [t]
    rw [List.flatMap_singleton] at helements
    unfold readItems
    rw [hgiven]
    exact helements

/-! ### Halves -/

/-- `k` and `v` stand before and behind the first equals sign, but for blanks around them. -/
def Halves (item k v : Text) : Prop :=
  ∃ as bs, item.toList = as ++ .char '=' :: bs ∧ .char '=' ∉ as ∧
    (Text.ofList as).trim = k ∧ (Text.ofList bs).trim = v

theorem signless {cs : List CodePoint} (h : .char '=' ∉ cs) :
    ∀ c ∈ cs, (c != CodePoint.char '=') = true := by
  intro c hc
  rw [bne_iff_ne]
  rintro rfl
  exact h hc

theorem halves?_of_sign {item : Text} {as bs : List CodePoint}
    (hitem : item.toList = as ++ .char '=' :: bs) (has : .char '=' ∉ as) :
    halves? item = some ((Text.ofList as).trim, (Text.ofList bs).trim) := by
  have hsign := signless has
  have hspan : item.toList.span (· != CodePoint.char '=') = (as, .char '=' :: bs) := by
    rw [hitem, List.span_eq_takeWhile_dropWhile, List.takeWhile_append_of_pos hsign,
      List.dropWhile_append_of_pos hsign, List.takeWhile_cons_of_neg (by decide),
      List.dropWhile_cons_of_neg (by decide), List.append_nil]
  unfold halves?
  rw [hspan]

theorem halves?_eq_none_iff {item : Text} : halves? item = none ↔ .char '=' ∉ item.toList := by
  constructor
  · intro hnone hmem
    obtain ⟨as, bs, hitem, has⟩ := List.eq_append_cons_of_mem hmem
    rw [halves?_of_sign hitem has] at hnone
    cases hnone
  · intro hnone
    unfold halves?
    rw [List.span_eq_takeWhile_dropWhile, List.dropWhile_eq_nil_iff.mpr (signless hnone)]

theorem halves?_eq_some_iff {item k v : Text} : halves? item = some (k, v) ↔ Halves item k v := by
  constructor
  · intro h
    have hmem : .char '=' ∈ item.toList := by
      by_contra hnone
      rw [halves?_eq_none_iff.mpr hnone] at h
      cases h
    obtain ⟨as, bs, hitem, has⟩ := List.eq_append_cons_of_mem hmem
    rw [halves?_of_sign hitem has] at h
    obtain ⟨hk, hv⟩ := Prod.mk.inj (Option.some.inj h)
    exact ⟨as, bs, hitem, has, hk, hv⟩
  · rintro ⟨as, bs, hitem, has, rfl, rfl⟩
    exact halves?_of_sign hitem has

/-! ### Assignments -/

/-- A name and a numeral that can stand in an assignment, and the number. -/
structure Spelling where
  name : Text
  numeral : Text
  number : Float
  name_ne : name ≠ Text.empty
  trimmed : name.trim = name
  name_signless : name.contains '=' = false
  name_whole : name.contains ',' = false
  numeral_whole : numeral.contains ',' = false
  reads : readFloat? numeral = some number

namespace Spelling

/-- The assignment as it is written. -/
def item (s : Spelling) : Text := s.name ++ "=" ++ s.numeral

variable (s : Spelling)

theorem toList_item : s.item.toList = s.name.toList ++ .char '=' :: s.numeral.toList :=
  List.append_assoc _ _ _

theorem trim_numeral_ne : s.numeral.trim.toList ≠ [] := by
  intro hempty
  have hblank : s.numeral.trim = Text.empty := congrArg Text.mk hempty
  have hreads := readFloat?_trim s.reads
  rw [hblank] at hreads
  cases hreads

/-- Trimmed, an assignment loses the blanks behind its numeral and no others. -/
theorem exists_trim_item : ∃ as, (∀ c ∈ as, c.is Text.isBlank = true) ∧
    s.item.trim.toList = s.name.toList ++ .char '=' :: (as ++ s.numeral.trim.toList) := by
  obtain ⟨as, bs, has, hbs, heq⟩ := Text.exists_trimWith (·.is Text.isBlank) s.numeral.toList
  obtain ⟨c, cs, hname⟩ : ∃ c cs, s.name.toList = c :: cs :=
    List.exists_cons_of_ne_nil fun h => s.name_ne (congrArg Text.mk h)
  have hc : c.is Text.isBlank = false := by
    have hfront := Text.dropWhile_of_trimWith (congrArg Text.toList s.trimmed)
    rw [hname, List.dropWhile_eq_self_iff] at hfront
    exact Bool.eq_false_iff.mpr (hfront (Nat.zero_lt_succ _))
  have hitem : s.item.toList =
      [] ++ ((c :: (cs ++ .char '=' :: as) ++ s.numeral.trim.toList) ++ bs) := by
    rw [toList_item, heq, hname]
    simp [Text.trim]
  refine ⟨as, has, ?_⟩
  show Text.trimWith _ s.item.toList = _
  rw [hitem, Text.trimWith_between (List.forall_mem_nil _) hbs]
  refine (Text.trimWith_append hc (Text.trimWith_trimWith _ _) s.trim_numeral_ne).trans ?_
  rw [hname, List.cons_append, List.append_assoc]
  rfl

/-- An assignment is one item. -/
theorem items_item : items s.item = [s.item.trim] := by
  obtain ⟨as, -, htrim⟩ := s.exists_trim_item
  have hwhole : ∀ c ∈ s.item.toList, (c == CodePoint.char ',') = false := by
    intro c hc
    rw [beq_eq_false_iff_ne]
    rintro rfl
    have hname := s.name_whole
    have hnumeral := s.numeral_whole
    rw [toList_item] at hc
    simp only [Text.contains, List.contains_eq_mem, decide_eq_false_iff_not] at hname hnumeral
    rcases List.mem_append.mp hc with hc | hc
    · exact hname hc
    · exact hnumeral ((List.mem_cons.mp hc).resolve_left (by decide))
  have hsplit : s.item.splitOn ',' = [s.item] := by
    unfold Text.splitOn List.splitOn
    rw [List.splitOnP_eq_singleton hwhole]
    rfl
  have hgiven : s.item.trim.isEmpty = false := by
    rw [Text.isEmpty, htrim, List.isEmpty_eq_false_iff]
    exact List.append_ne_nil_of_right_ne_nil _ (List.cons_ne_nil _ _)
  unfold items
  rw [hsplit, List.map_singleton, List.filter_singleton, hgiven]
  rfl

/-- Its halves are the name and the numeral. -/
theorem halves_trim_item : halves? s.item.trim = some (s.name, s.numeral.trim) := by
  obtain ⟨as, has, htrim⟩ := s.exists_trim_item
  have hsign : .char '=' ∉ s.name.toList := by
    have hname := s.name_signless
    simp only [Text.contains, List.contains_eq_mem, decide_eq_false_iff_not] at hname
    exact hname
  have hnumeral : Text.trimWith (·.is Text.isBlank) (as ++ s.numeral.trim.toList) =
      s.numeral.trim.toList := by
    have hfront := Text.trimWith_between has (List.forall_mem_nil _) s.numeral.trim.toList
    rw [List.append_nil] at hfront
    exact hfront.trans (Text.trimWith_trimWith _ _)
  exact halves?_eq_some_iff.mpr ⟨_, _, htrim, hsign, s.trimmed, congrArg Text.mk hnumeral⟩

theorem read_trim_item : read s.item.trim = .ok (s.name, s.number) := by
  have hname : s.name.isEmpty = false :=
    List.isEmpty_eq_false_iff.mpr fun h => s.name_ne (congrArg Text.mk h)
  unfold read
  rw [s.halves_trim_item]
  dsimp only
  rw [hname, readFloat?_trim s.reads]
  rfl

end Spelling

/-- **Texts that are joined by commas** are read as the list of them, with the same assignments or the
same fault. **Assignments that are written out and joined** are read back, in order, and equal names
stay. -/
theorem readItems_joined :
    (∀ xs : List Text, readItems (.list (xs.map .text)) = readItems (.text (Text.join "," xs))) ∧
    ∀ ss : List Spelling, readItems (.text (Text.join "," (ss.map Spelling.item))) =
      .ok (ss.map fun s => (s.name, s.number)) := by
  refine ⟨fun xs => ?_, fun ss => ?_⟩
  · rw [readItems_list, readItems_text, items_join]
  · have hitems : (ss.map Spelling.item).flatMap items = ss.map fun s => s.item.trim := by
      rw [List.flatMap_map, List.map_eq_flatMap]
      exact List.flatMap_congr fun s _ => s.items_item
    rw [readItems_text, items_join, hitems, mapM_ok_iff, List.forall₂_map_left_iff,
      List.forall₂_map_right_iff, List.forall₂_same]
    exact fun s _ => s.read_trim_item

/-- A numeral with blanks around it. -/
def Spelling.spaced : Spelling where
  name := "x"
  numeral := " 1.5 "
  number := 1.5
  name_ne := by decide
  trimmed := by decide
  name_signless := by decide
  name_whole := by decide
  numeral_whole := by decide
  reads := rfl

/-- A numeral with a sign and an exponent, for the same name. -/
def Spelling.signed : Spelling where
  name := "x"
  numeral := "-2e3"
  number := -2e3
  name_ne := by decide
  trimmed := by decide
  name_signless := by decide
  name_whole := by decide
  numeral_whole := by decide
  reads := rfl

/-- A name that is given twice stays twice. -/
theorem readItems_twice :
    readItems (.list [.text "x= 1.5 ", .text "x=-2e3"]) = readItems (.text "x= 1.5 ,x=-2e3") ∧
    readItems (.text "x= 1.5 ,x=-2e3") = .ok [("x", 1.5), ("x", -2e3)] :=
  ⟨readItems_joined.1 ["x= 1.5 ", "x=-2e3"], readItems_joined.2 [.spaced, .signed]⟩

end FuzzyInference.Assignment
