import FuzzyInference.Text.Blank
import FuzzyInference.Text.Lines
import FuzzyInference.Text.Words
import Mathlib.Data.List.DropRight
import Mathlib.Tactic.SplitIfs

/-!
# Words that are joined

A line without quotes, backslashes and comments is cut at its separators and nowhere else. So words
that are joined by blanks come apart again, and a text behind a word does not change it.

* `isMark`, `IsUnmarked`: the characters that mean something of their own among words, and what has
  none of them;
* `pieces`: what stands between separators; `split_of_unmarked`: **the words of a line without
  marks**;
* `IsBare`: a word that can stand alone; `split_join`: **bare words that are joined**;
* `split_behind`: a bare word with any text behind it;
* `exists_trimWith`, `trimWith_append`, `trimWith_between`, …: blanks at the ends.
-/

namespace FuzzyInference.Text

/-- Whether `c` quotes what follows it or starts a comment. -/
def isMark (c : Char) : Bool := c == '#' || c == '\\' || c == '\'' || c == '"'

/-- Nothing in the text quotes, escapes or starts a comment. -/
def IsUnmarked (cs : List CodePoint) : Prop := ∀ c ∈ cs, c.is isMark = false

namespace Words

/-! ### Lines without marks -/

/-- What stands between separators. -/
def pieces (cs : List CodePoint) : List Text :=
  ((cs.splitOnP (·.is Scan.isSeparator)).filter (!·.isEmpty)).map ofList

theorem pieces_append_separator {c : CodePoint} (hc : c.is Scan.isSeparator = true)
    (xs ys : List CodePoint) : pieces (xs ++ c :: ys) = pieces xs ++ pieces ys := by
  unfold pieces
  rw [List.splitOnP_append_cons xs ys hc, List.filter_append, List.map_append]

theorem pieces_of_word {w : List CodePoint} (hne : w ≠ [])
    (hw : ∀ c ∈ w, c.is Scan.isSeparator = false) : pieces w = [ofList w] := by
  have hempty : w.isEmpty = false := by simpa using hne
  unfold pieces
  rw [List.splitOnP_eq_singleton hw, List.filter_cons, hempty]
  rfl

theorem step_of_unmarked {s : Scan} (hmode : s.mode = .gap ∨ s.mode = .word) {c : CodePoint}
    (hc : c.is isMark = false) :
    s.step c = if c.is Scan.isSeparator then s.close .gap else s.push .word c := by
  have hne : ∀ m : Char, isMark m = true → c ≠ .char m := by
    rintro m hm rfl
    exact Bool.false_ne_true (hc.symm.trans hm)
  unfold Scan.step
  rcases hmode with hmode | hmode
  · rw [hmode]
    dsimp only
    rw [if_neg (hne '#' rfl), if_neg (hne '\\' rfl), if_neg (hne '\'' rfl), if_neg (hne '"' rfl)]
  · rw [hmode]
    dsimp only
    rw [if_neg (hne '#' rfl), if_neg (hne '\\' rfl), if_neg (hne '\'' rfl), if_neg (hne '"' rfl)]

/-- A word that is closed is a piece, unless it has no characters. -/
theorem done_close {s : Scan} (hquoted : s.quoted = false)
    (hcurrent : ∀ c ∈ s.current, c.is Scan.isSeparator = false) (mode : Mode) :
    (s.close mode).done.reverse = s.done.reverse ++ pieces s.current.reverse ∧
      (s.close mode).mode = mode ∧ (s.close mode).current = [] ∧
      (s.close mode).quoted = false := by
  unfold Scan.close
  rw [hquoted]
  cases hword : s.current with
  | nil => exact ⟨(List.append_nil _).symm, rfl, rfl, rfl⟩
  | cons c rest =>
    refine ⟨?_, rfl, rfl, rfl⟩
    have hnone : ∀ d ∈ (c :: rest).reverse, d.is Scan.isSeparator = false :=
      fun d hd => hcurrent d (hword ▸ List.mem_reverse.mp hd)
    rw [pieces_of_word (by simp) hnone]
    exact List.reverse_cons

/-- **The rest of a line without marks.** The word that has begun goes on to the next separator. -/
theorem finish_foldl : ∀ {cs : List CodePoint} {s : Scan}, (s.mode = .gap ∨ s.mode = .word) →
    s.quoted = false → (∀ c ∈ s.current, c.is Scan.isSeparator = false) → IsUnmarked cs →
      (cs.foldl Scan.step s).finish = .ok (s.done.reverse ++ pieces (s.current.reverse ++ cs))
  | [], s, hmode, hquoted, hcurrent, _ => by
    obtain ⟨hdone, -⟩ := done_close hquoted hcurrent .gap
    rw [List.append_nil, ← hdone]
    unfold Scan.finish
    rcases hmode with hmode | hmode
    · rw [List.foldl_nil, hmode]
    · rw [List.foldl_nil, hmode]
  | c :: cs, s, hmode, hquoted, hcurrent, hunmarked => by
    obtain ⟨hc, hcs⟩ := List.forall_mem_cons.mp hunmarked
    rw [List.foldl_cons, step_of_unmarked hmode hc]
    split_ifs with hseparator
    · obtain ⟨hdone, hmode', hcurrent', hquoted'⟩ := done_close hquoted hcurrent .gap
      rw [finish_foldl (Or.inl hmode') hquoted' (by simp [hcurrent']) hcs, hdone, hcurrent',
        pieces_append_separator hseparator, List.append_assoc]
      rfl
    · have hpushed : ∀ d ∈ (s.push .word c).current, d.is Scan.isSeparator = false :=
        List.forall_mem_cons.mpr ⟨Bool.eq_false_iff.mpr hseparator, hcurrent⟩
      rw [finish_foldl (s := s.push .word c) (Or.inr rfl) hquoted hpushed hcs]
      show Except.ok (s.done.reverse ++ pieces ((c :: s.current).reverse ++ cs)) = _
      rw [List.reverse_cons, List.append_assoc, List.singleton_append]

/-- **The words of a line without marks** are what stands between its separators. -/
theorem split_of_unmarked {t : Text} (h : IsUnmarked t.toList) : split t = .ok (pieces t.toList) :=
  finish_foldl (Or.inl rfl) rfl (List.forall_mem_nil _) h

end Words

/-! ### Bare words -/

/-- The text can stand alone as a word of a line: it is not empty, and nothing in it separates
words, breaks lines, or is a mark. -/
structure IsBare (t : Text) : Prop where
  ne_nil : t.toList ≠ []
  unmarked : IsUnmarked t.toList
  word : ∀ c ∈ t.toList, c.is Words.Scan.isSeparator = false
  line : ∀ c ∈ t.toList, c.is isLineBreak = false

instance (t : Text) : Decidable t.IsBare :=
  decidable_of_iff (t.toList.isEmpty = false ∧ (t.toList.all fun c =>
      !c.is isMark && (!c.is Words.Scan.isSeparator && !c.is isLineBreak)) = true) <| by
    simp only [List.isEmpty_eq_false_iff, List.all_eq_true, Bool.and_eq_true, Bool.not_eq_true']
    exact ⟨fun ⟨hne, h⟩ => ⟨hne, fun c hc => (h c hc).1, fun c hc => (h c hc).2.1,
      fun c hc => (h c hc).2.2⟩, fun ⟨hne, h₁, h₂, h₃⟩ => ⟨hne, fun c hc => ⟨h₁ c hc, h₂ c hc, h₃ c hc⟩⟩⟩

theorem toList_join_cons (between w v : Text) (ws : List Text) :
    (join between (w :: v :: ws)).toList =
      w.toList ++ between.toList ++ (join between (v :: ws)).toList :=
  List.intercalate_cons_cons

theorem toList_join_singleton (between w : Text) : (join between [w]).toList = w.toList := by
  show between.toList.intercalate [w.toList] = w.toList
  exact List.intercalate_singleton

/-- What holds of all characters of texts and between them, holds of those of the whole. -/
theorem forall_mem_join {P : CodePoint → Prop} {between : Text}
    (hbetween : ∀ c ∈ between.toList, P c) :
    ∀ {ws : List Text}, (∀ w ∈ ws, ∀ c ∈ w.toList, P c) → ∀ c ∈ (join between ws).toList, P c
  | [], _ => List.forall_mem_nil _
  | [w], h => by
    rw [toList_join_singleton]
    exact h w List.mem_cons_self
  | w :: v :: ws, h => by
    obtain ⟨hw, hrest⟩ := List.forall_mem_cons.mp h
    rw [toList_join_cons]
    exact List.forall_mem_append.mpr
      ⟨List.forall_mem_append.mpr ⟨hw, hbetween⟩, forall_mem_join hbetween hrest⟩

namespace Words

theorem pieces_join : ∀ {ws : List Text}, (∀ w ∈ ws, w.IsBare) →
    pieces (join " " ws).toList = ws
  | [], _ => rfl
  | [w], h => by
    have hw := h w List.mem_cons_self
    rw [toList_join_singleton, pieces_of_word hw.ne_nil hw.word]
    rfl
  | w :: v :: ws, h => by
    obtain ⟨hw, hrest⟩ := List.forall_mem_cons.mp h
    have hblank : (" " : Text).toList = [.char ' '] := rfl
    rw [toList_join_cons, hblank, List.append_assoc, List.singleton_append,
      pieces_append_separator rfl, pieces_of_word hw.ne_nil hw.word, pieces_join hrest]
    rfl

/-- **Bare words that are joined by blanks** come apart again. -/
theorem split_join {ws : List Text} (h : ∀ w ∈ ws, w.IsBare) : split (join " " ws) = .ok ws := by
  have hunmarked : IsUnmarked (join " " ws).toList :=
    forall_mem_join (P := fun c => c.is isMark = false) (by decide) fun w hw => (h w hw).unmarked
  rw [split_of_unmarked hunmarked, pieces_join h]

/-- **A bare word with any text behind it**, if the text has no marks, is a word. -/
theorem split_behind {w t : Text} (hw : w.IsBare) (ht : IsUnmarked t.toList) :
    split (w ++ " " ++ t) = .ok (w :: pieces t.toList) := by
  have hline : (w ++ " " ++ t).toList = w.toList ++ .char ' ' :: t.toList :=
    List.append_assoc _ _ _
  have hunmarked : IsUnmarked (w ++ " " ++ t).toList := by
    rw [hline]
    exact List.forall_mem_append.mpr ⟨hw.unmarked, List.forall_mem_cons.mpr ⟨rfl, ht⟩⟩
  rw [split_of_unmarked hunmarked, hline, pieces_append_separator rfl,
    pieces_of_word hw.ne_nil hw.word]
  rfl

end Words

/-! ### Blanks at the ends -/

theorem isBlank_of_isSeparator {c : CodePoint} (h : c.is Words.Scan.isSeparator = true) :
    c.is isBlank = true := by
  cases c with
  | half => cases h
  | char x =>
    simp only [CodePoint.is, Words.Scan.isSeparator, Bool.or_eq_true, beq_iff_eq] at h
    rcases h with ((rfl | rfl) | rfl) | rfl
    all_goals decide

section
variable {β : Type} {p : β → Bool}

/-- What trimming takes off. -/
theorem exists_trimWith (p : β → Bool) (cs : List β) :
    ∃ as bs, (∀ c ∈ as, p c = true) ∧ (∀ c ∈ bs, p c = true) ∧
      cs = as ++ (trimWith p cs ++ bs) := by
  refine ⟨cs.takeWhile p, (cs.dropWhile p).rtakeWhile p, fun c hc => List.mem_takeWhile_imp hc,
    fun c hc => List.mem_rtakeWhile_imp hc, ?_⟩
  show cs = cs.takeWhile p ++ ((cs.dropWhile p).rdropWhile p ++ _)
  rw [List.rdropWhile_append_rtakeWhile, List.takeWhile_append_dropWhile]

/-- It takes off nothing else. -/
theorem mem_trimWith {c : β} {cs : List β} (h : c ∈ cs) (hc : p c = false) :
    c ∈ trimWith p cs := by
  obtain ⟨as, bs, has, hbs, heq⟩ := exists_trimWith p cs
  rw [heq, List.mem_append, List.mem_append] at h
  rcases h with h | h | h
  · rw [has c h] at hc
    cases hc
  · exact h
  · rw [hbs c h] at hc
    cases hc

/-- A list that trimming leaves has no item of the class at its front. -/
theorem dropWhile_of_trimWith {cs : List β} (h : trimWith p cs = cs) : cs.dropWhile p = cs := by
  have hboth : (cs.dropWhile p).rdropWhile p = cs := h
  refine (List.dropWhile_sublist p).eq_of_length_le ?_
  calc cs.length = ((cs.dropWhile p).rdropWhile p).length := by rw [hboth]
    _ ≤ (cs.dropWhile p).length := (List.rdropWhile_prefix p _).length_le

/-- Nor has it one at its end. -/
theorem rdropWhile_of_trimWith {cs : List β} (h : trimWith p cs = cs) :
    cs.rdropWhile p = cs := by
  have hboth : (cs.dropWhile p).rdropWhile p = cs := h
  rwa [dropWhile_of_trimWith h] at hboth

/-- Trimming leaves what has been trimmed. -/
theorem trimWith_trimWith (p : β → Bool) (cs : List β) :
    trimWith p (trimWith p cs) = trimWith p cs := by
  have hfront : ((cs.dropWhile p).rdropWhile p).dropWhile p = (cs.dropWhile p).rdropWhile p := by
    refine List.dropWhile_eq_self_iff.mpr fun hl => ?_
    rw [(List.rdropWhile_prefix p (cs.dropWhile p)).getElem hl]
    exact List.dropWhile_eq_self_iff.mp (List.dropWhile_idempotent p cs) _
  show (((cs.dropWhile p).rdropWhile p).dropWhile p).rdropWhile p = (cs.dropWhile p).rdropWhile p
  rw [hfront, List.rdropWhile_idempotent]

/-- What begins with none of the class and ends with what trimming leaves, is left, too. -/
theorem trimWith_append {c : β} {cs ds : List β} (hc : p c = false) (hds : trimWith p ds = ds)
    (hne : ds ≠ []) : trimWith p (c :: cs ++ ds) = c :: cs ++ ds := by
  have hfront : (c :: cs ++ ds).dropWhile p = c :: cs ++ ds :=
    List.dropWhile_cons_of_neg (Bool.eq_false_iff.mp hc)
  show ((c :: cs ++ ds).dropWhile p).rdropWhile p = _
  rw [hfront, List.rdropWhile_eq_self_iff]
  intro hall
  rw [List.getLast_append_of_ne_nil hall hne]
  exact List.rdropWhile_eq_self_iff.mp (rdropWhile_of_trimWith hds) hne

theorem trimWith_cons {c : β} {cs : List β} (hc : p c = true) :
    trimWith p (c :: cs) = trimWith p cs := by
  unfold trimWith
  rw [List.dropWhile_cons_of_pos hc]

/-- Items of the class at both ends are taken off. -/
theorem trimWith_between {as bs : List β} (has : ∀ c ∈ as, p c = true) (hbs : ∀ c ∈ bs, p c = true)
    (cs : List β) : trimWith p (as ++ (cs ++ bs)) = trimWith p cs := by
  have hback : ∀ ds : List β, (ds ++ bs).rdropWhile p = ds.rdropWhile p := by
    intro ds
    unfold List.rdropWhile
    rw [List.reverse_append, List.dropWhile_append_of_pos fun c hc => hbs c (List.mem_reverse.mp hc)]
  show ((as ++ (cs ++ bs)).dropWhile p).rdropWhile p = (cs.dropWhile p).rdropWhile p
  rw [List.dropWhile_append_of_pos has, List.dropWhile_append]
  split_ifs with hempty
  · rw [List.isEmpty_iff.mp hempty, List.dropWhile_eq_nil_iff.mpr hbs]
  · exact hback _

/-- At the end nothing is taken off from what has no items of the class. -/
theorem rdropWhile_append_of_forall {as : List β} (h : ∀ c ∈ as, p c = false) (bs : List β) :
    (as ++ bs).rdropWhile p = as ++ bs.rdropWhile p := by
  have hback : as.reverse.dropWhile p = as.reverse :=
    List.dropWhile_eq_self_iff.mpr fun hl =>
      Bool.eq_false_iff.mp (h _ (List.mem_reverse.mp (List.getElem_mem hl)))
  unfold List.rdropWhile
  rw [List.reverse_append, List.dropWhile_append]
  split_ifs with hempty
  · rw [List.isEmpty_iff.mp hempty, hback, List.reverse_reverse, List.reverse_nil, List.append_nil]
  · rw [List.reverse_append, List.reverse_reverse]

/-- Items of the class in front of others are taken off, and those at the end. -/
theorem trimWith_front {gap as : List β} (hgap : ∀ c ∈ gap, p c = true) (hne : as ≠ [])
    (has : ∀ c ∈ as, p c = false) (bs : List β) :
    trimWith p (gap ++ (as ++ bs)) = as ++ bs.rdropWhile p := by
  obtain ⟨c, as, rfl⟩ := List.exists_cons_of_ne_nil hne
  have hfront : (gap ++ (c :: as ++ bs)).dropWhile p = c :: as ++ bs := by
    rw [List.dropWhile_append_of_pos hgap]
    exact List.dropWhile_cons_of_neg (Bool.eq_false_iff.mp (has c List.mem_cons_self))
  show ((gap ++ (c :: as ++ bs)).dropWhile p).rdropWhile p = _
  rw [hfront, rdropWhile_append_of_forall has]

/-- Trimming takes off what is taken off at the end, at least. -/
theorem length_trimWith_le (p : β → Bool) (cs : List β) :
    (trimWith p cs).length ≤ (cs.rdropWhile p).length := by
  have hback : trimWith p cs = trimWith p (cs.rdropWhile p) := by
    have hcs : cs = [] ++ (cs.rdropWhile p ++ cs.rtakeWhile p) :=
      List.rdropWhile_append_rtakeWhile.symm
    conv_lhs => rw [hcs]
    exact trimWith_between (List.forall_mem_nil _) (fun c hc => List.mem_rtakeWhile_imp hc) _
  rw [hback]
  calc (((cs.rdropWhile p).dropWhile p).rdropWhile p).length
      ≤ ((cs.rdropWhile p).dropWhile p).length := (List.rdropWhile_prefix p _).length_le
    _ ≤ (cs.rdropWhile p).length := (List.dropWhile_sublist p).length_le

/-- What has been cut off at the end of a list does not matter for a piece of it that is trimmed. -/
theorem trimWith_takeWhile (as cs : List β) (q : β → Bool) :
    trimWith p (as ++ (cs.rdropWhile p).takeWhile q) = trimWith p (as ++ cs.takeWhile q) := by
  have hcs : cs = cs.rdropWhile p ++ cs.rtakeWhile p := List.rdropWhile_append_rtakeWhile.symm
  conv_rhs => rw [hcs, List.takeWhile_append]
  split_ifs with hwhole
  · have hall : (cs.rdropWhile p).takeWhile q = cs.rdropWhile p :=
      (List.takeWhile_prefix q).eq_of_length hwhole
    have hblank : ∀ c ∈ (cs.rtakeWhile p).takeWhile q, p c = true :=
      fun c hc => List.mem_rtakeWhile_imp ((List.takeWhile_prefix q).subset hc)
    rw [hall, ← List.append_assoc]
    exact (trimWith_between (List.forall_mem_nil _) hblank _).symm
  · rfl

/-- A list without items of the class is left. -/
theorem trimWith_of_forall {cs : List β} (h : ∀ c ∈ cs, p c = false) : trimWith p cs = cs := by
  show (cs.dropWhile p).rdropWhile p = cs
  have hfront : cs.dropWhile p = cs :=
    List.dropWhile_eq_self_iff.mpr fun hl => Bool.eq_false_iff.mp (h _ (List.getElem_mem hl))
  rw [hfront, List.rdropWhile_eq_self_iff]
  exact fun hne => Bool.eq_false_iff.mp (h _ (List.getLast_mem hne))

end

end FuzzyInference.Text
