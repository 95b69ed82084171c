import FuzzyInference.Proofs.Text.Words

/-!
# Lines that are joined

* `IsLine`: a text that is one line and not empty, as bare words are that are joined
  (`isLine_join`);
* `linesFrom_append`: the line that is read goes on to the next break;
* `lines_join`: **lines that are joined come apart again**, with or without a break behind the last;
* `unbroken_of_mem_lines`: nothing in a line breaks it.
-/

namespace FuzzyInference.Text

/-- The text is not empty, and nothing in it breaks lines. -/
structure IsLine (t : Text) : Prop where
  ne_nil : t.toList ≠ []
  unbroken : ∀ c ∈ t.toList, c.is isLineBreak = false

/-- Bare words that are joined are one line. -/
theorem isLine_join {w : Text} {ws : List Text} (h : ∀ v ∈ w :: ws, v.IsBare) :
    (join " " (w :: ws)).IsLine where
  ne_nil := by
    have hw := (h w List.mem_cons_self).ne_nil
    cases ws with
    | nil => rwa [toList_join_singleton]
    | cons v ws =>
      rw [toList_join_cons, List.append_assoc]
      exact List.append_ne_nil_of_left_ne_nil hw _
  unbroken := forall_mem_join (P := fun c => c.is isLineBreak = false) (by decide)
    fun v hv => (h v hv).line

theorem linesFrom_cons {c : CodePoint} (hc : c.is isLineBreak = false)
    (line rest : List CodePoint) : linesFrom line (c :: rest) = linesFrom (c :: line) rest := by
  have hreturn : c ≠ .char '\r' := by
    rintro rfl
    cases hc
  rw [linesFrom, if_neg (Bool.eq_false_iff.mp hc)]
  rintro rest rfl
  exact absurd rfl hreturn

theorem linesFrom_break (line rest : List CodePoint) :
    linesFrom line (.char '\n' :: rest) = line.reverse :: linesFrom [] rest := by
  rw [linesFrom]
  · rfl
  · intro rest h
    cases h

/-- Characters that break no line go on with the one that has begun. -/
theorem linesFrom_append : ∀ {cs : List CodePoint}, (∀ c ∈ cs, c.is isLineBreak = false) →
    ∀ line rest, linesFrom line (cs ++ rest) = linesFrom (cs.reverse ++ line) rest
  | [], _, _, _ => rfl
  | c :: cs, h, line, rest => by
    obtain ⟨hc, hcs⟩ := List.forall_mem_cons.mp h
    rw [List.cons_append, linesFrom_cons hc, linesFrom_append hcs, List.reverse_cons,
      List.append_assoc]
    rfl

/-- A line with a break behind it, or with nothing. -/
theorem linesFrom_line {t : Text} (ht : t.IsLine) {ending : List CodePoint}
    (h : ending = [] ∨ ending = [.char '\n']) : linesFrom [] (t.toList ++ ending) = [t.toList] := by
  rw [linesFrom_append ht.unbroken, List.append_nil]
  rcases h with rfl | rfl
  · have hne : t.toList.reverse.isEmpty = false := by simpa using ht.ne_nil
    rw [linesFrom, hne, List.reverse_reverse]
    rfl
  · rw [linesFrom_break, List.reverse_reverse]
    rfl

theorem linesFrom_join {ending : List CodePoint} (h : ending = [] ∨ ending = [.char '\n']) :
    ∀ {t : Text} {ts : List Text}, (∀ s ∈ t :: ts, s.IsLine) →
      linesFrom [] ((join "\n" (t :: ts)).toList ++ ending) = (t :: ts).map (·.toList)
  | t, [], hlines => by
    rw [toList_join_singleton]
    exact linesFrom_line (hlines t List.mem_cons_self) h
  | t, s :: ts, hlines => by
    obtain ⟨ht, hrest⟩ := List.forall_mem_cons.mp hlines
    have hbreak : ("\n" : Text).toList = [.char '\n'] := rfl
    rw [toList_join_cons, hbreak, List.append_assoc, List.append_assoc,
      linesFrom_append ht.unbroken, List.append_nil, List.singleton_append, linesFrom_break,
      List.reverse_reverse, linesFrom_join h hrest]
    rfl

/-- **Lines that are joined** come apart again, also if the last has a break behind it. -/
theorem lines_join {ts : List Text} (hne : ts ≠ []) (h : ∀ t ∈ ts, t.IsLine) :
    lines (join "\n" ts) = ts ∧ lines (join "\n" ts ++ "\n") = ts := by
  obtain ⟨t, ts, rfl⟩ := List.exists_cons_of_ne_nil hne
  have hmap : ((t :: ts).map (·.toList)).map ofList = t :: ts := by
    rw [List.map_map]
    exact List.map_id _
  constructor
  · have hread := linesFrom_join (Or.inl rfl) h
    rw [List.append_nil] at hread
    unfold lines
    rw [hread, hmap]
  · have hread := linesFrom_join (Or.inr rfl) h
    exact (congrArg (List.map ofList) hread).trans hmap

theorem unbroken_of_mem_linesFrom {line cs l : List CodePoint}
    (hline : ∀ c ∈ line, c.is isLineBreak = false) (h : l ∈ linesFrom line cs) :
    ∀ c ∈ l, c.is isLineBreak = false := by
  fun_induction linesFrom line cs with
  | case1 line hempty => cases h
  | case2 line hempty =>
    rw [List.mem_singleton.mp h]
    exact fun c hc => hline c (List.mem_reverse.mp hc)
  | case3 line rest ih =>
    rcases List.mem_cons.mp h with rfl | h
    · exact fun c hc => hline c (List.mem_reverse.mp hc)
    · exact ih (List.forall_mem_nil _) h
  | case4 line c rest hreturn hbreak ih =>
    rcases List.mem_cons.mp h with rfl | h
    · exact fun c hc => hline c (List.mem_reverse.mp hc)
    · exact ih (List.forall_mem_nil _) h
  | case5 line c rest hreturn hbreak ih =>
    exact ih (List.forall_mem_cons.mpr ⟨Bool.eq_false_iff.mpr hbreak, hline⟩) h

/-- **Nothing in a line breaks it.** -/
theorem unbroken_of_mem_lines {t line : Text} (h : line ∈ lines t) :
    ∀ c ∈ line.toList, c.is isLineBreak = false := by
  obtain ⟨l, hl, rfl⟩ := List.mem_map.mp h
  exact unbroken_of_mem_linesFrom (List.forall_mem_nil _) hl

end FuzzyInference.Text
