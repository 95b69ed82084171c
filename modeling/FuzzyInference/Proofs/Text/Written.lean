import FuzzyInference.Proofs.Text.Words

/-!
# Words as they are written

A word may be written in many ways: with a backslash before any of its characters, or with parts of
it between quotes. What is written and what is meant differ exactly if there are such marks.

* `Between`, `Writes`: what stands between double quotes, and a word as it is written, with what they
  mean;
* `eq_or_length_lt`: **a word is written as it is, or with marks** and then at greater length;
* `Opens`: the first word of a line as it is written, and the text behind it;
* `Writes.foldl`, `exists_writes`: what is written is read, and what is read has been written;
* `exists_opens`, `split_of_opens`: **the first word that is read** is the one that is written there.
-/

namespace FuzzyInference.Text.Words

/-! ### Ways of writing -/

/-- What stands between double quotes: a backslash there escapes quotes and backslashes, and stands
for itself before all else. -/
inductive Between : List CodePoint → List CodePoint → Prop
  | nil : Between [] []
  | plain {c : CodePoint} {ds cs : List CodePoint} (quote : c ≠ .char '"') (escape : c ≠ .char '\\')
      (rest : Between ds cs) : Between (c :: ds) (c :: cs)
  | escaped {c : CodePoint} {ds cs : List CodePoint} (mark : c = .char '\\' ∨ c = .char '"')
      (rest : Between ds cs) : Between (.char '\\' :: c :: ds) (c :: cs)
  | kept {c : CodePoint} {ds cs : List CodePoint} (mark : ¬ (c = .char '\\' ∨ c = .char '"'))
      (rest : Between ds cs) : Between (.char '\\' :: c :: ds) (.char '\\' :: c :: cs)

/-- A word as it is written, and the word. -/
inductive Writes : List CodePoint → List CodePoint → Prop
  | nil : Writes [] []
  | plain {c : CodePoint} {w v : List CodePoint} (word : c.is Scan.isSeparator = false)
      (unmarked : c.is isMark = false) (rest : Writes w v) : Writes (c :: w) (c :: v)
  | escaped {c : CodePoint} {w v : List CodePoint} (rest : Writes w v) :
      Writes (.char '\\' :: c :: w) (c :: v)
  | single {cs w v : List CodePoint} (quote : .char '\'' ∉ cs) (rest : Writes w v) :
      Writes (.char '\'' :: (cs ++ .char '\'' :: w)) (cs ++ v)
  | double {ds cs w v : List CodePoint} (between : Between ds cs) (rest : Writes w v) :
      Writes (.char '"' :: (ds ++ .char '"' :: w)) (cs ++ v)

/-- What holds no backslashes and no double quotes stands for itself. -/
theorem Between.refl {cs : List CodePoint} (h : ∀ c ∈ cs, c ≠ .char '"' ∧ c ≠ .char '\\') :
    Between cs cs := by
  induction cs with
  | nil => exact .nil
  | cons c cs ih =>
    obtain ⟨hc, hcs⟩ := List.forall_mem_cons.mp h
    exact .plain hc.1 hc.2 (ih hcs)

theorem Between.length_le {ds cs : List CodePoint} (h : Between ds cs) : cs.length ≤ ds.length := by
  induction h with
  | nil => exact Nat.le_refl _
  | plain _ _ _ ih | kept _ _ ih | escaped _ _ ih =>
    simp only [List.length_cons]
    omega

theorem Between.mem {ds cs : List CodePoint} (h : Between ds cs) :
    ∀ c ∈ ds, c ∈ cs ∨ c = .char '\\' := by
  induction h with
  | nil => exact List.forall_mem_nil _
  | plain _ _ _ ih =>
    refine List.forall_mem_cons.mpr ⟨Or.inl List.mem_cons_self, fun c hc => ?_⟩
    exact (ih c hc).imp_left (List.mem_cons_of_mem _)
  | escaped _ _ ih =>
    refine List.forall_mem_cons.mpr ⟨Or.inr rfl, List.forall_mem_cons.mpr
      ⟨Or.inl List.mem_cons_self, fun c hc => ?_⟩⟩
    exact (ih c hc).imp_left (List.mem_cons_of_mem _)
  | kept _ _ ih =>
    refine List.forall_mem_cons.mpr ⟨Or.inr rfl, List.forall_mem_cons.mpr
      ⟨Or.inl (List.mem_cons_of_mem _ List.mem_cons_self), fun c hc => ?_⟩⟩
    exact (ih c hc).imp_left fun h => List.mem_cons_of_mem _ (List.mem_cons_of_mem _ h)

/-- **What is written is meant**, but for the marks. -/
theorem Writes.mem {w v : List CodePoint} (h : Writes w v) :
    ∀ c ∈ w, c ∈ v ∨ c = .char '\\' ∨ c = .char '\'' ∨ c = .char '"' := by
  induction h with
  | nil => exact List.forall_mem_nil _
  | plain _ _ _ ih =>
    refine List.forall_mem_cons.mpr ⟨Or.inl List.mem_cons_self, fun c hc => ?_⟩
    exact (ih c hc).imp_left (List.mem_cons_of_mem _)
  | escaped _ ih =>
    refine List.forall_mem_cons.mpr ⟨Or.inr (Or.inl rfl), List.forall_mem_cons.mpr
      ⟨Or.inl List.mem_cons_self, fun c hc => ?_⟩⟩
    exact (ih c hc).imp_left (List.mem_cons_of_mem _)
  | single _ _ ih =>
    refine List.forall_mem_cons.mpr ⟨by simp, List.forall_mem_append.mpr ⟨fun c hc => ?_,
      List.forall_mem_cons.mpr ⟨by simp, fun c hc => ?_⟩⟩⟩
    · exact Or.inl (List.mem_append_left _ hc)
    · exact (ih c hc).imp_left (List.mem_append_right _)
  | double between _ ih =>
    refine List.forall_mem_cons.mpr ⟨by simp, List.forall_mem_append.mpr ⟨fun c hc => ?_,
      List.forall_mem_cons.mpr ⟨by simp, fun c hc => ?_⟩⟩⟩
    · rcases between.mem c hc with hc | hc
      · exact Or.inl (List.mem_append_left _ hc)
      · exact Or.inr (Or.inl hc)
    · exact (ih c hc).imp_left (List.mem_append_right _)

theorem not_isUnmarked {m : Char} (hm : isMark m = true) {w : List CodePoint} :
    ¬ IsUnmarked (.char m :: w) := by
  intro h
  exact Bool.false_ne_true ((h _ List.mem_cons_self).symm.trans hm)

theorem length_le_of_forms {w v : List CodePoint}
    (h : IsUnmarked w ∧ w = v ∨ ¬ IsUnmarked w ∧ v.length < w.length) : v.length ≤ w.length := by
  rcases h with ⟨-, rfl⟩ | ⟨-, h⟩
  · exact Nat.le_refl _
  · exact h.le

/-- **A word is written as it is, or with marks**, and then at greater length. -/
theorem Writes.eq_or_length_lt {w v : List CodePoint} (h : Writes w v) :
    IsUnmarked w ∧ w = v ∨ ¬ IsUnmarked w ∧ v.length < w.length := by
  induction h with
  | nil => exact Or.inl ⟨List.forall_mem_nil _, rfl⟩
  | @plain c w v _ unmarked _ ih =>
    rcases ih with ⟨hw, rfl⟩ | ⟨hw, hlength⟩
    · exact Or.inl ⟨List.forall_mem_cons.mpr ⟨unmarked, hw⟩, rfl⟩
    · refine Or.inr ⟨fun h => hw (List.forall_mem_cons.mp h).2, ?_⟩
      simp only [List.length_cons]
      omega
  | @escaped c w v _ ih =>
    have hle := length_le_of_forms ih
    refine Or.inr ⟨not_isUnmarked rfl, ?_⟩
    simp only [List.length_cons]
    omega
  | @single cs w v _ _ ih =>
    have hle := length_le_of_forms ih
    refine Or.inr ⟨not_isUnmarked rfl, ?_⟩
    simp only [List.length_cons, List.length_append]
    omega
  | @double ds cs w v between _ ih =>
    have hle := length_le_of_forms ih
    have hbetween := between.length_le
    refine Or.inr ⟨not_isUnmarked rfl, ?_⟩
    simp only [List.length_cons, List.length_append]
    omega

theorem Writes.ne_nil {w v : List CodePoint} (h : Writes w v) (hv : v ≠ []) : w ≠ [] := by
  have hle := length_le_of_forms h.eq_or_length_lt
  have hpos := List.length_pos_iff.mpr hv
  exact List.length_pos_iff.mp (by omega)

/-! ### Scans of what is written -/

section
variable {d : List Text} {current : List CodePoint} {q : Bool} {ws : List Text}

theorem step_mark {m : Char} (hm : m = '\'' ∨ m = '"') :
    Scan.step ⟨.word, d, current, q⟩ (.char m) = ⟨.quoted m, d, current, true⟩ := by
  rcases hm with rfl | rfl <;> rfl

theorem step_close (m : Char) :
    Scan.step ⟨.quoted m, d, current, q⟩ (.char m) = ⟨.word, d, current, q⟩ := by
  unfold Scan.step
  exact if_pos rfl

theorem foldl_single {cs : List CodePoint} (h : .char '\'' ∉ cs) :
    cs.foldl Scan.step ⟨.quoted '\'', d, current, q⟩ =
      ⟨.quoted '\'', d, cs.reverse ++ current, q⟩ := by
  induction cs generalizing current with
  | nil => rfl
  | cons c cs ih =>
    rw [List.mem_cons, not_or] at h
    obtain ⟨hc, hcs⟩ := h
    have hstep : Scan.step ⟨.quoted '\'', d, current, q⟩ c = ⟨.quoted '\'', d, c :: current, q⟩ := by
      unfold Scan.step
      dsimp only
      rw [if_neg (Ne.symm hc), if_neg (by simp)]
      rfl
    rw [List.foldl_cons, hstep, ih hcs, List.reverse_cons, List.append_assoc]
    rfl

theorem step_plain {c : CodePoint} (quote : c ≠ .char '"') (escape : c ≠ .char '\\') :
    Scan.step ⟨.quoted '"', d, current, q⟩ c = ⟨.quoted '"', d, c :: current, q⟩ := by
  unfold Scan.step
  dsimp only
  rw [if_neg quote, if_neg (by simp [escape])]
  rfl

theorem foldl_escaped {c : CodePoint} (mark : c = .char '\\' ∨ c = .char '"')
    (cs : List CodePoint) : (.char '\\' :: c :: cs).foldl Scan.step ⟨.quoted '"', d, current, q⟩ =
      cs.foldl Scan.step ⟨.quoted '"', d, c :: current, q⟩ := by
  rcases mark with rfl | rfl <;> rfl

theorem foldl_kept {c : CodePoint} (mark : ¬ (c = .char '\\' ∨ c = .char '"'))
    (cs : List CodePoint) : (.char '\\' :: c :: cs).foldl Scan.step ⟨.quoted '"', d, current, q⟩ =
      cs.foldl Scan.step ⟨.quoted '"', d, c :: .char '\\' :: current, q⟩ := by
  have hstep : Scan.step ⟨.escapedIn '"', d, current, q⟩ c =
      ⟨.quoted '"', d, c :: .char '\\' :: current, q⟩ := by
    unfold Scan.step
    dsimp only
    rw [if_neg (by simpa using mark)]
    rfl
  show cs.foldl Scan.step (Scan.step ⟨.escapedIn '"', d, current, q⟩ c) = _
  rw [hstep]

theorem Between.foldl {ds cs : List CodePoint} (h : Between ds cs) :
    ds.foldl Scan.step ⟨.quoted '"', d, current, q⟩ =
      ⟨.quoted '"', d, cs.reverse ++ current, q⟩ := by
  induction h generalizing current with
  | nil => rfl
  | plain quote escape _ ih =>
    rw [List.foldl_cons, step_plain quote escape, ih, List.reverse_cons, List.append_assoc]
    rfl
  | escaped mark _ ih =>
    rw [foldl_escaped mark, ih, List.reverse_cons, List.append_assoc]
    rfl
  | kept mark _ ih =>
    rw [foldl_kept mark, ih, List.reverse_cons, List.reverse_cons, List.append_assoc,
      List.append_assoc]
    rfl

/-- **What is written is read.** -/
theorem Writes.foldl {w v : List CodePoint} (h : Writes w v) (d : List Text)
    (current : List CodePoint) (q : Bool) :
    ∃ q', w.foldl Scan.step ⟨.word, d, current, q⟩ = ⟨.word, d, v.reverse ++ current, q'⟩ := by
  induction h generalizing current q with
  | nil => exact ⟨q, rfl⟩
  | @plain c w v word unmarked _ ih =>
    obtain ⟨q', h⟩ := ih (c :: current) q
    refine ⟨q', ?_⟩
    rw [List.foldl_cons, step_of_unmarked (Or.inr rfl) unmarked, if_neg (Bool.eq_false_iff.mp word),
      List.reverse_cons, List.append_assoc]
    exact h
  | @escaped c w v _ ih =>
    obtain ⟨q', h⟩ := ih (c :: current) q
    refine ⟨q', ?_⟩
    rw [List.reverse_cons, List.append_assoc]
    exact h
  | @single cs w v quote _ ih =>
    obtain ⟨q', h⟩ := ih (cs.reverse ++ current) true
    refine ⟨q', ?_⟩
    rw [List.foldl_cons, step_mark (Or.inl rfl), List.foldl_append, foldl_single quote,
      List.foldl_cons, step_close, h, List.reverse_append, List.append_assoc]
  | @double ds cs w v between _ ih =>
    obtain ⟨q', h⟩ := ih (cs.reverse ++ current) true
    refine ⟨q', ?_⟩
    rw [List.foldl_cons, step_mark (Or.inr rfl), List.foldl_append, between.foldl,
      List.foldl_cons, step_close, h, List.reverse_append, List.append_assoc]

/-- A quote that is closed. -/
theorem exists_single {cs : List CodePoint}
    (h : (cs.foldl Scan.step ⟨.quoted '\'', d, current, q⟩).finish = .ok ws) :
    ∃ vs rest, cs = vs ++ .char '\'' :: rest ∧ .char '\'' ∉ vs ∧
      (rest.foldl Scan.step ⟨.word, d, vs.reverse ++ current, q⟩).finish = .ok ws := by
  by_cases hmem : .char '\'' ∈ cs
  · obtain ⟨vs, rest, rfl, hvs⟩ := List.eq_append_cons_of_mem hmem
    rw [List.foldl_append, foldl_single hvs, List.foldl_cons, step_close] at h
    exact ⟨vs, rest, rfl, hvs, h⟩
  · rw [foldl_single hmem] at h
    cases h

/-- A double quote that is closed. -/
theorem exists_between {current : List CodePoint} : ∀ {cs : List CodePoint},
    (cs.foldl Scan.step ⟨.quoted '"', d, current, q⟩).finish = .ok ws →
    ∃ ds vs rest, cs = ds ++ .char '"' :: rest ∧ Between ds vs ∧
      (rest.foldl Scan.step ⟨.word, d, vs.reverse ++ current, q⟩).finish = .ok ws
  | [], h => by cases h
  | [c], h => by
    by_cases hquote : c = .char '"'
    · subst hquote
      exact ⟨[], [], [], rfl, .nil, h⟩
    · by_cases hescape : c = .char '\\'
      · subst hescape
        cases h
      · rw [List.foldl_cons, step_plain hquote hescape] at h
        cases h
  | c :: e :: cs, h => by
    by_cases hquote : c = .char '"'
    · subst hquote
      exact ⟨[], [], e :: cs, rfl, .nil, h⟩
    · by_cases hescape : c = .char '\\'
      · subst hescape
        by_cases hmark : e = .char '\\' ∨ e = .char '"'
        · rw [foldl_escaped hmark] at h
          obtain ⟨ds, vs, rest, rfl, hbetween, hrest⟩ := exists_between h
          refine ⟨_, _, rest, rfl, .escaped hmark hbetween, ?_⟩
          rw [List.reverse_cons, List.append_assoc]
          exact hrest
        · rw [foldl_kept hmark] at h
          obtain ⟨ds, vs, rest, rfl, hbetween, hrest⟩ := exists_between h
          refine ⟨_, _, rest, rfl, .kept hmark hbetween, ?_⟩
          rw [List.reverse_cons, List.reverse_cons, List.append_assoc, List.append_assoc]
          exact hrest
      · rw [List.foldl_cons, step_plain hquote hescape] at h
        obtain ⟨ds, vs, rest, heq, hbetween, hrest⟩ := exists_between h
        refine ⟨c :: ds, c :: vs, rest, ?_, .plain hquote hescape hbetween, ?_⟩
        · rw [heq]
          rfl
        · rw [List.reverse_cons, List.append_assoc]
          exact hrest

/-- What may follow a word: nothing, a separator or a comment. -/
def Ends (behind : List CodePoint) : Prop :=
  ∀ c ∈ behind.head?, c.is Scan.isSeparator = true ∨ c = .char '#'

theorem isMark_cases {c : CodePoint} (h : c.is isMark = true) :
    c = .char '#' ∨ c = .char '\\' ∨ c = .char '\'' ∨ c = .char '"' := by
  cases c with
  | half => cases h
  | char x => simpa [CodePoint.is, isMark, or_assoc] using h

/-- Where a word does not end, a piece of it has been written. -/
theorem exists_piece {c : CodePoint} {cs : List CodePoint}
    (hword : ¬ (c.is Scan.isSeparator = true ∨ c = .char '#'))
    (h : ((c :: cs).foldl Scan.step ⟨.word, d, current, q⟩).finish = .ok ws) :
    ∃ p v rest q', c :: cs = p ++ rest ∧ p ≠ [] ∧
      (∀ w u, Writes w u → Writes (p ++ w) (v ++ u)) ∧ (q = true → q' = true) ∧
      (v ≠ [] ∨ q' = true) ∧
      (rest.foldl Scan.step ⟨.word, d, v.reverse ++ current, q'⟩).finish = .ok ws := by
  obtain ⟨hseparator, hcomment⟩ := not_or.mp hword
  by_cases hmark : c.is isMark = true
  · rcases isMark_cases hmark with rfl | rfl | rfl | rfl
    · exact absurd rfl hcomment
    · cases cs with
      | nil => cases h
      | cons e cs =>
        exact ⟨[.char '\\', e], [e], cs, q, rfl, List.cons_ne_nil _ _, fun w u hw => hw.escaped, id,
          Or.inl (List.cons_ne_nil _ _), h⟩
    · rw [List.foldl_cons, step_mark (Or.inl rfl)] at h
      obtain ⟨vs, rest, rfl, hvs, hrest⟩ := exists_single h
      refine ⟨.char '\'' :: (vs ++ [.char '\'']), vs, rest, true, by simp, List.cons_ne_nil _ _,
        fun w u hw => ?_, fun _ => rfl, Or.inr rfl, hrest⟩
      rw [List.cons_append, List.append_assoc]
      exact .single hvs hw
    · rw [List.foldl_cons, step_mark (Or.inr rfl)] at h
      obtain ⟨ds, vs, rest, rfl, hbetween, hrest⟩ := exists_between h
      refine ⟨.char '"' :: (ds ++ [.char '"']), vs, rest, true, by simp, List.cons_ne_nil _ _,
        fun w u hw => ?_, fun _ => rfl, Or.inr rfl, hrest⟩
      rw [List.cons_append, List.append_assoc]
      exact .double hbetween hw
  · rw [Bool.not_eq_true] at hmark hseparator
    rw [List.foldl_cons, step_of_unmarked (Or.inr rfl) hmark,
      if_neg (Bool.eq_false_iff.mp hseparator)] at h
    exact ⟨[c], [c], cs, q, rfl, List.cons_ne_nil _ _, fun w u hw => hw.plain hseparator hmark, id,
      Or.inl (List.cons_ne_nil _ _), h⟩

/-- **What is read as a word has been written so.** -/
theorem exists_writes {cs : List CodePoint}
    (h : (cs.foldl Scan.step ⟨.word, d, current, q⟩).finish = .ok ws) :
    ∃ w v behind q', cs = w ++ behind ∧ Writes w v ∧ Ends behind ∧ (q = true → q' = true) ∧
      (w = [] ∨ v ≠ [] ∨ q' = true) ∧
      (behind.foldl Scan.step ⟨.word, d, v.reverse ++ current, q'⟩).finish = .ok ws := by
  induction hlength : cs.length using Nat.strong_induction_on generalizing cs current q with
  | _ n ih =>
    cases cs with
    | nil => exact ⟨[], [], [], q, rfl, .nil, by simp [Ends], id, Or.inl rfl, h⟩
    | cons c cs =>
      by_cases hends : c.is Scan.isSeparator = true ∨ c = .char '#'
      · exact ⟨[], [], c :: cs, q, rfl, .nil, by simpa [Ends] using hends, id, Or.inl rfl, h⟩
      · obtain ⟨p, v, rest, q', heq, hne, hpiece, hq, hquoted, hrest⟩ := exists_piece hends h
        have hshorter : rest.length < n := by
          have hsum := congrArg List.length heq
          have hpos := List.length_pos_iff.mpr hne
          rw [List.length_append] at hsum
          omega
        obtain ⟨w, u, behind, q'', rfl, hwrites, hbehind, hq', -, hfinish⟩ :=
          ih _ hshorter hrest rfl
        refine ⟨p ++ w, v ++ u, behind, q'', by rw [heq, List.append_assoc], hpiece w u hwrites,
          hbehind, fun h => hq' (hq h), Or.inr ?_, ?_⟩
        · exact hquoted.imp (List.append_ne_nil_of_left_ne_nil · u) hq'
        · rw [List.reverse_append, List.append_assoc]
          exact hfinish

end

/-! ### First words -/

theorem suffix_close (s : Scan) (mode : Mode) : s.done <:+ (s.close mode).done := by
  unfold Scan.close
  split_ifs
  · exact List.suffix_rfl
  · exact List.suffix_cons _ _

theorem suffix_step (s : Scan) (c : CodePoint) : s.done <:+ (s.step c).done := by
  unfold Scan.step
  split
  · split_ifs
    · exact suffix_close s .gap
    · exact suffix_close s .comment
    all_goals exact List.suffix_rfl
  · split_ifs
    · exact suffix_close s .gap
    · exact suffix_close s .comment
    all_goals exact List.suffix_rfl
  · split_ifs
    all_goals exact List.suffix_rfl
  · exact List.suffix_rfl
  · split_ifs
    all_goals exact List.suffix_rfl
  · split_ifs
    all_goals exact List.suffix_rfl

/-- Words that have been read stay. -/
theorem isPrefix_of_finish {cs : List CodePoint} {s : Scan} {ws : List Text}
    (h : (cs.foldl Scan.step s).finish = .ok ws) : s.done.reverse <+: ws := by
  induction cs generalizing s with
  | nil =>
    rw [List.foldl_nil] at h
    unfold Scan.finish at h
    split at h
    all_goals cases h
    all_goals exact List.reverse_prefix.mpr (suffix_close s .gap)
  | cons c cs ih => exact (List.reverse_prefix.mpr (suffix_step s c)).trans (ih h)

/-- A word that has begun is the first one, if what follows ends it. -/
theorem exists_rest {behind current : List CodePoint} {q : Bool} {ws : List Text}
    (hends : Ends behind) (hbegun : current ≠ [] ∨ q = true)
    (h : (behind.foldl Scan.step ⟨.word, [], current, q⟩).finish = .ok ws) :
    ∃ rest, ws = ofList current.reverse :: rest := by
  have hclose : ∀ mode, Scan.close ⟨.word, [], current, q⟩ mode =
      ⟨mode, [ofList current.reverse], [], false⟩ := by
    intro mode
    refine if_neg fun hnothing => ?_
    rw [Bool.and_eq_true, List.isEmpty_iff, Bool.not_eq_true'] at hnothing
    rcases hbegun with hcurrent | hq
    · exact hcurrent hnothing.1
    · exact Bool.false_ne_true (hnothing.2.symm.trans hq)
  cases behind with
  | nil =>
    have hfinish : Scan.finish ⟨.word, [], current, q⟩ =
        .ok (Scan.close ⟨.word, [], current, q⟩ .gap).done.reverse := rfl
    rw [List.foldl_nil, hfinish, hclose] at h
    cases h
    exact ⟨[], rfl⟩
  | cons c behind =>
    have hstep : ∃ mode, Scan.step ⟨.word, [], current, q⟩ c =
        ⟨mode, [ofList current.reverse], [], false⟩ := by
      rcases hends c rfl with hc | rfl
      · exact ⟨.gap, (if_pos hc).trans (hclose .gap)⟩
      · exact ⟨.comment, hclose .comment⟩
    obtain ⟨mode, hstep⟩ := hstep
    rw [List.foldl_cons, hstep] at h
    obtain ⟨rest, rfl⟩ := isPrefix_of_finish h
    exact ⟨rest, rfl⟩

/-- The line has separators in front, then a word as it is written, and then what ends it. -/
structure Opens (line : Text) (gap w behind : List CodePoint) (head : Text) : Prop where
  line_eq : line.toList = gap ++ (w ++ behind)
  gap : ∀ c ∈ gap, c.is Scan.isSeparator = true
  writes : Writes w head.toList
  ends : Ends behind

theorem foldl_gap {gap : List CodePoint} (h : ∀ c ∈ gap, c.is Scan.isSeparator = true) :
    gap.foldl Scan.step Scan.init = Scan.init := by
  induction gap with
  | nil => rfl
  | cons c gap ih =>
    obtain ⟨hc, hgap⟩ := List.forall_mem_cons.mp h
    have hstep : Scan.step Scan.init c = Scan.init := if_pos hc
    rw [List.foldl_cons, hstep, ih hgap]

/-- A comment goes on to the end of the line. -/
theorem foldl_comment {cs : List CodePoint} (h : .char '\n' ∉ cs) (d : List Text) :
    cs.foldl Scan.step ⟨.comment, d, [], false⟩ = ⟨.comment, d, [], false⟩ := by
  induction cs with
  | nil => rfl
  | cons c cs ih =>
    rw [List.mem_cons, not_or] at h
    have hstep : Scan.step ⟨.comment, d, [], false⟩ c = ⟨.comment, d, [], false⟩ :=
      if_neg (Ne.symm h.1)
    rw [List.foldl_cons, hstep, ih h.2]

/-- **The first word that is read** has been written in front of the line. -/
theorem exists_opens {line head : Text} {rest : List Text} (hline : .char '\n' ∉ line.toList)
    (h : split line = .ok (head :: rest)) : ∃ gap w behind, Opens line gap w behind head := by
  have hgap : ∀ c ∈ line.toList.takeWhile (·.is Scan.isSeparator), c.is Scan.isSeparator = true :=
    fun c hc => List.mem_takeWhile_imp hc
  have hline_eq : line.toList = line.toList.takeWhile (·.is Scan.isSeparator) ++
      line.toList.dropWhile (·.is Scan.isSeparator) := List.takeWhile_append_dropWhile.symm
  have hscan : ((line.toList.dropWhile (·.is Scan.isSeparator)).foldl Scan.step Scan.init).finish =
      .ok (head :: rest) := by
    unfold split at h
    rwa [hline_eq, List.foldl_append, foldl_gap hgap] at h
  cases hcs : line.toList.dropWhile (·.is Scan.isSeparator) with
  | nil =>
    rw [hcs] at hscan
    cases hscan
  | cons c cs =>
    have hword : ¬ c.is Scan.isSeparator = true := by
      have hhead := List.head?_dropWhile_not (·.is Scan.isSeparator) line.toList
      rw [hcs] at hhead
      simpa using hhead
    have hcomment : c ≠ .char '#' := by
      rintro rfl
      have hmem : ∀ e ∈ cs, e ∈ line.toList := fun e he =>
        (List.dropWhile_sublist (·.is Scan.isSeparator)).subset (hcs ▸ List.mem_cons_of_mem _ he)
      have hstep : Scan.step Scan.init (.char '#') = ⟨.comment, [], [], false⟩ := rfl
      rw [hcs, List.foldl_cons, hstep, foldl_comment fun h => hline (hmem _ h)] at hscan
      cases hscan
    have hread : ((c :: cs).foldl Scan.step ⟨.word, [], [], false⟩).finish = .ok (head :: rest) := by
      rw [hcs] at hscan
      exact hscan
    obtain ⟨w, v, behind, q, heq, hwrites, hends, -, hbegun, hfinish⟩ := exists_writes hread
    have hne : w ≠ [] := by
      rintro rfl
      have hbehind : behind.head? = some c := by
        rw [← List.nil_append behind, ← heq]
        rfl
      exact (hends c hbehind).elim hword hcomment
    rw [List.append_nil] at hfinish
    obtain ⟨rest', hws⟩ := exists_rest hends
      ((hbegun.resolve_left hne).imp_left (mt List.reverse_eq_nil_iff.mp)) hfinish
    rw [List.reverse_reverse] at hws
    refine ⟨_, w, behind, ?_, hgap, ?_, hends⟩
    · rw [← heq, ← hcs]
      exact hline_eq
    · rw [(List.cons.inj hws).1]
      exact hwrites

/-- **A word that has been written in front of the line** is the first one that is read. -/
theorem split_of_opens {line head : Text} {gap w behind : List CodePoint} {ws : List Text}
    (h : Opens line gap w behind head) (hne : head ≠ Text.empty) (hsplit : split line = .ok ws) :
    ∃ rest, ws = head :: rest := by
  have hnil : head.toList ≠ [] := fun hnil => hne (congrArg Text.mk hnil)
  have hscan : w.foldl Scan.step Scan.init = w.foldl Scan.step ⟨.word, [], [], false⟩ := by
    obtain ⟨c, w, rfl⟩ := List.exists_cons_of_ne_nil (h.writes.ne_nil hnil)
    rfl
  obtain ⟨q, hwritten⟩ := h.writes.foldl [] [] false
  unfold split at hsplit
  rw [h.line_eq, List.foldl_append, foldl_gap h.gap, List.foldl_append, hscan, hwritten,
    List.append_nil] at hsplit
  obtain ⟨rest, hws⟩ := exists_rest h.ends (Or.inl (mt List.reverse_eq_nil_iff.mp hnil)) hsplit
  rw [List.reverse_reverse] at hws
  exact ⟨rest, hws⟩

end FuzzyInference.Text.Words
