import FuzzyInference.Text.Blank
import FuzzyInference.Text.Lowercase
import Mathlib.Data.List.Forall2
import Mathlib.Tactic.SplitIfs

/-!
# Lower case

Names are put in lower case when they are declared and again when they are looked up, so the second
time must not change anything. It does not: no partner in the table has a partner of its own, and
the characters with a rule of their own become characters without one.

* `Text.Settled`: the code points that lower-casing leaves, whatever stands around them;
* `Text.not_holds_shifted`: the table leads out of itself;
* `Text.settled_of_mem_lowercase`: lower-casing gives settled code points only;
* `Text.lowercase_lowercase`: lower-casing twice;
* `Text.settled_of_isPlain`: small letters, digits and marks of the first characters are settled;
* `Text.settled_of_isBlank`: so are blanks;
* `Text.length_lowerAfter`: how long a text is in lower case;
* `Text.Lowers d c`: the code point `d` becomes `c` wherever it stands;
* `Text.mem_of_mem_lowercase_trim`: no character before the letters comes from another one.
-/

namespace FuzzyInference.Text

/-! ### The table -/

/-- Whether the run holds the partner of a code point. -/
def CaseRun.Holds (r : CaseRun) (n : Nat) : Prop :=
  r.first ≤ n ∧ n ≤ r.last ∧ (n - r.first) % r.step = 0

/-- A test that no partner of what `r` holds is held by `q`: the two stand apart, or they interleave
as every second code point. -/
def CaseRun.leadsOutOf (r q : CaseRun) : Bool :=
  Nat.blt q.last ((r.first : Int) + r.shift).toNat ||
    (Nat.blt ((r.last : Int) + r.shift).toNat q.first ||
      (Nat.beq r.step 2 || Nat.beq r.first r.last) && (Nat.beq q.step 2 &&
        Nat.beq ((((r.first : Int) + r.shift).toNat + q.first) % 2) 1))

/-- Each run begins behind zero and its shift leads nowhere below it, and no partner is held by a
run. -/
theorem caseRuns_leadOut : ∀ r ∈ caseRuns, 0 < r.first ∧ 0 ≤ (r.first : Int) + r.shift ∧
    caseRuns.all r.leadsOutOf = true := by
  decide +kernel

/-- No partner is one of the two characters with a rule of their own. -/
theorem caseRuns_avoid : ∀ r ∈ caseRuns,
    r.leadsOutOf ⟨0x130, 0x130, 1, 0⟩ = true ∧ r.leadsOutOf ⟨0x3a3, 0x3a3, 1, 0⟩ = true := by
  decide +kernel

/-- **The table leads out of itself.** -/
theorem not_holds_shifted {r q : CaseRun} {n : Nat} (hstart : 0 ≤ (r.first : Int) + r.shift)
    (hout : r.leadsOutOf q = true) (hr : r.Holds n) : ¬ q.Holds ((n : Int) + r.shift).toNat := by
  obtain ⟨hfirst, hlast, hstep⟩ := hr
  rintro ⟨hqfirst, hqlast, hqstep⟩
  unfold CaseRun.leadsOutOf at hout
  simp only [Bool.or_eq_true, Bool.and_eq_true, Nat.blt_eq, Nat.beq_eq] at hout
  rcases hout with hbehind | hbefore | ⟨hpair | hone, htwo, hodd⟩
  · omega
  · omega
  · rw [hpair] at hstep
    rw [htwo] at hqstep
    omega
  · rw [htwo] at hqstep
    omega

theorem lowerChar_of_not_holds {c : Char} (h : ∀ r ∈ caseRuns, ¬ r.Holds c.toNat) :
    lowerChar c = c := by
  have hnone : caseRuns.find? (fun r => r.first ≤ c.toNat && c.toNat ≤ r.last &&
      (c.toNat - r.first) % r.step == 0) = none := by
    rw [List.find?_eq_none]
    intro r hr hheld
    simp only [Bool.and_eq_true, decide_eq_true_eq, beq_iff_eq] at hheld
    exact h r hr ⟨hheld.1.1, hheld.1.2, hheld.2⟩
  unfold lowerChar
  dsimp only
  rw [hnone]

/-- What a character becomes by the table: itself, or its partner in the run that holds it. -/
theorem lowerChar_cases (c : Char) : lowerChar c = c ∧ (∀ r ∈ caseRuns, ¬ r.Holds c.toNat) ∨
    ∃ r ∈ caseRuns, r.Holds c.toNat ∧
      lowerChar c = Char.ofNat ((c.toNat : Int) + r.shift).toNat := by
  by_cases h : ∀ r ∈ caseRuns, ¬ r.Holds c.toNat
  · exact Or.inl ⟨lowerChar_of_not_holds h, h⟩
  · right
    unfold lowerChar
    dsimp only
    split
    · next r hr =>
      have hheld := List.find?_some hr
      simp only [Bool.and_eq_true, decide_eq_true_eq, beq_iff_eq] at hheld
      exact ⟨r, List.mem_of_find?_eq_some hr, ⟨hheld.1.1, hheld.1.2, hheld.2⟩, rfl⟩
    · next hnone =>
      rw [List.find?_eq_none] at hnone
      refine absurd (fun r hr hheld => ?_) h
      refine hnone r hr ?_
      simp only [Bool.and_eq_true, decide_eq_true_eq, beq_iff_eq]
      exact ⟨⟨hheld.1, hheld.2.1⟩, hheld.2.2⟩

theorem toNat_ofNat (n : Nat) : (Char.ofNat n).toNat = n ∨ (Char.ofNat n).toNat = 0 := by
  unfold Char.ofNat
  by_cases h : n.isValidChar
  · rw [dif_pos h]
    exact Or.inl rfl
  · rw [dif_neg h]
    exact Or.inr rfl

/-- A character in lower case by the table is held by no run. -/
theorem not_holds_lowerChar (c : Char) : ∀ q ∈ caseRuns, ¬ q.Holds (lowerChar c).toNat := by
  intro q hq
  rcases lowerChar_cases c with ⟨hc, hnone⟩ | ⟨r, hr, hheld, hc⟩
  · rw [hc]
    exact hnone q hq
  · obtain ⟨-, hstart, hout⟩ := caseRuns_leadOut r hr
    rw [hc]
    rcases toNat_ofNat ((c.toNat : Int) + r.shift).toNat with h | h
    · rw [h]
      exact not_holds_shifted hstart (List.all_eq_true.mp hout q hq) hheld
    · rw [h]
      intro hzero
      have hpos := (caseRuns_leadOut q hq).1
      exact absurd hzero.1 (by omega)

/-- A character without a rule of its own does not become one that has one. -/
theorem lowerChar_ne {c : Char} (h₁ : c ≠ '\u0130') (h₂ : c ≠ '\u03a3') :
    lowerChar c ≠ '\u0130' ∧ lowerChar c ≠ '\u03a3' := by
  rcases lowerChar_cases c with ⟨hc, -⟩ | ⟨r, hr, hheld, hc⟩
  · rw [hc]
    exact ⟨h₁, h₂⟩
  · obtain ⟨-, hstart, -⟩ := caseRuns_leadOut r hr
    obtain ⟨hout₁, hout₂⟩ := caseRuns_avoid r hr
    -- The partner would be held by a run of this one character alone.
    have hne : ∀ n, 0 < n → r.leadsOutOf ⟨n, n, 1, 0⟩ = true → (lowerChar c).toNat ≠ n := by
      intro n hn hout heq
      rw [hc] at heq
      rcases toNat_ofNat ((c.toNat : Int) + r.shift).toNat with h | h
      · have hnot := not_holds_shifted hstart hout hheld
        rw [← h, heq] at hnot
        exact hnot ⟨Nat.le_refl _, Nat.le_refl _, Nat.mod_one _⟩
      · omega
    exact ⟨fun h => hne _ (by decide) hout₁ (by rw [h]; rfl),
      fun h => hne _ (by decide) hout₂ (by rw [h]; rfl)⟩

/-! ### Settled code points -/

/-- A code point that is in lower case, whatever stands around it. -/
def Settled (c : CodePoint) : Prop := ∀ before after, lowerAt before c after = [c]

theorem settled_char {c : Char} (h₁ : c ≠ '\u0130') (h₂ : c ≠ '\u03a3')
    (h : ∀ r ∈ caseRuns, ¬ r.Holds c.toNat) : Settled (.char c) := by
  intro before after
  unfold lowerAt
  dsimp only
  rw [if_neg h₁, if_neg h₂, lowerChar_of_not_holds h]

/-- No run holds one of the characters that the special rules make. -/
theorem caseRuns_avoid_special : (['i', '\u0307', '\u03c2', '\u03c3'].all fun c =>
    caseRuns.all fun r => Nat.blt c.toNat r.first || (Nat.blt r.last c.toNat ||
      !Nat.beq ((c.toNat - r.first) % r.step) 0)) = true := by
  decide +kernel

theorem not_holds_special {c : Char} (hc : c ∈ ['i', '\u0307', '\u03c2', '\u03c3']) :
    ∀ r ∈ caseRuns, ¬ r.Holds c.toNat := by
  rintro r hr ⟨hfirst, hlast, hstep⟩
  have hout := List.all_eq_true.mp (List.all_eq_true.mp caseRuns_avoid_special c hc) r hr
  simp only [Bool.or_eq_true, Nat.blt_eq] at hout
  rcases hout with hbelow | habove | hother
  · omega
  · omega
  · rw [hstep] at hother
    cases hother

/-- **What lower-casing makes of a code point is settled.** -/
theorem settled_of_mem_lowerAt {before after : List CodePoint} {c d : CodePoint}
    (h : d ∈ lowerAt before c after) : Settled d := by
  unfold lowerAt at h
  split at h
  · obtain rfl := List.mem_singleton.mp h
    exact fun _ _ => rfl
  · split_ifs at h with h₁ h₂ hword
    · rcases List.mem_cons.mp h with rfl | h
      · exact settled_char (by decide) (by decide) (not_holds_special (by decide))
      · obtain rfl := List.mem_singleton.mp h
        exact settled_char (by decide) (by decide) (not_holds_special (by decide))
    · obtain rfl := List.mem_singleton.mp h
      exact settled_char (by decide) (by decide) (not_holds_special (by decide))
    · obtain rfl := List.mem_singleton.mp h
      exact settled_char (by decide) (by decide) (not_holds_special (by decide))
    · obtain rfl := List.mem_singleton.mp h
      obtain ⟨hne₁, hne₂⟩ := lowerChar_ne h₁ h₂
      exact settled_char hne₁ hne₂ (not_holds_lowerChar _)

theorem settled_of_mem_lowerAfter : ∀ {cs before : List CodePoint} {d : CodePoint},
    d ∈ lowerAfter before cs → Settled d
  | [], _, _, h => by cases h
  | c :: cs, before, d, h => by
    rw [lowerAfter] at h
    rcases List.mem_append.mp h with h | h
    · exact settled_of_mem_lowerAt h
    · exact settled_of_mem_lowerAfter h

theorem settled_of_mem_lowercase {t : Text} {d : CodePoint} (h : d ∈ (lowercase t).toList) :
    Settled d :=
  settled_of_mem_lowerAfter h

/-- The code point `d` becomes `c` in lower case, whatever stands around it. -/
def Lowers (d c : CodePoint) : Prop := ∀ before after, lowerAt before d after = [c]

/-- A character without a rule of its own becomes its partner in the table. -/
theorem lowers_of_lowerChar {d c : Char} (h₁ : d ≠ '\u0130') (h₂ : d ≠ '\u03a3')
    (h : lowerChar d = c) : Lowers d c := by
  intro before after
  unfold lowerAt
  dsimp only
  rw [if_neg h₁, if_neg h₂, h]

/-- A text whose code points become others, each for itself. -/
theorem lowerAfter_of_lowers {ds cs : List CodePoint} (h : List.Forall₂ Lowers ds cs) :
    ∀ before, lowerAfter before ds = cs := by
  induction h with
  | nil => exact fun _ => rfl
  | cons h _ ih =>
    intro before
    rw [lowerAfter, h, ih]
    rfl

theorem lowerAfter_of_settled : ∀ {cs : List CodePoint} (before : List CodePoint),
    (∀ c ∈ cs, Settled c) → lowerAfter before cs = cs
  | [], _, _ => rfl
  | c :: cs, before, h => by
    rw [lowerAfter, h c (by simp) before cs,
      lowerAfter_of_settled (c :: before) fun d hd => h d (by simp [hd])]
    rfl

theorem lowercase_of_settled {t : Text} (h : ∀ c ∈ t.toList, Settled c) : lowercase t = t := by
  unfold lowercase
  rw [lowerAfter_of_settled [] h]
  rfl

/-- **A text in lower case stays as it is.** -/
theorem lowercase_lowercase (t : Text) : lowercase (lowercase t) = lowercase t :=
  lowercase_of_settled fun _ => settled_of_mem_lowercase

/-! ### The first characters -/

/-- Whether a code point is one of the first 128 characters and no capital letter. -/
def isPlain (c : CodePoint) : Bool :=
  c.is fun c => Nat.blt c.toNat 0x41 || Nat.blt 0x5a c.toNat && Nat.blt c.toNat 0x80

theorem settled_of_isPlain {c : CodePoint} (h : isPlain c = true) : Settled c := by
  have hruns : ∀ r ∈ caseRuns, 0x41 ≤ r.first ∧ (r.last ≤ 0x5a ∨ 0x80 ≤ r.first) := by
    decide +kernel
  cases c with
  | half h => exact fun _ _ => rfl
  | char c =>
    simp only [isPlain, CodePoint.is, Bool.or_eq_true, Bool.and_eq_true, Nat.blt_eq] at h
    refine settled_char ?_ ?_ fun r hr hheld => ?_
    · rintro rfl
      revert h
      decide
    · rintro rfl
      revert h
      decide
    · obtain ⟨hfirst, hlast, -⟩ := hheld
      have hrun := hruns r hr
      omega

/-- No run holds a blank. -/
theorem caseRuns_apart_from_blanks : (caseRuns.all fun r => blankSpans.all fun s =>
    Nat.blt s.last r.first || Nat.blt r.last s.first) = true := by
  decide +kernel

/-- **Blanks are settled.** -/
theorem settled_of_isBlank {c : CodePoint} (h : c.is isBlank = true) : Settled c := by
  cases c with
  | half => exact fun _ _ => rfl
  | char x =>
    refine settled_char ?_ ?_ fun r hr hheld => ?_
    · rintro rfl
      revert h
      decide
    · rintro rfl
      revert h
      decide
    · obtain ⟨s, hs, hcovers⟩ := List.any_eq_true.mp h
      have hapart := List.all_eq_true.mp (List.all_eq_true.mp caseRuns_apart_from_blanks r hr) s hs
      rw [Bool.or_eq_true, Nat.blt_eq, Nat.blt_eq] at hapart
      rw [Span.covers_iff] at hcovers
      obtain ⟨hfirst, hlast, -⟩ := hheld
      omega

/-- A settled code point stays where it is. -/
theorem mem_lowerAfter_of_settled {c : CodePoint} (h : Settled c) :
    ∀ {cs before : List CodePoint}, c ∈ cs → c ∈ lowerAfter before cs
  | [], _, hc => by cases hc
  | d :: cs, before, hc => by
    rw [lowerAfter, List.mem_append]
    rcases List.mem_cons.mp hc with rfl | hc
    · rw [h before cs]
      exact Or.inl (List.mem_singleton_self c)
    · exact Or.inr (mem_lowerAfter_of_settled h hc)

theorem length_lowerAt {before after : List CodePoint} {c : CodePoint}
    (h : .char '\u0307' ∉ lowerAt before c after) : (lowerAt before c after).length = 1 := by
  unfold lowerAt at h ⊢
  split at h
  · rfl
  · split_ifs at h ⊢ with hi
    · exact absurd (List.mem_cons_of_mem _ (List.mem_singleton_self _)) h
    all_goals rfl

/-- **A text keeps its length in lower case**, unless a dotted capital I leaves its dot. -/
theorem length_lowerAfter : ∀ {cs before : List CodePoint},
    .char '\u0307' ∉ lowerAfter before cs → (lowerAfter before cs).length = cs.length
  | [], _, _ => rfl
  | c :: cs, before, h => by
    rw [lowerAfter, List.mem_append, not_or] at h
    rw [lowerAfter, List.length_append, length_lowerAt h.1, length_lowerAfter h.2, List.length_cons,
      Nat.add_comm]

/-! ### Trimmed texts, and characters before the letters -/

/-- **No character before the letters comes from another one.** -/
theorem mem_of_mem_lowerAt {before after : List CodePoint} {c : CodePoint} {x : Char}
    (hpos : 0 < x.toNat) (hx : x.toNat < 0x41) (h : CodePoint.char x ∈ lowerAt before c after) :
    c = .char x := by
  have hruns : ∀ r ∈ caseRuns, 0x41 ≤ (r.first : Int) + r.shift := by decide +kernel
  have hne : ∀ y : Char, 0x41 ≤ y.toNat → CodePoint.char x ≠ .char y := by
    rintro y hy heq
    rw [CodePoint.char.inj heq] at hx
    omega
  unfold lowerAt at h
  split at h
  · exact (List.mem_singleton.mp h).symm
  · next d =>
    split_ifs at h with hi hsigma hword
    · rcases List.mem_cons.mp h with h | h
      · exact absurd h (hne _ (by decide))
      · exact absurd (List.mem_singleton.mp h) (hne _ (by decide))
    · exact absurd (List.mem_singleton.mp h) (hne _ (by decide))
    · exact absurd (List.mem_singleton.mp h) (hne _ (by decide))
    · have hlower : x = lowerChar d := CodePoint.char.inj (List.mem_singleton.mp h)
      rcases lowerChar_cases d with ⟨hd, -⟩ | ⟨r, hr, hheld, hd⟩
      · rw [hlower, hd]
      · have hrun := hruns r hr
        have hfirst := hheld.1
        rcases toNat_ofNat ((d.toNat : Int) + r.shift).toNat with hnat | hnat
        · rw [← hd, ← hlower] at hnat
          omega
        · rw [← hd, ← hlower] at hnat
          omega

theorem mem_of_mem_lowerAfter {x : Char} (hpos : 0 < x.toNat) (hx : x.toNat < 0x41) :
    ∀ {cs before : List CodePoint}, CodePoint.char x ∈ lowerAfter before cs → CodePoint.char x ∈ cs
  | [], _, h => by cases h
  | c :: cs, before, h => by
    rw [lowerAfter] at h
    rcases List.mem_append.mp h with h | h
    · rw [mem_of_mem_lowerAt hpos hx h]
      exact List.mem_cons_self
    · exact List.mem_cons_of_mem c (mem_of_mem_lowerAfter hpos hx h)

/-- Trimming only takes away. -/
theorem trim_sublist (t : Text) : (trim t).toList.Sublist t.toList := by
  have hfront := List.dropWhile_sublist (·.is isBlank) (l := t.toList)
  have hback := (List.dropWhile_sublist (·.is isBlank)
    (l := (t.toList.dropWhile (·.is isBlank)).reverse)).reverse
  rw [List.reverse_reverse] at hback
  exact hback.trans hfront

/-- A text in lower case, trimmed, is in lower case. -/
theorem lowercase_trim_lowercase (t : Text) :
    lowercase (trim (lowercase t)) = trim (lowercase t) :=
  lowercase_of_settled fun _ hc => settled_of_mem_lowercase ((trim_sublist _).subset hc)

/-- Trimming a text and putting it in lower case brings no character before the letters in. -/
theorem mem_of_mem_lowercase_trim {t : Text} {x : Char} (hpos : 0 < x.toNat) (hx : x.toNat < 0x41)
    (h : CodePoint.char x ∈ (lowercase (trim t)).toList) : CodePoint.char x ∈ t.toList :=
  (trim_sublist t).subset (mem_of_mem_lowerAfter hpos hx h)

end FuzzyInference.Text
