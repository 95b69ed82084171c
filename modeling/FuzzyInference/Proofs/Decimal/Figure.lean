import FuzzyInference.Proofs.Decimal.Numeral
import Mathlib.Data.Nat.Digits.Defs

/-!
# Runs of figures

Figures are the decimal digits of all scripts and the characters that merely look like digits. A run
of decimal digits is read as the whole number that it spells out, unless it is too long; a run with
any other figure in it is read as none.

* `IsFigures`, `IsDigits`: runs of figures and of decimal digits; `spelled`: the number of a run;
* `plainPoint_of_figure`: the ASCII equivalents of figures;
* `digitRun_figures`: how far a run of figures is read;
* `readInteger_of_figures`: **what a run of figures is read as**.
-/

namespace FuzzyInference.Decimal

open FuzzyInference.Text

/-- The text consists of figures. -/
def IsFigures (t : Text) : Prop := ∀ c ∈ t.toList, c.is isDigitLike = true

/-- The value of a code point that is a decimal digit. -/
def pointValue? (c : CodePoint) : Option Nat := c.char?.bind digitValue?

/-- Whether a code point is a decimal digit. -/
def isDecimal (c : CodePoint) : Bool := (pointValue? c).isSome

/-- The text consists of decimal digits. -/
def IsDigits (t : Text) : Prop := ∀ c ∈ t.toList, isDecimal c = true

/-- The number that digits spell out: each counts ten times as much as the one behind it. -/
def spelled (t : Text) : Nat := Nat.ofDigits 10 (t.toList.filterMap pointValue?).reverse

instance (t : Text) : Decidable (IsFigures t) := by
  unfold IsFigures
  infer_instance

instance (t : Text) : Decidable (IsDigits t) := by
  unfold IsDigits
  infer_instance

theorem IsDigits.isFigures {t : Text} (h : IsDigits t) : IsFigures t := by
  intro c hc
  have hdigit := h c hc
  cases c with
  | half => cases hdigit
  | char x => exact Bool.or_eq_true_iff.mpr (Or.inl hdigit)

/-! ### Single figures -/

/-- A code point with its ASCII equivalent in numerals. -/
def plainPoint (c : CodePoint) : Char := (c.char?.map plainChar).getD misfit

/-- The decimal digits lie apart from the blanks, and behind the ASCII characters but for those that
are among them. -/
theorem decimalZeros_apart : ∀ z ∈ decimalZeros, (z = 48 ∨ 127 ≤ z) ∧
    ∀ s ∈ blankSpans, s.last < z ∨ z + 9 < s.first := by
  decide

/-- So do the other figures, all of them behind the ASCII characters. -/
theorem figureSpans_apart : ∀ f ∈ figureSpans, 127 ≤ f.first ∧
    ∀ s ∈ blankSpans, s.last < f.first ∨ f.last < s.first := by
  decide

theorem not_isBlank {x : Char} (h : ∀ s ∈ blankSpans, ¬ (s.first ≤ x.toNat ∧ x.toNat ≤ s.last)) :
    isBlank x = false := by
  unfold isBlank Span.anyCovers
  rw [List.any_eq_false]
  intro s hs hcovers
  exact h s hs ((Span.covers_iff s _).mp hcovers)

/-- The ASCII equivalent of a decimal digit is the digit of the same value. -/
theorem plainChar_of_digit {x : Char} {d : Nat} (h : digitValue? x = some d) :
    (plainChar x).toNat = 48 + d := by
  have hd := digitValue?_lt_ten h
  obtain ⟨z, hz, hzd⟩ := Option.map_eq_some_iff.mp h
  have hrange := List.find?_some hz
  simp only [Bool.and_eq_true, decide_eq_true_eq] at hrange
  obtain ⟨hascii, hapart⟩ := decimalZeros_apart z (List.mem_of_find?_eq_some hz)
  unfold plainChar
  split_ifs with hfirst hblank
  · omega
  · rw [not_isBlank fun s hs hcovers => by have := hapart s hs; omega] at hblank
    cases hblank
  · rw [h]
    have hchar : ∀ d < 10, (Char.ofNat (48 + d)).toNat = 48 + d := by decide
    exact hchar d hd

/-- Any other figure has no equivalent, and lies behind the ASCII characters. -/
theorem plainChar_of_figure {x : Char} (hfigure : isDigitLike x = true)
    (h : digitValue? x = none) : plainChar x = x ∧ 127 ≤ x.toNat := by
  unfold isDigitLike Span.anyCovers at hfigure
  rw [h, Option.isSome_none, Bool.false_or, List.any_eq_true] at hfigure
  obtain ⟨f, hf, hcovers⟩ := hfigure
  rw [Span.covers_iff] at hcovers
  obtain ⟨hascii, hapart⟩ := figureSpans_apart f hf
  have hblank : isBlank x = false :=
    not_isBlank fun s hs hcovers' => by have := hapart s hs; omega
  unfold plainChar
  rw [if_neg (by omega), if_neg (by simp [hblank]), h]
  exact ⟨rfl, by omega⟩

theorem asciiDigit?_of_toNat {x : Char} {d : Nat} (hd : d < 10) (h : x.toNat = 48 + d) :
    asciiDigit? x = some d := by
  have hfirst : 48 ≤ x.toNat := by omega
  have hlast : x.toNat ≤ 57 := by omega
  have hvalue : x.toNat - 48 = d := by omega
  exact (if_pos ⟨hfirst, hlast⟩).trans (congrArg some hvalue)

theorem asciiDigit?_of_lt {x : Char} (h : 57 < x.toNat) : asciiDigit? x = none := by
  refine if_neg fun hrange => ?_
  have hlast : x.toNat ≤ 57 := hrange.2
  omega

/-- **The ASCII equivalent of a figure** is a digit exactly if the figure is one, and it is neither a
blank nor a sign nor a low line. -/
theorem plainPoint_of_figure {c : CodePoint} (h : c.is isDigitLike = true) :
    asciiDigit? (plainPoint c) = pointValue? c ∧ 48 ≤ (plainPoint c).toNat ∧
      (plainPoint c).toNat ≠ 95 := by
  cases c with
  | half => cases h
  | char x =>
    show asciiDigit? (plainChar x) = digitValue? x ∧ 48 ≤ (plainChar x).toNat ∧
      (plainChar x).toNat ≠ 95
    cases hx : digitValue? x with
    | some d =>
      have hplain := plainChar_of_digit hx
      have hd := digitValue?_lt_ten hx
      exact ⟨asciiDigit?_of_toNat hd hplain, by omega, by omega⟩
    | none =>
      obtain ⟨hplain, hascii⟩ := plainChar_of_figure h hx
      rw [hplain]
      exact ⟨asciiDigit?_of_lt (by omega), by omega, by omega⟩

/-! ### Runs -/

theorem digitRun_cons {g : DigitGroup} {x : Char} (hx : x ≠ '_') (rest : List Char) :
    digitRun g (x :: rest) = match asciiDigit? x with
      | some d => digitRun (g.push d) rest
      | none => (g, x :: rest) := by
  rw [digitRun.eq_def]
  split
  · next heq => cases heq
  · next heq => exact absurd (List.cons.inj heq).1 hx
  · next heq =>
    cases heq
    rfl

/-- **How far figures are read**: up to the first one that is no decimal digit. -/
theorem digitRun_figures {g : DigitGroup} {cs : List CodePoint}
    (h : ∀ c ∈ cs, c.is isDigitLike = true) :
    digitRun g (cs.map plainPoint) =
      (((cs.takeWhile isDecimal).filterMap pointValue?).foldl DigitGroup.push g,
        (cs.dropWhile isDecimal).map plainPoint) := by
  induction cs generalizing g with
  | nil => rfl
  | cons c cs ih =>
    obtain ⟨hc, hcs⟩ := List.forall_mem_cons.mp h
    obtain ⟨hvalue, -, hmark⟩ := plainPoint_of_figure hc
    have hne : plainPoint c ≠ '_' := fun heq => hmark (by rw [heq]; rfl)
    rw [List.map_cons, digitRun_cons hne, hvalue]
    cases hd : pointValue? c with
    | some d =>
      have hdecimal : isDecimal c = true := by rw [isDecimal, hd]; rfl
      rw [List.takeWhile_cons_of_pos hdecimal, List.dropWhile_cons_of_pos hdecimal,
        List.filterMap_cons_some hd]
      exact ih hcs
    | none =>
      have hother : ¬ isDecimal c = true := by rw [isDecimal, hd]; exact Bool.false_ne_true
      rw [List.takeWhile_cons_of_neg hother, List.dropWhile_cons_of_neg hother]
      rfl

/-- The digits of a run, one after the other: how many they are, and their number. -/
theorem foldl_push (ds : List Nat) :
    ds.foldl DigitGroup.push ⟨0, 0⟩ = ⟨ds.length, Nat.ofDigits 10 ds.reverse⟩ := by
  induction ds using List.reverseRecOn with
  | nil => rfl
  | append_singleton ds d ih =>
    rw [List.foldl_append, ih, List.length_append, List.reverse_append]
    show DigitGroup.mk (ds.length + 1) (10 * Nat.ofDigits 10 ds.reverse + d) =
      DigitGroup.mk (ds.length + 1) (Nat.ofDigits 10 (d :: ds.reverse))
    rw [Nat.ofDigits_cons]
    exact congrArg (DigitGroup.mk _) (Nat.add_comm _ _)

theorem length_filterMap_takeWhile (cs : List CodePoint) :
    ((cs.takeWhile isDecimal).filterMap pointValue?).length = (cs.takeWhile isDecimal).length := by
  rw [List.length_filterMap_eq_countP, List.countP_eq_length]
  intro c hc
  exact List.mem_takeWhile_imp (p := isDecimal) hc

theorem plainForm_of_figures {t : Text} (h : IsFigures t) :
    plainForm t = t.toList.map plainPoint := by
  show trimWith isNumeralBlank (t.toList.map plainPoint) = t.toList.map plainPoint
  refine trimWith_of_forall (List.forall_mem_map.mpr fun c hc => ?_)
  obtain ⟨-, hfirst, -⟩ := plainPoint_of_figure (h c hc)
  have hspace : plainPoint c ≠ ' ' := by
    intro heq
    rw [heq] at hfirst
    exact absurd hfirst (by decide)
  unfold isNumeralBlank
  rw [Bool.or_eq_false_iff, beq_eq_false_iff_ne, Bool.and_eq_false_iff, decide_eq_false_iff_not,
    decide_eq_false_iff_not]
  exact ⟨hspace, Or.inr (by omega)⟩

theorem splitSign_of_figures {cs : List CodePoint} (h : ∀ c ∈ cs, c.is isDigitLike = true) :
    splitSign (cs.map plainPoint) = (false, cs.map plainPoint) := by
  have hfirst : ∀ x ∈ cs.map plainPoint, 48 ≤ x.toNat :=
    List.forall_mem_map.mpr fun c hc => (plainPoint_of_figure (h c hc)).2.1
  generalize cs.map plainPoint = xs at hfirst
  unfold splitSign
  split
  · exact absurd (hfirst '-' List.mem_cons_self) (by decide)
  · exact absurd (hfirst '+' List.mem_cons_self) (by decide)
  · rfl

/-- **What a run of figures is read as.** Decimal digits at its front that are too many are noticed
first. Then it is read if it has no other figures, as the number that it spells out. -/
theorem readInteger_of_figures {t : Text} (h : IsFigures t) (hne : t ≠ Text.empty) :
    readInteger t =
      if (t.toList.takeWhile isDecimal).length > maxDigits then
        .error (.tooManyDigits (t.toList.takeWhile isDecimal).length)
      else if IsDigits t then .ok (spelled t) else .error (.notInteger t) := by
  have hmark : ((t.toList.dropWhile isDecimal).map plainPoint).head? ≠ some '_' := by
    intro hhead
    obtain ⟨c, hc, heq⟩ := List.mem_map.mp (List.mem_of_mem_head? hhead)
    have hfigure := h c ((List.dropWhile_sublist _).subset hc)
    exact (plainPoint_of_figure hfigure).2.2 (by rw [heq]; rfl)
  unfold readInteger
  rw [plainForm_of_figures h, splitSign_of_figures h]
  dsimp only
  rw [digitRun_figures h, foldl_push, length_filterMap_takeWhile]
  dsimp only
  by_cases hdigits : IsDigits t
  · have hall : t.toList.takeWhile isDecimal = t.toList := List.takeWhile_eq_self_iff.mpr hdigits
    have hnone : t.toList.dropWhile isDecimal = [] := List.dropWhile_eq_nil_iff.mpr hdigits
    have hlength : t.toList.length ≠ 0 :=
      fun hzero => hne (congrArg Text.mk (List.length_eq_zero_iff.mp hzero))
    rw [hall, hnone, if_pos hdigits, if_neg (by simp [hlength])]
    rfl
  · have hother : (t.toList.dropWhile isDecimal).isEmpty = false := by
      rw [List.isEmpty_eq_false_iff, Ne, List.dropWhile_eq_nil_iff]
      exact hdigits
    rw [if_neg hdigits, List.isEmpty_map, hother, decide_eq_false hmark, Bool.or_false]
    by_cases hcount : (t.toList.takeWhile isDecimal).length = 0
    · have hfew : ¬ (t.toList.takeWhile isDecimal).length > maxDigits := by
        rw [hcount]
        exact Nat.not_lt_zero _
      rw [if_pos (decide_eq_true hcount), if_neg hfew]
    · rw [if_neg (mt of_decide_eq_true hcount)]
      rfl

end FuzzyInference.Decimal
