import FuzzyInference.Document.Number
import FuzzyInference.Proofs.Double
import FuzzyInference.Proofs.Text.Words

/-!
# Numerals

A whole number is written out if its digits are not too many. The numbers that are read from texts
and from doubles never are too long, since a text with too many digits is refused and the greatest
double has 309 of them. A numeral may have blanks around it and has none inside, so that it does not
matter whether it is trimmed.

* `DigitGroup.Fits`: the value of a run of digits fits its length; `fits_digitRun`: all runs do;
* `isWritable_of_readInteger`: the whole number of a text can be written out;
* `readFloat?_of_blank`: no numeral holds a blank; `readFloat?_trim`: blanks around it do not matter;
* `isWritable_of_truncate`: so can the whole part of a double;
* `truncate_error_iff`: infinities have none.
-/

namespace FuzzyInference.Decimal

open FuzzyInference.Text

/-! ### Texts -/

/-- So many digits make up no greater value. -/
def DigitGroup.Fits (g : DigitGroup) : Prop := g.value < tenTo g.count

theorem tenTo_succ (n : Nat) : tenTo (n + 1) = 10 * tenTo n := by
  show 10 ^ (n + 1) = 10 * 10 ^ n
  rw [Nat.pow_succ, Nat.mul_comm]

theorem tenTo_le {m n : Nat} (h : m ≤ n) : tenTo m ≤ tenTo n := Nat.pow_le_pow_right (by decide) h

theorem asciiDigit?_lt {c : Char} {d : Nat} (h : asciiDigit? c = some d) : d < 10 := by
  unfold asciiDigit? at h
  split_ifs at h with hrange
  have hlast : c.toNat ≤ 57 := hrange.2
  cases h
  omega

theorem DigitGroup.Fits.push {g : DigitGroup} (hg : g.Fits) {d : Nat} (hd : d < 10) :
    (g.push d).Fits := by
  have hvalue : g.value < tenTo g.count := hg
  show 10 * g.value + d < tenTo (g.count + 1)
  rw [tenTo_succ]
  omega

/-- **Runs of digits fit their length.** -/
theorem fits_digitRun {g : DigitGroup} {cs : List Char} (hg : g.Fits) : (digitRun g cs).1.Fits := by
  fun_induction digitRun g cs with
  | case1 | case2 | case4 | case6 => exact hg
  | case3 g c rest d hd _ ih => exact ih (hg.push (asciiDigit?_lt hd))
  | case5 g c rest _ d hd ih => exact ih (hg.push (asciiDigit?_lt hd))

/-- **The whole number of a text** is not too long. -/
theorem isWritable_of_readInteger {s : Text} {i : Int} (h : readInteger s = .ok i) :
    isWritable i = true := by
  unfold readInteger at h
  dsimp only at h
  split_ifs at h with hform hlong hrest hnegative
  all_goals
    have hfits : (digitRun ⟨0, 0⟩ (splitSign (plainForm s)).2).1.Fits :=
      fits_digitRun (Nat.zero_lt_one : 0 < tenTo 0)
    have hvalue := Nat.lt_of_lt_of_le hfits (tenTo_le (Nat.le_of_not_gt hlong))
    cases h
    refine decide_eq_true ?_
    omega

/-! ### Blanks in numerals -/

section
variable {x : Char} (hx : x.toNat ≤ 32)
include hx

theorem ne_of_blank {c : Char} (hc : 32 < c.toNat) : x ≠ c := by
  rintro rfl
  omega

theorem asciiDigit?_of_blank : asciiDigit? x = none := by
  refine if_neg fun hrange => ?_
  have hfirst : 48 ≤ x.toNat := hrange.1
  omega

/-- A blank is left behind by a run of digits. -/
theorem mem_digitRun {g : DigitGroup} {cs : List Char} (h : x ∈ cs) : x ∈ (digitRun g cs).2 := by
  have hdigit : ∀ {c d}, asciiDigit? c = some d → x ≠ c := by
    rintro c d hd rfl
    rw [asciiDigit?_of_blank hx] at hd
    cases hd
  fun_induction digitRun g cs with
  | case1 | case2 | case4 | case6 => exact h
  | case3 g c rest d hd _ ih =>
    rcases List.mem_cons.mp h with h | h
    · exact absurd h (ne_of_blank hx (by decide))
    · exact ih ((List.mem_cons.mp h).resolve_left (hdigit hd))
  | case5 g c rest _ d hd ih => exact ih ((List.mem_cons.mp h).resolve_left (hdigit hd))

theorem mem_splitSign {cs : List Char} (h : x ∈ cs) : x ∈ (splitSign cs).2 := by
  unfold splitSign
  split
  · exact (List.mem_cons.mp h).resolve_left (ne_of_blank hx (by decide))
  · exact (List.mem_cons.mp h).resolve_left (ne_of_blank hx (by decide))
  · exact h

theorem readExponent?_of_blank {cs : List Char} (h : x ∈ cs) : readExponent? cs = none := by
  cases cs with
  | nil => cases h
  | cons c rest =>
    refine ite_eq_right_iff.mpr fun hmark => if_pos ?_
    have hne : x ≠ c := by
      rintro rfl
      rcases Bool.or_eq_true_iff.mp hmark with hc | hc
      · exact ne_of_blank hx (by decide) (of_decide_eq_true hc)
      · exact ne_of_blank hx (by decide) (of_decide_eq_true hc)
    have hrest := mem_digitRun hx (g := ⟨0, 0⟩)
      (mem_splitSign hx ((List.mem_cons.mp h).resolve_left hne))
    rw [Bool.or_eq_true_iff, Bool.not_eq_true', List.isEmpty_eq_false_iff]
    exact Or.inr (List.ne_nil_of_mem hrest)

theorem namedMagnitude?_of_blank {cs : List Char} (h : x ∈ cs) : namedMagnitude? cs = none := by
  have hlower : x.toLower = x := by
    refine dif_neg fun hrange => ?_
    have hfirst : 65 ≤ x.toNat := hrange.1
    omega
  have hne : ∀ name : String, name.toList.all (fun c => decide (32 < c.toNat)) = true →
      (String.ofList (cs.map Char.toLower) == name) = false := by
    intro name hname
    rw [beq_eq_false_iff_ne]
    rintro rfl
    rw [String.toList_ofList, List.all_eq_true] at hname
    have := of_decide_eq_true (hname x (List.mem_map.mpr ⟨x, h, hlower⟩))
    omega
  unfold namedMagnitude?
  dsimp only
  rw [hne "inf" (by decide), hne "infinity" (by decide), hne "nan" (by decide)]
  rfl

theorem readMagnitude?_of_blank {cs : List Char} (h : x ∈ cs) : readMagnitude? cs = none := by
  have hwhole : x ∈ (digitRun ⟨0, 0⟩ cs).2 := mem_digitRun hx h
  unfold readMagnitude?
  rw [namedMagnitude?_of_blank hx h]
  dsimp only
  split
  · next rest hrest =>
    rw [hrest] at hwhole
    have hpart := mem_digitRun hx (g := ⟨0, 0⟩)
      ((List.mem_cons.mp hwhole).resolve_left (ne_of_blank hx (by decide)))
    rw [readExponent?_of_blank hx hpart]
    split_ifs <;> rfl
  · rw [readExponent?_of_blank hx hwhole]
    split_ifs <;> rfl

/-- **No numeral holds a blank.** -/
theorem readFloat?_of_blank {t : Text} (h : x ∈ plainForm t) : readFloat? t = none := by
  show (readMagnitude? (splitSign (plainForm t)).2).map _ = none
  rw [readMagnitude?_of_blank hx (mem_splitSign hx h)]
  rfl

end

/-- A blank becomes one of those that may stand around a numeral, or another one. -/
theorem plainChar_of_isBlank {c : Char} (h : isBlank c = true) :
    isNumeralBlank (plainChar c) = true ∨ (plainChar c).toNat ≤ 32 := by
  unfold plainChar
  split_ifs with hascii
  · refine Or.inr ?_
    have hspans : ∀ s ∈ blankSpans, s.last ≤ 32 ∨ 127 ≤ s.first := by decide
    obtain ⟨s, hs, hcovers⟩ := List.any_eq_true.mp h
    rw [Span.covers_iff] at hcovers
    have hspan := hspans s hs
    omega
  · exact Or.inl rfl


/-- **Blanks around a numeral** do not matter. -/
theorem readFloat?_trim {t : Text} {x : Float} (h : readFloat? t = some x) :
    readFloat? (trim t) = some x := by
  let plain (c : CodePoint) : Char := (c.char?.map plainChar).getD misfit
  obtain ⟨as, bs, has, hbs, heq⟩ := exists_trimWith (·.is isBlank) t.toList
  -- Other blanks than those that may stand around a numeral would be left in it.
  have hblank : ∀ c ∈ t.toList, c.is isBlank = true → isNumeralBlank (plain c) = true := by
    intro c hc hblank
    cases c with
    | half c => cases hblank
    | char c =>
      by_contra hother
      rcases plainChar_of_isBlank hblank with hplain | hplain
      · exact hother hplain
      · have hmem : plainChar c ∈ plainForm t :=
          mem_trimWith (List.mem_map.mpr ⟨.char c, hc, rfl⟩) (Bool.eq_false_iff.mpr hother)
        rw [readFloat?_of_blank hplain hmem] at h
        cases h
  have hform : plainForm (trim t) = plainForm t := by
    show trimWith isNumeralBlank ((trimWith (·.is isBlank) t.toList).map plain) =
      trimWith isNumeralBlank (t.toList.map plain)
    conv_rhs => rw [heq, List.map_append, List.map_append]
    refine (trimWith_between ?_ ?_ _).symm
    · refine List.forall_mem_map.mpr fun c hc => hblank c ?_ (has c hc)
      rw [heq]
      exact List.mem_append_left _ hc
    · refine List.forall_mem_map.mpr fun c hc => hblank c ?_ (hbs c hc)
      rw [heq]
      exact List.mem_append_right _ (List.mem_append_right _ hc)
  unfold readFloat? at h ⊢
  rw [hform]
  exact h

end FuzzyInference.Decimal

/-! ### Doubles -/

namespace FuzzyInference.Document

open FuzzyInference.Decimal

/-- **The whole part of a double** is not too long. -/
theorem isWritable_of_truncate {x : Float} {i : Int} (h : truncate x = .ok i) :
    isWritable i = true := by
  unfold truncate at h
  cases hx : Binary.ofFloat x with
  | notANumber | infinite =>
    rw [hx] at h
    cases h
  | finite negative m q =>
    rw [hx] at h
    obtain ⟨hm, hq⟩ := finite_bounds hx
    have hlength : 53 + q.toNat ≤ maxDigits := Nat.le_trans (by omega) (by decide : 1024 ≤ maxDigits)
    have hwhole : m * twoTo q.toNat / twoTo (-q).toNat < tenTo maxDigits :=
      calc m * twoTo q.toNat / twoTo (-q).toNat
          ≤ m * twoTo q.toNat := Nat.div_le_self _ _
        _ < twoTo 53 * twoTo q.toNat := Nat.mul_lt_mul_of_pos_right hm (twoTo_pos _)
        _ = twoTo (53 + q.toNat) := (Nat.pow_add 2 53 _).symm
        _ ≤ tenTo (53 + q.toNat) := Nat.pow_le_pow_left (by decide) _
        _ ≤ tenTo maxDigits := tenTo_le hlength
    cases h
    cases negative with
    | false => exact decide_eq_true hwhole
    | true => exact decide_eq_true (lt_of_eq_of_lt (Int.natAbs_neg _) hwhole)

/-- **Infinities have no whole part**; not-a-number has none either, but for another reason. -/
theorem truncate_error_iff {x : Float} : truncate x = .error .wholeOfInfinity ↔ x.isInf = true := by
  rw [isInf_iff]
  unfold truncate
  cases Binary.ofFloat x with
  | infinite negative => exact iff_of_true rfl ⟨negative, rfl⟩
  | notANumber | finite =>
    refine iff_of_false (fun h => by cases h) ?_
    rintro ⟨_, h⟩
    cases h

end FuzzyInference.Document
