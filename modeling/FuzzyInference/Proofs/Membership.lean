import FuzzyInference.Membership
import FuzzyInference.Proofs.Exact
import Mathlib.Tactic.Linarith

/-!
# Membership functions on exact numbers

* `Membership.Valid`, `Membership.IsTerm`: the functions that `Membership.make` lets pass, and those
  of terms;
* `Membership.valid_number_iff`, `Membership.Valid.exists_numbers`: their corners are ascending
  numbers, and their heights are numbers between zero and one;
* `Membership.degree_number`: the degree of a number, with the operations of the rational numbers;
* `Membership.Valid.degree_within`: the degrees of a valid function are numbers between zero and
  its height;
* `Membership.degreeAt`: the degree of a number as a number; `Membership.Valid.degreeAt_pos_iff`: it
  is above zero inside the support;
* `Membership.isTerm_of_reason`, `Membership.exists_degree_of_reason`: only terms are cut down, and
  only to degrees;
* `Membership.IsTerm.reason_ok`, `Membership.IsTerm.reason_error_iff`: a term can be cut down to any
  degree, and keeps its ends unless the degree is zero; it can be cut down to nothing else.
-/

namespace FuzzyInference.Membership

open Exact (number)

variable {α : Type} [Scalar α]

/-- A function that `Membership.make` has let pass. -/
def Valid (f : Membership α) : Prop :=
  make f.start f.leftTop f.rightTop f.finish f.height = .ok f

/-- The function of a term: valid, and of the full height. -/
def IsTerm (f : Membership α) : Prop := f.Valid ∧ f.height = Scalar.one

theorem make_ok {start leftTop rightTop finish height : α} {f : Membership α}
    (h : make start leftTop rightTop finish height = .ok f) :
    f = ⟨start, leftTop, rightTop, finish, height⟩ := by
  unfold make at h
  split_ifs at h
  cases h
  rfl

/-- What `Membership.make` asks of the numbers of a function. -/
theorem valid_iff {f : Membership α} :
    f.Valid ↔ (Scalar.le f.start f.leftTop = true ∧ Scalar.le f.leftTop f.rightTop = true ∧
      Scalar.le f.rightTop f.finish = true) ∧
      Scalar.le Scalar.zero f.height = true ∧ Scalar.le f.height Scalar.one = true := by
  unfold Valid make
  constructor
  · intro h
    split at h
    · cases h
    · split at h
      · cases h
      · simp_all
  · rintro ⟨⟨h₁, h₂, h₃⟩, h₄, h₅⟩
    simp [h₁, h₂, h₃, h₄, h₅]

/-- **Numbers make up a valid function** if they ascend and the height is a degree. -/
theorem valid_number_iff {s l r e h : ℚ} :
    Valid ⟨number s, number l, number r, number e, number h⟩ ↔
      (s ≤ l ∧ l ≤ r ∧ r ≤ e) ∧ 0 ≤ h ∧ h ≤ 1 := by
  rw [valid_iff, Exact.le_number, Exact.le_number, Exact.le_number]
  exact and_congr_right fun _ => and_congr Exact.le_number Exact.le_number

/-- **A valid function over exact numbers.** -/
theorem Valid.exists_numbers {f : Membership Exact} (hf : f.Valid) :
    ∃ s l r e h : ℚ, f = ⟨.number s, .number l, .number r, .number e, .number h⟩ ∧
      s ≤ l ∧ l ≤ r ∧ r ≤ e ∧ 0 ≤ h ∧ h ≤ 1 := by
  obtain ⟨start, leftTop, rightTop, finish, height⟩ := f
  obtain ⟨⟨h₁, h₂, h₃⟩, h₄, h₅⟩ := valid_iff.mp hf
  obtain ⟨s, l, rfl, rfl, hsl⟩ := Exact.numbers_of_le h₁
  obtain ⟨_, r, hl, rfl, hlr⟩ := Exact.numbers_of_le h₂
  cases hl
  obtain ⟨_, e, hr, rfl, hre⟩ := Exact.numbers_of_le h₃
  cases hr
  obtain ⟨z, h, hz, rfl, hzh⟩ := Exact.numbers_of_le h₄
  cases hz
  exact ⟨s, l, r, e, h, rfl, hsl, hlr, hre, hzh, Exact.le_number.mp h₅⟩

/-- **The degree of a number.** Between the ends of a flank its width is not zero. -/
theorem degree_number (s l r e h x : ℚ) :
    degree ⟨.number s, .number l, .number r, .number e, .number h⟩ (Exact.number x) =
      .number (if s < x ∧ x < e then
          if l ≤ x ∧ x ≤ r then h
          else if x < l then h * (x - s) / (l - s)
          else h * (e - x) / (e - r)
        else 0) := by
  unfold degree
  simp only [Bool.not_eq_true', ← Bool.not_eq_true, Bool.and_eq_true, Exact.lt_number,
    Exact.le_number, Exact.sub_number, Exact.mul_number]
  by_cases hin : s < x ∧ x < e
  · rw [if_neg (not_not_intro hin), if_pos hin]
    by_cases htop : l ≤ x ∧ x ≤ r
    · rw [if_pos htop, if_pos htop]
    · rw [if_neg htop, if_neg htop]
      by_cases hl : x < l
      · have hwidth : l - s ≠ 0 := (sub_pos.mpr (hin.1.trans hl)).ne'
        rw [if_pos hl, if_pos hl, Exact.div_number hwidth]
      · have hr : r < x := not_le.mp fun hr => htop ⟨not_lt.mp hl, hr⟩
        have hwidth : e - r ≠ 0 := (sub_pos.mpr (hr.trans hin.2)).ne'
        rw [if_neg hl, if_neg hl, Exact.div_number hwidth]
  · rw [if_pos hin, if_neg hin, Exact.zero_eq]

/-- What is no number lies outside every support. -/
theorem degree_nan (f : Membership Exact) : f.degree .nan = number 0 := by
  have hlt : Scalar.lt f.start .nan = false := by
    cases f.start with
    | number s => rfl
    | nan => rfl
  unfold degree
  rw [hlt]
  rfl

/-- Between the ends of a flank the degree lies between zero and the height. -/
theorem flank_within {h p q : ℚ} (hh : 0 ≤ h) (hp : 0 ≤ p) (hpq : p ≤ q) (hq : 0 < q) :
    0 ≤ h * p / q ∧ h * p / q ≤ h := by
  constructor
  · exact div_nonneg (mul_nonneg hh hp) hq.le
  · rw [div_le_iff₀ hq]
    exact mul_le_mul_of_nonneg_left hpq hh

/-- **The degrees of a valid function** are numbers between zero and its height. -/
theorem Valid.degree_within {f : Membership Exact} (hf : f.Valid) (x : Exact) :
    ∃ h q : ℚ, f.height = .number h ∧ f.degree x = .number q ∧ 0 ≤ q ∧ q ≤ h ∧ h ≤ 1 := by
  obtain ⟨s, l, r, e, h, rfl, hsl, hlr, hre, h0, h1⟩ := hf.exists_numbers
  cases x with
  | nan => exact ⟨h, 0, rfl, rfl, le_rfl, h0, h1⟩
  | number x =>
    refine ⟨h, _, rfl, degree_number s l r e h x, ?_⟩
    split_ifs with hin htop hl
    · exact ⟨h0, le_rfl, h1⟩
    · have hflank := flank_within h0 (sub_pos.mpr hin.1).le (sub_le_sub_right hl.le s)
        (sub_pos.mpr (hin.1.trans hl))
      exact ⟨hflank.1, hflank.2, h1⟩
    · have hr : r < x := not_le.mp fun hr => htop ⟨not_lt.mp hl, hr⟩
      have hflank := flank_within h0 (sub_pos.mpr hin.2).le (sub_le_sub_left hr.le e)
        (sub_pos.mpr (hr.trans hin.2))
      exact ⟨hflank.1, hflank.2, h1⟩
    · exact ⟨le_rfl, h0, h1⟩

/-! ### Degrees as numbers -/

/-- The degree of a number as a number. -/
def degreeAt (f : Membership Exact) (x : ℚ) : ℚ := (f.degree (.number x)).toRat

theorem Valid.degree_eq {f : Membership Exact} (hf : f.Valid) (x : ℚ) :
    f.degree (.number x) = .number (f.degreeAt x) := by
  obtain ⟨h, q, -, hq, -⟩ := hf.degree_within (.number x)
  unfold degreeAt
  rw [hq]
  rfl

theorem Valid.degreeAt_nonneg {f : Membership Exact} (hf : f.Valid) (x : ℚ) :
    0 ≤ f.degreeAt x := by
  obtain ⟨h, q, -, hq, h0, -⟩ := hf.degree_within (.number x)
  unfold degreeAt
  rw [hq]
  exact h0

/-- **Where a degree is above zero**: strictly between the ends of a function that has a height. -/
theorem Valid.degreeAt_pos_iff {f : Membership Exact} (hf : f.Valid) (x : ℚ) :
    0 < f.degreeAt x ↔ Scalar.lt Scalar.zero f.height = true ∧
      Scalar.lt f.start (.number x) = true ∧ Scalar.lt (.number x) f.finish = true := by
  obtain ⟨s, l, r, e, h, rfl, hsl, hlr, hre, h0, h1⟩ := hf.exists_numbers
  rw [Exact.zero_eq, Exact.lt_number, Exact.lt_number, Exact.lt_number]
  unfold degreeAt
  rw [degree_number]
  show 0 < ite _ _ _ ↔ _
  constructor
  · intro hpos
    have hheight : 0 < h := by
      refine lt_of_le_of_ne h0 fun hzero => ?_
      -- Without a height the function is zero everywhere.
      rw [← hzero] at hpos
      simp at hpos
    by_cases hin : s < x ∧ x < e
    · exact ⟨hheight, hin⟩
    · rw [if_neg hin] at hpos
      exact absurd hpos (lt_irrefl 0)
  · rintro ⟨hpos, hin⟩
    rw [if_pos hin]
    split_ifs with htop hl
    · exact hpos
    · exact div_pos (mul_pos hpos (sub_pos.mpr hin.1)) (sub_pos.mpr (hin.1.trans hl))
    · have hr : r < x := not_le.mp fun hr => htop ⟨not_lt.mp hl, hr⟩
      exact div_pos (mul_pos hpos (sub_pos.mpr hin.2)) (sub_pos.mpr (hr.trans hin.2))

/-! ### Reasoning -/

theorem valid_of_reason {f g : Membership α} {h : α} (hg : f.reason h = .ok g) : g.Valid := by
  have hmake : ∀ {start leftTop rightTop finish height : α},
      make start leftTop rightTop finish height = .ok g → g.Valid := by
    intro _ _ _ _ _ hmake
    obtain rfl := make_ok hmake
    exact hmake
  unfold reason at hg
  split_ifs at hg with hreasoned hzero
  · exact hmake hg
  · exact hmake hg

/-- Only what has the full height is cut down. -/
theorem isTerm_of_reason {f g : Membership Exact} {h : Exact} (hf : f.Valid)
    (hg : f.reason h = .ok g) : f.IsTerm := by
  refine ⟨hf, ?_⟩
  obtain ⟨s, l, r, e, k, rfl, -⟩ := hf.exists_numbers
  by_contra hne
  have hreasoned : isReasoned ⟨number s, number l, number r, number e, number k⟩ = true := by
    unfold isReasoned
    rw [Bool.not_eq_true']
    exact decide_eq_false fun heq => hne (congrArg number heq)
  unfold reason at hg
  rw [if_pos hreasoned] at hg
  cases hg

/-- Nothing is cut down to what is no degree. -/
theorem exists_degree_of_reason {f g : Membership Exact} {h : Exact} (hg : f.reason h = .ok g) :
    ∃ q : ℚ, h = number q ∧ 0 ≤ q ∧ q ≤ 1 := by
  have hvalid := valid_of_reason hg
  unfold reason at hg
  split_ifs at hg with hreasoned hzero
  · cases h with
    | nan => cases hzero
    | number q =>
      have hq : q = 0 := of_decide_eq_true hzero
      exact ⟨q, rfl, hq.ge, hq.le.trans zero_le_one⟩
  · obtain ⟨_, _, _, _, q, hnumbers, -, -, -, h0, h1⟩ := hvalid.exists_numbers
    rw [make_ok hg] at hnumbers
    exact ⟨q, congrArg height hnumbers, h0, h1⟩

/-- What becomes of a term that is cut down to a degree. -/
theorem reason_number {s l r e h : ℚ} (hsl : s ≤ l) (hlr : l ≤ r) (hre : r ≤ e) (h0 : 0 ≤ h)
    (h1 : h ≤ 1) :
    reason ⟨number s, number l, number r, number e, number 1⟩ (number h) =
      .ok (if h = 0 then ⟨number 0, number 0, number 0, number 0, number 0⟩
        else ⟨number s, number (h * (l - s) + s), number (e - h * (e - r)), number e,
          number h⟩) := by
  unfold reason
  have hterm : isReasoned ⟨number s, number l, number r, number e, number 1⟩ = false := rfl
  rw [hterm, if_neg Bool.false_ne_true]
  by_cases hzero : h = 0
  · have heq : Scalar.eq (number h) Scalar.zero = true := decide_eq_true hzero
    rw [if_pos heq, if_pos hzero]
    rfl
  · have heq : ¬ Scalar.eq (number h) Scalar.zero = true := fun heq =>
      hzero (of_decide_eq_true heq)
    rw [if_neg heq, if_neg hzero]
    -- The tops move outwards, so that they still lie between the ends and in order.
    have hleft : 0 ≤ h * (l - s) := mul_nonneg h0 (sub_nonneg.mpr hsl)
    have hright : 0 ≤ h * (e - r) := mul_nonneg h0 (sub_nonneg.mpr hre)
    have hleft' : h * (l - s) ≤ l - s := mul_le_of_le_one_left (sub_nonneg.mpr hsl) h1
    have hright' : h * (e - r) ≤ e - r := mul_le_of_le_one_left (sub_nonneg.mpr hre) h1
    have hcut : Valid ⟨number s, number (h * (l - s) + s), number (e - h * (e - r)), number e,
        number h⟩ := by
      refine valid_number_iff.mpr ⟨⟨?_, ?_, ?_⟩, h0, h1⟩
      · linarith
      · linarith
      · linarith
    exact hcut

/-- **A term can be cut down to any degree.** It keeps its ends, unless the degree is zero. -/
theorem IsTerm.reason_ok {f : Membership Exact} (hf : f.IsTerm) {h : ℚ} (h0 : 0 ≤ h)
    (h1 : h ≤ 1) : ∃ g : Membership Exact, f.reason (number h) = .ok g ∧ g.Valid ∧
      g.height = number h ∧ (0 < h → g.start = f.start ∧ g.finish = f.finish) := by
  obtain ⟨hvalid, hheight⟩ := hf
  obtain ⟨s, l, r, e, k, rfl, hsl, hlr, hre, -, -⟩ := hvalid.exists_numbers
  obtain rfl : k = 1 := Exact.number.inj hheight
  have hreason := reason_number hsl hlr hre h0 h1
  refine ⟨_, hreason, valid_of_reason hreason, ?_⟩
  by_cases hzero : h = 0
  · rw [if_pos hzero, hzero]
    exact ⟨rfl, fun hpos => absurd hpos (lt_irrefl 0)⟩
  · rw [if_neg hzero]
    exact ⟨rfl, fun _ => ⟨rfl, rfl⟩⟩

/-- It can be cut down to nothing else. -/
theorem IsTerm.reason_error_iff {f : Membership Exact} (hf : f.IsTerm) {h : Exact} :
    (∃ e, f.reason h = .error e) ↔ ¬ ∃ q : ℚ, h = number q ∧ 0 ≤ q ∧ q ≤ 1 := by
  constructor
  · rintro ⟨e, he⟩ ⟨q, rfl, h0, h1⟩
    obtain ⟨g, hg, -⟩ := hf.reason_ok h0 h1
    rw [hg] at he
    cases he
  · intro hnone
    cases hg : f.reason h with
    | error e => exact ⟨e, rfl⟩
    | ok g => exact absurd (exists_degree_of_reason hg) hnone

end FuzzyInference.Membership
