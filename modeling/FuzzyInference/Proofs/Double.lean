import FuzzyInference.Decimal.Binary
import FuzzyInference.Scalar
import Mathlib.Data.Prod.Lex
import Mathlib.Tactic.SplitIfs

/-!
# Doubles

Doubles are compared by what they are unpacked into. All of them but those that are no number are
ordered, and equal ones stand for each other in comparisons, though zeros of both signs are equal.

* `isNaN_of_le`, `le_self_of_isNaN`, `beq_self_of_isNaN`: numbers, and only they, are ordered;
* `rank`, `compare_eq_rank`: where a number stands among all of them, and that it is compared by that;
* `compare_congr`: equal doubles compare alike with any other; `beq_trans`, `le_of_beq`: what
  follows from it;
* `isInf_iff`: the infinities are those that are decoded as such;
* `finite_bounds`: the mantissa and the exponent of a decoded double are bounded.
-/

namespace FuzzyInference

open Float.Model

/-! ### Numbers -/

theorem le_eq_unpack (x y : Float) : Scalar.le x y = x.toModel.unpack.le y.toModel.unpack :=
  Bool.decide_eq_true.trans Bool.decide_eq_true

theorem lt_eq_unpack (x y : Float) : Scalar.lt x y = x.toModel.unpack.lt y.toModel.unpack :=
  Bool.decide_eq_true.trans Bool.decide_eq_true

/-- Only numbers are compared. -/
theorem isNaN_of_compare {u v : UnpackedFloat} {o : Ordering} (h : u.compare v = some o) :
    u.isNaN = false ∧ v.isNaN = false := by
  cases u with
  | notANumber => cases h
  | infinity | zero | finite =>
    cases v with
    | notANumber => cases h
    | infinity | zero | finite => exact ⟨rfl, rfl⟩

theorem isNaN_of_le {x y : Float} (h : Scalar.le x y = true) :
    x.isNaN = false ∧ y.isNaN = false := by
  rw [le_eq_unpack] at h
  obtain ⟨o, ho, -⟩ := (Option.any_eq_true _ _).mp h
  exact isNaN_of_compare ho

/-! ### The order of numbers -/

/-- Where a number stands among all numbers: by its sign first and then by its size, in which the
exponent comes before the mantissa. -/
def rank : UnpackedFloat → ℤ ×ₗ ℤ ×ₗ ℤ
  | .notANumber => toLex (0, toLex (0, 0))
  | .infinity .negative => toLex (-2, toLex (0, 0))
  | .finite .negative m e _ => toLex (-1, toLex (-e, -m))
  | .zero _ => toLex (0, toLex (0, 0))
  | .finite .positive m e _ => toLex (1, toLex (e, m))
  | .infinity .positive => toLex (2, toLex (0, 0))

theorem compare_size (m n : Nat) (d e : Int) : (compare d e).then (compare m n) =
    if d < e ∨ d = e ∧ m < n then .lt else if e < d ∨ d = e ∧ n < m then .gt else .eq := by
  rw [← cmp_eq_compare, ← cmp_eq_compare]
  unfold cmp cmpUsing
  split_ifs <;> first | rfl | omega

/-- **Numbers are compared by their ranks.** -/
theorem compare_eq_rank {u v : UnpackedFloat} (hu : u.isNaN = false) (hv : v.isNaN = false) :
    u.compare v = some (cmp (rank u) (rank v)) := by
  unfold UnpackedFloat.compare cmp cmpUsing rank
  cases u with
  | notANumber => cases hu
  | infinity s =>
    cases v with
    | notANumber => cases hv
    | infinity s' => cases s <;> cases s' <;> decide
    | zero => cases s <;> simp [Prod.Lex.toLex_lt_toLex]
    | finite s' => cases s <;> cases s' <;> simp [Prod.Lex.toLex_lt_toLex]
  | zero =>
    cases v with
    | notANumber => cases hv
    | infinity s' => cases s' <;> simp [Prod.Lex.toLex_lt_toLex]
    | zero => simp
    | finite s' => cases s' <;> simp [Prod.Lex.toLex_lt_toLex]
  | finite s m e hm =>
    cases v with
    | notANumber => cases hv
    | infinity s' => cases s <;> cases s' <;> simp [Prod.Lex.toLex_lt_toLex]
    | zero => cases s <;> simp [Prod.Lex.toLex_lt_toLex]
    | finite s' m' e' hm' =>
      cases s with
      | positive =>
        cases s' with
        | negative => simp [Prod.Lex.toLex_lt_toLex]
        | positive =>
          simp only [compare_size, Prod.Lex.toLex_lt_toLex, lt_self_iff_false, true_and, false_or]
          split_ifs <;> first | rfl | omega
      | negative =>
        cases s' with
        | positive => simp [Prod.Lex.toLex_lt_toLex]
        | negative =>
          -- Of two negative numbers that of the greater size is the smaller one.
          simp only [compare_size, Prod.Lex.toLex_lt_toLex, lt_self_iff_false, true_and, false_or]
          split_ifs <;> first | rfl | omega

/-! ### Equal doubles -/

/-- A number compares equal to itself. -/
theorem compare_self {u : UnpackedFloat} (h : u.isNaN = false) : u.compare u = some .eq := by
  rw [compare_eq_rank h h, cmp_self_eq_eq]

/-- Each number is as great as itself. -/
theorem le_self_of_isNaN {x : Float} (h : x.isNaN = false) : Scalar.le x x = true := by
  have hcompare : x.toModel.unpack.compare x.toModel.unpack = some .eq := compare_self h
  rw [le_eq_unpack]
  unfold UnpackedFloat.le
  rw [hcompare]
  rfl

theorem beq_iff_compare {x y : Float} :
    (x == y) = true ↔ x.toModel.unpack.compare y.toModel.unpack = some .eq := by
  show x.toModel.unpack.beq y.toModel.unpack = true ↔ _
  unfold UnpackedFloat.beq
  exact beq_iff_eq

/-- Each number is equal to itself. -/
theorem beq_self_of_isNaN {x : Float} (h : x.isNaN = false) : (x == x) = true :=
  beq_iff_compare.mpr (compare_self h)

/-- **What compares equal compares alike with any other.** -/
theorem compare_congr {u v : UnpackedFloat} (h : u.compare v = some .eq) (w : UnpackedFloat) :
    u.compare w = v.compare w ∧ w.compare u = w.compare v := by
  obtain ⟨hu, hv⟩ := isNaN_of_compare h
  have hrank : rank u = rank v := by
    rw [compare_eq_rank hu hv] at h
    exact (cmp_eq_eq_iff _ _).mp (Option.some.inj h)
  cases hw : w.isNaN with
  | false =>
    rw [compare_eq_rank hu hw, compare_eq_rank hv hw, compare_eq_rank hw hu,
      compare_eq_rank hw hv, hrank]
    exact ⟨rfl, rfl⟩
  | true =>
    -- Nothing is compared with what is no number.
    have hleft : ∀ u : UnpackedFloat, u.compare w = none := fun u =>
      Option.eq_none_iff_forall_ne_some.mpr fun o ho => by
        rw [(isNaN_of_compare ho).2] at hw
        cases hw
    have hright : ∀ u : UnpackedFloat, w.compare u = none := fun u =>
      Option.eq_none_iff_forall_ne_some.mpr fun o ho => by
        rw [(isNaN_of_compare ho).1] at hw
        cases hw
    exact ⟨(hleft u).trans (hleft v).symm, (hright u).trans (hright v).symm⟩

section
variable {x y z x' y' : Float}

theorem beq_trans (h : (x == y) = true) (h' : (y == z) = true) : (x == z) = true :=
  beq_iff_compare.mpr
    ((compare_congr (beq_iff_compare.mp h) z.toModel.unpack).1.trans (beq_iff_compare.mp h'))

/-- Equal doubles are ordered alike. -/
theorem le_of_beq (hx : (x' == x) = true) (hy : (y' == y) = true) (h : Scalar.le x y = true) :
    Scalar.le x' y' = true := by
  rw [le_eq_unpack] at h ⊢
  unfold UnpackedFloat.le at h ⊢
  rw [(compare_congr (beq_iff_compare.mp hx) _).1, (compare_congr (beq_iff_compare.mp hy) _).2]
  exact h

end

/-! ### Decoding -/

section
open FuzzyInference.Decimal

theorem toNat_exponent (x : Float) : (@UnpackedFloat.unpackExponent
    Format.binary64 x.toModel.toBits.toBitVec).toNat =
      x.toBits.toNat / twoTo 52 % twoTo 11 := by
  unfold UnpackedFloat.unpackExponent
  rw [BitVec.toNat_cast, BitVec.extractLsb_toNat, Nat.shiftRight_eq_div_pow]
  rfl

theorem toNat_mantissa (x : Float) : (@UnpackedFloat.unpackMantissa
    Format.binary64 x.toModel.toBits.toBitVec).toNat = x.toBits.toNat % twoTo 52 := by
  unfold UnpackedFloat.unpackMantissa
  rw [BitVec.toNat_cast, BitVec.extractLsb_toNat, Nat.shiftRight_eq_div_pow]
  show x.toBits.toNat / 2 ^ 0 % 2 ^ 52 = _
  rw [Nat.pow_zero, Nat.div_one]
  rfl

/-- **The infinities** are the doubles that are decoded as such. -/
theorem isInf_iff {x : Float} :
    x.isInf = true ↔ ∃ negative, Binary.ofFloat x = .infinite negative := by
  have hfull : @UnpackedFloat.unpackExponent Format.binary64
      x.toModel.toBits.toBitVec = -1#_ ↔ x.toBits.toNat / twoTo 52 % twoTo 11 = 2047 := by
    rw [← BitVec.toNat_inj, toNat_exponent]
    rfl
  have hempty : @UnpackedFloat.unpackMantissa Format.binary64
      x.toModel.toBits.toBitVec = 0#_ ↔ x.toBits.toNat % twoTo 52 = 0 := by
    rw [← BitVec.toNat_inj, toNat_mantissa]
    rfl
  show (UnpackedFloat.unpack Format.binary64 x.toModel.toBits.toBitVec).isInf = true ↔ _
  unfold UnpackedFloat.unpack Binary.ofFloat
  dsimp only
  by_cases h : x.toBits.toNat / twoTo 52 % twoTo 11 = 2047
  · rw [if_pos (hfull.mpr h), if_pos h]
    by_cases h' : x.toBits.toNat % twoTo 52 = 0
    · rw [if_pos (hempty.mpr h'), if_pos h']
      exact iff_of_true rfl ⟨_, rfl⟩
    · rw [if_neg (mt hempty.mp h'), if_neg h']
      exact iff_of_false Bool.false_ne_true fun ⟨_, h⟩ => by cases h
  · rw [if_neg (mt hfull.mp h), if_neg h]
    refine iff_of_false ?_ ?_
    · by_cases hsmall : @UnpackedFloat.unpackExponent Format.binary64
          x.toModel.toBits.toBitVec = 0#11
      · rw [if_pos hsmall]
        by_cases hnone : @UnpackedFloat.unpackMantissa Format.binary64
            x.toModel.toBits.toBitVec = 0#52
        · rw [dif_pos hnone]
          exact Bool.false_ne_true
        · rw [dif_neg hnone]
          exact Bool.false_ne_true
      · rw [if_neg hsmall]
        exact Bool.false_ne_true
    · split_ifs <;> rintro ⟨_, h⟩ <;> cases h

/-- **The mantissa and the exponent of a double** have bounds. -/
theorem finite_bounds {x : Float} {negative : Bool} {m : Nat} {q : Int}
    (h : Binary.ofFloat x = .finite negative m q) : m < twoTo 53 ∧ q ≤ 971 := by
  have hfraction : x.toBits.toNat % twoTo 52 < twoTo 52 := Nat.mod_lt _ (twoTo_pos 52)
  have hfield : x.toBits.toNat / twoTo 52 % twoTo 11 < 2048 := Nat.mod_lt _ (twoTo_pos 11)
  have hdouble : twoTo 53 = twoTo 52 + twoTo 52 := rfl
  unfold Binary.ofFloat at h
  dsimp only at h
  split_ifs at h with hnone hempty hsmall
  · cases h
    exact ⟨by omega, by decide⟩
  · cases h
    exact ⟨by omega, by omega⟩

end

end FuzzyInference
