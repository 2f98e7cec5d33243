import Mathlib.Algebra.Order.Field.Power
import Mathlib.Algebra.Order.Field.Rat
import Mathlib.Tactic.Linarith
import Mathlib.Tactic.NormNum
import Mathlib.Tactic.Positivity
import Mathlib.Tactic.Ring
import Montage.Proofs.Number.Decoding

/-!
Contract: the values of finite numbers, and their order.

Floating-point comparison looks at exponents before mantissas. On canonical
numbers that is the order of their exact values, so inequalities between finite
numbers can be moved to exact rationals and back.

Owns: exact values and the two comparisons.
Does not own: rounded arithmetic, in `Proofs.Number.Rounding`.
-/

namespace Montage.Number

open Float.Model (UnpackedFloat)
open Float.Model.UnpackedFloat

namespace Binary64

def isFinite : Binary64 → Bool
  | .finite _ _ _ => true
  | _ => false

/-- The exact value of a finite number; other numbers count as zero. -/
def value : Binary64 → Rat
  | .finite negative mantissa exponent =>
    if negative then -(mantissa * 2 ^ exponent) else mantissa * 2 ^ exponent
  | _ => 0

/-! ## Magnitudes -/

section Magnitude

variable {m₁ m₂ : Nat} {e₁ e₂ : Int}

/-- A mantissa with all its bits at a larger exponent is above every kept number. -/
theorem magnitude_lt_of_full (first : Canonical m₁ e₁) (full : 2 ^ 52 ≤ m₂) (smaller : e₁ < e₂) :
    (m₁ : Rat) * 2 ^ e₁ < m₂ * 2 ^ e₂ := by
  have below : (m₁ : Rat) < 2 ^ 53 := by exact_mod_cast first.below
  have above : (2 : Rat) ^ 52 ≤ m₂ := by exact_mod_cast full
  calc (m₁ : Rat) * 2 ^ e₁ < 2 ^ 53 * 2 ^ e₁ := by gcongr
    _ = 2 ^ 52 * 2 ^ (e₁ + 1) := by
        rw [zpow_add₀ two_ne_zero]
        ring
    _ ≤ 2 ^ 52 * 2 ^ e₂ := by
        gcongr
        · norm_num
        · omega
    _ ≤ m₂ * 2 ^ e₂ := by gcongr

theorem magnitude_lt_of_exponent (first : Canonical m₁ e₁) (second : Canonical m₂ e₂)
    (smaller : e₁ < e₂) : (m₁ : Rat) * 2 ^ e₁ < m₂ * 2 ^ e₂ := by
  -- The larger exponent is not the least, so its mantissa has all its bits.
  have full : 2 ^ 52 ≤ m₂ := by
    refine second.full.resolve_right ?_
    have least := first.least
    omega
  exact magnitude_lt_of_full first full smaller

/-- A kept number below the weight of the hidden bit has a negative exponent. -/
theorem Canonical.exponent_neg (canonical : Canonical m₁ e₁) (small : (m₁ : Rat) * 2 ^ e₁ < 2 ^ 52) :
    e₁ < 0 := by
  by_contra whole
  have full : 2 ^ 52 ≤ m₁ := by
    refine canonical.full.resolve_right ?_
    unfold leastExponent
    omega
  have weight : (1 : Rat) ≤ 2 ^ e₁ := one_le_zpow₀ (by norm_num) (not_lt.mp whole)
  have large : (2 ^ 52 : Rat) ≤ m₁ := by exact_mod_cast full
  have above : (2 ^ 52 : Rat) * 1 ≤ m₁ * 2 ^ e₁ := by gcongr
  rw [mul_one] at above
  exact absurd small (not_lt.mpr above)

/-- Comparing exponents first and mantissas second compares magnitudes. -/
theorem compare_magnitude (first : Canonical m₁ e₁) (second : Canonical m₂ e₂) :
    (compare e₁ e₂).then (compare m₁ m₂) = compare ((m₁ : Rat) * 2 ^ e₁) (m₂ * 2 ^ e₂) := by
  rcases lt_trichotomy e₁ e₂ with smaller | rfl | larger
  · rw [compare_lt_iff_lt.mpr smaller,
      compare_lt_iff_lt.mpr (magnitude_lt_of_exponent first second smaller)]
    rfl
  · have weight : (0 : Rat) < 2 ^ e₁ := by positivity
    rw [compare_eq_iff_eq.mpr rfl]
    rcases lt_trichotomy m₁ m₂ with smaller | rfl | larger
    · have scaled : (m₁ : Rat) * 2 ^ e₁ < m₂ * 2 ^ e₁ := by gcongr
      rw [compare_lt_iff_lt.mpr smaller, compare_lt_iff_lt.mpr scaled]
      rfl
    · rw [compare_eq_iff_eq.mpr rfl, compare_eq_iff_eq.mpr rfl]
      rfl
    · have scaled : (m₂ : Rat) * 2 ^ e₁ < m₁ * 2 ^ e₁ := by gcongr
      rw [compare_gt_iff_gt.mpr larger, compare_gt_iff_gt.mpr scaled]
      rfl
  · rw [compare_gt_iff_gt.mpr larger,
      compare_gt_iff_gt.mpr (magnitude_lt_of_exponent second first larger)]
    rfl

theorem magnitude_pos (e : Int) {m : Nat} (positive : 0 < m) : (0 : Rat) < m * 2 ^ e := by
  positivity

end Magnitude

/-! ## Comparison -/

def Kept : UnpackedFloat → Prop
  | .zero _ => True
  | .finite _ mantissa exponent _ => Canonical mantissa exponent
  | _ => False

theorem kept_of_isFinite {x : Float} (finite : (ofFloat x).isFinite = true) :
    Kept x.toModel.unpack := by
  rw [ofFloat_eq] at finite
  cases unpacked : x.toModel.unpack with
  | notANumber =>
      rw [unpacked] at finite
      cases finite
  | infinity sign =>
      rw [unpacked] at finite
      cases finite
  | zero sign => trivial
  | finite sign mantissa exponent positive =>
      have decoded : ofFloat x = .finite (isMinus sign) mantissa exponent := by
        rw [ofFloat_eq, unpacked]
        rfl
      exact canonical_of_ofBits decoded

theorem value_zero (sign : Sign) : (ofUnpacked (.zero sign)).value = 0 := by
  cases sign <;> simp [ofUnpacked, value, isMinus]

theorem value_positive {mantissa : Nat} {exponent : Int} {positive : 0 < mantissa} :
    (ofUnpacked (.finite .positive mantissa exponent positive)).value = mantissa * 2 ^ exponent :=
  rfl

theorem value_negative {mantissa : Nat} {exponent : Int} {positive : 0 < mantissa} :
    (ofUnpacked (.finite .negative mantissa exponent positive)).value =
      -(mantissa * 2 ^ exponent) :=
  rfl

theorem compare_neg_neg (a b : Rat) : compare (-a) (-b) = (compare a b).swap := by
  rcases lt_trichotomy a b with smaller | rfl | larger
  · rw [compare_lt_iff_lt.mpr smaller, compare_gt_iff_gt.mpr (neg_lt_neg smaller)]
    rfl
  · rw [compare_eq_iff_eq.mpr rfl, compare_eq_iff_eq.mpr rfl]
    rfl
  · rw [compare_gt_iff_gt.mpr larger, compare_lt_iff_lt.mpr (neg_lt_neg larger)]
    rfl

theorem compare_finite {sign other : Sign} {mantissa m : Nat} {exponent e : Int}
    {positive : 0 < mantissa} {pos : 0 < m} (first : Canonical mantissa exponent)
    (second : Canonical m e) :
    (UnpackedFloat.finite sign mantissa exponent positive).compare (.finite other m e pos) =
      some (compare (ofUnpacked (.finite sign mantissa exponent positive)).value
        (ofUnpacked (.finite other m e pos)).value) := by
  have above := magnitude_pos exponent positive
  have otherAbove := magnitude_pos e pos
  cases sign with
  | positive =>
      rw [value_positive]
      cases other with
      | positive =>
          rw [value_positive, ← compare_magnitude first second]
          rfl
      | negative =>
          rw [value_negative, compare_gt_iff_gt.mpr (by linarith)]
          rfl
  | negative =>
      rw [value_negative]
      cases other with
      | positive =>
          rw [value_positive, compare_lt_iff_lt.mpr (by linarith)]
          rfl
      | negative =>
          rw [value_negative, compare_neg_neg, ← compare_magnitude first second]
          rfl

/-- Finite numbers compare like their values. -/
theorem compare_value {x y : UnpackedFloat} (first : Kept x) (second : Kept y) :
    x.compare y = some (compare (ofUnpacked x).value (ofUnpacked y).value) := by
  cases x with
  | notANumber => cases first
  | infinity sign => cases first
  | zero sign =>
      rw [value_zero]
      cases y with
      | notANumber => cases second
      | infinity sign => cases second
      | zero sign =>
          rw [value_zero, compare_eq_iff_eq.mpr rfl]
          rfl
      | finite sign mantissa exponent positive =>
          have above := magnitude_pos exponent positive
          cases sign with
          | positive =>
              rw [value_positive, compare_lt_iff_lt.mpr above]
              rfl
          | negative =>
              rw [value_negative, compare_gt_iff_gt.mpr (neg_lt_zero.mpr above)]
              rfl
  | finite sign mantissa exponent positive =>
      have above := magnitude_pos exponent positive
      cases y with
      | notANumber => cases second
      | infinity sign => cases second
      | zero other =>
          rw [value_zero]
          cases sign with
          | positive =>
              rw [value_positive, compare_gt_iff_gt.mpr above]
              rfl
          | negative =>
              rw [value_negative, compare_lt_iff_lt.mpr (neg_lt_zero.mpr above)]
              rfl
      | finite other m e pos => exact compare_finite first second

theorem lt_iff_compare {x y : Float} :
    x < y ↔ x.toModel.unpack.compare y.toModel.unpack = some .lt := by
  change decide (x.toModel < y.toModel) = true ↔ _
  rw [decide_eq_true_iff]
  exact beq_iff_eq

theorem le_iff_compare {x y : Float} :
    x ≤ y ↔ (x.toModel.unpack.compare y.toModel.unpack).any (·.isLE) = true := by
  change decide (x.toModel ≤ y.toModel) = true ↔ _
  rw [decide_eq_true_iff]
  rfl

theorem not_lt_nan {x y : Float} (undefined : ofFloat y = .nan) : ¬ x < y := by
  rw [lt_iff_compare, unpack_of_nan undefined]
  cases x.toModel.unpack <;> simp [UnpackedFloat.compare]

theorem lt_iff_value_lt {x y : Float} (first : (ofFloat x).isFinite = true)
    (second : (ofFloat y).isFinite = true) : x < y ↔ (ofFloat x).value < (ofFloat y).value := by
  rw [lt_iff_compare, compare_value (kept_of_isFinite first) (kept_of_isFinite second),
    ofFloat_eq, ofFloat_eq, Option.some.injEq, compare_lt_iff_lt]

theorem le_iff_value_le {x y : Float} (first : (ofFloat x).isFinite = true)
    (second : (ofFloat y).isFinite = true) : x ≤ y ↔ (ofFloat x).value ≤ (ofFloat y).value := by
  rw [le_iff_compare, compare_value (kept_of_isFinite first) (kept_of_isFinite second),
    ofFloat_eq, ofFloat_eq, Option.any_some, Ordering.isLE_iff_ne_gt, compare_gt_iff_gt, not_lt]

/-! ## Zero -/

theorem ofFloat_zero : ofFloat 0.0 = .finite false 0 leastExponent := by decide

theorem value_ofFloat_zero : (ofFloat 0.0).value = 0 := by
  rw [ofFloat_zero]
  simp [value]

end Binary64

end Montage.Number
