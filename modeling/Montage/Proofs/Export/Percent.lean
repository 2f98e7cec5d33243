import Montage.Export.Progress
import Montage.Proofs.Number.Bounds

/-!
Contract: percentages stay between zero and the cap.

A position is scaled, clamped and rounded to one decimal in rounded arithmetic.
Both bounds of the clamp are kept exactly, and so are ten times and a tenth of
them, so that rounding never leads past the cap.

Owns: percentages, what clamping and rounding make of a number, and that the
tracker only ever rises to a percentage.
Does not own: how a position is scaled, in `Proofs.Export.Scale`, and the events
positions come from.
-/

namespace Montage.Export

open Montage.Number
open Montage.Number.Binary64

/-- A finite number from zero to the cap. -/
structure IsPercentage (x : Float) : Prop where
  finite : (ofFloat x).isFinite = true
  nonneg : 0 ≤ (ofFloat x).value
  atMost : (ofFloat x).value ≤ 99

theorem ofFloat_ten : ofFloat 10.0 = .finite false (5 * 2 ^ 50) (-49) := by decide

theorem value_ten : (ofFloat 10.0).value = 10 := by
  rw [value_of_decoded ofFloat_ten]
  norm_num

theorem ofFloat_cap : ofFloat Tracker.cap = .finite false (99 * 2 ^ 46) (-46) := by decide

theorem value_cap : (ofFloat Tracker.cap).value = 99 := by
  rw [ofFloat_cap]
  norm_num [value]

theorem isPercentage_zero : IsPercentage 0.0 where
  finite := by decide
  nonneg := le_of_eq value_ofFloat_zero.symm
  atMost := by
    rw [value_ofFloat_zero]
    norm_num

theorem isPercentage_cap : IsPercentage Tracker.cap where
  finite := by decide
  nonneg := by
    rw [value_cap]
    norm_num
  atMost := le_of_eq value_cap

namespace IsPercentage

variable {x y z : Float}

theorem le_refl (percentage : IsPercentage x) : x ≤ x :=
  (le_iff_value_le percentage.finite percentage.finite).mpr (Rat.le_refl ..)

theorem le_of_lt (first : IsPercentage x) (second : IsPercentage y) (less : x < y) : x ≤ y := by
  rw [lt_iff_value_lt first.finite second.finite] at less
  rw [le_iff_value_le first.finite second.finite]
  exact less.le

theorem lt_trans (first : IsPercentage x) (second : IsPercentage y) (third : IsPercentage z)
    (less : x < y) (more : y < z) : x < z := by
  rw [lt_iff_value_lt first.finite second.finite] at less
  rw [lt_iff_value_lt second.finite third.finite] at more
  rw [lt_iff_value_lt first.finite third.finite]
  exact less.trans more

theorem zero_le (percentage : IsPercentage x) : 0.0 ≤ x := by
  rw [le_iff_value_le isPercentage_zero.finite percentage.finite, value_ofFloat_zero]
  exact percentage.nonneg

theorem le_cap (percentage : IsPercentage x) : x ≤ Tracker.cap := by
  rw [le_iff_value_le percentage.finite isPercentage_cap.finite, value_cap]
  exact percentage.atMost

/-- A percentage has no sign, or is minus zero. -/
theorem decoded_cases (percentage : IsPercentage x) :
    (∃ m e, ofFloat x = .finite false m e) ∨ ∃ e, ofFloat x = .finite true 0 e := by
  obtain ⟨negative, m, e, decoded⟩ := exists_finite (isFinite_iff.mpr percentage.finite)
  cases negative with
  | false => exact Or.inl ⟨m, e, decoded⟩
  | true =>
      have nonneg := percentage.nonneg
      rw [decoded] at nonneg
      have weight : (0 : Rat) < 2 ^ e := by positivity
      have zero : m = 0 := by
        simp only [value, ↓reduceIte, Left.nonneg_neg_iff] at nonneg
        have noMantissa : (m : Rat) ≤ 0 := by nlinarith
        exact_mod_cast le_antisymm noMantissa (Nat.cast_nonneg m)
      exact Or.inr ⟨e, zero ▸ decoded⟩

/-- Only a success shows a hundred. -/
theorem ne_hundred (percentage : IsPercentage x) : x ≠ 100.0 := by
  rintro rfl
  have hundred : ofFloat 100.0 = .finite false (25 * 2 ^ 48) (-46) := by decide
  have small := percentage.atMost
  rw [hundred] at small
  norm_num [value] at small

end IsPercentage

namespace Tracker

/-! ## Clamping and rounding -/

/-- A finite number is clamped like its exact value. -/
theorem clamp_of_finite {x : Float} (finite : (ofFloat x).isFinite = true) :
    IsPercentage (clamp x) ∧ (ofFloat (clamp x)).value = max 0 (min 99 (ofFloat x).value) := by
  unfold clamp
  split
  · next negative =>
      rw [lt_iff_value_lt finite isPercentage_zero.finite, value_ofFloat_zero] at negative
      refine ⟨isPercentage_zero, ?_⟩
      rw [value_ofFloat_zero, max_eq_left]
      exact (min_le_right _ _).trans negative.le
  · next nonneg =>
      rw [lt_iff_value_lt finite isPercentage_zero.finite, value_ofFloat_zero, not_lt] at nonneg
      split
      · next large =>
          rw [lt_iff_value_lt isPercentage_cap.finite finite, value_cap] at large
          refine ⟨isPercentage_cap, ?_⟩
          rw [value_cap, min_eq_left large.le, max_eq_right (by norm_num)]
      · next within =>
          rw [lt_iff_value_lt isPercentage_cap.finite finite, value_cap, not_lt] at within
          refine ⟨⟨finite, nonneg, within⟩, ?_⟩
          rw [min_eq_right within, max_eq_right nonneg]

theorem clamp_of_infinite {x : Float} {negative : Bool} (unbounded : ofFloat x = .infinite negative) :
    clamp x = if negative then 0.0 else cap := by
  obtain ⟨sign, rfl, unpacked⟩ := unpack_of_infinite unbounded
  have belowZero : x < 0.0 ↔ isMinus sign = true := by
    rw [lt_iff_compare, unpacked]
    cases sign <;> decide
  have aboveCap : cap < x ↔ isMinus sign = false := by
    rw [lt_iff_compare, unpacked]
    cases sign <;> decide
  unfold clamp
  cases sign <;> simp [belowZero, aboveCap, isMinus]

theorem clamp_cases (x : Float) : ofFloat (clamp x) = .nan ∨ IsPercentage (clamp x) := by
  cases decoded : ofFloat x with
  | nan =>
      have notBelow : ¬ x < 0.0 := by
        rw [lt_iff_compare, unpack_of_nan decoded]
        decide
      unfold clamp
      rw [if_neg notBelow, if_neg (not_lt_nan decoded)]
      exact Or.inl decoded
  | infinite negative =>
      right
      rw [clamp_of_infinite decoded]
      split
      · exact isPercentage_zero
      · exact isPercentage_cap
  | finite negative mantissa exponent =>
      exact Or.inr (clamp_of_finite (isFinite_iff.mp (isFinite_of_decoded decoded))).1

theorem representable_cap : Representable 99 := by
  exact_mod_cast representable_natCast (by decide : 99 < 2 ^ 53)

/-- A tenth of a whole number that ten times the cap bounds. -/
theorem rounds_tenth {tenths : Nat} (below : tenths ≤ 990) :
    Rounds (Float.ofNat tenths / 10.0) (tenths / 10) := by
  have short : tenths < 2 ^ 53 := by omega
  have whole := rounds_ofNat short
  obtain ⟨m, e, decoded⟩ := whole.decoded
  have quotient := rounds_div decoded ofFloat_ten (by decide) representable_cap
  rw [whole.eq (representable_natCast short), value_ten] at quotient
  have atMost : (tenths : Rat) ≤ 990 := by exact_mod_cast below
  exact quotient (by linarith)

theorem isPercentage_tenth {tenths : Nat} (below : tenths ≤ 990) :
    IsPercentage (Float.ofNat tenths / 10.0) := by
  have rounds := rounds_tenth below
  have atMost : (tenths : Rat) ≤ 990 := by exact_mod_cast below
  refine ⟨isFinite_iff.mp rounds.isFinite, ?_, rounds.le 99 representable_cap (by linarith)⟩
  obtain ⟨m, e, decoded⟩ := rounds.decoded
  rw [value_of_decoded decoded]
  positivity

theorem roundTenth_of_nan {x : Float} (undefined : ofFloat x = .nan) :
    ofFloat (roundTenth x) = .nan := by
  have product : x * 10.0 = .ofModel (.pack .notANumber) := by
    rw [mul_eq, unpack_of_nan undefined]
    rfl
  unfold roundTenth
  rw [product]
  decide

theorem roundTenth_of_minusZero {x : Float} {exponent : Int}
    (decoded : ofFloat x = .finite true 0 exponent) :
    ofFloat (roundTenth x) = .finite true 0 leastExponent := by
  obtain ⟨sign, minus, unpacked⟩ := unpack_of_zero decoded
  obtain rfl : sign = .negative := by
    cases sign with
    | negative => rfl
    | positive => cases minus
  have product : x * 10.0 = .ofModel (.pack (.zero .negative)) := by
    rw [mul_eq, unpacked]
    rfl
  unfold roundTenth
  rw [product]
  decide +kernel

/-- A number is a whole number of tenths, the one next to an exact value up to an error. -/
def OneDecimal (rounded : Float) (exact error : Rat) : Prop :=
  ∃ tenths : Nat, tenths ≤ 990 ∧
    (ofFloat rounded).value = (ofFloat (Float.ofNat tenths / 10.0)).value ∧
    |(tenths : Rat) / 10 - exact| ≤ 1 / 20 + error

theorem OneDecimal.of_near {rounded : Float} {value exact error gap total : Rat}
    (decimal : OneDecimal rounded value error) (near : |value - exact| ≤ gap)
    (within : error + gap ≤ total) : OneDecimal rounded exact total := by
  obtain ⟨tenths, atMost, same, close⟩ := decimal
  refine ⟨tenths, atMost, same, ?_⟩
  calc |(tenths : Rat) / 10 - exact| ≤ |(tenths : Rat) / 10 - value| + |value - exact| :=
        abs_sub_le _ _ _
    _ ≤ (1 / 20 + error) + gap := add_le_add close near
    _ ≤ 1 / 20 + total := by linarith

theorem roundTenth_of_plus {x : Float} {m : Nat} {e : Int} (percentage : IsPercentage x)
    (decoded : ofFloat x = .finite false m e) :
    IsPercentage (roundTenth x) ∧
      OneDecimal (roundTenth x) (ofFloat x).value (2 ^ (-46 : Int)) := by
  have nonneg := percentage.nonneg
  have atMost := percentage.atMost
  have limit := representable_natCast (by decide : 990 < 2 ^ 53)
  have product := rounds_mul decoded ofFloat_ten (by decide) limit
  rw [value_ten] at product
  have below : (ofFloat x).value * 10 ≤ (990 : Nat) := by
    norm_num
    linarith
  have scaled := product below
  have near : |(ofFloat (x * 10.0)).value - (ofFloat x).value * 10| ≤ 2 ^ (-43 : Int) :=
    scaled.near (by linarith) (by norm_num at below ⊢; linarith) (by decide) (by decide)
  obtain ⟨tenths, whole, few, next, -⟩ := scaled.exists_whole below (by decide)
  have shape : roundTenth x = Float.ofNat tenths / 10.0 := by rw [roundTenth, whole]
  rw [shape]
  refine ⟨isPercentage_tenth few, tenths, few, rfl, ?_⟩
  rw [abs_le] at near next ⊢
  norm_num at near ⊢
  constructor <;> linarith

/-- Rounding leads from a percentage to the nearest one with one decimal. -/
theorem roundTenth_near {x : Float} (percentage : IsPercentage x) :
    IsPercentage (roundTenth x) ∧
      OneDecimal (roundTenth x) (ofFloat x).value (2 ^ (-46 : Int)) := by
  rcases percentage.decoded_cases with ⟨m, e, decoded⟩ | ⟨e, minusZero⟩
  · exact roundTenth_of_plus percentage decoded
  · have result := roundTenth_of_minusZero minusZero
    have zero : (ofFloat (roundTenth x)).value = 0 := by
      rw [result]
      norm_num [value]
    have none : (ofFloat (Float.ofNat 0 / 10.0)).value = 0 := by
      rw [show Float.ofNat 0 / 10.0 = 0.0 by decide +kernel]
      exact value_ofFloat_zero
    refine ⟨⟨by rw [result]; rfl, zero.ge, by rw [zero]; norm_num⟩, 0, by decide, ?_, ?_⟩
    · rw [zero, none]
    · rw [minusZero]
      norm_num [value]

/-- Rounding to one decimal keeps a percentage one, and the undefined number undefined. -/
theorem roundTenth_cases (x : Float) (clamped : ofFloat x = .nan ∨ IsPercentage x) :
    ofFloat (roundTenth x) = .nan ∨ IsPercentage (roundTenth x) :=
  clamped.imp roundTenth_of_nan fun percentage => (roundTenth_near percentage).1

/-- What exceeds a number is a percentage, whatever position it stands for. -/
theorem isPercentage_percentAt {total position reached : Float}
    (more : reached < percentAt total position) : IsPercentage (percentAt total position) :=
  (roundTenth_cases _ (clamp_cases (position / total * 100.0))).resolve_left fun undefined =>
    not_lt_nan undefined more

/-! ## The tracker -/

/-- What a position does: it raises the percentage, or nothing at all happens. -/
theorem update_cases (tracker : Tracker) (position : Float) :
    tracker.update position = (none, tracker) ∨
      tracker.percent < percentAt tracker.total position ∧
        tracker.update position =
          (some (percentAt tracker.total position),
            { tracker with percent := percentAt tracker.total position }) := by
  simp only [update]
  split
  · split
    · next more => exact Or.inr ⟨more, rfl⟩
    · exact Or.inl rfl
  · exact Or.inl rfl

end Tracker

end Montage.Export
