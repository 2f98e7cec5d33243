import Montage.Proofs.Export.Percent

/-!
Contract: a finite position of a measurable total has a percentage.

The quotient of position and total is rounded, and may be too large for the
format; so may its hundredfold. Clamping hides the overflow: what is infinite is
far above the cap, or below zero, and what is not is rounded by so little that
one decimal of the exact percentage is met.

Owns: the exact percentage of a position, and how near the kept one is to it.
-/

namespace Montage.Export

open Montage.Number
open Montage.Number.Binary64

namespace Tracker

theorem isMeasurable_iff {total : Float} : isMeasurable total = true ↔ IsPositive total := by
  rw [isPositive_iff, isMeasurable, Bool.and_eq_true, decide_eq_true_iff]

/-- The percentage of a position in exact arithmetic, clamped between zero and the cap. -/
def exactPercent (total position : Float) : Rat :=
  max 0 (min 99 ((ofFloat position).value / (ofFloat total).value * 100))

/-! ## Clamping what may be infinite -/

section Clamp

variable {x : Float}

theorem clamp_of_minus (minus : HasSign x true) :
    IsPercentage (clamp x) ∧ (ofFloat (clamp x)).value = 0 := by
  rcases minus with ⟨m, e, decoded⟩ | unbounded
  · obtain ⟨percentage, value⟩ := clamp_of_finite (isFinite_iff.mp (isFinite_of_decoded decoded))
    have below : (ofFloat x).value ≤ 0 := by
      rw [decoded]
      exact neg_nonpos.mpr (by positivity)
    refine ⟨percentage, ?_⟩
    rw [value, max_eq_left]
    exact (min_le_right _ _).trans below
  · rw [clamp_of_infinite unbounded]
    exact ⟨isPercentage_zero, value_ofFloat_zero⟩

theorem clamp_of_large {v : Rat} (rounds : RoundsTo x false v) (large : 99 ≤ v) :
    IsPercentage (clamp x) ∧ (ofFloat (clamp x)).value = 99 := by
  cases rounds with
  | finite decoded _ ge =>
      obtain ⟨percentage, value⟩ := clamp_of_finite (isFinite_iff.mp (isFinite_of_decoded decoded))
      have above : 99 ≤ (ofFloat x).value := by
        rw [value_of_decoded decoded]
        exact ge 99 representable_cap large
      refine ⟨percentage, ?_⟩
      rw [value, min_eq_left above, max_eq_right (by norm_num)]
  | infinite decoded _ =>
      rw [clamp_of_infinite decoded]
      exact ⟨isPercentage_cap, value_cap⟩

/-- Clamping does not lead numbers apart. -/
theorem clamped_near (a b : Rat) : |max 0 (min 99 a) - max 0 (min 99 b)| ≤ |a - b| := by
  rw [max_comm 0, max_comm 0]
  refine (abs_max_sub_max_le_abs _ _ _).trans ?_
  refine (abs_min_sub_min_le_max 99 a 99 b).trans ?_
  rw [sub_self, abs_zero, max_eq_right (abs_nonneg _)]

end Clamp

/-! ## Scaling -/

section Scaling

variable {total position : Float}

theorem ofFloat_hundred : ofFloat 100.0 = .finite false (25 * 2 ^ 48) (-46) := by decide

theorem value_hundred : (ofFloat 100.0).value = 100 := by
  rw [value_of_decoded ofFloat_hundred]
  norm_num

theorem representable_hundred : Representable 100 := by
  exact_mod_cast representable_natCast (by decide : 100 < 2 ^ 53)

theorem representable_one : Representable 1 := by
  exact_mod_cast representable_natCast (by decide : 1 < 2 ^ 53)

/-- Up to the end of the total, two roundings move the percentage by little. -/
theorem scaled_near {m : Nat} {e : Int} (measurable : IsPositive total)
    (decoded : ofFloat position = .finite false m e)
    (within : (ofFloat position).value / (ofFloat total).value ≤ 1) :
    Rounds (position / total * 100.0) ((ofFloat (position / total)).value * 100) ∧
      |(ofFloat (position / total * 100.0)).value -
        (ofFloat position).value / (ofFloat total).value * 100| ≤ 2 ^ (-44 : Int) := by
  obtain ⟨k, f, divisor, some⟩ := measurable.decoded
  have nonneg : 0 ≤ (ofFloat position).value / (ofFloat total).value := by
    rw [value_of_decoded decoded]
    exact div_nonneg (by positivity) measurable.2.le
  have quotient := rounds_div decoded divisor some representable_one within
  have atMost := quotient.le 1 representable_one within
  have nearShare : |(ofFloat (position / total)).value -
      (ofFloat position).value / (ofFloat total).value| ≤ 2 ^ (-52 : Int) :=
    quotient.near nonneg (by norm_num; linarith) (by decide) (by decide)
  obtain ⟨m', e', quotientDecoded⟩ := quotient.decoded
  have quotientNonneg : 0 ≤ (ofFloat (position / total)).value := by
    rw [value_of_decoded quotientDecoded]
    positivity
  have product := rounds_mul quotientDecoded ofFloat_hundred (by decide) representable_hundred
  rw [value_hundred] at product
  have scaled := product (by linarith)
  have nearProduct : |(ofFloat (position / total * 100.0)).value -
      (ofFloat (position / total)).value * 100| ≤ 2 ^ (-46 : Int) :=
    scaled.near (by linarith) (by norm_num; linarith) (by decide) (by decide)
  refine ⟨scaled, ?_⟩
  rw [abs_le] at nearShare nearProduct ⊢
  norm_num at nearShare nearProduct ⊢
  constructor <;> linarith

/-- Behind the end of the total, the percentage is scaled above the cap or to an infinity. -/
theorem clamp_scaled_of_beyond {m : Nat} {e : Int} (measurable : IsPositive total)
    (decoded : ofFloat position = .finite false m e)
    (beyond : 1 ≤ (ofFloat position).value / (ofFloat total).value) :
    IsPercentage (clamp (position / total * 100.0)) ∧
      (ofFloat (clamp (position / total * 100.0))).value = 99 := by
  obtain ⟨k, f, divisor, some⟩ := measurable.decoded
  rw [value_of_decoded decoded, value_of_decoded divisor] at beyond
  cases roundsTo_div decoded divisor some with
  | finite quotient _ ge =>
      refine clamp_of_large (roundsTo_mul quotient ofFloat_hundred (by decide)) ?_
      have above := ge 1 representable_one beyond
      norm_num
      linarith
  | infinite quotient _ =>
      rw [clamp_of_infinite (infinite_mul quotient ofFloat_hundred (by decide))]
      exact ⟨isPercentage_cap, value_cap⟩

/-- Scaled and clamped, a finite position is a percentage next to the exact one. -/
theorem clamp_scaled_near (measurable : IsPositive total) (finite : position.isFinite = true) :
    IsPercentage (clamp (position / total * 100.0)) ∧
      |(ofFloat (clamp (position / total * 100.0))).value - exactPercent total position| ≤
        2 ^ (-44 : Int) := by
  obtain ⟨negative, m, e, decoded⟩ := exists_finite finite
  cases negative with
  | true =>
      -- The sign survives both roundings, and nothing else is left of it behind the clamp.
      obtain ⟨k, f, divisor, some⟩ := measurable.decoded
      have minus : HasSign (position / total * 100.0) true :=
        (roundsTo_div decoded divisor some).hasSign.mul ofFloat_hundred (by decide)
      obtain ⟨percentage, value⟩ := clamp_of_minus minus
      have below : (ofFloat position).value ≤ 0 := by
        rw [decoded]
        exact neg_nonpos.mpr (by positivity)
      have share := div_nonpos_of_nonpos_of_nonneg below measurable.2.le
      refine ⟨percentage, ?_⟩
      rw [value, exactPercent, max_eq_left ((min_le_right _ _).trans (by linarith))]
      norm_num
  | false =>
      rcases le_or_gt ((ofFloat position).value / (ofFloat total).value) 1 with within | beyond
      · obtain ⟨scaled, near⟩ := scaled_near measurable decoded within
        obtain ⟨percentage, value⟩ := clamp_of_finite (isFinite_iff.mp scaled.isFinite)
        refine ⟨percentage, ?_⟩
        rw [value, exactPercent]
        exact (clamped_near _ _).trans near
      · obtain ⟨percentage, value⟩ := clamp_scaled_of_beyond measurable decoded beyond.le
        refine ⟨percentage, ?_⟩
        rw [value, exactPercent, min_eq_left (by linarith), max_eq_right (by norm_num)]
        norm_num

/-- A finite position is worth the exact percentage, rounded to one decimal. -/
theorem percentAt_near (measurable : IsPositive total) (finite : position.isFinite = true) :
    IsPercentage (percentAt total position) ∧
      OneDecimal (percentAt total position) (exactPercent total position) (2 ^ (-43 : Int)) := by
  obtain ⟨clamped, near⟩ := clamp_scaled_near measurable finite
  obtain ⟨percentage, decimal⟩ := roundTenth_near clamped
  exact ⟨percentage, decimal.of_near near (by norm_num)⟩

end Scaling

end Tracker

end Montage.Export
