import Montage.Proofs.Number.Halving
import Montage.Proofs.Number.Identity
import Montage.Proofs.Number.Printing

/-!
Contract: for which numbers the reciprocal is printed above zero.

A quotient beyond the range becomes infinite, so the reciprocals of the smallest
numbers are. The reciprocal of two million is rounded down, to just under half a
millionth, and that of the number before it up; so six places show a reciprocal
as zero from two million on.

Owns: infinite quotients, and the bounds of numbers with a printable reciprocal.
-/

namespace Montage.Number.Binary64

open Float.Model (UnpackedFloat Format)
open Float.Model.UnpackedFloat

/-! ## Beyond the range -/

/-- The least magnitude beyond the range, with all its bits. -/
theorem beyond_eq : (2 : Rat) ^ (1024 : Int) = (2 ^ 52 : Nat) * 2 ^ (972 : Int) := by
  rw [Nat.cast_pow, ← zpow_natCast, Nat.cast_ofNat, ← zpow_add₀ two_ne_zero]
  norm_num

theorem infinite_pack {mantissa : Nat} {exponent : Int} {accuracy : Accuracy} (sign : Sign)
    (low : exponent ≤ target mantissa exponent)
    (beyond : (2 : Rat) ^ (1024 : Int) ≤ mantissa * 2 ^ exponent) :
    ofFloat (.ofModel (.pack (roundWithAccuracy Format.binary64 sign mantissa exponent accuracy))) =
      .infinite (isMinus sign) := by
  have bound : Canonical (2 ^ 52) 972 := canonical_full (by decide)
  rw [beyond_eq] at beyond
  have above := @le_rounded_mul mantissa (2 ^ 52) exponent 972 accuracy bound low beyond
  obtain ⟨m, e, canonical, sameValue, packed⟩ := @ofFloat_round mantissa exponent accuracy sign low
  rw [← sameValue] at above
  have large : ¬ e ≤ 971 := by
    intro small
    have below : (m : Rat) * 2 ^ e < (2 ^ 52 : Nat) * 2 ^ (972 : Int) :=
      magnitude_lt_of_full canonical (Nat.le_refl _) (by omega)
    exact absurd above (not_le.mpr below)
  rw [packed, if_neg large]

/-- A quotient beyond the range is infinite. -/
theorem infinite_div {x y : Float} {negative : Bool} {m₁ m₂ : Nat} {e₁ e₂ : Int}
    (first : ofFloat x = .finite negative m₁ e₁) (second : ofFloat y = .finite false m₂ e₂)
    (positive₁ : 0 < m₁) (positive₂ : 0 < m₂)
    (beyond : (2 : Rat) ^ (1024 : Int) ≤ m₁ * 2 ^ e₁ / (m₂ * 2 ^ e₂)) :
    ofFloat (x / y) = .infinite negative := by
  obtain ⟨sign, rfl, unpacked₁⟩ := unpack_of_ofFloat first positive₁
  have divisor : (0 : Rat) < m₂ * 2 ^ e₂ := magnitude_pos e₂ positive₂
  have bound : Canonical (2 ^ 52) 972 := canonical_full (by decide)
  rw [div_eq, unpacked₁, unpack_of_positive second positive₂, ← isMinus_div_positive sign]
  simp only [UnpackedFloat.div, divCore_eq]
  refine infinite_pack _ (quotientExponent_le_target positive₁ positive₂) ?_
  rw [beyond_eq] at beyond ⊢
  exact le_quotient_mul positive₁ positive₂ bound ((le_div_iff₀ divisor).mp beyond) rfl

/-! ## Reciprocals -/

theorem ofFloat_one : ofFloat 1.0 = .finite false (2 ^ 52) (-52) := by decide

theorem value_one : (ofFloat 1.0).value = 1 := by
  rw [value_of_decoded ofFloat_one]
  norm_num

section Reciprocals

variable {x : Float}

theorem IsPositive.roundsTo_reciprocal (isPositive : IsPositive x) :
    RoundsTo (1.0 / x) false (1 / (ofFloat x).value) := by
  obtain ⟨m, e, decoded, some⟩ := isPositive.decoded
  have rounded := roundsTo_div ofFloat_one decoded some
  rwa [← value_of_decoded decoded, ← value_of_decoded ofFloat_one, value_one] at rounded

/-- Numbers above a power of two that is kept are so by a unit of the least exponent. -/
theorem IsPositive.unit_le (isPositive : IsPositive x)
    (above : (2 : Rat) ^ (-1024 : Int) < (ofFloat x).value) :
    ((2 ^ 50 + 1 : Nat) : Rat) * 2 ^ (-1074 : Int) ≤ (ofFloat x).value := by
  obtain ⟨m, e, decoded, -⟩ := isPositive.decoded
  have least := (canonical_of_ofBits decoded).least
  obtain ⟨units, onGrid⟩ := exists_on_grid m (f := -1074) least
  have weight : (0 : Rat) < 2 ^ (-1074 : Int) := by positivity
  have power : (2 : Rat) ^ (-1024 : Int) = (2 ^ 50 : Nat) * 2 ^ (-1074 : Int) := by
    rw [Nat.cast_pow, ← zpow_natCast, Nat.cast_ofNat, ← zpow_add₀ two_ne_zero]
    norm_num
  rw [value_of_decoded decoded, onGrid] at above ⊢
  rw [power] at above
  have more : 2 ^ 50 < units := by exact_mod_cast (mul_lt_mul_iff_left₀ weight).mp above
  gcongr
  exact more

theorem IsPositive.rounds_reciprocal (isPositive : IsPositive x)
    (above : (2 : Rat) ^ (-1024 : Int) < (ofFloat x).value) :
    Rounds (1.0 / x) (1 / (ofFloat x).value) := by
  have top : Representable ((2 ^ 53 - 1 : Nat) * 2 ^ (971 : Int)) :=
    representable_grid (by decide) (by decide) (by decide)
  refine isPositive.roundsTo_reciprocal.rounds top ?_
  rw [div_le_iff₀ isPositive.2]
  calc (1 : Rat) ≤ (2 ^ 53 - 1 : Nat) * (2 ^ 50 + 1 : Nat) * 2 ^ (-103 : Int) := by norm_num
    _ = (2 ^ 53 - 1 : Nat) * 2 ^ (971 : Int) * ((2 ^ 50 + 1 : Nat) * 2 ^ (-1074 : Int)) := by
        rw [mul_mul_mul_comm, ← zpow_add₀ two_ne_zero]
        norm_num
    _ ≤ (2 ^ 53 - 1 : Nat) * 2 ^ (971 : Int) * (ofFloat x).value := by
        gcongr
        exact isPositive.unit_le above

/-- The reciprocal of a number is finite unless the number is tiny. -/
theorem IsPositive.isFinite_reciprocal_iff (isPositive : IsPositive x) :
    (1.0 / x).isFinite = true ↔ (2 : Rat) ^ (-1024 : Int) < (ofFloat x).value := by
  have positive := isPositive.2
  constructor
  · intro finite
    by_contra tiny
    obtain ⟨m, e, decoded, some⟩ := isPositive.decoded
    have beyond : (2 : Rat) ^ (1024 : Int) ≤
        (2 ^ 52 : Nat) * 2 ^ (-52 : Int) / (m * 2 ^ e) := by
      rw [← value_of_decoded decoded, ← value_of_decoded ofFloat_one, value_one,
        le_div_iff₀ positive]
      calc (2 : Rat) ^ (1024 : Int) * (ofFloat x).value
          ≤ 2 ^ (1024 : Int) * 2 ^ (-1024 : Int) := by
            gcongr
            exact not_lt.mp tiny
        _ = 1 := by
            rw [← zpow_add₀ two_ne_zero]
            norm_num
    have unbounded := infinite_div ofFloat_one decoded (by decide) some beyond
    rw [isFinite_iff, unbounded] at finite
    cases finite
  · exact fun above => (isPositive.rounds_reciprocal above).isFinite

/-! ## Six places -/

/-- Two million, with all its bits. -/
theorem twoMillion_eq : (2000000 : Rat) = (8589934592000000 : Nat) * 2 ^ (-32 : Int) := by norm_num

theorem canonical_near {k : Nat} (near : 8589934591999998 ≤ k) (far : k ≤ 8589934592000001) :
    Canonical k (-32) :=
  ⟨by omega, by decide, Or.inl (by omega)⟩

/-- A number below one of the numbers around two million is not above the one before it. -/
theorem IsPositive.le_pred {k : Nat} (isPositive : IsPositive x) (near : 8589934591999998 ≤ k)
    (far : k ≤ 8589934592000001) (below : (ofFloat x).value < k * 2 ^ (-32 : Int)) :
    (ofFloat x).value ≤ (k - 1 : Nat) * 2 ^ (-32 : Int) := by
  obtain ⟨m, e, decoded, -⟩ := isPositive.decoded
  rw [value_of_decoded decoded] at below ⊢
  exact le_pred_of_lt (canonical_of_ofBits decoded) (canonical_near near far) (by omega) below

/-- The last number whose reciprocal is printed above zero. -/
def underTwoMillion : Float := Float.ofBits 0x413E847FFFFFFFFF

theorem ofFloat_underTwoMillion :
    ofFloat underTwoMillion = .finite false 8589934591999999 (-32) := by decide

theorem ofFloat_twoMillion : ofFloat 2000000.0 = .finite false 8589934592000000 (-32) := by
  decide +kernel

theorem reciprocal_underTwoMillion :
    ofFloat (1.0 / underTwoMillion) = .finite false 4722366482869646 (-73) := by decide +kernel

theorem reciprocal_twoMillion :
    ofFloat (1.0 / 2000000.0) = .finite false 4722366482869645 (-73) := by decide +kernel

/-- A positive number is known by its value. -/
theorem IsPositive.eq_of_decoded {y : Float} {m : Nat} {e : Int} (isPositive : IsPositive x)
    (decoded : ofFloat y = .finite false m e) (same : (ofFloat x).value = m * 2 ^ e) : x = y := by
  rw [← value_of_decoded decoded] at same
  exact isPositive.eq_of_value_eq ⟨isFinite_of_decoded decoded, same ▸ isPositive.2⟩ same

/-- From two million on reciprocals are not above half a millionth. -/
theorem IsPositive.reciprocal_le (isPositive : IsPositive x) (fast : 2000000 ≤ (ofFloat x).value) :
    (ofFloat (1.0 / x)).value ≤ (4722366482869645 : Nat) * 2 ^ (-73 : Int) := by
  rcases fast.eq_or_lt with same | more
  · obtain rfl := isPositive.eq_of_decoded ofFloat_twoMillion (by rw [← same, twoMillion_eq])
    exact (value_of_decoded reciprocal_twoMillion).le
  · -- The next number is so far off that its exact reciprocal is below the bound.
    have next : (8589934592000001 : Nat) * 2 ^ (-32 : Int) ≤ (ofFloat x).value := by
      by_contra less
      have notMore := isPositive.le_pred (by decide) (Nat.le_refl _) (not_le.mp less)
      norm_num at notMore
      linarith
    have above : (2 : Rat) ^ (-1024 : Int) < (ofFloat x).value :=
      lt_of_lt_of_le (zpow_lt_one_of_neg₀ one_lt_two (by decide)) (by linarith)
    refine (isPositive.rounds_reciprocal above).le _
      (representable_grid (by decide) (by decide) (by decide)) ?_
    rw [div_le_iff₀ isPositive.2]
    calc (1 : Rat) ≤ (4722366482869645 : Nat) * 2 ^ (-73 : Int) *
          ((8589934592000001 : Nat) * 2 ^ (-32 : Int)) := by norm_num
      _ ≤ (4722366482869645 : Nat) * 2 ^ (-73 : Int) * (ofFloat x).value := by gcongr

/-- Below two million reciprocals are above half a millionth. -/
theorem IsPositive.le_reciprocal (isPositive : IsPositive x)
    (above : (2 : Rat) ^ (-1024 : Int) < (ofFloat x).value) (slow : (ofFloat x).value < 2000000) :
    (4722366482869646 : Nat) * 2 ^ (-73 : Int) ≤ (ofFloat (1.0 / x)).value := by
  rw [twoMillion_eq] at slow
  rcases (isPositive.le_pred (by decide) (by decide) slow).eq_or_lt with same | less
  · obtain rfl := isPositive.eq_of_decoded ofFloat_underTwoMillion same
    exact (value_of_decoded reciprocal_underTwoMillion).ge
  · have previous := isPositive.le_pred (by decide) (by decide) less
    refine (isPositive.rounds_reciprocal above).ge _
      (representable_grid (by decide) (by decide) (by decide)) ?_
    rw [le_div_iff₀ isPositive.2]
    calc (4722366482869646 : Nat) * 2 ^ (-73 : Int) * (ofFloat x).value
        ≤ (4722366482869646 : Nat) * 2 ^ (-73 : Int) *
          ((8589934591999998 : Nat) * 2 ^ (-32 : Int)) := by gcongr
      _ ≤ 1 := by norm_num

/-- Six places show the reciprocal of a number above zero when the number is neither tiny nor two
million or more. -/
theorem IsPositive.printable_reciprocal_iff (isPositive : IsPositive x) :
    IsPositiveDecimal (fixed 6 (1.0 / x)) ↔
      (2 : Rat) ^ (-1024 : Int) < (ofFloat x).value ∧ (ofFloat x).value < 2000000 := by
  rw [isPositiveDecimal_fixed_iff, isPositive.isFinite_reciprocal_iff]
  refine and_congr_right fun above => ⟨fun printed => ?_, fun slow => ?_⟩
  · by_contra fast
    have small := isPositive.reciprocal_le (not_lt.mp fast)
    norm_num at small
    linarith
  · have large := isPositive.le_reciprocal above slow
    norm_num at large
    linarith

end Reciprocals

end Montage.Number.Binary64
