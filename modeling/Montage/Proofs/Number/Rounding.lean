import Montage.Proofs.Number.FloatValue

/-!
Contract: rounded results stay below what bounds the exact ones.

Rounding drops bits of a mantissa and may add one in the last place left. A
bound that is itself kept exactly lies on the grid results are rounded to, so
rounding cannot pass it: `round_le` says so for one rounding, and products,
quotients and whole numbers follow.

Owns: what rounding makes of a mantissa, and upper bounds of rounded results.
-/

namespace Montage.Number

open Float.Model (UnpackedFloat Format totalExponent)
open Float.Model.UnpackedFloat

namespace Binary64

/-! ## Dropping bits -/

theorem mantissa_shiftRight (extended : ExtendedMantissa) (amount : Nat) :
    (extended >>> amount).mantissa = extended.mantissa / 2 ^ amount := by
  change (amount.repeat ExtendedMantissa.shiftRightOne extended).mantissa = _
  induction amount with
  | zero => simp [Nat.repeat]
  | succ amount inductionHypothesis =>
      rw [Nat.repeat, Nat.pow_succ, ← Nat.div_div_eq_div_mul, ← inductionHypothesis]
      rfl

theorem roundedMantissa_ge (extended : ExtendedMantissa) :
    extended.mantissa ≤ extended.roundedMantissa := by
  rcases extended with ⟨mantissa, roundBit, stickyBit⟩
  cases roundBit <;> cases stickyBit <;>
    simp only [ExtendedMantissa.roundedMantissa, ExtendedMantissa.accuracy,
      Accuracy.roundToNearestEven] <;> omega

theorem roundedMantissa_le (extended : ExtendedMantissa) :
    extended.roundedMantissa ≤ extended.mantissa + 1 := by
  rcases extended with ⟨mantissa, roundBit, stickyBit⟩
  cases roundBit <;> cases stickyBit <;>
    simp only [ExtendedMantissa.roundedMantissa, ExtendedMantissa.accuracy,
      Accuracy.roundToNearestEven] <;> omega

theorem shiftRight_exact (mantissa amount : Nat) :
    ExtendedMantissa.ofMantissaAndAccuracy (mantissa * 2 ^ amount) .exact >>> amount =
      ExtendedMantissa.ofMantissaAndAccuracy mantissa .exact := by
  change amount.repeat ExtendedMantissa.shiftRightOne _ = _
  induction amount generalizing mantissa with
  | zero => simp [Nat.repeat]
  | succ amount inductionHypothesis =>
      have doubled : mantissa * 2 ^ (amount + 1) = 2 * mantissa * 2 ^ amount := by ring
      rw [Nat.repeat, doubled, inductionHypothesis]
      simp [ExtendedMantissa.shiftRightOne, ExtendedMantissa.ofMantissaAndAccuracy]

def atMost (mantissa : Nat) : Accuracy → Nat
  | .exact => mantissa
  | .inexact _ => mantissa + 1

/-- Rounding goes up by less than one unit in the last place. -/
theorem rounded_lt (mantissa amount : Nat) (accuracy : Accuracy) :
    (ExtendedMantissa.ofMantissaAndAccuracy mantissa accuracy >>> amount).roundedMantissa *
        2 ^ amount < atMost mantissa accuracy + 2 ^ amount := by
  have unit : 0 < 2 ^ amount := Nat.two_pow_pos amount
  have kept : (ExtendedMantissa.ofMantissaAndAccuracy mantissa accuracy).mantissa = mantissa := by
    rcases accuracy with _ | (_ | _ | _) <;> rfl
  have next := Nat.mul_le_mul_right (2 ^ amount) (roundedMantissa_le
    (ExtendedMantissa.ofMantissaAndAccuracy mantissa accuracy >>> amount))
  rw [mantissa_shiftRight, kept, Nat.succ_mul] at next
  have dropped := Nat.div_mul_le_self mantissa (2 ^ amount)
  cases accuracy with
  | inexact half =>
      simp only [atMost]
      omega
  | exact =>
      simp only [atMost]
      by_cases divides : 2 ^ amount ∣ mantissa
      · obtain ⟨quotient, rfl⟩ := divides
        rw [Nat.mul_comm (2 ^ amount) quotient, shiftRight_exact]
        change quotient * 2 ^ amount < quotient * 2 ^ amount + 2 ^ amount
        omega
      · have lost : mantissa / 2 ^ amount * 2 ^ amount ≠ mantissa := fun equal =>
          divides (Dvd.intro_left _ equal)
        omega

/-! ## One rounding -/

section Round

variable {mantissa : Nat} {exponent : Int} {accuracy : Accuracy} {sign : Sign}

def target (mantissa : Nat) (exponent : Int) : Int :=
  Format.binary64.targetExponent (totalExponent mantissa exponent)

theorem target_eq (mantissa : Nat) (exponent : Int) :
    target mantissa exponent = max (mantissa.log2 + exponent - 52) leastExponent := by
  simp only [target, Format.targetExponent, totalExponent, Format.mantissaBits, Format.minExponent,
    leastExponent]
  norm_num
  omega

/-- How far bits are dropped. -/
def dropped (mantissa : Nat) (exponent : Int) : Nat := (target mantissa exponent - exponent).toNat

def rounded (mantissa : Nat) (exponent : Int) (accuracy : Accuracy) : Nat :=
  (ExtendedMantissa.ofMantissaAndAccuracy mantissa accuracy >>>
    dropped mantissa exponent).roundedMantissa

theorem exponent_add_dropped (low : exponent ≤ target mantissa exponent) :
    exponent + dropped mantissa exponent = target mantissa exponent := by
  unfold dropped
  omega

theorem mantissa_of_accuracy :
    (ExtendedMantissa.ofMantissaAndAccuracy mantissa accuracy).mantissa = mantissa := by
  rcases accuracy with _ | (_ | _ | _) <;> rfl

theorem rounded_le : rounded mantissa exponent accuracy ≤ 2 ^ 53 := by
  have next := roundedMantissa_le (ExtendedMantissa.ofMantissaAndAccuracy mantissa accuracy >>>
    dropped mantissa exponent)
  rw [mantissa_shiftRight, mantissa_of_accuracy] at next
  have enough : mantissa.log2 + 1 ≤ 53 + dropped mantissa exponent := by
    unfold dropped
    rw [target_eq]
    omega
  have below : mantissa < 2 ^ dropped mantissa exponent * 2 ^ 53 := by
    calc mantissa < 2 ^ (mantissa.log2 + 1) := Nat.lt_log2_self
      _ ≤ 2 ^ (53 + dropped mantissa exponent) := Nat.pow_le_pow_right (by decide) enough
      _ = 2 ^ dropped mantissa exponent * 2 ^ 53 := by rw [Nat.pow_add, Nat.mul_comm]
  have quotient := Nat.div_lt_of_lt_mul below
  unfold rounded
  omega

/-- Unless it is rounded at the least exponent, a mantissa loses no more bits than it has to. -/
theorem two_pow_dropped_le (low : exponent ≤ target mantissa exponent)
    (notLeast : target mantissa exponent ≠ leastExponent) :
    2 ^ 52 * 2 ^ dropped mantissa exponent ≤ mantissa := by
  have width : 52 + dropped mantissa exponent = mantissa.log2 := by
    unfold dropped
    rw [target_eq] at low notLeast ⊢
    omega
  have nonzero : mantissa ≠ 0 := by
    rintro rfl
    simp at width
  rw [← Nat.pow_add, width]
  exact Nat.log2_self_le nonzero

theorem rounded_full (low : exponent ≤ target mantissa exponent) :
    2 ^ 52 ≤ rounded mantissa exponent accuracy ∨ target mantissa exponent = leastExponent := by
  by_cases least : target mantissa exponent = leastExponent
  · exact Or.inr least
  · left
    have kept := roundedMantissa_ge (ExtendedMantissa.ofMantissaAndAccuracy mantissa accuracy >>>
      dropped mantissa exponent)
    rw [mantissa_shiftRight, mantissa_of_accuracy] at kept
    have above := two_pow_dropped_le low least
    exact Nat.le_trans ((Nat.le_div_iff_mul_le (Nat.two_pow_pos _)).mpr above) kept

theorem shiftToTargetExponent_eq (low : exponent ≤ target mantissa exponent) :
    shiftToTargetExponent Format.binary64 mantissa exponent accuracy =
      (ExtendedMantissa.ofMantissaAndAccuracy mantissa accuracy >>> dropped mantissa exponent,
        target mantissa exponent) :=
  Prod.ext rfl (exponent_add_dropped low)

theorem roundWithAccuracy_eq (low : exponent ≤ target mantissa exponent) {again : Nat}
    (more : dropped (rounded mantissa exponent accuracy) (target mantissa exponent) = again) :
    roundWithAccuracy Format.binary64 sign mantissa exponent accuracy =
      if zero : rounded mantissa exponent accuracy / 2 ^ again = 0 then .zero sign
      else .finite sign (rounded mantissa exponent accuracy / 2 ^ again)
        (target mantissa exponent + again) (Nat.pos_of_ne_zero zero) := by
  subst more
  unfold roundWithAccuracy
  rw [shiftToTargetExponent_eq low]
  change (if zero : (ExtendedMantissa.ofMantissaAndAccuracy (rounded mantissa exponent accuracy)
      .exact >>> dropped (rounded mantissa exponent accuracy) (target mantissa exponent)).mantissa = 0
    then UnpackedFloat.zero sign
    else UnpackedFloat.finite sign _ (target mantissa exponent +
      dropped (rounded mantissa exponent accuracy) (target mantissa exponent)) _) = _
  simp only [mantissa_shiftRight, mantissa_of_accuracy]
  rfl

theorem least_le_target (mantissa : Nat) (exponent : Int) :
    leastExponent ≤ target mantissa exponent := by
  rw [target_eq]
  exact le_max_right _ _

/-- The result of rounding is zero, fits as it is, or fits after one more bit is dropped. -/
theorem roundWithAccuracy_cases (sign : Sign) (accuracy : Accuracy)
    (low : exponent ≤ target mantissa exponent) :
    rounded mantissa exponent accuracy = 0 ∧
        roundWithAccuracy Format.binary64 sign mantissa exponent accuracy = .zero sign ∨
      (∃ positive, rounded mantissa exponent accuracy < 2 ^ 53 ∧
        roundWithAccuracy Format.binary64 sign mantissa exponent accuracy =
          .finite sign (rounded mantissa exponent accuracy) (target mantissa exponent) positive) ∨
      rounded mantissa exponent accuracy = 2 ^ 53 ∧
        roundWithAccuracy Format.binary64 sign mantissa exponent accuracy =
          .finite sign (2 ^ 52) (target mantissa exponent + 1) (by decide) := by
  have atLeast := least_le_target mantissa exponent
  have short : rounded mantissa exponent accuracy ≤ 2 ^ 53 := rounded_le
  rcases Nat.lt_or_eq_of_le short with fits | full
  · have none : dropped (rounded mantissa exponent accuracy) (target mantissa exponent) = 0 := by
      have width : (rounded mantissa exponent accuracy).log2 ≤ 52 := by
        by_cases zero : rounded mantissa exponent accuracy = 0
        · rw [zero]
          decide
        · exact Nat.le_of_lt_succ ((Nat.log2_lt zero).mpr fits)
      rw [dropped, target_eq (rounded mantissa exponent accuracy)]
      omega
    rw [roundWithAccuracy_eq low none]
    by_cases zero : rounded mantissa exponent accuracy = 0
    · exact Or.inl ⟨zero, by simp [zero]⟩
    · refine Or.inr (Or.inl ⟨Nat.pos_of_ne_zero zero, fits, ?_⟩)
      simp [zero]
  · have one : dropped (rounded mantissa exponent accuracy) (target mantissa exponent) = 1 := by
      rw [dropped, full, target_eq (2 ^ 53), Nat.log2_two_pow]
      omega
    refine Or.inr (Or.inr ⟨full, ?_⟩)
    rw [roundWithAccuracy_eq low one]
    simp [full]

theorem canonical_full {exponent : Int} (least : leastExponent ≤ exponent) :
    Canonical (2 ^ 52) exponent :=
  ⟨by decide, least, Or.inl (Nat.le_refl _)⟩

/-- A packed rounded result is a canonical number whose value is that of the rounded mantissa, or an
infinity when its exponent is too large. -/
theorem ofFloat_round (low : exponent ≤ target mantissa exponent) :
    ∃ m e, Canonical m e ∧
      (m : Rat) * 2 ^ e = rounded mantissa exponent accuracy * 2 ^ target mantissa exponent ∧
      ofFloat (.ofModel (.pack
        (roundWithAccuracy Format.binary64 sign mantissa exponent accuracy))) =
          if e ≤ 971 then .finite (isMinus sign) m e else .infinite (isMinus sign) := by
  have atLeast := least_le_target mantissa exponent
  -- What packing does to a canonical number.
  have packs {m : Nat} {e : Int} (positive : 0 < m) (canonical : Canonical m e) :
      ofFloat (.ofModel (.pack (.finite sign m e positive))) =
        if e ≤ 971 then .finite (isMinus sign) m e else .infinite (isMinus sign) := by
    split
    · next small => exact ofFloat_pack positive canonical small
    · next large => exact ofFloat_pack_large positive (not_le.mp large)
  rcases roundWithAccuracy_cases sign accuracy low with
    ⟨zero, result⟩ | ⟨positive, fits, result⟩ | ⟨full, result⟩
  · refine ⟨0, leastExponent, ⟨by decide, Int.le_refl _, Or.inr rfl⟩, ?_, ?_⟩
    · rw [zero]
      simp
    · rw [result, if_pos (by decide)]
      exact ofFloat_pack_zero sign
  · have canonical : Canonical (rounded mantissa exponent accuracy) (target mantissa exponent) :=
      ⟨fits, atLeast, rounded_full low⟩
    refine ⟨_, _, canonical, rfl, ?_⟩
    rw [result]
    exact packs positive canonical
  · have canonical := canonical_full (by omega : leastExponent ≤ target mantissa exponent + 1)
    refine ⟨_, _, canonical, ?_, ?_⟩
    · rw [full, zpow_add_one₀ two_ne_zero]
      push_cast
      ring
    · rw [result]
      exact packs (by decide) canonical

theorem zpow_add_nat (exponent : Int) (amount : Nat) :
    (2 : Rat) ^ (exponent + amount) = 2 ^ amount * 2 ^ exponent := by
  rw [zpow_add₀ two_ne_zero, zpow_natCast, mul_comm]

/-- A number is not rounded to an exponent that leaves all its bits below the hidden one. -/
theorem target_le_of_lt {e : Int} (least : leastExponent ≤ e)
    (low : exponent ≤ target mantissa exponent)
    (below : (mantissa : Rat) * 2 ^ exponent < 2 ^ (e + (53 : Nat))) :
    target mantissa exponent ≤ e := by
  rw [target_eq] at low ⊢
  by_cases zero : mantissa = 0
  · subst zero
    rw [Nat.log2_zero] at low ⊢
    omega
  · have leading : (2 : Rat) ^ (exponent + mantissa.log2) < 2 ^ (e + (53 : Nat)) := by
      have inMantissa : ((2 ^ mantissa.log2 : Nat) : Rat) ≤ mantissa := by
        exact_mod_cast Nat.log2_self_le zero
      calc (2 : Rat) ^ (exponent + mantissa.log2)
          = (2 ^ mantissa.log2 : Nat) * 2 ^ exponent := by rw [zpow_add_nat]; push_cast; rfl
        _ ≤ mantissa * 2 ^ exponent := by gcongr
        _ < 2 ^ (e + (53 : Nat)) := below
    have exponents := (zpow_lt_zpow_iff_right₀ one_lt_two).mp leading
    omega

/-- A number below a kept bound is not rounded to a larger exponent than the bound's. -/
theorem target_le {m : Nat} {e : Int} (bound : Canonical m e)
    (low : exponent ≤ target mantissa exponent)
    (below : (mantissa : Rat) * 2 ^ exponent ≤ m * 2 ^ e) : target mantissa exponent ≤ e := by
  refine target_le_of_lt bound.least low (lt_of_le_of_lt below ?_)
  have short : (m : Rat) < (2 ^ 53 : Nat) := by exact_mod_cast bound.below
  calc (m : Rat) * 2 ^ e < (2 ^ 53 : Nat) * 2 ^ e := by gcongr
    _ = 2 ^ (e + (53 : Nat)) := by rw [zpow_add_nat]; push_cast; rfl

/-- Unless it is rounded at the least exponent, an exact mantissa hardly grows. -/
theorem rounded_mul_le_relative (low : exponent ≤ target mantissa exponent)
    (notLeast : target mantissa exponent ≠ leastExponent) :
    (rounded mantissa exponent .exact : Rat) * 2 ^ target mantissa exponent ≤
      mantissa * 2 ^ exponent * (1 + 2 ^ (-52 : Int)) := by
  have under : rounded mantissa exponent .exact * 2 ^ dropped mantissa exponent <
      mantissa + 2 ^ dropped mantissa exponent := rounded_lt mantissa _ .exact
  have unit : (2 : Rat) ^ dropped mantissa exponent ≤ mantissa * 2 ^ (-52 : Int) := by
    have above : (2 : Rat) ^ 52 * 2 ^ dropped mantissa exponent ≤ mantissa := by
      exact_mod_cast two_pow_dropped_le low notLeast
    rw [zpow_neg, ← div_eq_mul_inv, le_div_iff₀ (by positivity), mul_comm]
    exact above
  have relative : (rounded mantissa exponent .exact : Rat) * 2 ^ dropped mantissa exponent ≤
      mantissa * (1 + 2 ^ (-52 : Int)) := by
    have strict : (rounded mantissa exponent .exact : Rat) * 2 ^ dropped mantissa exponent <
        mantissa + 2 ^ dropped mantissa exponent := by exact_mod_cast under
    linarith
  calc (rounded mantissa exponent .exact : Rat) * 2 ^ target mantissa exponent
      = rounded mantissa exponent .exact * 2 ^ dropped mantissa exponent * 2 ^ exponent := by
        rw [← exponent_add_dropped low, zpow_add_nat]
        ring
    _ ≤ mantissa * (1 + 2 ^ (-52 : Int)) * 2 ^ exponent := by gcongr
    _ = mantissa * 2 ^ exponent * (1 + 2 ^ (-52 : Int)) := by ring

/-- On a finer grid a number is a whole number of units. -/
theorem exists_on_grid (m : Nat) {e f : Int} (grid : f ≤ e) :
    ∃ units : Nat, (m : Rat) * 2 ^ e = units * 2 ^ f := by
  obtain ⟨gap, isGap⟩ := Int.eq_ofNat_of_zero_le (Int.sub_nonneg.mpr grid)
  refine ⟨m * 2 ^ gap, ?_⟩
  rw [show e = f + gap by omega, zpow_add_nat]
  push_cast
  ring

/-- Rounding does not pass a bound that is itself kept exactly. -/
theorem rounded_mul_le {m : Nat} {e : Int} (bound : Canonical m e)
    (low : exponent ≤ target mantissa exponent)
    (below : (atMost mantissa accuracy : Rat) * 2 ^ exponent ≤ m * 2 ^ e) :
    (rounded mantissa exponent accuracy : Rat) * 2 ^ target mantissa exponent ≤ m * 2 ^ e := by
  have grid : target mantissa exponent ≤ e := by
    have included : (mantissa : Rat) ≤ atMost mantissa accuracy := by
      cases accuracy <;> simp [atMost]
    refine target_le bound low (le_trans ?_ below)
    gcongr
  -- On the grid of the target exponent the bound is a whole number.
  obtain ⟨units, boundOnGrid⟩ := exists_on_grid m grid
  have fineWeight : (0 : Rat) < 2 ^ exponent := by positivity
  have exactly : atMost mantissa accuracy ≤ units * 2 ^ dropped mantissa exponent := by
    have fine := below
    rw [boundOnGrid, ← exponent_add_dropped low, zpow_add_nat, ← mul_assoc] at fine
    have whole := (mul_le_mul_iff_left₀ fineWeight).mp fine
    exact_mod_cast whole
  have under := rounded_lt mantissa (dropped mantissa exponent) accuracy
  have inUnits : rounded mantissa exponent accuracy < units + 1 := by
    refine Nat.lt_of_mul_lt_mul_right (a := 2 ^ dropped mantissa exponent) ?_
    calc rounded mantissa exponent accuracy * 2 ^ dropped mantissa exponent
        < atMost mantissa accuracy + 2 ^ dropped mantissa exponent := under
      _ ≤ units * 2 ^ dropped mantissa exponent + 2 ^ dropped mantissa exponent :=
          Nat.add_le_add_right exactly _
      _ = (units + 1) * 2 ^ dropped mantissa exponent := (Nat.succ_mul _ _).symm
  rw [boundOnGrid]
  gcongr
  exact Nat.le_of_lt_succ inUnits

/-- A packed result is finite and has the value of the rounded mantissa if a kept bound is not
passed. -/
theorem ofFloat_round_of_le {m : Nat} {e : Int} (sign : Sign) (bound : Canonical m e)
    (small : e ≤ 971) (low : exponent ≤ target mantissa exponent)
    (within : (rounded mantissa exponent accuracy : Rat) * 2 ^ target mantissa exponent ≤
      m * 2 ^ e) :
    ∃ m' e', ofFloat (.ofModel (.pack
        (roundWithAccuracy Format.binary64 sign mantissa exponent accuracy))) =
          .finite (isMinus sign) m' e' ∧
      (m' : Rat) * 2 ^ e' = rounded mantissa exponent accuracy * 2 ^ target mantissa exponent := by
  obtain ⟨m', e', canonical, sameValue, packed⟩ := ofFloat_round low
  rw [← sameValue] at within
  have noLarger : e' ≤ e := by
    by_contra larger
    exact absurd (magnitude_lt_of_exponent bound canonical (lt_of_not_ge larger))
      (not_lt.mpr within)
  rw [if_pos (le_trans noLarger small)] at packed
  exact ⟨m', e', packed, sameValue⟩

/-- Below a kept bound the packed result is finite and has the value of the rounded mantissa. -/
theorem ofFloat_round_eq {m : Nat} {e : Int} (sign : Sign) (bound : Canonical m e) (small : e ≤ 971)
    (low : exponent ≤ target mantissa exponent)
    (below : (atMost mantissa accuracy : Rat) * 2 ^ exponent ≤ m * 2 ^ e) :
    ∃ m' e', ofFloat (.ofModel (.pack
        (roundWithAccuracy Format.binary64 sign mantissa exponent accuracy))) =
          .finite (isMinus sign) m' e' ∧
      (m' : Rat) * 2 ^ e' = rounded mantissa exponent accuracy * 2 ^ target mantissa exponent :=
  ofFloat_round_of_le sign bound small low (rounded_mul_le bound low below)

/-- A packed result stays below what bounds the exact one. -/
theorem ofFloat_round_le {m : Nat} {e : Int} (sign : Sign) (bound : Canonical m e) (small : e ≤ 971)
    (low : exponent ≤ target mantissa exponent)
    (below : (atMost mantissa accuracy : Rat) * 2 ^ exponent ≤ m * 2 ^ e) :
    ∃ m' e', ofFloat (.ofModel (.pack
        (roundWithAccuracy Format.binary64 sign mantissa exponent accuracy))) =
          .finite (isMinus sign) m' e' ∧ (m' : Rat) * 2 ^ e' ≤ m * 2 ^ e := by
  obtain ⟨m', e', packed, sameValue⟩ := ofFloat_round_eq sign bound small low below
  refine ⟨m', e', packed, ?_⟩
  rw [sameValue]
  exact rounded_mul_le bound low below

end Round

/-! ## Products -/

theorem mul_eq (x y : Float) :
    x * y = .ofModel (.pack
      (UnpackedFloat.mul Format.binary64 x.toModel.unpack y.toModel.unpack)) :=
  rfl

theorem isMinus_mul_positive (sign : Sign) : isMinus (sign * .positive) = isMinus sign := by
  cases sign <;> rfl

theorem isMinus_div_positive (sign : Sign) : isMinus (sign / .positive) = isMinus sign := by
  cases sign <;> rfl

section Operations

variable {x y : Float} {negative : Bool} {m₁ m₂ m : Nat} {e₁ e₂ e : Int}

/-- A product with a full factor has enough bits to be rounded. -/
theorem product_low (e₁ e₂ : Int) (positive : 0 < m₁) (full : 2 ^ 52 ≤ m₂) :
    e₁ + e₂ ≤ target (m₁ * m₂) (e₁ + e₂) := by
  have above : 2 ^ 52 ≤ m₁ * m₂ := le_trans full (Nat.le_mul_of_pos_left m₂ positive)
  have wide := (Nat.le_log2 (by omega)).mpr above
  rw [target_eq]
  omega

/-- A product with a full positive factor stays below what bounds the exact product. -/
theorem mul_le (first : ofFloat x = .finite negative m₁ e₁)
    (second : ofFloat y = .finite false m₂ e₂) (full : 2 ^ 52 ≤ m₂) (bound : Canonical m e)
    (small : e ≤ 971) (below : (m₁ : Rat) * 2 ^ e₁ * (m₂ * 2 ^ e₂) ≤ m * 2 ^ e) :
    ∃ m' e', ofFloat (x * y) = .finite negative m' e' ∧ (m' : Rat) * 2 ^ e' ≤ m * 2 ^ e := by
  have unpacked₂ := unpack_of_positive second (by omega)
  by_cases zero : m₁ = 0
  · subst zero
    obtain ⟨sign₁, rfl, unpacked₁⟩ := unpack_of_zero first
    refine ⟨0, leastExponent, ?_, ?_⟩
    · rw [mul_eq, unpacked₁, unpacked₂]
      rw [← isMinus_mul_positive sign₁]
      exact ofFloat_pack_zero _
    · have weight : (0 : Rat) ≤ m * 2 ^ e := by positivity
      simpa using weight
  · obtain ⟨sign₁, rfl, unpacked₁⟩ := unpack_of_ofFloat first (Nat.pos_of_ne_zero zero)
    rw [mul_eq, unpacked₁, unpacked₂, ← isMinus_mul_positive sign₁]
    have low := product_low e₁ e₂ (Nat.pos_of_ne_zero zero) full
    have exactly : (atMost (m₁ * m₂) .exact : Rat) * 2 ^ (e₁ + e₂) ≤ m * 2 ^ e := by
      refine le_trans (le_of_eq ?_) below
      simp only [atMost]
      rw [zpow_add₀ two_ne_zero]
      push_cast
      ring
    exact ofFloat_round_le _ bound small low exactly

/-! ## Quotients -/

theorem div_eq (x y : Float) :
    x / y = .ofModel (.pack
      (UnpackedFloat.div Format.binary64 x.toModel.unpack y.toModel.unpack)) :=
  rfl

/-- The exponent that a quotient is computed at. -/
def quotientExponent (m₁ : Nat) (e₁ : Int) (m₂ : Nat) (e₂ : Int) : Int :=
  min (e₁ - e₂) (max (m₁.log2 + e₁ - m₂.log2 - e₂ - 53) leastExponent)

theorem divCore_eq (m₁ : Nat) (e₁ : Int) (m₂ : Nat) (e₂ : Int) :
    divCore Format.binary64 m₁ e₁ m₂ e₂ =
      (m₁ * 2 ^ (e₁ - e₂ - quotientExponent m₁ e₁ m₂ e₂).toNat / m₂,
        quotientExponent m₁ e₁ m₂ e₂,
        accuracyOfFraction (m₁ * 2 ^ (e₁ - e₂ - quotientExponent m₁ e₁ m₂ e₂).toNat % m₂) m₂) := by
  have exponent : min (e₁ - e₂) (Format.binary64.targetExponent
      (totalExponent m₁ e₁ - totalExponent m₂ e₂)) = quotientExponent m₁ e₁ m₂ e₂ := by
    simp only [quotientExponent, Format.targetExponent, totalExponent, Format.mantissaBits,
      Format.minExponent, leastExponent]
    norm_num
    omega
  simp only [divCore, exponent, Nat.shiftLeft_eq]

/-- A quotient has all its bits unless it is computed at the least exponent. -/
theorem quotient_full (positive₁ : 0 < m₁) (positive₂ : 0 < m₂)
    (notLeast : leastExponent < quotientExponent m₁ e₁ m₂ e₂) :
    2 ^ 52 ≤ m₁ * 2 ^ (e₁ - e₂ - quotientExponent m₁ e₁ m₂ e₂).toNat / m₂ := by
  generalize isShift : (e₁ - e₂ - quotientExponent m₁ e₁ m₂ e₂).toNat = shift
  have room : 53 + m₂.log2 ≤ m₁.log2 + shift := by
    unfold quotientExponent at notLeast isShift
    omega
  rw [Nat.le_div_iff_mul_le positive₂]
  calc 2 ^ 52 * m₂ ≤ 2 ^ 52 * 2 ^ (m₂.log2 + 1) :=
        Nat.mul_le_mul_left _ (Nat.le_of_lt Nat.lt_log2_self)
    _ = 2 ^ (53 + m₂.log2) := by rw [← Nat.pow_add]; congr 1; omega
    _ ≤ 2 ^ (m₁.log2 + shift) := Nat.pow_le_pow_right (by decide) room
    _ = 2 ^ m₁.log2 * 2 ^ shift := Nat.pow_add _ _ _
    _ ≤ m₁ * 2 ^ shift :=
        Nat.mul_le_mul_right _ (Nat.log2_self_le (Nat.ne_of_gt positive₁))

/-- A quotient has enough bits to be rounded. -/
theorem quotientExponent_le_target (positive₁ : 0 < m₁) (positive₂ : 0 < m₂) :
    quotientExponent m₁ e₁ m₂ e₂ ≤
      target (m₁ * 2 ^ (e₁ - e₂ - quotientExponent m₁ e₁ m₂ e₂).toNat / m₂)
        (quotientExponent m₁ e₁ m₂ e₂) := by
  rcases le_or_gt (quotientExponent m₁ e₁ m₂ e₂) leastExponent with least | notLeast
  · exact le_trans least (least_le_target _ _)
  · have full := quotient_full positive₁ positive₂ notLeast
    have width := (Nat.le_log2 (by omega)).mpr full
    rw [target_eq]
    omega

theorem atMost_quotient_le {numerator denominator whole : Nat} (positive : 0 < denominator)
    (below : numerator ≤ whole * denominator) :
    atMost (numerator / denominator) (accuracyOfFraction (numerator % denominator) denominator) ≤
      whole := by
  unfold accuracyOfFraction
  split
  · exact Nat.div_le_of_le_mul (by rwa [Nat.mul_comm])
  · next inexact =>
      have notWhole : numerator ≠ whole * denominator := by
        rintro rfl
        exact inexact (Nat.mul_mod_left _ _)
      exact (Nat.div_lt_iff_lt_mul positive).mpr (Nat.lt_of_le_of_ne below notWhole)

/-- A quotient below a kept bound is not computed at a larger exponent than the bound's. -/
theorem quotientExponent_le (positive₁ : 0 < m₁) (bound : Canonical m e)
    (below : (m₁ : Rat) * 2 ^ e₁ ≤ m * 2 ^ e * (m₂ * 2 ^ e₂)) :
    quotientExponent m₁ e₁ m₂ e₂ ≤ e := by
  have leading : (2 : Rat) ^ (e₁ + m₁.log2) < 2 ^ (e + e₂ + (54 + m₂.log2 : Nat)) := by
    have inNumerator : ((2 ^ m₁.log2 : Nat) : Rat) ≤ m₁ := by
      exact_mod_cast Nat.log2_self_le (Nat.ne_of_gt positive₁)
    have inBound : (m : Rat) < (2 ^ 53 : Nat) := by exact_mod_cast bound.below
    have inDenominator : (m₂ : Rat) < (2 ^ (m₂.log2 + 1) : Nat) := by
      exact_mod_cast Nat.lt_log2_self
    calc (2 : Rat) ^ (e₁ + m₁.log2) = (2 ^ m₁.log2 : Nat) * 2 ^ e₁ := by
          rw [zpow_add_nat]; push_cast; rfl
      _ ≤ m₁ * 2 ^ e₁ := by gcongr
      _ ≤ m * 2 ^ e * (m₂ * 2 ^ e₂) := below
      _ ≤ m * 2 ^ e * ((2 ^ (m₂.log2 + 1) : Nat) * 2 ^ e₂) := by gcongr
      _ < (2 ^ 53 : Nat) * 2 ^ e * ((2 ^ (m₂.log2 + 1) : Nat) * 2 ^ e₂) := by gcongr
      _ = 2 ^ (e + e₂ + (54 + m₂.log2 : Nat)) := by
          rw [zpow_add_nat, zpow_add₀ two_ne_zero]
          push_cast
          ring
  have exponents := (zpow_lt_zpow_iff_right₀ one_lt_two).mp leading
  have least := bound.least
  unfold quotientExponent
  push_cast at exponents
  omega

theorem dividend_on_grid {shift : Nat}
    (isShift : (e₁ - e₂ - quotientExponent m₁ e₁ m₂ e₂).toNat = shift) :
    (m₁ : Rat) * 2 ^ e₁ = (m₁ * 2 ^ shift : Nat) * 2 ^ (quotientExponent m₁ e₁ m₂ e₂ + e₂) := by
  have atDividend : e₁ = quotientExponent m₁ e₁ m₂ e₂ + e₂ + shift := by
    have notLater : quotientExponent m₁ e₁ m₂ e₂ ≤ e₁ - e₂ := min_le_left _ _
    omega
  rw [show (2 : Rat) ^ e₁ = 2 ^ (quotientExponent m₁ e₁ m₂ e₂ + e₂ + shift) by
    rw [← atDividend], zpow_add_nat]
  push_cast
  ring

theorem product_on_grid {units : Nat} {q : Int} (onGrid : (m : Rat) * 2 ^ e = units * 2 ^ q) :
    (m : Rat) * 2 ^ e * (m₂ * 2 ^ e₂) = (units * m₂ : Nat) * 2 ^ (q + e₂) := by
  rw [onGrid, zpow_add₀ two_ne_zero]
  push_cast
  ring

/-- On the grid a quotient is computed on, a kept bound is a whole number. -/
theorem atMost_quotient_mul_le (positive₁ : 0 < m₁) (positive₂ : 0 < m₂) (bound : Canonical m e)
    (below : (m₁ : Rat) * 2 ^ e₁ ≤ m * 2 ^ e * (m₂ * 2 ^ e₂)) {shift : Nat}
    (isShift : (e₁ - e₂ - quotientExponent m₁ e₁ m₂ e₂).toNat = shift) :
    (atMost (m₁ * 2 ^ shift / m₂) (accuracyOfFraction (m₁ * 2 ^ shift % m₂) m₂) : Rat) *
        2 ^ quotientExponent m₁ e₁ m₂ e₂ ≤ m * 2 ^ e := by
  obtain ⟨units, boundOnGrid⟩ := exists_on_grid m (quotientExponent_le positive₁ bound below)
  have whole : m₁ * 2 ^ shift ≤ units * m₂ := by
    have weight : (0 : Rat) < 2 ^ (quotientExponent m₁ e₁ m₂ e₂ + e₂) := by positivity
    rw [dividend_on_grid isShift, product_on_grid boundOnGrid] at below
    exact_mod_cast (mul_le_mul_iff_left₀ weight).mp below
  rw [boundOnGrid]
  gcongr
  exact atMost_quotient_le positive₂ whole

/-- A quotient by a positive number stays below what bounds the exact quotient. -/
theorem div_le (first : ofFloat x = .finite negative m₁ e₁)
    (second : ofFloat y = .finite false m₂ e₂) (positive : 0 < m₂) (bound : Canonical m e)
    (small : e ≤ 971) (below : (m₁ : Rat) * 2 ^ e₁ ≤ m * 2 ^ e * (m₂ * 2 ^ e₂)) :
    ∃ m' e', ofFloat (x / y) = .finite negative m' e' ∧ (m' : Rat) * 2 ^ e' ≤ m * 2 ^ e := by
  have unpacked₂ := unpack_of_positive second positive
  by_cases zero : m₁ = 0
  · subst zero
    obtain ⟨sign₁, rfl, unpacked₁⟩ := unpack_of_zero first
    refine ⟨0, leastExponent, ?_, ?_⟩
    · rw [div_eq, unpacked₁, unpacked₂, ← isMinus_div_positive sign₁]
      exact ofFloat_pack_zero _
    · have weight : (0 : Rat) ≤ m * 2 ^ e := by positivity
      simpa using weight
  · have positive₁ := Nat.pos_of_ne_zero zero
    obtain ⟨sign₁, rfl, unpacked₁⟩ := unpack_of_ofFloat first positive₁
    rw [div_eq, unpacked₁, unpacked₂, ← isMinus_div_positive sign₁]
    simp only [UnpackedFloat.div, divCore_eq]
    exact ofFloat_round_le _ bound small (quotientExponent_le_target positive₁ positive)
      (atMost_quotient_mul_le positive₁ positive bound below rfl)

end Operations

/-! ## Whole numbers -/

section Whole

variable {n m : Nat} {e : Int}

theorem log2_mul_two_pow (positive : 0 < n) (amount : Nat) :
    (n * 2 ^ amount).log2 = n.log2 + amount := by
  have scaled : 0 < n * 2 ^ amount := Nat.mul_pos positive (Nat.two_pow_pos amount)
  refine (Nat.log2_eq_iff (Nat.ne_of_gt scaled)).mpr ⟨?_, ?_⟩
  · rw [Nat.pow_add]
    exact Nat.mul_le_mul_right _ (Nat.log2_self_le (Nat.ne_of_gt positive))
  · rw [Nat.add_right_comm, Nat.pow_add]
    exact Nat.mul_lt_mul_of_pos_right Nat.lt_log2_self (Nat.two_pow_pos amount)

/-- A whole number is rounded after it was given as many bits as it can have. -/
theorem ofNat_eq (positive : 0 < n) :
    UnpackedFloat.ofNat Format.binary64 n =
      roundWithAccuracy Format.binary64 .positive (n * 2 ^ (-target n 0).toNat)
        (-((-target n 0).toNat : Int)) .exact := by
  have order : compare (n : Int) 0 = .gt := compare_gt_iff_gt.mpr (by omega)
  simp only [UnpackedFloat.ofNat, ofInt, UnpackedFloat.normalize, order, Float.Model.UnpackedFloat.round,
    decreaseExponent, Nat.shiftLeft_eq, Int.toNat_natCast, zero_sub]
  rfl

theorem ofNat_low (positive : 0 < n) : -((-target n 0).toNat : Int) ≤
    target (n * 2 ^ (-target n 0).toNat) (-((-target n 0).toNat : Int)) := by
  rw [target_eq (n * _), log2_mul_two_pow positive, target_eq]
  omega

theorem ofFloat_ofNat_le (bound : Canonical m e) (small : e ≤ 971) (below : (n : Rat) ≤ m * 2 ^ e) :
    ∃ m' e', ofFloat (.ofModel (.pack (UnpackedFloat.ofNat Format.binary64 n))) =
      .finite false m' e' ∧ (m' : Rat) * 2 ^ e' ≤ m * 2 ^ e := by
  by_cases zero : n = 0
  · subst zero
    refine ⟨0, leastExponent, ofFloat_pack_zero .positive, ?_⟩
    simpa using below
  · have positive := Nat.pos_of_ne_zero zero
    rw [ofNat_eq positive]
    refine ofFloat_round_le _ bound small (ofNat_low positive) (le_trans (le_of_eq ?_) below)
    simp only [atMost]
    push_cast
    rw [mul_assoc, ← zpow_natCast, ← zpow_add₀ two_ne_zero]
    simp

/-- Whole numbers of 53 bits are converted and multiplied by one. -/
theorem ofNat_eq_mul_one (short : n < 2 ^ 53) :
    Float.ofNat n =
      Float.ofModel (.pack (UnpackedFloat.ofNat Format.binary64 n)) * Float.ofBits 0x3FF0000000000000 := by
  have word : n.toUInt64.toNat = n := by
    change n % 2 ^ 64 = n
    omega
  have quick : n < 2 ^ 53 ∧ 0 ≤ 22 := ⟨short, by decide⟩
  change Float.ofScientific n false 0 = _
  unfold Float.ofScientific
  rw [dif_pos quick]
  change Float.ofModel (.pack (UnpackedFloat.ofNat Format.binary64 n.toUInt64.toNat)) * _ = _
  rw [word]
  rfl

/-- Longer whole numbers, and those with a larger power of ten, are rounded from their exact value. -/
theorem ofScientific_eq {power : Nat} (nonzero : n ≠ 0) (long : ¬ (n < 2 ^ 53 ∧ power ≤ 22))
    (small : power ≤ 2048) :
    Float.ofScientific n false power =
      .ofModel (.pack (roundWithAccuracy Format.binary64 .positive (n * 2 ^ 53 * 10 ^ power) (-53)
        .exact)) := by
  unfold Float.ofScientific
  rw [dif_neg long]
  change Float.ofModel (.pack (UnpackedFloat.ofScientific Format.binary64 n power)) = _
  congr 2
  have notHuge : ¬ (power : Int) > 2 ^ Format.binary64.exponentBits := by
    change ¬ (power : Int) > 2048
    omega
  have notTiny : ¬ (power : Int) < -(2 ^ Format.binary64.exponentBits + n.log2) := by
    change ¬ (power : Int) < -(2048 + n.log2)
    omega
  simp only [UnpackedFloat.ofScientific, dif_neg nonzero, if_neg notHuge, if_neg notTiny,
    Int.natCast_nonneg, ↓reduceIte]
  change roundWithAccuracy Format.binary64 .positive (n <<< 53 * 10 ^ power) (-53 + 0) .exact = _
  rw [Nat.shiftLeft_eq, Int.add_zero]

/-- A whole number stays below what bounds it. -/
theorem ofNat_le (bound : Canonical m e) (small : e ≤ 971) (below : (n : Rat) ≤ m * 2 ^ e) :
    ∃ m' e', ofFloat (Float.ofNat n) = .finite false m' e' ∧ (m' : Rat) * 2 ^ e' ≤ m * 2 ^ e := by
  by_cases short : n < 2 ^ 53
  · obtain ⟨m', e', converted, within⟩ := ofFloat_ofNat_le bound small below
    have one : ofFloat (Float.ofBits 0x3FF0000000000000) = .finite false (2 ^ 52) (-52) := by decide
    rw [ofNat_eq_mul_one short]
    refine mul_le converted one (Nat.le_refl _) bound small (le_trans (le_of_eq ?_) within)
    norm_num
  · have converted : Float.ofNat n = _ :=
      ofScientific_eq (by omega) (fun quick => short quick.1) (Nat.zero_le _)
    rw [converted, pow_zero, Nat.mul_one]
    have low : (-53 : Int) ≤ target (n * 2 ^ 53) (-53) := by
      rw [target_eq, log2_mul_two_pow (by omega)]
      omega
    refine ofFloat_round_le _ bound small low (le_trans (le_of_eq ?_) below)
    simp only [atMost]
    push_cast
    rw [mul_assoc]
    norm_num

end Whole

end Binary64

/-! ## Nearest whole numbers -/

namespace Ratio

theorem ofBinary_of_neg (mantissa : Nat) {exponent : Int} (fraction : exponent < 0) :
    ∃ places, ofBinary mantissa exponent = ⟨mantissa, 2 ^ places⟩ ∧
      (mantissa : Rat) * 2 ^ exponent = mantissa / (2 ^ places : Nat) := by
  obtain ⟨places, rfl⟩ := Int.eq_negSucc_of_lt_zero fraction
  refine ⟨places + 1, by simp [ofBinary, twoTo], ?_⟩
  rw [zpow_negSucc, div_eq_mul_inv]
  push_cast
  rfl

/-- A whole number is reached by rounding from half a unit below it. -/
theorem le_roundHalfUp_iff {mantissa whole : Nat} {exponent : Int} (fraction : exponent < 0) :
    whole ≤ (ofBinary mantissa exponent).roundHalfUp ↔
      (whole : Rat) - 1 / 2 ≤ mantissa * 2 ^ exponent := by
  obtain ⟨places, shape, value⟩ := ofBinary_of_neg mantissa fraction
  have weight : (0 : Rat) < (2 ^ places : Nat) := by positivity
  rw [shape, value, roundHalfUp, Nat.le_div_iff_mul_le (by positivity), le_div_iff₀ weight,
    ← Nat.cast_le (α := Rat)]
  push_cast
  constructor <;> intro within <;> linarith

theorem roundHalfUp_le {mantissa limit : Nat} {exponent : Int} (fraction : exponent < 0)
    (below : (mantissa : Rat) * 2 ^ exponent ≤ limit) :
    (ofBinary mantissa exponent).roundHalfUp ≤ limit := by
  by_contra beyond
  have above := (le_roundHalfUp_iff fraction).mp (not_le.mp beyond)
  push_cast at above
  linarith

/-- The nearest whole number is at most half a unit away. -/
theorem roundHalfUp_near (mantissa : Nat) {exponent : Int} (fraction : exponent < 0) :
    |((ofBinary mantissa exponent).roundHalfUp : Rat) - mantissa * 2 ^ exponent| ≤ 1 / 2 := by
  have reached : ((ofBinary mantissa exponent).roundHalfUp : Rat) - 1 / 2 ≤ mantissa * 2 ^ exponent :=
    (le_roundHalfUp_iff fraction).mp le_rfl
  have notPassed : ¬ (((ofBinary mantissa exponent).roundHalfUp + 1 : Nat) : Rat) - 1 / 2 ≤
      mantissa * 2 ^ exponent := mt (le_roundHalfUp_iff fraction).mpr (Nat.not_succ_le_self _)
  push_cast at notPassed
  rw [abs_le]
  constructor <;> linarith

end Ratio

theorem roundHalfAway_of_fraction {x : Float} {m : Nat} {e : Int}
    (decoded : Binary64.ofFloat x = .finite false m e) (fraction : e < 0) :
    roundHalfAway x = Float.ofNat (Ratio.ofBinary m e).roundHalfUp := by
  simp [roundHalfAway, decoded, not_le.mpr fraction]

end Montage.Number
