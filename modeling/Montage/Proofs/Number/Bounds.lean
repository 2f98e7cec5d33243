import Montage.Proofs.Number.Finite

/-!
Contract: a rounded result lies between the kept numbers around the exact one.

Results of operations are compared with the exact values. A kept number that
bounds the exact value bounds the result, from above and from below, and above
all kept numbers the result is infinite. A result is not farther from the exact
value than a grid of kept numbers around it is wide; and a sum that passes a
kept number by less than half a unit in its last place does not pass it after
rounding.

Owns: bounds of products, quotients, converted and nearest whole numbers and
sums.
Does not own: which lengths of time are at hand, in `Proofs.Media.Milliseconds`.
-/

namespace Montage.Number.Binary64

open Float.Model (UnpackedFloat Format)
open Float.Model.UnpackedFloat

/-! ## One rounding -/

section Round

variable {mantissa m : Nat} {exponent e : Int} {accuracy : Accuracy}

theorem le_roundedMantissa (mantissa : Nat) (exponent : Int) (accuracy : Accuracy) :
    mantissa / 2 ^ dropped mantissa exponent ≤ rounded mantissa exponent accuracy := by
  have kept := roundedMantissa_ge (ExtendedMantissa.ofMantissaAndAccuracy mantissa accuracy >>>
    dropped mantissa exponent)
  rwa [mantissa_shiftRight, mantissa_of_accuracy] at kept

/-- Rounding does not fall below a bound that is itself kept exactly. -/
theorem le_rounded_mul (bound : Canonical m e) (low : exponent ≤ target mantissa exponent)
    (above : (m : Rat) * 2 ^ e ≤ mantissa * 2 ^ exponent) :
    (m : Rat) * 2 ^ e ≤ rounded mantissa exponent accuracy * 2 ^ target mantissa exponent := by
  rcases le_or_gt (target mantissa exponent) e with grid | coarse
  · -- On the grid of the target exponent the bound is a whole number.
    obtain ⟨units, boundOnGrid⟩ := exists_on_grid m grid
    have fineWeight : (0 : Rat) < 2 ^ exponent := by positivity
    have inMantissa : units * 2 ^ dropped mantissa exponent ≤ mantissa := by
      have fine := above
      rw [boundOnGrid, ← exponent_add_dropped low, zpow_add_nat, ← mul_assoc] at fine
      have whole := (mul_le_mul_iff_left₀ fineWeight).mp fine
      exact_mod_cast whole
    have inUnits : units ≤ mantissa / 2 ^ dropped mantissa exponent :=
      (Nat.le_div_iff_mul_le (Nat.two_pow_pos _)).mpr inMantissa
    rw [boundOnGrid]
    gcongr
    exact le_trans inUnits (le_roundedMantissa mantissa exponent accuracy)
  · -- The result has all its bits at a larger exponent than the bound's.
    have notLeast : target mantissa exponent ≠ leastExponent := by
      have least := bound.least
      omega
    have full : 2 ^ 52 ≤ rounded mantissa exponent accuracy :=
      (rounded_full low).resolve_right notLeast
    exact (magnitude_lt_of_full bound full coarse).le

theorem roundBit_shiftRight_succ (extended : ExtendedMantissa) (amount : Nat) :
    (extended >>> (amount + 1)).roundBit = (extended.mantissa / 2 ^ amount % 2 != 0) := by
  rw [← mantissa_shiftRight]
  rfl

theorem roundedMantissa_of_roundBit {extended : ExtendedMantissa}
    (noRoundBit : extended.roundBit = false) : extended.roundedMantissa = extended.mantissa := by
  obtain ⟨mantissa, roundBit, stickyBit⟩ := extended
  obtain rfl : roundBit = false := noRoundBit
  cases stickyBit <;> rfl

/-- Rounding an exact mantissa goes up by half a unit at most. -/
theorem twice_rounded_le (mantissa amount : Nat) :
    2 * (ExtendedMantissa.ofMantissaAndAccuracy mantissa .exact >>> amount).roundedMantissa *
        2 ^ amount ≤ 2 * mantissa + 2 ^ amount := by
  cases amount with
  | zero =>
      have kept : (ExtendedMantissa.ofMantissaAndAccuracy mantissa .exact >>> 0).roundedMantissa =
          mantissa := rfl
      rw [kept]
      omega
  | succ amount =>
      generalize isShifted :
        ExtendedMantissa.ofMantissaAndAccuracy mantissa .exact >>> (amount + 1) = shifted
      have whole : shifted.mantissa = mantissa / 2 ^ (amount + 1) := by
        rw [← isShifted, mantissa_shiftRight, mantissa_of_accuracy]
      have roundBit : shifted.roundBit = (mantissa / 2 ^ amount % 2 != 0) := by
        rw [← isShifted, roundBit_shiftRight_succ, mantissa_of_accuracy]
      have unit : 2 ^ (amount + 1) = 2 * 2 ^ amount := by
        rw [Nat.pow_succ, Nat.mul_comm]
      cases upper : shifted.roundBit with
      | false =>
          have dropped := Nat.div_mul_le_self mantissa (2 ^ (amount + 1))
          rw [roundedMantissa_of_roundBit upper, whole, Nat.mul_assoc]
          omega
      | true =>
          -- The highest bit that was dropped makes up half a unit.
          have odd : mantissa / 2 ^ amount = 2 * (mantissa / 2 ^ (amount + 1)) + 1 := by
            rw [upper, eq_comm, bne_iff_ne] at roundBit
            rw [Nat.pow_succ, ← Nat.div_div_eq_div_mul]
            omega
          have half := Nat.div_mul_le_self mantissa (2 ^ amount)
          rw [odd] at half
          have next := roundedMantissa_le shifted
          rw [whole] at next
          calc 2 * shifted.roundedMantissa * 2 ^ (amount + 1)
              ≤ 2 * (mantissa / 2 ^ (amount + 1) + 1) * 2 ^ (amount + 1) := by gcongr
            _ = 2 * ((2 * (mantissa / 2 ^ (amount + 1)) + 1) * 2 ^ amount) + 2 ^ (amount + 1) := by
                rw [unit]
                ring
            _ ≤ 2 * mantissa + 2 ^ (amount + 1) := by gcongr

theorem le_target (above : (2 : Rat) ^ (e + (52 : Nat)) ≤ mantissa * 2 ^ exponent) :
    e ≤ target mantissa exponent := by
  have leading : (2 : Rat) ^ (e + (52 : Nat)) < 2 ^ (exponent + (mantissa.log2 + 1 : Nat)) := by
    have short : (mantissa : Rat) < (2 ^ (mantissa.log2 + 1) : Nat) := by
      exact_mod_cast Nat.lt_log2_self
    calc (2 : Rat) ^ (e + (52 : Nat)) ≤ mantissa * 2 ^ exponent := above
      _ < (2 ^ (mantissa.log2 + 1) : Nat) * 2 ^ exponent := by gcongr
      _ = 2 ^ (exponent + (mantissa.log2 + 1 : Nat)) := by rw [zpow_add_nat]; push_cast; rfl
  have exponents := (zpow_lt_zpow_iff_right₀ one_lt_two).mp leading
  rw [target_eq]
  push_cast at exponents
  omega

/-- A number that passes a kept bound with all its bits by less than half a unit in its last place
is rounded back to the bound. -/
theorem rounded_mul_le_of_half (bound : Canonical m e) (full : 2 ^ 52 ≤ m)
    (low : exponent ≤ target mantissa exponent)
    (below : (mantissa : Rat) * 2 ^ exponent < (m + 1 / 2) * 2 ^ e) :
    (rounded mantissa exponent .exact : Rat) * 2 ^ target mantissa exponent ≤ m * 2 ^ e := by
  rcases le_or_gt ((mantissa : Rat) * 2 ^ exponent) (m * 2 ^ e) with within | beyond
  · exact rounded_mul_le bound low (by simpa [atMost] using within)
  have same : target mantissa exponent = e := by
    refine le_antisymm (target_le_of_lt bound.least low (lt_trans below ?_)) (le_target ?_)
    · have short : (m : Rat) + 1 / 2 < 2 ^ 53 := by
        have next : (m : Rat) + 1 ≤ 2 ^ 53 := by exact_mod_cast bound.below
        linarith
      rw [zpow_add_nat]
      gcongr
    · have above : (2 ^ 52 : Rat) ≤ m := by exact_mod_cast full
      rw [zpow_add_nat]
      exact le_trans (by gcongr) beyond.le
  have half : 2 * mantissa < (2 * m + 1) * 2 ^ dropped mantissa exponent := by
    have fineWeight : (0 : Rat) < 2 ^ exponent := by positivity
    have fine := below
    rw [← same, ← exponent_add_dropped low, zpow_add_nat, ← mul_assoc] at fine
    have units := (mul_lt_mul_iff_left₀ fineWeight).mp fine
    have doubled : 2 * (mantissa : Rat) < (2 * m + 1) * 2 ^ dropped mantissa exponent := by
      linarith
    exact_mod_cast doubled
  have near := twice_rounded_le mantissa (dropped mantissa exponent)
  have inUnits : rounded mantissa exponent .exact ≤ m := by
    refine Nat.le_of_lt_succ ?_
    refine Nat.lt_of_mul_lt_mul_right (a := 2 * 2 ^ dropped mantissa exponent) ?_
    calc rounded mantissa exponent .exact * (2 * 2 ^ dropped mantissa exponent)
        = 2 * rounded mantissa exponent .exact * 2 ^ dropped mantissa exponent := by ring
      _ ≤ 2 * mantissa + 2 ^ dropped mantissa exponent := near
      _ < (2 * m + 1) * 2 ^ dropped mantissa exponent + 2 ^ dropped mantissa exponent := by omega
      _ = (m + 1) * (2 * 2 ^ dropped mantissa exponent) := by ring
  rw [same]
  gcongr

end Round

/-! ## Kept numbers side by side -/

/-- Nothing is kept between a number with a bit to spare and the one before it. -/
theorem le_pred_of_lt {m k : Nat} {e f : Int} (first : Canonical m e) (second : Canonical k f)
    (spare : 2 ^ 52 < k) (below : (m : Rat) * 2 ^ e < k * 2 ^ f) :
    (m : Rat) * 2 ^ e ≤ (k - 1 : Nat) * 2 ^ f := by
  rcases lt_trichotomy e f with smaller | rfl | larger
  · have full : 2 ^ 52 ≤ k - 1 := by omega
    exact (magnitude_lt_of_full first full smaller).le
  · have weight : (0 : Rat) < 2 ^ e := by positivity
    have fewer : m < k := by exact_mod_cast (mul_lt_mul_iff_left₀ weight).mp below
    gcongr
    omega
  · have above := magnitude_lt_of_exponent second first larger
    exact absurd below (not_lt.mpr above.le)

/-! ## Results and their exact values -/

/-- A value that is kept exactly by some number that is not negative. -/
def Representable (q : Rat) : Prop :=
  ∃ (m : Nat) (e : Int), Canonical m e ∧ e ≤ 971 ∧ (m : Rat) * 2 ^ e = q

/-- A number of a sign whose magnitude no kept value separates from an exact one; it is infinite when
the exact one is above all of them. -/
inductive RoundsTo (x : Float) (negative : Bool) (v : Rat) : Prop where
  | finite {m : Nat} {e : Int} (decoded : ofFloat x = .finite negative m e)
      (le : ∀ q, Representable q → v ≤ q → (m : Rat) * 2 ^ e ≤ q)
      (ge : ∀ q, Representable q → q ≤ v → q ≤ (m : Rat) * 2 ^ e)
  | infinite (decoded : ofFloat x = .infinite negative) (above : ∀ q, Representable q → q < v)

/-- A finite number without a minus sign that no kept value separates from an exact value. -/
structure Rounds (x : Float) (v : Rat) : Prop where
  decoded : ∃ m e, ofFloat x = .finite false m e
  le : ∀ q, Representable q → v ≤ q → (ofFloat x).value ≤ q
  ge : ∀ q, Representable q → q ≤ v → q ≤ (ofFloat x).value

theorem Rounds.isFinite {x : Float} {v : Rat} (rounds : Rounds x v) : x.isFinite = true := by
  obtain ⟨m, e, decoded⟩ := rounds.decoded
  exact isFinite_of_decoded decoded

theorem Rounds.eq {x : Float} {v : Rat} (rounds : Rounds x v) (kept : Representable v) :
    (ofFloat x).value = v :=
  le_antisymm (rounds.le v kept le_rfl) (rounds.ge v kept le_rfl)

section Values

variable {x y : Float} {negative : Bool} {m₁ m₂ m : Nat} {e₁ e₂ e : Int} {v bound : Rat}

theorem representable_value (decoded : ofFloat x = .finite false m e) :
    Representable (ofFloat x).value := by
  refine ⟨m, e, canonical_of_ofBits decoded, exponent_le decoded, ?_⟩
  rw [decoded]
  rfl

theorem rounds_value (decoded : ofFloat x = .finite false m e) : Rounds x (ofFloat x).value :=
  ⟨⟨m, e, decoded⟩, fun _ _ => id, fun _ _ => id⟩

/-- Whole numbers of 53 bits are kept exactly on every grid that is not near an end of the range. -/
theorem representable_grid {n : Nat} {grid : Int} (short : n < 2 ^ 53) (fine : -1022 ≤ grid)
    (coarse : grid ≤ 971) : Representable (n * 2 ^ grid) := by
  by_cases zero : n = 0
  · subst zero
    exact ⟨0, leastExponent, ⟨by decide, le_rfl, Or.inr rfl⟩, by decide, by simp⟩
  · have width : n.log2 ≤ 52 := Nat.le_of_lt_succ ((Nat.log2_lt zero).mpr short)
    have raised : (n * 2 ^ (52 - n.log2)).log2 = 52 := by
      rw [log2_mul_two_pow (Nat.pos_of_ne_zero zero)]
      omega
    have nonzero : n * 2 ^ (52 - n.log2) ≠ 0 :=
      Nat.mul_ne_zero zero (Nat.ne_of_gt (Nat.two_pow_pos _))
    obtain ⟨full, below⟩ := (Nat.log2_eq_iff nonzero).mp raised
    refine ⟨n * 2 ^ (52 - n.log2), grid - (52 - n.log2 : Nat),
      ⟨below, by unfold leastExponent; omega, Or.inl full⟩, by omega, ?_⟩
    push_cast
    rw [mul_assoc, ← zpow_natCast, ← zpow_add₀ two_ne_zero]
    simp

/-- A whole number of 53 bits is kept exactly. -/
theorem representable_natCast {n : Nat} (short : n < 2 ^ 53) : Representable n := by
  have kept : Representable (n * 2 ^ (0 : Int)) := representable_grid short (by decide) (by decide)
  rwa [zpow_zero, mul_one] at kept

/-- Rounding moves a value by less than the width of a grid that is kept around it. -/
theorem Rounds.near {grid : Int} (rounds : Rounds x v) (nonneg : 0 ≤ v)
    (below : v < (2 ^ 53 - 1) * 2 ^ grid) (fine : -1022 ≤ grid) (coarse : grid ≤ 971) :
    |(ofFloat x).value - v| ≤ 2 ^ grid := by
  have unit : (0 : Rat) < 2 ^ grid := by positivity
  have floor : (⌊v / 2 ^ grid⌋₊ : Rat) ≤ v / 2 ^ grid := Nat.floor_le (by positivity)
  have next : v / 2 ^ grid < ⌊v / 2 ^ grid⌋₊ + 1 := Nat.lt_floor_add_one _
  rw [le_div_iff₀ unit] at floor
  rw [div_lt_iff₀ unit] at next
  have short : ⌊v / 2 ^ grid⌋₊ + 1 < 2 ^ 53 := by
    have units : (⌊v / 2 ^ grid⌋₊ : Rat) < 2 ^ 53 - 1 :=
      lt_of_mul_lt_mul_right (lt_of_le_of_lt floor below) unit.le
    have whole : ((⌊v / 2 ^ grid⌋₊ + 1 : Nat) : Rat) < (2 ^ 53 : Nat) := by
      push_cast
      linarith
    exact_mod_cast whole
  have atLeast := rounds.ge _ (representable_grid (by omega) fine coarse) floor
  have keptNext := representable_grid short fine coarse
  rw [Nat.cast_add_one] at keptNext
  have atMost := rounds.le _ keptNext next.le
  rw [abs_le]
  constructor <;> linarith

theorem unpack_of_plusZero (decoded : ofFloat x = .finite false 0 e) :
    x.toModel.unpack = .zero .positive := by
  obtain ⟨sign, plus, unpacked⟩ := unpack_of_zero decoded
  cases sign with
  | negative => cases plus
  | positive => exact unpacked

theorem value_of_decoded (decoded : ofFloat x = .finite false m e) :
    (ofFloat x).value = m * 2 ^ e := by
  rw [decoded]
  rfl

/-- Below a kept bound nothing becomes infinite. -/
theorem RoundsTo.rounds (roundsTo : RoundsTo x false v) (kept : Representable bound)
    (within : v ≤ bound) : Rounds x v := by
  cases roundsTo with
  | finite decoded le ge =>
      rw [← value_of_decoded decoded] at le ge
      exact ⟨⟨_, _, decoded⟩, le, ge⟩
  | infinite _ above => exact absurd (above bound kept) (not_lt.mpr within)

/-- A packed result rounds a value if the mantissa before rounding separates it from no kept number. -/
theorem roundsTo_pack {mantissa : Nat} {exponent : Int} {accuracy : Accuracy} (sign : Sign)
    (low : exponent ≤ target mantissa exponent)
    (upper : ∀ m e, Canonical m e → v ≤ m * 2 ^ e →
      (atMost mantissa accuracy : Rat) * 2 ^ exponent ≤ m * 2 ^ e)
    (lower : ∀ m e, Canonical m e → (m : Rat) * 2 ^ e ≤ v →
      (m : Rat) * 2 ^ e ≤ mantissa * 2 ^ exponent) :
    RoundsTo (.ofModel (.pack
      (roundWithAccuracy Format.binary64 sign mantissa exponent accuracy))) (isMinus sign) v := by
  obtain ⟨m, e, canonical, sameValue, packed⟩ := @ofFloat_round mantissa exponent accuracy sign low
  have le (q : Rat) (kept : Representable q) (above : v ≤ q) : (m : Rat) * 2 ^ e ≤ q := by
    obtain ⟨k, f, isKept, -, rfl⟩ := kept
    rw [sameValue]
    exact rounded_mul_le isKept low (upper k f isKept above)
  by_cases small : e ≤ 971
  · rw [if_pos small] at packed
    refine .finite packed le ?_
    intro q kept below
    obtain ⟨k, f, isKept, -, rfl⟩ := kept
    rw [sameValue]
    exact le_rounded_mul isKept low (lower k f isKept below)
  · rw [if_neg small] at packed
    refine .infinite packed ?_
    intro q kept
    by_contra notAbove
    have within := le q kept (not_lt.mp notAbove)
    obtain ⟨k, f, isKept, inRange, rfl⟩ := kept
    exact absurd (magnitude_lt_of_exponent isKept canonical (by omega)) (not_lt.mpr within)

theorem roundsTo_pack_exact {mantissa : Nat} {exponent : Int} (sign : Sign)
    (low : exponent ≤ target mantissa exponent) (exactly : (mantissa : Rat) * 2 ^ exponent = v) :
    RoundsTo (.ofModel (.pack
      (roundWithAccuracy Format.binary64 sign mantissa exponent .exact))) (isMinus sign) v := by
  subst exactly
  exact roundsTo_pack sign low (fun _ _ _ => id) (fun _ _ _ => id)

theorem roundsTo_zero (sign : Sign) : RoundsTo (.ofModel (.pack (.zero sign))) (isMinus sign) 0 := by
  refine .finite (ofFloat_pack_zero sign) ?_ ?_ <;> simp

theorem rounds_zero : Rounds (.ofModel (.pack (.zero .positive))) 0 :=
  (roundsTo_zero .positive).rounds (representable_natCast (n := 0) (by decide)) (by simp)

/-! ## Products -/

theorem roundsTo_mul (first : ofFloat x = .finite negative m₁ e₁)
    (second : ofFloat y = .finite false m₂ e₂) (full : 2 ^ 52 ≤ m₂) :
    RoundsTo (x * y) negative (m₁ * 2 ^ e₁ * (m₂ * 2 ^ e₂)) := by
  have unpacked₂ := unpack_of_positive second (by omega)
  by_cases zero : m₁ = 0
  · subst zero
    obtain ⟨sign, rfl, unpacked₁⟩ := unpack_of_zero first
    rw [mul_eq, unpacked₁, unpacked₂, Nat.cast_zero, zero_mul, zero_mul, ← isMinus_mul_positive sign]
    exact roundsTo_zero _
  · have positive := Nat.pos_of_ne_zero zero
    obtain ⟨sign, rfl, unpacked₁⟩ := unpack_of_ofFloat first positive
    rw [mul_eq, unpacked₁, unpacked₂, ← isMinus_mul_positive sign]
    refine roundsTo_pack_exact _ (product_low e₁ e₂ positive full) ?_
    rw [zpow_add₀ two_ne_zero]
    push_cast
    ring

theorem rounds_mul (first : ofFloat x = .finite false m₁ e₁)
    (second : ofFloat y = .finite false m₂ e₂) (full : 2 ^ 52 ≤ m₂) (kept : Representable bound)
    (within : (ofFloat x).value * (ofFloat y).value ≤ bound) :
    Rounds (x * y) ((ofFloat x).value * (ofFloat y).value) := by
  rw [value_of_decoded first, value_of_decoded second] at within ⊢
  exact (roundsTo_mul first second full).rounds kept within

/-- An infinity stays one when it is multiplied. -/
theorem infinite_mul (first : ofFloat x = .infinite negative)
    (second : ofFloat y = .finite false m₂ e₂) (positive : 0 < m₂) :
    ofFloat (x * y) = .infinite negative := by
  obtain ⟨sign, rfl, unpacked⟩ := unpack_of_infinite first
  rw [mul_eq, unpacked, unpack_of_positive second positive, ← isMinus_mul_positive sign]
  exact ofFloat_pack_infinity _

/-! ## Quotients -/

/-- A kept number below a quotient is below what the quotient is before it is rounded. -/
theorem le_quotient_mul (positive₁ : 0 < m₁) (positive₂ : 0 < m₂) (isKept : Canonical m e)
    (above : (m : Rat) * 2 ^ e * (m₂ * 2 ^ e₂) ≤ m₁ * 2 ^ e₁) {shift : Nat}
    (isShift : (e₁ - e₂ - quotientExponent m₁ e₁ m₂ e₂).toNat = shift) :
    (m : Rat) * 2 ^ e ≤
      (m₁ * 2 ^ shift / m₂ : Nat) * 2 ^ quotientExponent m₁ e₁ m₂ e₂ := by
  rcases le_or_gt (quotientExponent m₁ e₁ m₂ e₂) e with grid | coarse
  · obtain ⟨units, boundOnGrid⟩ := exists_on_grid m grid
    have whole : units * m₂ ≤ m₁ * 2 ^ shift := by
      have weight : (0 : Rat) < 2 ^ (quotientExponent m₁ e₁ m₂ e₂ + e₂) := by positivity
      rw [dividend_on_grid isShift, product_on_grid boundOnGrid] at above
      exact_mod_cast (mul_le_mul_iff_left₀ weight).mp above
    rw [boundOnGrid]
    gcongr
    exact (Nat.le_div_iff_mul_le positive₂).mpr whole
  · have notLeast : leastExponent < quotientExponent m₁ e₁ m₂ e₂ := by
      have least := isKept.least
      omega
    have full := quotient_full positive₁ positive₂ notLeast
    rw [isShift] at full
    exact (magnitude_lt_of_full isKept full coarse).le

theorem roundsTo_div (first : ofFloat x = .finite negative m₁ e₁)
    (second : ofFloat y = .finite false m₂ e₂) (positive : 0 < m₂) :
    RoundsTo (x / y) negative (m₁ * 2 ^ e₁ / (m₂ * 2 ^ e₂)) := by
  have unpacked₂ := unpack_of_positive second positive
  have divisor : (0 : Rat) < m₂ * 2 ^ e₂ := magnitude_pos e₂ positive
  by_cases zero : m₁ = 0
  · subst zero
    obtain ⟨sign, rfl, unpacked₁⟩ := unpack_of_zero first
    rw [div_eq, unpacked₁, unpacked₂, Nat.cast_zero, zero_mul, zero_div, ← isMinus_div_positive sign]
    exact roundsTo_zero _
  · have positive₁ := Nat.pos_of_ne_zero zero
    obtain ⟨sign, rfl, unpacked₁⟩ := unpack_of_ofFloat first positive₁
    rw [div_eq, unpacked₁, unpacked₂, ← isMinus_div_positive sign]
    simp only [UnpackedFloat.div, divCore_eq]
    refine roundsTo_pack _ (quotientExponent_le_target positive₁ positive) ?_ ?_
    · intro k f isKept above
      exact atMost_quotient_mul_le positive₁ positive isKept ((div_le_iff₀ divisor).mp above) rfl
    · intro k f isKept below
      exact le_quotient_mul positive₁ positive isKept ((le_div_iff₀ divisor).mp below) rfl

theorem rounds_div (first : ofFloat x = .finite false m₁ e₁)
    (second : ofFloat y = .finite false m₂ e₂) (positive : 0 < m₂) (kept : Representable bound)
    (within : (ofFloat x).value / (ofFloat y).value ≤ bound) :
    Rounds (x / y) ((ofFloat x).value / (ofFloat y).value) := by
  rw [value_of_decoded first, value_of_decoded second] at within ⊢
  exact (roundsTo_div first second positive).rounds kept within

/-! ## Signs -/

/-- A number of a sign, finite or not. -/
def HasSign (x : Float) (negative : Bool) : Prop :=
  (∃ m e, ofFloat x = .finite negative m e) ∨ ofFloat x = .infinite negative

theorem RoundsTo.hasSign (roundsTo : RoundsTo x negative v) : HasSign x negative := by
  cases roundsTo with
  | finite decoded => exact Or.inl ⟨_, _, decoded⟩
  | infinite decoded => exact Or.inr decoded

theorem HasSign.mul (first : HasSign x negative) (second : ofFloat y = .finite false m₂ e₂)
    (full : 2 ^ 52 ≤ m₂) : HasSign (x * y) negative := by
  rcases first with ⟨m₁, e₁, decoded⟩ | unbounded
  · exact (roundsTo_mul decoded second full).hasSign
  · exact Or.inr (infinite_mul unbounded second (by omega))

/-! ## Whole numbers -/

theorem rounds_pack_ofNat {n : Nat} (kept : Representable bound) (within : (n : Rat) ≤ bound) :
    Rounds (.ofModel (.pack (UnpackedFloat.ofNat Format.binary64 n))) n := by
  by_cases zero : n = 0
  · subst zero
    rw [Nat.cast_zero]
    exact rounds_zero
  · have positive := Nat.pos_of_ne_zero zero
    rw [ofNat_eq positive]
    refine (roundsTo_pack_exact .positive (ofNat_low positive) ?_).rounds kept within
    push_cast
    rw [mul_assoc, ← zpow_natCast, ← zpow_add₀ two_ne_zero]
    simp

/-- The largest machine word is one less than a kept number. -/
theorem representable_wordSize : Representable (2 ^ 64) := by
  have kept : Representable ((2 ^ 52 : Nat) * 2 ^ (12 : Int)) :=
    representable_grid (by decide) (by decide) (by decide)
  have size : ((2 ^ 52 : Nat) : Rat) * 2 ^ (12 : Int) = 2 ^ 64 := by norm_num
  rwa [size] at kept

/-- A machine word is converted to the number nearest to it. -/
theorem rounds_toFloat (word : UInt64) : Rounds word.toFloat word.toNat := by
  refine rounds_pack_ofNat representable_wordSize ?_
  exact_mod_cast word.toNat_lt.le

theorem rounds_ofNat {n : Nat} (short : n < 2 ^ 53) : Rounds (Float.ofNat n) n := by
  have kept := representable_natCast short
  have converted := rounds_pack_ofNat kept le_rfl
  obtain ⟨m, e, decoded⟩ := converted.decoded
  have one : ofFloat (Float.ofBits 0x3FF0000000000000) = .finite false (2 ^ 52) (-52) := by decide
  have valueOne : (ofFloat (Float.ofBits 0x3FF0000000000000)).value = 1 := by
    rw [value_of_decoded one]
    norm_num
  have product := rounds_mul decoded one le_rfl kept
  rw [converted.eq kept, valueOne, mul_one] at product
  rw [ofNat_eq_mul_one short]
  exact product le_rfl

/-- Far below where fractions end, a number is rounded to the whole number next to it. -/
theorem Rounds.exists_whole {limit : Nat} (rounds : Rounds x v) (within : v ≤ limit)
    (small : limit < 2 ^ 52) :
    ∃ whole : Nat, roundHalfAway x = Float.ofNat whole ∧ whole ≤ limit ∧
      |(whole : Rat) - (ofFloat x).value| ≤ 1 / 2 ∧
      ∀ n : Nat, n ≤ whole ↔ (n : Rat) - 1 / 2 ≤ (ofFloat x).value := by
  obtain ⟨m, e, decoded⟩ := rounds.decoded
  have value := value_of_decoded decoded
  have below := rounds.le limit (representable_natCast (by omega)) within
  rw [value] at below ⊢
  have fraction : e < 0 := by
    refine (canonical_of_ofBits decoded).exponent_neg (lt_of_le_of_lt below ?_)
    exact_mod_cast small
  exact ⟨_, roundHalfAway_of_fraction decoded fraction, Ratio.roundHalfUp_le fraction below,
    Ratio.roundHalfUp_near m fraction, fun _ => Ratio.le_roundHalfUp_iff fraction⟩

/-! ## Sums -/

theorem add_eq (x y : Float) :
    x + y = .ofModel (.pack
      (UnpackedFloat.add Format.binary64 x.toModel.unpack y.toModel.unpack)) :=
  rfl

/-- Adding zeros behind a mantissa does not change where it is rounded to. -/
theorem target_mul_two_pow {n : Nat} (positive : 0 < n) (exponent : Int) (amount : Nat) :
    target (n * 2 ^ amount) (exponent - amount) = target n exponent := by
  rw [target_eq, target_eq, log2_mul_two_pow positive]
  omega

theorem round_eq (sign : Sign) (n : Nat) (exponent : Int) :
    UnpackedFloat.round Format.binary64 sign n exponent =
      roundWithAccuracy Format.binary64 sign
        (n * 2 ^ (exponent - target n exponent).toNat)
        (exponent - (exponent - target n exponent).toNat) .exact := by
  simp only [UnpackedFloat.round, decreaseExponent, Nat.shiftLeft_eq]
  rfl

theorem add_finite (m₁ m₂ : Nat) (e₁ e₂ : Int) (positive₁ : 0 < m₁) (positive₂ : 0 < m₂) :
    UnpackedFloat.add Format.binary64 (.finite .positive m₁ e₁ positive₁)
        (.finite .positive m₂ e₂ positive₂) =
      UnpackedFloat.round Format.binary64 .positive
        (m₁ * 2 ^ (e₁ - min e₁ e₂).toNat + m₂ * 2 ^ (e₂ - min e₁ e₂).toNat) (min e₁ e₂) := by
  have order : compare ((m₁ * 2 ^ (e₁ - min e₁ e₂).toNat : Nat) +
      (m₂ * 2 ^ (e₂ - min e₁ e₂).toNat : Nat) : Int) 0 = .gt := by
    have above : 0 < m₁ * 2 ^ (e₁ - min e₁ e₂).toNat := by positivity
    exact compare_gt_iff_gt.mpr (by omega)
  simp only [UnpackedFloat.add, decreaseExponent, Nat.shiftLeft_eq, UnpackedFloat.normalize,
    Sign.apply, order]
  rfl

theorem shifted_value (m : Nat) (f : Int) (amount : Nat) :
    ((m * 2 ^ amount : Nat) : Rat) * 2 ^ f = m * 2 ^ (f + amount) := by
  rw [zpow_add_nat]
  push_cast
  ring

/-- A sum of positive numbers is rounded from its exact value. -/
theorem exists_sum (first : ofFloat x = .finite false m₁ e₁)
    (second : ofFloat y = .finite false m₂ e₂) (positive₁ : 0 < m₁) (positive₂ : 0 < m₂) :
    ∃ mantissa exponent, exponent ≤ target mantissa exponent ∧
      (mantissa : Rat) * 2 ^ exponent = (ofFloat x).value + (ofFloat y).value ∧
      x + y = .ofModel (.pack
        (roundWithAccuracy Format.binary64 .positive mantissa exponent .exact)) := by
  generalize isSum : m₁ * 2 ^ (e₁ - min e₁ e₂).toNat + m₂ * 2 ^ (e₂ - min e₁ e₂).toNat = sum
  have positive : 0 < sum := by
    rw [← isSum]
    positivity
  have value : (sum : Rat) * 2 ^ min e₁ e₂ = (ofFloat x).value + (ofFloat y).value := by
    have grid₁ : min e₁ e₂ + ((e₁ - min e₁ e₂).toNat : Int) = e₁ := by omega
    have grid₂ : min e₁ e₂ + ((e₂ - min e₁ e₂).toNat : Int) = e₂ := by omega
    rw [value_of_decoded first, value_of_decoded second, ← isSum, Nat.cast_add, add_mul,
      shifted_value, shifted_value, grid₁, grid₂]
  refine ⟨sum * 2 ^ (min e₁ e₂ - target sum (min e₁ e₂)).toNat,
    min e₁ e₂ - (min e₁ e₂ - target sum (min e₁ e₂)).toNat, ?_, ?_, ?_⟩
  · rw [target_mul_two_pow positive]
    omega
  · rw [← value, shifted_value, sub_add_cancel]
  · rw [add_eq, unpack_of_positive first positive₁, unpack_of_positive second positive₂, add_finite,
      isSum, round_eq]

/-- A number that is unpacked and packed again is the same number. -/
theorem ofFloat_pack_unpack (decoded : ofFloat x = .finite false m e) :
    ofFloat (.ofModel (.pack x.toModel.unpack)) = ofFloat x := by
  by_cases zero : m = 0
  · subst zero
    rw [unpack_of_plusZero decoded, ofFloat_pack_zero, ofFloat_eq, unpack_of_plusZero decoded]
    rfl
  · rw [unpack_of_positive decoded (Nat.pos_of_ne_zero zero), decoded]
    exact ofFloat_pack _ (canonical_of_ofBits decoded) (exponent_le decoded)

theorem ofFloat_zero_add (first : ofFloat x = .finite false 0 e₁)
    (second : ofFloat y = .finite false m₂ e₂) : ofFloat (x + y) = ofFloat y := by
  rw [← ofFloat_pack_unpack second, add_eq, unpack_of_plusZero first]
  by_cases zero : m₂ = 0
  · subst zero
    rw [unpack_of_plusZero second]
    rfl
  · rw [unpack_of_positive second (Nat.pos_of_ne_zero zero)]
    rfl

theorem ofFloat_add_zero (first : ofFloat x = .finite false m₁ e₁)
    (second : ofFloat y = .finite false 0 e₂) : ofFloat (x + y) = ofFloat x := by
  rw [← ofFloat_pack_unpack first, add_eq, unpack_of_plusZero second]
  by_cases zero : m₁ = 0
  · subst zero
    rw [unpack_of_plusZero first]
    rfl
  · rw [unpack_of_positive first (Nat.pos_of_ne_zero zero)]
    rfl

/-- A sum is one of the two numbers, or rounded from its exact value. -/
theorem sum_cases (first : ofFloat x = .finite false m₁ e₁)
    (second : ofFloat y = .finite false m₂ e₂) :
    ((ofFloat x).value + (ofFloat y).value = (ofFloat x).value ∧ ofFloat (x + y) = ofFloat x) ∨
      ((ofFloat x).value + (ofFloat y).value = (ofFloat y).value ∧ ofFloat (x + y) = ofFloat y) ∨
      ∃ mantissa exponent, exponent ≤ target mantissa exponent ∧
        (mantissa : Rat) * 2 ^ exponent = (ofFloat x).value + (ofFloat y).value ∧
        x + y = .ofModel (.pack
          (roundWithAccuracy Format.binary64 .positive mantissa exponent .exact)) := by
  by_cases zero₂ : m₂ = 0
  · subst zero₂
    refine Or.inl ⟨?_, ofFloat_add_zero first second⟩
    rw [value_of_decoded second, Nat.cast_zero, zero_mul, add_zero]
  by_cases zero₁ : m₁ = 0
  · subst zero₁
    refine Or.inr (Or.inl ⟨?_, ofFloat_zero_add first second⟩)
    rw [value_of_decoded first, Nat.cast_zero, zero_mul, zero_add]
  exact Or.inr (Or.inr
    (exists_sum first second (Nat.pos_of_ne_zero zero₁) (Nat.pos_of_ne_zero zero₂)))

theorem rounds_add (first : ofFloat x = .finite false m₁ e₁)
    (second : ofFloat y = .finite false m₂ e₂) (kept : Representable bound)
    (within : (ofFloat x).value + (ofFloat y).value ≤ bound) :
    Rounds (x + y) ((ofFloat x).value + (ofFloat y).value) := by
  rcases sum_cases first second with
    ⟨value, same⟩ | ⟨value, same⟩ | ⟨mantissa, exponent, low, exactly, sum⟩
  · rw [value, ← same]
    exact rounds_value (same.trans first)
  · rw [value, ← same]
    exact rounds_value (same.trans second)
  · rw [sum]
    exact (roundsTo_pack_exact .positive low exactly).rounds kept within

/-- A sum that passes a kept bound of both numbers by less than half a unit in its last place is
rounded back to the bound. -/
theorem value_add_le_of_half (first : ofFloat x = .finite false m₁ e₁)
    (second : ofFloat y = .finite false m₂ e₂) (canonical : Canonical m e) (full : 2 ^ 52 ≤ m)
    (small : e ≤ 971) (left : (ofFloat x).value ≤ m * 2 ^ e) (right : (ofFloat y).value ≤ m * 2 ^ e)
    (below : (ofFloat x).value + (ofFloat y).value < (m + 1 / 2) * 2 ^ e) :
    (ofFloat (x + y)).value ≤ m * 2 ^ e := by
  rcases sum_cases first second with
    ⟨-, same⟩ | ⟨-, same⟩ | ⟨mantissa, exponent, low, exactly, sum⟩
  · rwa [same]
  · rwa [same]
  · rw [← exactly] at below
    have within := rounded_mul_le_of_half canonical full low below
    obtain ⟨m', e', decoded, sameValue⟩ := ofFloat_round_of_le .positive canonical small low within
    rw [sum, value_of_decoded decoded, sameValue]
    exact within

end Values

end Montage.Number.Binary64
