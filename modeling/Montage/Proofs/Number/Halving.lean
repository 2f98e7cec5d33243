import Montage.Proofs.Number.Bounds

/-!
Contract: halving and doubling lose nothing.

Twice a kept number is kept with the next exponent, or with one bit more at the
least exponent; half of one is kept with the exponent before, unless that is the
least. Far from both ends of the range a quotient by a half or by two is exact.

Owns: exact quotients by a half and by two.
-/

namespace Montage.Number.Binary64

section Canonical

variable {m : Nat} {e : Int}

theorem representable_twice (canonical : Canonical m e) (small : e < 971) :
    Representable (m * 2 ^ e * 2) := by
  by_cases full : 2 ^ 52 ≤ m
  · have least := canonical.least
    refine ⟨m, e + 1, ⟨canonical.below, by omega, Or.inl full⟩, by omega, ?_⟩
    rw [zpow_add_one₀ two_ne_zero, mul_assoc]
  · have isLeast := canonical.full.resolve_left full
    refine ⟨2 * m, e, ⟨by omega, canonical.least, Or.inr isLeast⟩, by omega, ?_⟩
    push_cast
    ring

theorem representable_halved (canonical : Canonical m e) (small : e ≤ 971)
    (large : 1 ≤ (m : Rat) * 2 ^ e) : Representable (m * 2 ^ e / 2) := by
  have notLeast : e ≠ leastExponent := by
    rintro rfl
    have below : (m : Rat) < 2 ^ 53 := by exact_mod_cast canonical.below
    have tiny : (m : Rat) * 2 ^ leastExponent < 2 ^ 53 * 2 ^ leastExponent := by gcongr
    have bound : (2 : Rat) ^ 53 * 2 ^ leastExponent ≤ 1 := by
      rw [leastExponent, ← zpow_natCast, ← zpow_add₀ two_ne_zero]
      exact zpow_le_one_of_nonpos₀ (by norm_num) (by norm_num)
    linarith
  have full := canonical.full.resolve_right notLeast
  have least := canonical.least
  refine ⟨m, e - 1, ⟨canonical.below, by omega, Or.inl full⟩, by omega, ?_⟩
  rw [zpow_sub_one₀ two_ne_zero, div_eq_mul_inv, mul_assoc]

end Canonical

theorem ofFloat_half : ofFloat 0.5 = .finite false (2 ^ 52) (-53) := by decide

theorem value_half : (ofFloat 0.5).value = 1 / 2 := by
  rw [value_of_decoded ofFloat_half]
  norm_num

theorem isPositive_half : IsPositive 0.5 := ⟨by decide, by rw [value_half]; norm_num⟩

theorem ofFloat_two : ofFloat 2.0 = .finite false (2 ^ 52) (-51) := by decide

theorem value_two : (ofFloat 2.0).value = 2 := by
  rw [value_of_decoded ofFloat_two]
  norm_num

theorem isPositive_two : IsPositive 2.0 := ⟨by decide, by rw [value_two]; norm_num⟩

section Quotients

variable {x : Float}

/-- A quotient that is kept is exact. -/
theorem isPositive_div {y : Float} (isPositive : IsPositive x) (divisor : IsPositive y)
    (kept : Representable ((ofFloat x).value / (ofFloat y).value)) :
    IsPositive (x / y) ∧ (ofFloat (x / y)).value = (ofFloat x).value / (ofFloat y).value := by
  obtain ⟨m₁, e₁, first, -⟩ := isPositive.decoded
  obtain ⟨m₂, e₂, second, some⟩ := divisor.decoded
  have rounds := rounds_div first second some kept le_rfl
  have value := rounds.eq kept
  exact ⟨⟨rounds.isFinite, by rw [value]; exact div_pos isPositive.2 divisor.2⟩, value⟩

theorem div_half_exact (isPositive : IsPositive x) (small : (ofFloat x).value < 1 / 2) :
    IsPositive (x / 0.5) ∧ (ofFloat (x / 0.5)).value = (ofFloat x).value / (1 / 2) := by
  obtain ⟨m, e, decoded, -⟩ := isPositive.decoded
  have canonical := canonical_of_ofBits decoded
  have value := value_of_decoded decoded
  have negative : e < 0 := by
    refine canonical.exponent_neg ?_
    rw [← value]
    exact small.trans (by norm_num)
  have kept := representable_twice canonical (by omega)
  have quotient := isPositive_div isPositive isPositive_half
  rw [value_half] at quotient
  refine quotient ?_
  rw [value, div_div_eq_mul_div, div_one]
  exact kept

theorem div_two_exact (isPositive : IsPositive x) (large : 2 < (ofFloat x).value) :
    IsPositive (x / 2.0) ∧ (ofFloat (x / 2.0)).value = (ofFloat x).value / 2 := by
  obtain ⟨m, e, decoded, -⟩ := isPositive.decoded
  have value := value_of_decoded decoded
  have kept := representable_halved (canonical_of_ofBits decoded) (exponent_le decoded) (by
    rw [← value]
    linarith)
  have quotient := isPositive_div isPositive isPositive_two
  rw [value_two] at quotient
  refine quotient ?_
  rw [value]
  exact kept

/-- Positive numbers lie between the least and the highest power of two. -/
theorem IsPositive.bounds (isPositive : IsPositive x) :
    (2 : Rat) ^ (-1074 : Int) ≤ (ofFloat x).value ∧ (ofFloat x).value ≤ 2 ^ (1024 : Int) := by
  obtain ⟨m, e, decoded, some⟩ := isPositive.decoded
  have canonical := canonical_of_ofBits decoded
  rw [value_of_decoded decoded]
  constructor
  · have atLeastOne : (1 : Rat) ≤ m := by exact_mod_cast some
    calc (2 : Rat) ^ (-1074 : Int) ≤ 2 ^ e := zpow_le_zpow_right₀ (by norm_num) canonical.least
      _ ≤ m * 2 ^ e := le_mul_of_one_le_left (by positivity) atLeastOne
  · have below : (m : Rat) ≤ 2 ^ 53 := by exact_mod_cast canonical.below.le
    calc (m : Rat) * 2 ^ e ≤ 2 ^ 53 * 2 ^ (971 : Int) := by
          gcongr
          · norm_num
          · exact exponent_le decoded
      _ = 2 ^ (1024 : Int) := by
          rw [← zpow_natCast, ← zpow_add₀ two_ne_zero]
          norm_num

end Quotients

end Montage.Number.Binary64
