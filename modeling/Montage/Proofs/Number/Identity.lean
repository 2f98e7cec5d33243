import Montage.Proofs.Number.Finite

/-!
Contract: a finite number is known by its exact value.

The format keeps each magnitude by one mantissa and exponent only, and every bit
of a finite number shows in its sign, mantissa and exponent. Only the two zeros
share a value.

Owns: that finite numbers with the same exact value are the same number.
-/

namespace Montage.Number.Binary64

section Canonical

variable {m₁ m₂ : Nat} {e₁ e₂ : Int}

/-- A magnitude is kept by one mantissa and exponent only. -/
theorem Canonical.unique (first : Canonical m₁ e₁) (second : Canonical m₂ e₂)
    (same : (m₁ : Rat) * 2 ^ e₁ = m₂ * 2 ^ e₂) : m₁ = m₂ ∧ e₁ = e₂ := by
  rcases lt_trichotomy e₁ e₂ with smaller | rfl | larger
  · exact absurd same (magnitude_lt_of_exponent first second smaller).ne
  · have weight : (2 : Rat) ^ e₁ ≠ 0 := by positivity
    have mantissas : (m₁ : Rat) = m₂ := mul_right_cancel₀ weight same
    exact ⟨by exact_mod_cast mantissas, rfl⟩
  · exact absurd same.symm (magnitude_lt_of_exponent second first larger).ne

end Canonical

/-- The bits of a finite number: its sign, its exponent unless that is the least, and its fraction. -/
def bitsOf (negative : Bool) (mantissa : Nat) (exponent : Int) : Nat :=
  (if negative then signBit else 0) +
    (if mantissa < hiddenBit then mantissa
    else (exponent + 1075).toNat * hiddenBit + (mantissa - hiddenBit))

theorem signPart {bits : Nat} (short : bits < 2 ^ 64) :
    (if (bits / signBit % 2 == 1) = true then signBit else 0) = bits / signBit * signBit := by
  have bit : bits / signBit = 0 ∨ bits / signBit = 1 := by
    unfold signBit
    omega
  rcases bit with zero | one
  · rw [zero]
    rfl
  · rw [one]
    rfl

theorem eq_bitsOf {bits : Nat} {negative : Bool} {mantissa : Nat} {exponent : Int}
    (short : bits < 2 ^ 64) (decoded : ofBits bits = .finite negative mantissa exponent) :
    bits = bitsOf negative mantissa exponent := by
  have fraction : bits % hiddenBit < hiddenBit := Nat.mod_lt bits (by decide)
  unfold ofBits at decoded
  simp only at decoded
  split at decoded
  · split at decoded <;> cases decoded
  · split at decoded
    · next least =>
        obtain ⟨rfl, rfl, rfl⟩ := Binary64.finite.inj decoded
        rw [bitsOf, signPart short, if_pos fraction]
        unfold signBit
        unfold hiddenBit at least ⊢
        omega
    · obtain ⟨rfl, rfl, rfl⟩ := Binary64.finite.inj decoded
      have top : ¬ hiddenBit + bits % hiddenBit < hiddenBit := by omega
      rw [bitsOf, signPart short, if_neg top]
      unfold signBit hiddenBit
      omega

/-- A finite number is known by its sign, mantissa and exponent. -/
theorem eq_of_decoded {x y : Float} {negative : Bool} {mantissa : Nat} {exponent : Int}
    (first : ofFloat x = .finite negative mantissa exponent)
    (second : ofFloat y = .finite negative mantissa exponent) : x = y := by
  have bits : x.toBits.toNat = y.toBits.toNat :=
    (eq_bitsOf x.toBits.toNat_lt first).trans (eq_bitsOf y.toBits.toNat_lt second).symm
  obtain ⟨⟨xBits, xValid⟩⟩ := x
  obtain ⟨⟨yBits, yValid⟩⟩ := y
  obtain rfl : xBits = yBits := UInt64.toNat_inj.mp bits
  rfl

/-- Positive numbers with the same exact value are the same number. -/
theorem IsPositive.eq_of_value_eq {x y : Float} (first : IsPositive x) (second : IsPositive y)
    (same : (ofFloat x).value = (ofFloat y).value) : x = y := by
  obtain ⟨m, e, decoded, -⟩ := first.decoded
  obtain ⟨k, f, other, -⟩ := second.decoded
  rw [decoded, other] at same
  obtain ⟨rfl, rfl⟩ := (canonical_of_ofBits decoded).unique (canonical_of_ofBits other) same
  exact eq_of_decoded decoded other

end Montage.Number.Binary64
