import Mathlib.Algebra.Order.Floor.Semiring
import Mathlib.Data.Rat.Floor
import Montage.Proofs.Number.Bounds
import Montage.Proofs.Number.Identity

/-!
Contract: whole parts of finite numbers, and numbers that are whole.

A number that is not negative is cut to the largest whole number it reaches.
Whole numbers of 53 bits are kept exactly, so sums and products of them that stay
below that are exact, and each has one number only.

Owns: whole parts, and exact calculations with whole numbers.
Does not own: rounding to the nearest whole number, in `Proofs.Number.Bounds`.
-/

namespace Montage.Number.Binary64

open Float.Model (UnpackedFloat)
open Float.Model.UnpackedFloat

/-! ## Cutting -/

/-- The largest whole number that a number reaches. -/
def wholePart (x : Float) : Nat := ⌊(ofFloat x).value⌋₊

theorem natFloor_scaled (m : Nat) (e : Int) :
    ⌊(m : Rat) * 2 ^ e⌋₊ = m * 2 ^ e.toNat / 2 ^ (-e).toNat := by
  rcases le_or_gt 0 e with whole | fraction
  · obtain ⟨amount, rfl⟩ := Int.eq_ofNat_of_zero_le whole
    rw [Int.toNat_natCast, Int.toNat_of_nonpos (by omega), pow_zero, Nat.div_one, zpow_natCast]
    exact_mod_cast Nat.floor_natCast (R := Rat) (m * 2 ^ amount)
  · obtain ⟨amount, rfl⟩ := Int.eq_negSucc_of_lt_zero fraction
    rw [zpow_negSucc, ← div_eq_mul_inv, Int.toNat_of_nonpos fraction.le, pow_zero, Nat.mul_one]
    exact_mod_cast Nat.floor_div_eq_div (K := Rat) m (2 ^ (amount + 1))

theorem roundToInt_positive (m : Nat) (e : Int) :
    roundToInt .positive m e = ⌊(m : Rat) * 2 ^ e⌋₊ := by
  have grid : (0 - (e - (e.toNat : Int))).toNat = (-e).toNat := by omega
  rw [natFloor_scaled]
  change ((ExtendedMantissa.ofMantissaAndAccuracy (m <<< (e - 0).toNat) .exact >>>
    (0 - (e - ((e - 0).toNat : Int))).toNat).mantissa : Int) = _
  rw [sub_zero, grid, mantissa_shiftRight, mantissa_of_accuracy, Nat.shiftLeft_eq]

section WholeParts

variable {x high : Float}

/-- A number between zero and another number is finite. -/
theorem isFinite_of_between (above : 0.0 ≤ x) (below : x < high) : x.isFinite = true := by
  rw [isFinite_iff]
  cases decoded : ofFloat x with
  | finite negative m e => rfl
  | nan =>
      rw [lt_iff_compare, unpack_of_nan decoded] at below
      simp [UnpackedFloat.compare] at below
  | infinite negative =>
      obtain ⟨sign, -, unpacked⟩ := unpack_of_infinite decoded
      cases sign with
      | negative =>
          rw [le_iff_compare, unpacked] at above
          exact absurd above (by decide)
      | positive =>
          rw [lt_iff_compare, unpacked] at below
          cases unpackedHigh : high.toModel.unpack with
          | infinity other => cases other <;> simp [unpackedHigh, UnpackedFloat.compare] at below
          | _ => simp [unpackedHigh, UnpackedFloat.compare] at below

/-- The conversion to a machine word cuts fractions off. -/
theorem toNat_toUInt64 (finite : x.isFinite = true) (nonneg : 0 ≤ (ofFloat x).value)
    (below : (ofFloat x).value < 2 ^ 64) : x.toUInt64.toNat = wholePart x := by
  unfold wholePart
  change (UInt64.ofNatClamp (x.toModel.unpack.toInt 0 (UInt64.size - 1)).toNat).toNat = _
  rw [ofFloat_eq] at nonneg below ⊢
  have fits (n : Nat) (small : n < UInt64.size) : (UInt64.ofNatClamp n).toNat = n := by
    unfold UInt64.ofNatClamp
    rw [dif_pos small]
    rfl
  rcases exists_unpacked finite with ⟨sign, unpacked⟩ | ⟨sign, m, e, positive, -, -, unpacked⟩ <;>
    rw [unpacked] at nonneg below ⊢
  · rw [value_zero, Nat.floor_zero]
    rfl
  · cases sign with
    | negative =>
        rw [value_negative] at nonneg
        have magnitude := magnitude_pos e positive
        linarith
    | positive =>
        rw [value_positive] at nonneg below ⊢
        have short : ⌊(m : Rat) * 2 ^ e⌋₊ < UInt64.size := by
          rw [Nat.floor_lt nonneg]
          exact_mod_cast below
        rw [UnpackedFloat.toInt, roundToInt_positive, Int.toNat_natCast, fits _ short]

end WholeParts

/-! ## Whole numbers -/

/-- A number without a minus sign whose value is a whole number. -/
structure IsWhole (x : Float) (n : Nat) : Prop where
  decoded : ∃ m e, ofFloat x = .finite false m e
  value : (ofFloat x).value = n

section Whole

variable {x y : Float} {n k : Nat}

theorem isWhole_ofNat (short : n < 2 ^ 53) : IsWhole (Float.ofNat n) n where
  decoded := (rounds_ofNat short).decoded
  value := (rounds_ofNat short).eq (representable_natCast short)

theorem isWhole_zero : IsWhole 0.0 0 where
  decoded := ⟨0, leastExponent, by decide⟩
  value := by rw [value_ofFloat_zero, Nat.cast_zero]

/-- A whole number is one number only. -/
theorem IsWhole.unique (first : IsWhole x n) (second : IsWhole y n) : x = y := by
  obtain ⟨m₁, e₁, decoded⟩ := first.decoded
  obtain ⟨m₂, e₂, other⟩ := second.decoded
  have same : (m₁ : Rat) * 2 ^ e₁ = m₂ * 2 ^ e₂ := by
    rw [← value_of_decoded decoded, ← value_of_decoded other, first.value, second.value]
  obtain ⟨rfl, rfl⟩ := (canonical_of_ofBits decoded).unique (canonical_of_ofBits other) same
  exact eq_of_decoded decoded other

theorem IsWhole.add (first : IsWhole x n) (second : IsWhole y k) (short : n + k < 2 ^ 53) :
    IsWhole (x + y) (n + k) := by
  obtain ⟨m₁, e₁, decoded⟩ := first.decoded
  obtain ⟨m₂, e₂, other⟩ := second.decoded
  have kept := representable_natCast short
  have sum : (ofFloat x).value + (ofFloat y).value = (n + k : Nat) := by
    rw [first.value, second.value, Nat.cast_add]
  have rounds := rounds_add decoded other kept sum.le
  rw [sum] at rounds
  exact ⟨rounds.decoded, rounds.eq kept⟩

theorem IsWhole.mul (first : IsWhole x n) (second : IsWhole y k) {m : Nat} {e : Int}
    (decoded : ofFloat y = .finite false m e) (full : 2 ^ 52 ≤ m) (short : n * k < 2 ^ 53) :
    IsWhole (x * y) (n * k) := by
  obtain ⟨m₁, e₁, other⟩ := first.decoded
  have kept := representable_natCast short
  have product : (ofFloat x).value * (ofFloat y).value = (n * k : Nat) := by
    rw [first.value, second.value, Nat.cast_mul]
  have rounds := rounds_mul other decoded full kept product.le
  rw [product] at rounds
  exact ⟨rounds.decoded, rounds.eq kept⟩

end Whole

end Montage.Number.Binary64
