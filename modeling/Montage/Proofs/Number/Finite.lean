import Montage.Proofs.Number.Rounding

/-!
Contract: which operations on finite numbers stay finite.

Packing a number that is defined gives a number or an infinity, so a product of
finite numbers that is not infinite is finite. A quotient by one or more is no
larger than what was divided.

Owns: finiteness of products, quotients, negations and converted whole numbers, and what positive
numbers are.
-/

namespace Montage.Number.Binary64

open Float.Model (UnpackedFloat Format)
open Float.Model.UnpackedFloat

theorem isFinite_iff {x : Float} : x.isFinite = true ↔ (ofFloat x).isFinite = true := by
  rw [ofFloat_eq]
  show x.toModel.unpack.isFinite = true ↔ _
  cases x.toModel.unpack <;> simp [UnpackedFloat.isFinite, ofUnpacked, Binary64.isFinite]

theorem exists_finite {x : Float} (finite : x.isFinite = true) :
    ∃ negative mantissa exponent, ofFloat x = .finite negative mantissa exponent := by
  rw [isFinite_iff] at finite
  cases decoded : ofFloat x with
  | finite negative mantissa exponent => exact ⟨negative, mantissa, exponent, rfl⟩
  | _ =>
      rw [decoded] at finite
      cases finite

theorem isFinite_of_decoded {x : Float} {negative : Bool} {mantissa : Nat} {exponent : Int}
    (decoded : ofFloat x = .finite negative mantissa exponent) : x.isFinite = true := by
  rw [isFinite_iff, decoded]
  rfl

/-- Finite numbers stop short of the top exponent. -/
theorem exponent_le {x : Float} {negative : Bool} {mantissa : Nat} {exponent : Int}
    (decoded : ofFloat x = .finite negative mantissa exponent) : exponent ≤ 971 := by
  unfold ofFloat ofBits at decoded
  simp only at decoded
  split at decoded
  · split at decoded <;> cases decoded
  · split at decoded
    · cases decoded
      decide
    · cases decoded
      have top := Nat.mod_lt (x.toBits.toNat / hiddenBit) (by decide : 0 < 2048)
      omega

/-- A finite number is unpacked to a zero or to a canonical mantissa and exponent. -/
theorem exists_unpacked {x : Float} (finite : x.isFinite = true) :
    (∃ sign, x.toModel.unpack = .zero sign) ∨
      ∃ sign mantissa exponent positive, Canonical mantissa exponent ∧ exponent ≤ 971 ∧
        x.toModel.unpack = .finite sign mantissa exponent positive := by
  have kept := kept_of_isFinite (isFinite_iff.mp finite)
  cases unpacked : x.toModel.unpack with
  | zero sign => exact Or.inl ⟨sign, rfl⟩
  | finite sign mantissa exponent positive =>
      rw [unpacked] at kept
      have decoded : ofFloat x = .finite (isMinus sign) mantissa exponent := by
        rw [ofFloat_eq, unpacked]
        rfl
      exact Or.inr ⟨sign, mantissa, exponent, positive, kept, exponent_le decoded, rfl⟩
  | _ =>
      rw [unpacked] at kept
      cases kept

/-! ## Positive numbers -/

/-- A finite number above zero. -/
def IsPositive (x : Float) : Prop := x.isFinite = true ∧ 0 < (ofFloat x).value

instance (x : Float) : Decidable (IsPositive x) := inferInstanceAs (Decidable (_ ∧ _))

theorem isPositive_iff {x : Float} : IsPositive x ↔ x.isFinite = true ∧ (0.0 : Float) < x := by
  unfold IsPositive
  refine and_congr_right fun finite => ?_
  rw [lt_iff_value_lt (by decide) (isFinite_iff.mp finite), value_ofFloat_zero]

theorem IsPositive.decoded {x : Float} (isPositive : IsPositive x) :
    ∃ m e, ofFloat x = .finite false m e ∧ 0 < m := by
  obtain ⟨finite, positive⟩ := isPositive
  obtain ⟨negative, m, e, decoded⟩ := exists_finite finite
  rw [decoded] at positive
  cases negative with
  | false => exact ⟨m, e, decoded, Nat.pos_of_ne_zero fun zero => by simp [value, zero] at positive⟩
  | true =>
      have below : -((m : Rat) * 2 ^ e) ≤ 0 := neg_nonpos.mpr (by positivity)
      exact absurd positive (not_lt.mpr below)

/-! ## Packed numbers -/

/-- What is defined stays defined when it is packed, though it may become infinite. -/
theorem ofFloat_pack_ne_nan {u : UnpackedFloat} (defined : u ≠ .notANumber) :
    ofFloat (.ofModel (.pack u)) ≠ .nan := by
  cases u with
  | notANumber => exact absurd rfl defined
  | infinity sign =>
      rw [ofFloat_pack_infinity]
      exact Binary64.noConfusion
  | zero sign =>
      rw [ofFloat_pack_zero]
      exact Binary64.noConfusion
  | finite sign mantissa exponent positive =>
      rw [ofFloat_eq]
      change ofUnpacked (unpack Format.binary64 (pack Format.binary64 _)) ≠ _
      simp only [pack]
      split
      · cases sign <;> decide
      · next fits =>
          have inRange : (exponent + 1023 + 52).toNat < 2047 := by
            change ¬ 2048 ≤ (exponent + 1023 + 52).toNat + 1 at fits
            omega
          have components (biased : Nat) (below : biased < 2047) :
              ofUnpacked (unpack Format.binary64 (packComponents Format.binary64 sign
                (BitVec.ofNat 11 biased) (BitVec.ofNat 52 mantissa))) ≠ .nan := by
            rw [ofUnpacked_packComponents sign below]
            split <;> exact Binary64.noConfusion
          split
          · exact components _ inRange
          · exact components 0 (by decide)

/-- A packed number that is defined is finite unless it is infinite. -/
theorem isFinite_pack {u : UnpackedFloat} (defined : u ≠ .notANumber)
    (bounded : (Float.ofModel (.pack u)).isInf = false) :
    (Float.ofModel (.pack u)).isFinite = true := by
  rw [isFinite_iff]
  cases decoded : ofFloat (.ofModel (.pack u)) with
  | nan => exact absurd decoded (ofFloat_pack_ne_nan defined)
  | finite negative mantissa exponent => rfl
  | infinite negative =>
      obtain ⟨sign, -, unpacked⟩ := unpack_of_infinite decoded
      have unbounded : (Float.ofModel (.pack u)).isInf = true := by
        show (Float.ofModel (.pack u)).toModel.unpack.isInf = true
        rw [unpacked]
        rfl
      rw [unbounded] at bounded
      cases bounded

/-! ## Operations -/

theorem roundWithAccuracy_ne_nan (sign : Sign) (mantissa : Nat) (exponent : Int)
    (accuracy : Accuracy) :
    roundWithAccuracy Format.binary64 sign mantissa exponent accuracy ≠ .notANumber := by
  simp only [roundWithAccuracy]
  split <;> exact UnpackedFloat.noConfusion

theorem isFinite_mul {x y : Float} (first : x.isFinite = true) (second : y.isFinite = true)
    (bounded : (x * y).isInf = false) : (x * y).isFinite = true := by
  rw [mul_eq] at bounded ⊢
  refine isFinite_pack ?_ bounded
  rcases exists_unpacked first with ⟨sign, left⟩ | ⟨sign, m₁, e₁, positive₁, -, -, left⟩ <;>
    rcases exists_unpacked second with ⟨other, right⟩ | ⟨other, m₂, e₂, positive₂, -, -, right⟩ <;>
    rw [left, right]
  · exact UnpackedFloat.noConfusion
  · exact UnpackedFloat.noConfusion
  · exact UnpackedFloat.noConfusion
  · exact roundWithAccuracy_ne_nan _ _ _ _

/-- Dividing by one or more does not leave the finite numbers. -/
theorem isFinite_div {x y : Float} {m : Nat} {e : Int} (finite : x.isFinite = true)
    (divisor : ofFloat y = .finite false m e) (atLeastOne : (1 : Rat) ≤ m * 2 ^ e) :
    (x / y).isFinite = true := by
  obtain ⟨negative, mantissa, exponent, decoded⟩ := exists_finite finite
  have positive : 0 < m := by
    by_contra zero
    rw [Nat.eq_zero_of_not_pos zero, Nat.cast_zero, zero_mul] at atLeastOne
    norm_num at atLeastOne
  have below : (mantissa : Rat) * 2 ^ exponent ≤ mantissa * 2 ^ exponent * (m * 2 ^ e) :=
    le_mul_of_one_le_right (by positivity) atLeastOne
  obtain ⟨m', e', quotient, -⟩ := div_le decoded divisor positive (canonical_of_ofBits decoded)
    (exponent_le decoded) below
  exact isFinite_of_decoded quotient

theorem isFinite_neg {x : Float} (finite : x.isFinite = true) : (-x).isFinite = true := by
  have negated : -x = .ofModel (.pack x.toModel.unpack.neg) := rfl
  rw [negated, isFinite_iff]
  rcases exists_unpacked finite with
    ⟨sign, unpacked⟩ | ⟨sign, mantissa, exponent, positive, canonical, small, unpacked⟩ <;>
    rw [unpacked, UnpackedFloat.neg]
  · rw [ofFloat_pack_zero]
    rfl
  · rw [ofFloat_pack positive canonical small]
    rfl

/-- A whole number of 64 bits is converted to a finite number. -/
theorem isFinite_ofNat {n : Nat} (within : n < 2 ^ 64) : (Float.ofNat n).isFinite = true := by
  have bound : Canonical (2 ^ 52) 12 := canonical_full (by decide)
  have below : (n : Rat) ≤ (2 ^ 52 : Nat) * 2 ^ (12 : Int) := by
    have whole : (n : Rat) ≤ (2 ^ 64 : Nat) := by exact_mod_cast Nat.le_of_lt within
    refine le_trans whole (le_of_eq ?_)
    norm_num
  obtain ⟨m, e, converted, -⟩ := ofNat_le bound (by decide) below
  exact isFinite_of_decoded converted

/-- A full mantissa over no more places than it has is one at least. -/
theorem one_le_of_full {mantissa : Nat} {exponent : Int} (full : 2 ^ 52 ≤ mantissa)
    (places : -52 ≤ exponent) : (1 : Rat) ≤ mantissa * 2 ^ exponent := by
  have cast : ((2 ^ 52 : Nat) : Rat) ≤ mantissa := by exact_mod_cast full
  calc (1 : Rat) = (2 ^ 52 : Nat) * 2 ^ (-52 : Int) := by norm_num
    _ ≤ mantissa * 2 ^ exponent := by
      gcongr
      norm_num

theorem full_of_one_le {mantissa : Nat} {exponent : Int} (canonical : Canonical mantissa exponent)
    (atLeastOne : (1 : Rat) ≤ mantissa * 2 ^ exponent) : 2 ^ 52 ≤ mantissa := by
  by_contra short
  have negative : exponent = leastExponent := canonical.full.resolve_left short
  have below : (mantissa : Rat) < 2 ^ 53 := by exact_mod_cast canonical.below
  have tiny : (2 : Rat) ^ exponent ≤ 2 ^ (-53 : Int) :=
    zpow_le_zpow_right₀ one_le_two (by rw [negative]; decide)
  have small : (mantissa : Rat) * 2 ^ exponent < 2 ^ 53 * 2 ^ (-53 : Int) :=
    mul_lt_mul_of_lt_of_le_of_nonneg_of_pos below tiny (by positivity) (by positivity)
  norm_num at small
  exact absurd small (not_lt.mpr atLeastOne)

/-- A positive whole number with a power of ten stays finite, does not fall below one, and is hardly
above its exact value. -/
theorem ofScientific_near {n power : Nat} (nonzero : n ≠ 0) (long : ¬ (n < 2 ^ 53 ∧ power ≤ 22))
    (small : power ≤ 2048) (below : n * 10 ^ power ≤ (2 ^ 53 - 1) * 2 ^ 971) :
    ∃ m e, ofFloat (Float.ofScientific n false power) = .finite false m e ∧
      (1 : Rat) ≤ m * 2 ^ e ∧
      (m : Rat) * 2 ^ e ≤ (n * 10 ^ power : Nat) * (1 + 2 ^ (-52 : Int)) := by
  have positive : 0 < n * 10 ^ power := by positivity
  have scaled : n * 2 ^ 53 * 10 ^ power = n * 10 ^ power * 2 ^ 53 := Nat.mul_right_comm _ _ _
  have log : 53 ≤ (n * 2 ^ 53 * 10 ^ power).log2 := by
    rw [scaled, log2_mul_two_pow positive]
    exact Nat.le_add_left _ _
  have grid : (-52 : Int) ≤ target (n * 2 ^ 53 * 10 ^ power) (-53) := by
    rw [target_eq]
    omega
  have low : (-53 : Int) ≤ target (n * 2 ^ 53 * 10 ^ power) (-53) := by omega
  have notLeast : target (n * 2 ^ 53 * 10 ^ power) (-53) ≠ leastExponent := by
    unfold leastExponent
    omega
  have exact : ((n * 2 ^ 53 * 10 ^ power : Nat) : Rat) * 2 ^ (-53 : Int) = (n * 10 ^ power : Nat) := by
    rw [scaled]
    push_cast
    rw [mul_assoc]
    norm_num
  have top : Canonical (2 ^ 53 - 1) 971 := ⟨by decide, by decide, Or.inl (by decide)⟩
  have inRange : (atMost (n * 2 ^ 53 * 10 ^ power) .exact : Rat) * 2 ^ (-53 : Int) ≤
      (2 ^ 53 - 1 : Nat) * 2 ^ (971 : Int) := by
    have whole : ((n * 10 ^ power : Nat) : Rat) ≤ ((2 ^ 53 - 1) * 2 ^ 971 : Nat) := by
      exact_mod_cast below
    rw [atMost, exact]
    refine le_trans whole (le_of_eq ?_)
    rw [Nat.cast_mul, Nat.cast_pow]
    rfl
  obtain ⟨m, e, converted, value⟩ := ofFloat_round_eq .positive top (by decide) low inRange
  refine ⟨m, e, ?_, ?_, ?_⟩
  · rw [ofScientific_eq nonzero long small]
    exact converted
  · rw [value]
    exact one_le_of_full ((rounded_full low).resolve_right notLeast) grid
  · rw [value, ← exact]
    exact rounded_mul_le_relative low notLeast

end Montage.Number.Binary64
