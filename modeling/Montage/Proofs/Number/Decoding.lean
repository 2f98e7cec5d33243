import Mathlib
import Montage.Number.Binary64

/-!
Contract: the decoding of floating-point numbers and their arithmetic agree.

`Binary64.ofFloat` reads sign, exponent and fraction off the bits by whole
number arithmetic; the arithmetic of floating-point numbers unpacks and packs
the same bits in its own form. `ofFloat_eq` says that both see the same number,
and `ofFloat_pack` what comes back of a packed result.

Owns: canonical mantissas and exponents, and both directions of the decoding.
Does not own: values, order and rounding.
-/

namespace Montage.Number

open Float.Model (UnpackedFloat Format)
open Float.Model.UnpackedFloat

namespace Binary64

/-- Mantissa and exponent as the format keeps them: 53 bits, and fewer only at the least exponent. -/
structure Canonical (mantissa : Nat) (exponent : Int) : Prop where
  below : mantissa < 2 ^ 53
  least : leastExponent ≤ exponent
  full : 2 ^ 52 ≤ mantissa ∨ exponent = leastExponent

def isMinus : Sign → Bool
  | .negative => true
  | .positive => false

def ofUnpacked : UnpackedFloat → Binary64
  | .notANumber => .nan
  | .infinity sign => .infinite (isMinus sign)
  | .zero sign => .finite (isMinus sign) 0 leastExponent
  | .finite sign mantissa exponent _ => .finite (isMinus sign) mantissa exponent

/-! ## The fields of a bit pattern -/

section Fields

variable (bits : BitVec 64)

theorem toNat_unpackMantissa :
    (@unpackMantissa Format.binary64 bits).toNat = bits.toNat % hiddenBit := by
  simp [unpackMantissa, hiddenBit]

theorem toNat_unpackExponent :
    (@unpackExponent Format.binary64 bits).toNat = bits.toNat / hiddenBit % 2048 := by
  simp [unpackExponent, Nat.shiftRight_eq_div_pow, hiddenBit]

theorem toNat_unpackSign :
    (@unpackSign Format.binary64 bits).toNat = bits.toNat / signBit % 2 := by
  simp [unpackSign, Nat.shiftRight_eq_div_pow, signBit]

theorem isMinus_ofBitVec (sign : BitVec 1) : isMinus (Sign.ofBitVec sign) = (sign.toNat == 1) := by
  have cases : sign = 0#1 ∨ sign = 1#1 := by
    revert sign
    decide
  rcases cases with rfl | rfl <;> rfl

theorem toNat_withHiddenBit (fraction : BitVec 52) :
    (1#1 ++ fraction).toNat = hiddenBit + fraction.toNat := by
  rw [BitVec.toNat_append, ← Nat.shiftLeft_add_eq_or_of_lt fraction.isLt]
  rfl

/-- Both decodings of a bit pattern give the same number. -/
theorem ofBits_eq : ofBits bits.toNat = ofUnpacked (unpack Format.binary64 bits) := by
  have mantissa := toNat_unpackMantissa bits
  have exponent := toNat_unpackExponent bits
  have sign := isMinus_ofBitVec (@unpackSign Format.binary64 bits)
  rw [toNat_unpackSign] at sign
  have noFraction : @unpackMantissa Format.binary64 bits = 0#52 ↔ bits.toNat % hiddenBit = 0 := by
    rw [← BitVec.toNat_inj, mantissa]
    rfl
  have top : @unpackExponent Format.binary64 bits = -1#11 ↔
      bits.toNat / hiddenBit % 2048 = 2047 := by
    rw [← BitVec.toNat_inj, exponent]
    rfl
  have bottom : @unpackExponent Format.binary64 bits = 0#11 ↔
      bits.toNat / hiddenBit % 2048 = 0 := by
    rw [← BitVec.toNat_inj, exponent]
    rfl
  unfold ofBits unpack
  simp only [top, bottom, noFraction]
  by_cases isTop : bits.toNat / hiddenBit % 2048 = 2047
  · by_cases zero : bits.toNat % hiddenBit = 0 <;> simp [isTop, zero, ofUnpacked, sign]
  · rw [if_neg isTop, if_neg isTop]
    by_cases isBottom : bits.toNat / hiddenBit % 2048 = 0
    · rw [if_pos isBottom, if_pos isBottom]
      by_cases zero : bits.toNat % hiddenBit = 0
      · rw [dif_pos zero, ofUnpacked, sign, zero]
      · simp only [zero, ↓reduceDIte, ofUnpacked, sign, mantissa, exponent, isBottom]
        rfl
    · rw [if_neg isBottom, if_neg isBottom]
      simp only [ofUnpacked, sign, exponent, toNat_withHiddenBit, mantissa]
      rfl

end Fields

/-- What the bits of a number stand for is what its arithmetic sees. -/
theorem ofFloat_eq (x : Float) : ofFloat x = ofUnpacked x.toModel.unpack :=
  ofBits_eq x.toModel.toBits.toBitVec

theorem canonical_of_ofBits {bits : Nat} {negative : Bool} {mantissa : Nat} {exponent : Int}
    (decoded : ofBits bits = .finite negative mantissa exponent) : Canonical mantissa exponent := by
  have fraction : bits % hiddenBit < 2 ^ 52 := Nat.mod_lt bits (by decide)
  have hidden : hiddenBit = 2 ^ 52 := rfl
  unfold ofBits at decoded
  by_cases isTop : bits / hiddenBit % 2048 = 2047
  · by_cases zero : bits % hiddenBit = 0 <;> simp [isTop, zero] at decoded
  · simp only [isTop, ↓reduceIte] at decoded
    split at decoded
    · obtain ⟨-, rfl, rfl⟩ := Binary64.finite.inj decoded
      exact ⟨by omega, Int.le_refl _, Or.inr rfl⟩
    · next isNormal =>
        obtain ⟨-, rfl, rfl⟩ := Binary64.finite.inj decoded
        refine ⟨by omega, ?_, Or.inl (by omega)⟩
        unfold leastExponent
        omega

/-! ## Packed results -/

theorem isMinus_toBitVec (sign : Sign) : ((sign.toBitVec).toNat == 1) = isMinus sign := by
  cases sign <;> rfl

/-- The number that packed components stand for. -/
theorem ofUnpacked_packComponents (sign : Sign) {biased mantissa : Nat} (inRange : biased < 2047) :
    ofUnpacked (unpack Format.binary64 (packComponents Format.binary64 sign
        (BitVec.ofNat 11 biased) (BitVec.ofNat 52 mantissa))) =
      if biased = 0 then .finite (isMinus sign) (mantissa % hiddenBit) leastExponent
      else .finite (isMinus sign) (hiddenBit + mantissa % hiddenBit) ((biased : Int) - 1075) := by
  rw [← ofBits_eq]
  have exponentField := toNat_unpackExponent (packComponents Format.binary64 sign
    (BitVec.ofNat 11 biased) (BitVec.ofNat 52 mantissa))
  have mantissaField := toNat_unpackMantissa (packComponents Format.binary64 sign
    (BitVec.ofNat 11 biased) (BitVec.ofNat 52 mantissa))
  have signField := toNat_unpackSign (packComponents Format.binary64 sign
    (BitVec.ofNat 11 biased) (BitVec.ofNat 52 mantissa))
  have kept : (BitVec.ofNat 11 biased).toNat = biased := by
    rw [BitVec.toNat_ofNat, Nat.mod_eq_of_lt (by omega)]
  rw [unpackExponent_packComponents, kept] at exponentField
  rw [unpackMantissa_packComponents, BitVec.toNat_ofNat] at mantissaField
  rw [unpackSign_packComponents] at signField
  unfold ofBits
  rw [← exponentField, ← mantissaField, ← signField, isMinus_toBitVec]
  simp only [Nat.ne_of_lt inRange, ↓reduceIte]
  rfl

/-- Packing keeps a canonical number whose exponent is small enough. -/
theorem ofFloat_pack {sign : Sign} {mantissa : Nat} {exponent : Int} (positive : 0 < mantissa)
    (canonical : Canonical mantissa exponent) (small : exponent ≤ 971) :
    ofFloat (.ofModel (.pack (.finite sign mantissa exponent positive))) =
      .finite (isMinus sign) mantissa exponent := by
  have least := canonical.least
  have below := canonical.below
  unfold leastExponent at least
  rw [ofFloat_eq]
  change ofUnpacked (unpack Format.binary64 (pack Format.binary64 _)) = _
  have fits : ¬ 2 ^ Format.binary64.exponentBits ≤
      (exponent + Format.binary64.exponentBias + Format.binary64.mantissaBitsWithoutImplicit).toNat
        + 1 := by
    change ¬ 2048 ≤ (exponent + 1023 + 52).toNat + 1
    omega
  by_cases normal : 2 ^ 52 ≤ mantissa
  · have width : mantissa.log2 + 1 = Format.binary64.mantissaBits := by
      rw [(Nat.log2_eq_iff (by omega)).mpr ⟨normal, below⟩]
      rfl
    have inRange : (exponent + 1023 + 52).toNat < 2047 := by omega
    simp only [pack, if_neg fits, if_pos width]
    refine (ofUnpacked_packComponents sign inRange).trans ?_
    have notLeast : (exponent + 1023 + 52).toNat ≠ 0 := by omega
    have restored : hiddenBit + mantissa % hiddenBit = mantissa := by
      change 2 ^ 52 + mantissa % 2 ^ 52 = mantissa
      omega
    rw [if_neg notLeast, restored]
    congr 1
    omega
  · have isLeast : exponent = leastExponent := canonical.full.resolve_left normal
    have width : ¬ mantissa.log2 + 1 = Format.binary64.mantissaBits := by
      have short : mantissa.log2 < 52 := (Nat.log2_lt (by omega)).mpr (by omega)
      change ¬ mantissa.log2 + 1 = 53
      omega
    have inRange : 0 < 2047 := by decide
    simp only [pack, if_neg fits, if_neg width]
    refine (ofUnpacked_packComponents sign inRange).trans ?_
    rw [if_pos rfl, isLeast, Nat.mod_eq_of_lt]
    exact Nat.lt_of_not_le normal

/-- Packing a number whose exponent is too large gives an infinity. -/
theorem ofFloat_pack_large {sign : Sign} {mantissa : Nat} {exponent : Int} (positive : 0 < mantissa)
    (large : 971 < exponent) :
    ofFloat (.ofModel (.pack (.finite sign mantissa exponent positive))) =
      .infinite (isMinus sign) := by
  rw [ofFloat_eq]
  change ofUnpacked (unpack Format.binary64 (pack Format.binary64 _)) = _
  have beyond : 2 ^ Format.binary64.exponentBits ≤
      (exponent + Format.binary64.exponentBias + Format.binary64.mantissaBitsWithoutImplicit).toNat
        + 1 := by
    change 2048 ≤ (exponent + 1023 + 52).toNat + 1
    omega
  simp only [pack, if_pos beyond]
  cases sign <;> decide

theorem ofFloat_pack_infinity (sign : Sign) :
    ofFloat (.ofModel (.pack (.infinity sign))) = .infinite (isMinus sign) := by
  cases sign <;> decide

theorem ofFloat_pack_zero (sign : Sign) :
    ofFloat (.ofModel (.pack (.zero sign))) = .finite (isMinus sign) 0 leastExponent := by
  cases sign <;> decide

theorem unpack_of_nan {x : Float} (undefined : ofFloat x = .nan) :
    x.toModel.unpack = .notANumber := by
  rw [ofFloat_eq] at undefined
  cases unpacked : x.toModel.unpack with
  | notANumber => rfl
  | _ =>
      rw [unpacked] at undefined
      cases undefined

theorem unpack_of_infinite {x : Float} {negative : Bool} (unbounded : ofFloat x = .infinite negative) :
    ∃ sign, isMinus sign = negative ∧ x.toModel.unpack = .infinity sign := by
  rw [ofFloat_eq] at unbounded
  cases unpacked : x.toModel.unpack with
  | infinity sign =>
      rw [unpacked] at unbounded
      exact ⟨sign, Binary64.infinite.inj unbounded, rfl⟩
  | _ =>
      rw [unpacked] at unbounded
      cases unbounded

theorem unpack_of_ofFloat {x : Float} {negative : Bool} {mantissa : Nat} {exponent : Int}
    (decoded : ofFloat x = .finite negative mantissa exponent) (positive : 0 < mantissa) :
    ∃ sign, isMinus sign = negative ∧
      x.toModel.unpack = .finite sign mantissa exponent positive := by
  rw [ofFloat_eq] at decoded
  cases unpacked : x.toModel.unpack with
  | zero sign =>
      rw [unpacked] at decoded
      obtain ⟨-, rfl, -⟩ := Binary64.finite.inj decoded
      exact absurd positive (Nat.lt_irrefl 0)
  | finite sign m e pos =>
      rw [unpacked] at decoded
      obtain ⟨rfl, rfl, rfl⟩ := Binary64.finite.inj decoded
      exact ⟨sign, rfl, rfl⟩
  | _ =>
      rw [unpacked] at decoded
      cases decoded

theorem unpack_of_positive {x : Float} {mantissa : Nat} {exponent : Int}
    (decoded : ofFloat x = .finite false mantissa exponent) (positive : 0 < mantissa) :
    x.toModel.unpack = .finite .positive mantissa exponent positive := by
  obtain ⟨sign, plus, unpacked⟩ := unpack_of_ofFloat decoded positive
  cases sign with
  | negative => cases plus
  | positive => exact unpacked

theorem unpack_of_zero {x : Float} {negative : Bool} {exponent : Int}
    (decoded : ofFloat x = .finite negative 0 exponent) :
    ∃ sign, isMinus sign = negative ∧ x.toModel.unpack = .zero sign := by
  rw [ofFloat_eq] at decoded
  cases unpacked : x.toModel.unpack with
  | zero sign =>
      rw [unpacked] at decoded
      exact ⟨sign, (Binary64.finite.inj decoded).1, rfl⟩
  | finite sign mantissa exponent positive =>
      rw [unpacked] at decoded
      obtain ⟨-, rfl, -⟩ := Binary64.finite.inj decoded
      exact absurd positive (Nat.lt_irrefl 0)
  | _ =>
      rw [unpacked] at decoded
      cases decoded

end Binary64

end Montage.Number
