import Montage.Proofs.Json.Fields
import Montage.Proofs.Json.ReadNumber
import Montage.Proofs.Number.Bounds
import Montage.Proofs.Number.Nearness

/-!
Contract: the literal of every finite number is read back as some number.

Dividing by powers of ten never leaves the finite numbers. A literal is only
multiplied when it is written with a positive exponent, and then the digits and
the power of ten are each rounded before the product is. Three roundings stay
below the largest number unless the literal is that of one of the last three,
and these are read one by one.

Owns: `float?_ofFloat_isSome`.
Does not own: which number is read, which may be a neighbour of the written one.
-/

namespace Montage.Json

open Montage.Number
open Montage.Number.Binary64 (Canonical)

namespace Numeral

/-! ## Divisions -/

theorem applyPower_isSome_of_neg {power : Int} (below : power < 0) (fuel : Nat) (x : Float) :
    (applyPower fuel x power).isSome = true := by
  induction fuel generalizing x power with
  | zero => rfl
  | succ fuel inductionHypothesis =>
      have divides : ¬ 0 ≤ power := not_le.mpr below
      unfold applyPower
      rw [if_neg divides, if_neg divides]
      split
      · rfl
      · next large =>
          split
          · rfl
          · refine inductionHypothesis ?_ _
            unfold largestPower at large ⊢
            omega

theorem applyPower_isSome_of_nonpos {significand : Nat} (within : significand ≤ significandLimit)
    {power : Int} (below : power ≤ 0) :
    (applyPower 4 (Float.ofNat significand) power).isSome = true := by
  rcases Int.lt_or_eq_of_le below with negative | rfl
  · exact applyPower_isSome_of_neg negative 4 _
  · have finite := isInf_ofNat_mul_one within
    simp [applyPower, finite]

/-- A literal is read when the digits that were gathered can be scaled. -/
theorem toFloat?_isSome {n : Numeral} {whole significand : Nat} {dropped : List Char}
    (front : gather 0 n.whole = (whole, []))
    (back : gather whole n.fraction = (significand, dropped))
    (scaled : (scaled? significand (-((n.fraction.length - dropped.length : Nat) : Int))
      n.exponent).isSome = true) : n.toFloat?.isSome = true := by
  simp only [toFloat?, front, back, Option.isSome_map, List.length_nil, Nat.cast_zero, zero_sub]
  exact scaled

/-- A literal without a positive exponent is divided at most. -/
theorem toFloat?_isSome_of_nonpos {n : Numeral} (few : wholeValue n.whole ≤ significandLimit)
    (noGrowth : ∀ part ∈ n.exponent, part.1 = true) : n.toFloat?.isSome = true := by
  have within := gather_le few n.fraction
  refine toFloat?_isSome (gather_of_le few) rfl ?_
  cases exponent : n.exponent with
  | none => exact applyPower_isSome_of_nonpos within (by omega)
  | some part =>
      obtain ⟨negative, ds⟩ := part
      obtain rfl : negative = true := noGrowth (negative, ds) exponent
      simp only [scaled?, Bool.true_eq_false, and_false, ↓reduceIte]
      split
      · rfl
      · exact applyPower_isSome_of_nonpos within (by omega)

/-! ## Products -/

/-- What a number must not pass for its literal to be multiplied out in any case. -/
@[irreducible]
def room : Nat := (2 ^ 54 - 7) * twoTo 970

theorem cast_scaled (k n : Nat) : ((k * twoTo n : Nat) : Rat) = k * 2 ^ n := by simp [twoTo]

theorem cast_room : (room : Rat) = (2 ^ 54 - 7 : Nat) * 2 ^ 970 := by
  have scaled := cast_scaled (2 ^ 54 - 7) 970
  unfold room
  exact scaled

theorem top_eq : (2 : Rat) ^ (971 : Int) = 2 * 2 ^ 970 := by
  rw [← zpow_natCast, ← zpow_one_add₀ two_ne_zero]
  rfl

theorem room_mul_le :
    (room : Rat) * (1 + 2 ^ (-52 : Int)) ≤ (2 ^ 53 - 1 : Nat) * 2 ^ (971 : Int) := by
  have unit : (0 : Rat) < 2 ^ 970 := by positivity
  rw [top_eq, cast_room]
  generalize (2 : Rat) ^ 970 = u at unit
  norm_num
  linarith

/-- The whole numbers of up to seventeen digits are kept under a bound that leaves the room for a
power of ten. -/
theorem exists_bound {n power : Nat} (short : n ≤ 10 ^ 17) (within : n * 10 ^ power ≤ room) :
    ∃ m e, Canonical m e ∧ e ≤ 971 ∧ (n : Rat) ≤ m * 2 ^ e ∧
      (m : Rat) * 2 ^ e * 10 ^ power ≤ room := by
  rcases Nat.lt_trichotomy power 292 with small | rfl | large
  · have fits : ∀ power < 292, 2 ^ 57 * 10 ^ power ≤ room := by decide +kernel
    have isBound : ((2 ^ 52 : Nat) : Rat) * 2 ^ (5 : Int) = (2 ^ 57 : Nat) := by norm_num
    refine ⟨2 ^ 52, 5, Binary64.canonical_full (by decide), by decide, ?_, ?_⟩
    · rw [isBound]
      exact_mod_cast Nat.le_trans short (by decide)
    · rw [isBound]
      exact_mod_cast fits power small
  · -- Here the room ends above an even number of units.
    have fits : 17976931348623152 * 10 ^ 292 ≤ room := by decide +kernel
    have few : n ≤ 17976931348623152 := by
      by_contra many
      have above := Nat.mul_le_mul_right (10 ^ 292) (Nat.lt_of_not_le many)
      exact absurd (Nat.le_trans above within) (by decide +kernel)
    have isBound : ((8988465674311576 : Nat) : Rat) * 2 ^ (1 : Int) = (17976931348623152 : Nat) := by
      norm_num
    refine ⟨8988465674311576, 1, ⟨by decide, by decide, Or.inl (by decide)⟩, by decide, ?_, ?_⟩
    · rw [isBound]
      exact_mod_cast few
    · rw [isBound]
      exact_mod_cast fits
  · have few : n < 2 ^ 53 := by
      by_contra many
      have above := Nat.mul_le_mul (Nat.le_of_not_lt many)
        (Nat.pow_le_pow_right (by decide : 0 < 10) large)
      exact absurd (Nat.le_trans above within) (by decide +kernel)
    obtain ⟨m, e, canonical, small, isBound⟩ := Binary64.representable_natCast few
    refine ⟨m, e, canonical, small, isBound.ge, ?_⟩
    rw [isBound]
    exact_mod_cast within

/-- True for a power of ten that is kept exactly, with all bits of the mantissa. -/
def isExactPower (power : Nat) : Bool :=
  match (Binary64.ofFloat (powerOfTen power) : Binary64) with
  | .finite false mantissa exponent =>
    Binary64.hiddenBit ≤ mantissa && -52 ≤ exponent &&
      mantissa * 2 ^ (exponent + 52).toNat == 10 ^ power * 2 ^ 52
  | _ => false

theorem eq_of_isExactPower {power : Nat} (checked : isExactPower power = true) :
    ∃ m e, Binary64.ofFloat (powerOfTen power) = .finite false m e ∧ 2 ^ 52 ≤ m ∧
      (m : Rat) * 2 ^ e = 10 ^ power := by
  unfold isExactPower at checked
  split at checked
  · next m e decoded =>
      simp only [Bool.and_eq_true, decide_eq_true_eq, beq_iff_eq] at checked
      obtain ⟨⟨full, least⟩, same⟩ := checked
      refine ⟨m, e, decoded, full, ?_⟩
      obtain ⟨places, isPlaces⟩ := Int.eq_ofNat_of_zero_le (by omega : 0 ≤ e + 52)
      have shifted : e = places + (-52 : Int) := by omega
      rw [isPlaces] at same
      rw [shifted, zpow_add₀ two_ne_zero, zpow_natCast, ← mul_assoc, zpow_neg, ← div_eq_mul_inv,
        div_eq_iff (by positivity)]
      exact_mod_cast same
  · cases checked

/-- A power of ten is hardly above its exact value. -/
theorem powerOfTen_near {power : Nat} (small : power ≤ largestPower) :
    ∃ m e, Binary64.ofFloat (powerOfTen power) = .finite false m e ∧ 2 ^ 52 ≤ m ∧
      (m : Rat) * 2 ^ e ≤ 10 ^ power * (1 + 2 ^ (-52 : Int)) := by
  by_cases short : power ≤ 22
  · have exact : ∀ power ≤ 22, isExactPower power = true := by decide +kernel
    obtain ⟨m, e, decoded, full, same⟩ := eq_of_isExactPower (exact power short)
    refine ⟨m, e, decoded, full, ?_⟩
    rw [same]
    exact le_mul_of_one_le_right (by positivity) (by norm_num)
  · obtain ⟨m, e, decoded, atLeastOne, near⟩ :=
      Binary64.ofScientific_near one_ne_zero (fun quick => short quick.2)
        (le_trans small (by decide)) (tenTo_room small)
    refine ⟨m, e, decoded, Binary64.full_of_one_le (Binary64.canonical_of_ofBits decoded) atLeastOne, ?_⟩
    rwa [Nat.one_mul, Nat.cast_pow, Nat.cast_ofNat] at near

/-- Up to seventeen digits can be multiplied by a power of ten that leaves them room. -/
theorem isInf_ofNat_mul_powerOfTen {n power : Nat} (short : n ≤ 10 ^ 17)
    (within : n * 10 ^ power ≤ room) (small : power ≤ largestPower) :
    (Float.ofNat n * powerOfTen power).isInf = false := by
  obtain ⟨m, e, canonical, least, above, bounded⟩ := exists_bound short within
  obtain ⟨m₁, e₁, converted, below⟩ := Binary64.ofNat_le canonical least above
  obtain ⟨m₂, e₂, decoded, full, near⟩ := powerOfTen_near small
  have top : Canonical (2 ^ 53 - 1) 971 := ⟨by decide, by decide, Or.inl (by decide)⟩
  have fits : (m₁ : Rat) * 2 ^ e₁ * (m₂ * 2 ^ e₂) ≤ (2 ^ 53 - 1 : Nat) * 2 ^ (971 : Int) :=
    calc (m₁ : Rat) * 2 ^ e₁ * (m₂ * 2 ^ e₂)
        ≤ m * 2 ^ e * (10 ^ power * (1 + 2 ^ (-52 : Int))) :=
          mul_le_mul below near (by positivity) (by positivity)
      _ = m * 2 ^ e * 10 ^ power * (1 + 2 ^ (-52 : Int)) := by ring
      _ ≤ room * (1 + 2 ^ (-52 : Int)) := mul_le_mul_of_nonneg_right bounded (by positivity)
      _ ≤ (2 ^ 53 - 1 : Nat) * 2 ^ (971 : Int) := room_mul_le
  obtain ⟨m', e', product, -⟩ := Binary64.mul_le converted decoded full top (by decide) fits
  exact isInf_of_finite product

theorem power_le {n power : Nat} (positive : 0 < n) (within : n * 10 ^ power ≤ room) :
    power ≤ largestPower := by
  have tooLarge : room / 10 < 10 ^ largestPower := by decide +kernel
  have fits : 10 ^ power ≤ room := Nat.le_trans (Nat.le_mul_of_pos_left _ positive) within
  by_contra large
  have above := Nat.pow_le_pow_right (by decide : 0 < 10) (Nat.lt_of_not_le large)
  rw [Nat.pow_succ] at above
  omega

theorem applyPower_isSome {n power : Nat} (positive : 0 < n) (short : n ≤ 10 ^ 17)
    (within : n * 10 ^ power ≤ room) : (applyPower 4 (Float.ofNat n) power).isSome = true := by
  have small := power_le positive within
  have finite := isInf_ofNat_mul_powerOfTen short within small
  simp [applyPower, small, finite]

/-- A written exponent makes up for the places of the fraction, and may go on from there. -/
theorem scaled?_isSome {n places leading : Nat} (positive : 0 < n) (short : n ≤ 10 ^ 17)
    (few : places ≤ 18) (within : n * 10 ^ (leading - places) ≤ room) :
    (scaled? n (-(places : Int)) (some (false, digits leading))).isSome = true := by
  have small := power_le positive within
  have limited : ¬ exponentLimit < leading := by
    unfold exponentLimit
    unfold largestPower at small
    omega
  simp only [scaled?, wholeValue_digits, limited, ↓reduceIte, Bool.false_eq_true]
  rcases Nat.le_total leading places with shrinks | grows
  · exact applyPower_isSome_of_nonpos (Nat.le_trans short (by decide)) (by omega)
  · have total : -(places : Int) + leading = (leading - places : Nat) := by omega
    rw [total]
    exact applyPower_isSome positive short within

/-! ## Literals of decimals -/

theorem length_positional_whole {d : Decimal} (positional : isPositional d.leading = true) :
    d.positional.1.length ≤ max 16 (digits d.coefficient).length := by
  have below : d.leading < 16 := of_decide_eq_true (Bool.and_eq_true_iff.mp positional).2
  unfold Decimal.leading at below
  unfold Decimal.positional
  simp only
  split
  · simp only [List.length_append, List.length_replicate]
    omega
  · simp only [List.length_take, List.length_append, List.length_replicate]
    omega

/-- The digits are gathered again from both sides of the point. -/
theorem gather_split {n : Nat} (short : n ≤ 10 ^ 17) (count : Nat) :
    ∃ whole, gather 0 ((digits n).take count) = (whole, []) ∧
      gather whole ((digits n).drop count) = (n, []) := by
  have fits : n ≤ significandLimit := Nat.le_trans short (by decide)
  have value : ((digits n).drop count).foldl (fun n c => 10 * n + digitValue c)
      (wholeValue ((digits n).take count)) = n := by
    rw [wholeValue, ← List.foldl_append, List.take_append_drop]
    exact wholeValue_digits n
  have front : wholeValue ((digits n).take count) ≤ n :=
    Nat.le_trans (le_foldl_digits _ _) (Nat.le_of_eq value)
  refine ⟨wholeValue ((digits n).take count), gather_of_le (Nat.le_trans front fits), ?_⟩
  rw [gather_of_le (by rwa [value]), value]

theorem coefficient_mul_le {d : Decimal} (short : d.coefficient ≤ 10 ^ 17)
    (within : d.value ≤ room) : d.coefficient * 10 ^ d.exponent.toNat ≤ room := by
  rcases Int.le_total d.exponent 0 with shrinks | grows
  · have enough : 10 ^ 17 ≤ room := by decide +kernel
    rw [Int.toNat_of_nonpos shrinks, Nat.pow_zero, Nat.mul_one]
    exact Nat.le_trans short enough
  · obtain ⟨power, isPower⟩ := Int.eq_ofNat_of_zero_le grows
    rw [Decimal.value, isPower, zpow_natCast] at within
    rw [isPower, Int.toNat_natCast]
    exact_mod_cast within

/-- Up to seventeen digits with room above them are read, however they are laid out. -/
theorem toFloat?_ofDecimal_isSome {d : Decimal} (negative : Bool) (positive : 0 < d.coefficient)
    (short : d.coefficient ≤ 10 ^ 17) (within : d.value ≤ room) :
    (ofDecimal negative d).toFloat?.isSome = true := by
  have length : (digits d.coefficient).length ≤ 18 :=
    (length_digits_le_iff (by decide)).mpr (Nat.lt_of_le_of_lt short (by decide))
  unfold ofDecimal
  split
  · next positional =>
      refine toFloat?_isSome_of_nonpos ?_ (by simp)
      have few : d.positional.1.length ≤ 18 :=
        Nat.le_trans (length_positional_whole positional) (by omega)
      have below := wholeValue_lt (Decimal.allDigits_positional d).1
      refine Nat.le_of_lt (Nat.lt_of_lt_of_le below ?_)
      exact Nat.le_trans (Nat.pow_le_pow_right (by decide) few) (by decide)
  · by_cases small : d.leading < 0
    · refine toFloat?_isSome_of_nonpos ?_ (by simp [small])
      have one : ((digits d.coefficient).take 1).length ≤ 1 := List.length_take_le _ _
      have all : AllDigits ((digits d.coefficient).take 1) := fun c member =>
        allDigits_digits d.coefficient c (List.mem_of_mem_take member)
      refine Nat.le_of_lt (Nat.lt_of_lt_of_le (wholeValue_lt all) ?_)
      exact Nat.le_trans (Nat.pow_le_pow_right (by decide) one) (by decide)
    · obtain ⟨whole, front, back⟩ := gather_split short 1
      refine toFloat?_isSome front back ?_
      have places : ((digits d.coefficient).drop 1).length = (digits d.coefficient).length - 1 :=
        List.length_drop
      have gap : d.leading.natAbs - ((digits d.coefficient).length - 1) = d.exponent.toNat := by
        have nonempty := length_digits_pos d.coefficient
        unfold Decimal.leading at small ⊢
        omega
      simp only [small, decide_false, places, List.length_nil, Nat.sub_zero]
      refine scaled?_isSome positive short (by omega) ?_
      rw [gap]
      exact coefficient_mul_le short within

/-! ## Every finite number -/

/-- Only the literals of the last three numbers have less room. -/
theorem le_room {m : Nat} {e : Int} (canonical : Canonical m e) (small : e ≤ 971)
    (notLast : ¬ (e = 971 ∧ 2 ^ 53 - 3 ≤ m)) : ((m : Rat) + 1 / 2) * 2 ^ e ≤ room := by
  have unit : (0 : Rat) < 2 ^ 970 := by positivity
  rcases Int.lt_or_eq_of_le small with smaller | rfl
  · have next : (m : Rat) + 1 ≤ 2 ^ 53 := by exact_mod_cast canonical.below
    have power : (2 : Rat) ^ e ≤ 2 ^ 970 := by
      rw [← zpow_natCast]
      exact zpow_le_zpow_right₀ one_le_two (Int.le_of_lt_add_one smaller)
    calc ((m : Rat) + 1 / 2) * 2 ^ e ≤ 2 ^ 53 * 2 ^ 970 := by
          gcongr
          linarith
      _ ≤ room := by
          rw [cast_room]
          gcongr
          norm_num
  · have few : m + 4 ≤ 2 ^ 53 := by omega
    have fewer : (m : Rat) + 4 ≤ 2 ^ 53 := by exact_mod_cast few
    rw [top_eq, cast_room]
    generalize (2 : Rat) ^ 970 = u at unit
    norm_num
    nlinarith

theorem toFloat?_last : ∀ negative : Bool, ∀ less < 3,
    ((ofDecimal negative (Decimal.ofBinary .even (2 ^ 53 - 1 - less) 971)).toFloat?).isSome =
      true := by
  decide +kernel

theorem toFloat?_zero (negative : Bool) (exponent : Int) :
    ((ofDecimal negative (Decimal.ofBinary .even 0 exponent)).toFloat?).isSome = true := by
  have zero : Decimal.ofBinary .even 0 exponent = ⟨0, 0⟩ := if_pos rfl
  rw [zero]
  revert negative
  decide +kernel

theorem toFloat?_ofFloat?_isSome {x : Float} {n : Numeral} (written : ofFloat? x = some n) :
    n.toFloat?.isSome = true := by
  unfold ofFloat? at written
  split at written
  · next negative m e decoded =>
      cases written
      have canonical := Binary64.canonical_of_ofBits decoded
      have small := Binary64.exponent_le decoded
      rcases Nat.eq_zero_or_pos m with rfl | positive
      · exact toFloat?_zero negative e
      by_cases last : e = 971 ∧ 2 ^ 53 - 3 ≤ m
      · obtain ⟨rfl, large⟩ := last
        obtain ⟨less, isLess⟩ : ∃ less, m = 2 ^ 53 - 1 - less :=
          ⟨2 ^ 53 - 1 - m, by have below := canonical.below; omega⟩
        subst isLess
        exact toFloat?_last negative less (by omega)
      · have close := Decimal.ofBinary_close .even canonical positive
        exact toFloat?_ofDecimal_isSome negative
          (Decimal.ofBinary_coefficient_pos .even canonical.least positive) close.short
          (le_trans close.le (le_room canonical small last))
  · cases written

end Numeral

/-- The literal of a finite number is read back as some number. -/
theorem float?_ofFloat_isSome {x : Float} (finite : x.isFinite = true) :
    (ofFloat x).float?.isSome = true := by
  obtain ⟨negative, m, e, decoded⟩ := Binary64.exists_finite finite
  have written : Numeral.ofFloat? x =
      some (Numeral.ofDecimal negative (Decimal.ofBinary .even m e)) := by
    rw [Numeral.ofFloat?, decoded]
  rw [ofFloat, written]
  exact Numeral.toFloat?_ofFloat?_isSome written

end Montage.Json
