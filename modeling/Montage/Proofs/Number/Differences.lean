import Montage.Number.Seconds
import Montage.Proofs.Number.Bounds

/-!
Contract: differences of finite numbers are rounded from their exact values.

Sums of numbers with any signs are brought to one exponent, added as whole
numbers and rounded once; a difference is a sum with the other sign. A
difference of two numbers that are not negative is no larger than one of them,
so it stays finite. What is not negative may be infinite, and nothing that is
taken away from a finite number is infinite unless the difference is negative.

Owns: sums and differences with signs, and numbers that are not negative.
Does not own: sums of positive numbers next to a bound, in `Proofs.Number.Bounds`.
-/

namespace Montage.Number.Binary64

open Float.Model (UnpackedFloat Format)
open Float.Model.UnpackedFloat

/-! ## Rounding with a sign -/

/-- A number rounded from a value of any sign. The sign of zero is left open. -/
def SignedRounds (x : Float) (v : Rat) : Prop :=
  ∃ negative, RoundsTo x negative |v| ∧ (v ≠ 0 → negative = decide (v < 0))

/-- Numbers that were unpacked: zeros, and canonical numbers in range. -/
def Packable : UnpackedFloat → Prop
  | .zero _ => True
  | .finite _ mantissa exponent _ => Canonical mantissa exponent ∧ exponent ≤ 971
  | _ => False

theorem packable_unpack {x : Float} (finite : x.isFinite = true) : Packable x.toModel.unpack := by
  rcases exists_unpacked finite with
    ⟨sign, unpacked⟩ | ⟨sign, mantissa, exponent, positive, canonical, small, unpacked⟩
  · rw [unpacked]
    trivial
  · rw [unpacked]
    exact ⟨canonical, small⟩

theorem Packable.neg {u : UnpackedFloat} (packable : Packable u) : Packable u.neg := by
  cases u with
  | finite sign mantissa exponent positive => exact packable
  | zero sign => trivial
  | _ => cases packable

theorem value_neg (u : UnpackedFloat) : (ofUnpacked u.neg).value = -(ofUnpacked u).value := by
  cases u with
  | finite sign mantissa exponent positive =>
      cases sign with
      | positive => exact value_negative
      | negative => exact (neg_neg _).symm
  | zero sign => rw [UnpackedFloat.neg, value_zero, value_zero, neg_zero]
  | _ => exact neg_zero.symm

/-- A signed mantissa and exponent give the exact value. -/
theorem value_apply (sign : Sign) {mantissa : Nat} (exponent : Int) (positive : 0 < mantissa) :
    (ofUnpacked (.finite sign mantissa exponent positive)).value =
      (sign.apply (mantissa : Int) : Int) * 2 ^ exponent := by
  cases sign with
  | positive => exact value_positive
  | negative =>
      rw [value_negative, Sign.apply]
      push_cast
      ring

theorem roundsTo_round (sign : Sign) {n : Nat} (positive : 0 < n) (exponent : Int) :
    RoundsTo (.ofModel (.pack (UnpackedFloat.round Format.binary64 sign n exponent)))
      (isMinus sign) (n * 2 ^ exponent) := by
  rw [round_eq]
  refine roundsTo_pack_exact sign ?_ ?_
  · rw [target_mul_two_pow positive]
    omega
  · rw [shifted_value, sub_add_cancel]

/-- A whole number is rounded with its own sign. -/
theorem signedRounds_normalize (mantissa exponent : Int) :
    SignedRounds (.ofModel (.pack (UnpackedFloat.normalize Format.binary64 mantissa exponent
      .positive))) (mantissa * 2 ^ exponent) := by
  have weight : (0 : Rat) < 2 ^ exponent := by positivity
  rcases lt_trichotomy mantissa 0 with below | rfl | above
  · have rounded := roundsTo_round .negative (n := (-mantissa).toNat) (by omega) exponent
    have cast : (((-mantissa).toNat : Nat) : Rat) = -mantissa := by
      exact_mod_cast Int.toNat_of_nonneg (by omega : 0 ≤ -mantissa)
    have negative : (mantissa : Rat) * 2 ^ exponent < 0 :=
      mul_neg_of_neg_of_pos (by exact_mod_cast below) weight
    refine ⟨true, ?_, fun _ => (decide_eq_true negative).symm⟩
    rw [abs_of_neg negative, ← neg_mul, ← cast, UnpackedFloat.normalize,
      compare_lt_iff_lt.mpr below]
    exact rounded
  · refine ⟨false, ?_, by simp⟩
    rw [Int.cast_zero, zero_mul, abs_zero]
    exact roundsTo_zero .positive
  · have rounded := roundsTo_round .positive (n := mantissa.toNat) (by omega) exponent
    have cast : ((mantissa.toNat : Nat) : Rat) = mantissa := by
      exact_mod_cast Int.toNat_of_nonneg above.le
    have positive : 0 < (mantissa : Rat) * 2 ^ exponent :=
      mul_pos (by exact_mod_cast above) weight
    refine ⟨false, ?_, fun _ => (decide_eq_false (not_lt.mpr positive.le)).symm⟩
    rw [abs_of_pos positive, ← cast, UnpackedFloat.normalize, compare_gt_iff_gt.mpr above]
    exact rounded

/-- What was unpacked is packed to the same number. -/
theorem ofFloat_pack_packable {u : UnpackedFloat} (packable : Packable u) :
    ofFloat (.ofModel (.pack u)) = ofUnpacked u := by
  cases u with
  | zero sign => exact ofFloat_pack_zero sign
  | finite sign mantissa exponent positive => exact ofFloat_pack positive packable.1 packable.2
  | _ => cases packable

theorem signedRounds_pack {u : UnpackedFloat} (packable : Packable u) :
    SignedRounds (.ofModel (.pack u)) (ofUnpacked u).value := by
  have packed := ofFloat_pack_packable packable
  cases u with
  | zero sign =>
      rw [value_zero]
      refine ⟨isMinus sign, ?_, by simp⟩
      rw [abs_zero]
      exact roundsTo_zero sign
  | finite sign mantissa exponent positive =>
      have magnitude := magnitude_pos exponent positive
      refine ⟨isMinus sign, .finite packed ?_ ?_, fun _ => ?_⟩ <;> cases sign
      all_goals simp only [value_positive, value_negative, abs_neg, abs_of_pos magnitude]
      · exact fun _ _ => id
      · exact fun _ _ => id
      · exact fun _ _ => id
      · exact fun _ _ => id
      · exact (decide_eq_true (neg_neg_of_pos magnitude)).symm
      · exact (decide_eq_false (not_lt.mpr magnitude.le)).symm
  | _ => cases packable

/-- A signed mantissa is brought to a smaller exponent. -/
theorem apply_shifted (sign : Sign) (m : Nat) {e f : Int} (fine : f ≤ e) :
    ((sign.apply (m * 2 ^ (e - f).toNat : Nat) : Int) : Rat) * 2 ^ f =
      (sign.apply (m : Int) : Int) * 2 ^ e := by
  have grid : f + ((e - f).toNat : Int) = e := by omega
  have value := shifted_value m f (e - f).toNat
  rw [grid] at value
  cases sign with
  | positive => exact value
  | negative =>
      rw [Sign.apply, Sign.apply, Int.cast_neg, Int.cast_neg, neg_mul, neg_mul, neg_inj]
      exact value

theorem signedRounds_add_unpacked {u w : UnpackedFloat} (first : Packable u) (second : Packable w) :
    SignedRounds (.ofModel (.pack (UnpackedFloat.add Format.binary64 u w)))
      ((ofUnpacked u).value + (ofUnpacked w).value) := by
  cases u with
  | zero sign =>
      rw [value_zero, zero_add]
      cases w with
      | zero other =>
          rw [value_zero]
          simp only [UnpackedFloat.add]
          split <;> exact ⟨_, by rw [abs_zero]; exact roundsTo_zero _, by simp⟩
      | finite other m e pos => exact signedRounds_pack second
      | _ => cases second
  | finite sign m₁ e₁ positive₁ =>
      cases w with
      | zero other =>
          rw [value_zero, add_zero]
          exact signedRounds_pack first
      | finite other m₂ e₂ positive₂ =>
          have sum : UnpackedFloat.add Format.binary64 (.finite sign m₁ e₁ positive₁)
              (.finite other m₂ e₂ positive₂) =
                UnpackedFloat.normalize Format.binary64
                  (sign.apply (m₁ * 2 ^ (e₁ - min e₁ e₂).toNat : Nat) +
                    other.apply (m₂ * 2 ^ (e₂ - min e₁ e₂).toNat : Nat)) (min e₁ e₂) .positive := by
            simp only [UnpackedFloat.add, decreaseExponent, Nat.shiftLeft_eq]
          have rounded := signedRounds_normalize
            (sign.apply (m₁ * 2 ^ (e₁ - min e₁ e₂).toNat : Nat) +
              other.apply (m₂ * 2 ^ (e₂ - min e₁ e₂).toNat : Nat)) (min e₁ e₂)
          rw [Int.cast_add, add_mul, apply_shifted sign m₁ (min_le_left e₁ e₂),
            apply_shifted other m₂ (min_le_right e₁ e₂)] at rounded
          rw [value_apply, value_apply, sum]
          exact rounded
      | _ => cases second
  | _ => cases first

/-- A difference of unpacked numbers is a sum with the other sign. -/
theorem unpacked_sub_eq (u w : UnpackedFloat) :
    UnpackedFloat.sub Format.binary64 u w = UnpackedFloat.add Format.binary64 u w.neg := by
  have apply_neg (sign : Sign) (n : Int) : (-sign).apply n = -sign.apply n := by
    cases sign with
    | positive => rfl
    | negative => exact (neg_neg n).symm
  cases u <;> cases w <;>
    simp only [UnpackedFloat.sub, UnpackedFloat.add, UnpackedFloat.neg, apply_neg, sub_eq_add_neg]

section Floats

variable {x y : Float} {negative : Bool} {v bound : Rat}

theorem signedRounds_add (first : x.isFinite = true) (second : y.isFinite = true) :
    SignedRounds (x + y) ((ofFloat x).value + (ofFloat y).value) := by
  rw [ofFloat_eq, ofFloat_eq]
  exact signedRounds_add_unpacked (packable_unpack first) (packable_unpack second)

theorem sub_eq (x y : Float) :
    x - y = .ofModel (.pack
      (UnpackedFloat.sub Format.binary64 x.toModel.unpack y.toModel.unpack)) :=
  rfl

theorem signedRounds_sub (first : x.isFinite = true) (second : y.isFinite = true) :
    SignedRounds (x - y) ((ofFloat x).value - (ofFloat y).value) := by
  have rounded := signedRounds_add_unpacked (packable_unpack first) (packable_unpack second).neg
  rw [value_neg, ← ofFloat_eq, ← ofFloat_eq, ← unpacked_sub_eq, ← sub_eq] at rounded
  rwa [sub_eq_add_neg]

theorem SignedRounds.isFinite (rounds : SignedRounds x v) (kept : Representable bound)
    (within : |v| ≤ bound) : x.isFinite = true := by
  obtain ⟨negative, roundsTo, -⟩ := rounds
  cases roundsTo with
  | finite decoded => exact isFinite_of_decoded decoded
  | infinite decoded above => exact absurd (above bound kept) (not_lt.mpr within)

/-- No kept value separates the magnitude of a result from that of the exact value. -/
theorem SignedRounds.le_abs {q : Rat} (rounds : SignedRounds x v) (finite : x.isFinite = true)
    (kept : Representable q) (below : q ≤ |v|) : q ≤ |(ofFloat x).value| := by
  obtain ⟨negative, roundsTo, -⟩ := rounds
  cases roundsTo with
  | infinite decoded =>
      rw [isFinite_iff, decoded] at finite
      cases finite
  | @finite m e decoded le ge =>
      have magnitude : (0 : Rat) ≤ m * 2 ^ e := by positivity
      rw [decoded]
      cases negative with
      | false => exact (ge q kept below).trans (le_abs_self _)
      | true => exact (ge q kept below).trans_eq ((abs_neg _).trans (abs_of_nonneg magnitude)).symm

theorem value_neg_float (finite : x.isFinite = true) :
    (ofFloat (-x)).value = -(ofFloat x).value := by
  have negated : -x = .ofModel (.pack x.toModel.unpack.neg) := rfl
  rw [negated, ofFloat_pack_packable (packable_unpack finite).neg, value_neg, ← ofFloat_eq]

theorem value_magnitude (finite : x.isFinite = true) :
    (ofFloat (magnitude x)).value = |(ofFloat x).value| := by
  have sign : x < 0.0 ↔ (ofFloat x).value < 0 := by
    rw [lt_iff_value_lt (isFinite_iff.mp finite) (by decide), value_ofFloat_zero]
  unfold magnitude
  split
  · next below => rw [value_neg_float finite, abs_of_neg (sign.mp below)]
  · next above => rw [abs_of_nonneg (not_lt.mp (mt sign.mpr above))]

theorem isFinite_magnitude (finite : x.isFinite = true) : (magnitude x).isFinite = true := by
  unfold magnitude
  split
  · exact isFinite_neg finite
  · exact finite

/-! ## Numbers that are not negative -/

/-- A number that is not below zero, finite or not. -/
def NotNegative (x : Float) : Prop :=
  x.isFinite = true ∧ 0 ≤ (ofFloat x).value ∨ ofFloat x = .infinite false

theorem representable_zero : Representable 0 := representable_natCast (n := 0) (by decide)

/-- Only a zero can be rounded to with a minus sign from a magnitude that has none. -/
theorem RoundsTo.notNegative (roundsTo : RoundsTo x negative v)
    (plus : v ≠ 0 → negative = false) : NotNegative x := by
  cases roundsTo with
  | finite decoded le ge =>
      refine Or.inl ⟨isFinite_of_decoded decoded, ?_⟩
      rw [decoded]
      cases negative with
      | false => exact mul_nonneg (Nat.cast_nonneg _) (by positivity)
      | true =>
          have zero : v = 0 := by
            by_contra nonzero
            cases plus nonzero
          exact neg_nonneg.mpr (le 0 representable_zero zero.le)
  | infinite decoded above =>
      obtain rfl := plus (above 0 representable_zero).ne'
      exact Or.inr decoded

theorem SignedRounds.notNegative (rounds : SignedRounds x v) (nonneg : 0 ≤ v) : NotNegative x := by
  obtain ⟨negative, roundsTo, sign⟩ := rounds
  refine roundsTo.notNegative fun nonzero => ?_
  rw [sign (abs_ne_zero.mp nonzero)]
  exact decide_eq_false (not_lt.mpr nonneg)

theorem representable_abs (finite : x.isFinite = true) : Representable |(ofFloat x).value| := by
  obtain ⟨negative, m, e, decoded⟩ := exists_finite finite
  refine ⟨m, e, canonical_of_ofBits decoded, exponent_le decoded, ?_⟩
  have magnitude : (0 : Rat) ≤ m * 2 ^ e := by positivity
  rw [decoded]
  cases negative with
  | false => exact (abs_of_nonneg magnitude).symm
  | true => exact ((abs_neg _).trans (abs_of_nonneg magnitude)).symm

theorem representable_of_nonneg (finite : x.isFinite = true) (nonneg : 0 ≤ (ofFloat x).value) :
    Representable (ofFloat x).value := by
  have kept := representable_abs finite
  rwa [abs_of_nonneg nonneg] at kept

/-- A difference of numbers that are not negative stays finite. -/
theorem isFinite_sub (first : x.isFinite = true) (second : y.isFinite = true)
    (nonneg₁ : 0 ≤ (ofFloat x).value) (nonneg₂ : 0 ≤ (ofFloat y).value) :
    (x - y).isFinite = true := by
  have rounds := signedRounds_sub first second
  rcases le_total (ofFloat y).value (ofFloat x).value with less | more
  · refine rounds.isFinite (representable_of_nonneg first nonneg₁) ?_
    rw [abs_of_nonneg (sub_nonneg.mpr less)]
    linarith
  · refine rounds.isFinite (representable_of_nonneg second nonneg₂) ?_
    rw [abs_of_nonpos (sub_nonpos.mpr more)]
    linarith

theorem NotNegative.div (finite : x.isFinite = true) (nonneg : 0 ≤ (ofFloat x).value)
    (divisor : IsPositive y) : NotNegative (x / y) := by
  obtain ⟨negative, m, e, decoded⟩ := exists_finite finite
  obtain ⟨k, f, decodedDivisor, positive⟩ := divisor.decoded
  refine (roundsTo_div decoded decodedDivisor positive).notNegative fun nonzero => ?_
  rw [decoded] at nonneg
  cases negative with
  | false => rfl
  | true =>
      have zero : (m : Rat) * 2 ^ e = 0 := le_antisymm (neg_nonneg.mp nonneg) (by positivity)
      simp [zero] at nonzero

theorem NotNegative.add (finite : x.isFinite = true) (nonneg : 0 ≤ (ofFloat x).value)
    (second : NotNegative y) : NotNegative (x + y) := by
  rcases second with ⟨finite₂, nonneg₂⟩ | unbounded
  · exact (signedRounds_add finite finite₂).notNegative (add_nonneg nonneg nonneg₂)
  · obtain ⟨sign, plus, unpacked⟩ := unpack_of_infinite unbounded
    right
    rw [add_eq, unpacked, ← plus]
    rcases exists_unpacked finite with ⟨other, front⟩ | ⟨other, m, e, positive, -, -, front⟩ <;>
      rw [front] <;> exact ofFloat_pack_infinity sign

/-- Nothing is below minus infinity. -/
theorem not_lt_minusInfinity (unbounded : ofFloat y = .infinite true) : ¬ x < y := by
  obtain ⟨sign, minus, unpacked⟩ := unpack_of_infinite unbounded
  cases sign with
  | positive => cases minus
  | negative =>
      rw [lt_iff_compare, unpacked]
      cases x.toModel.unpack with
      | infinity other => cases other <;> simp [UnpackedFloat.compare]
      | _ => simp [UnpackedFloat.compare]

/-- Whatever is taken away from a finite number, what is left is finite or minus infinity. -/
theorem isFinite_sub_of_lt {z : Float} (finite : x.isFinite = true) (nonneg : 0 ≤ (ofFloat x).value)
    (taken : NotNegative y) (some : z < x - y) : (x - y).isFinite = true := by
  rcases taken with ⟨finite₂, nonneg₂⟩ | unbounded
  · exact isFinite_sub finite finite₂ nonneg nonneg₂
  · obtain ⟨sign, plus, unpacked⟩ := unpack_of_infinite unbounded
    have below : ofFloat (x - y) = .infinite true := by
      cases sign with
      | negative => cases plus
      | positive =>
          rw [sub_eq, unpacked]
          rcases exists_unpacked finite with ⟨other, front⟩ | ⟨other, m, e, positive, -, -, front⟩ <;>
            rw [front] <;> exact ofFloat_pack_infinity .negative
    exact absurd some (not_lt_minusInfinity below)

end Floats

end Montage.Number.Binary64
