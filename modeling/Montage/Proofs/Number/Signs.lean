import Montage.Proofs.Number.Differences
import Montage.Proofs.Number.Identity

/-!
Contract: a sign has no say in how a number is rounded.

Rounding looks at the mantissa and the exponent only and puts the sign back on,
so a product with the other sign has the same magnitude. What is added without a
minus sign does not make a sum fall, though it may become infinite, and numbers
are equal when their values are, or when they are the same infinity.

Owns: numbers with the other sign and their products, equal numbers, and sums
that do not fall.
Does not own: the values of sums, in `Proofs.Number.Differences`.
-/

namespace Montage.Number.Binary64

open Float.Model (UnpackedFloat Format)
open Float.Model.UnpackedFloat

/-- The number with the other sign. -/
def neg : Binary64 → Binary64
  | .nan => .nan
  | .infinite negative => .infinite !negative
  | .finite negative mantissa exponent => .finite (!negative) mantissa exponent

theorem isMinus_neg (sign : Sign) : isMinus (-sign) = !isMinus sign := by
  cases sign <;> rfl

section Rounded

variable {mantissa : Nat} {exponent : Int} {accuracy : Accuracy}

/-- Results, one for each sign, that differ in their signs only. -/
inductive SameMagnitude (result : Sign → Float) : Prop where
  | finite {m : Nat} {e : Int} (all : ∀ sign, ofFloat (result sign) = .finite (isMinus sign) m e)
  | infinite (all : ∀ sign, ofFloat (result sign) = .infinite (isMinus sign))

theorem SameMagnitude.neg {result : Sign → Float} (same : SameMagnitude result) (sign : Sign) :
    ofFloat (result (-sign)) = (ofFloat (result sign)).neg := by
  cases same with
  | finite all => rw [all, all, isMinus_neg, Binary64.neg]
  | infinite all => rw [all, all, isMinus_neg, Binary64.neg]

/-- Only the sign of a rounded result depends on the sign that it is rounded with. -/
theorem sameMagnitude_round (low : exponent ≤ target mantissa exponent) :
    SameMagnitude fun sign => .ofModel (.pack
      (roundWithAccuracy Format.binary64 sign mantissa exponent accuracy)) := by
  obtain ⟨m, e, canonical, value, -⟩ := @ofFloat_round mantissa exponent accuracy .positive low
  have shape (sign : Sign) : ofFloat (.ofModel (.pack
      (roundWithAccuracy Format.binary64 sign mantissa exponent accuracy))) =
        if e ≤ 971 then .finite (isMinus sign) m e else .infinite (isMinus sign) := by
    obtain ⟨m', e', canonical', value', packed⟩ :=
      @ofFloat_round mantissa exponent accuracy sign low
    obtain ⟨rfl, rfl⟩ := canonical.unique canonical' (value.trans value'.symm)
    exact packed
  by_cases small : e ≤ 971
  · exact .finite fun sign => (shape sign).trans (if_pos small)
  · exact .infinite fun sign => (shape sign).trans (if_neg small)

end Rounded

section Floats

variable {x y z : Float} {m₂ : Nat} {e₂ : Int}

theorem ofFloat_neg (x : Float) : ofFloat (-x) = (ofFloat x).neg := by
  have negated : -x = .ofModel (.pack x.toModel.unpack.neg) := rfl
  rw [negated]
  cases decoded : ofFloat x with
  | nan =>
      rw [unpack_of_nan decoded]
      decide
  | infinite negative =>
      obtain ⟨sign, rfl, unpacked⟩ := unpack_of_infinite decoded
      rw [unpacked, UnpackedFloat.neg, ofFloat_pack_infinity, isMinus_neg, neg]
  | finite negative m e =>
      rw [ofFloat_pack_packable (packable_unpack (isFinite_of_decoded decoded)).neg, ← decoded,
        ofFloat_eq]
      cases x.toModel.unpack <;> simp [UnpackedFloat.neg, ofUnpacked, neg, isMinus_neg]

theorem ofFloat_neg_of_infinite (unbounded : ofFloat x = .infinite false) :
    ofFloat (-x) = .infinite true := by
  rw [ofFloat_neg, unbounded, neg, Bool.not_false]

/-- The sign of a product is that of the first number if the second one has no minus sign. -/
theorem ofFloat_neg_mul (first : HasSign x false) (second : ofFloat y = .finite false m₂ e₂)
    (full : 2 ^ 52 ≤ m₂) : ofFloat (-x * y) = (ofFloat (x * y)).neg := by
  have other := ofFloat_neg x
  have unpacked₂ := unpack_of_positive second (by omega)
  rcases first with ⟨m, e, decoded⟩ | unbounded
  · rw [decoded] at other
    by_cases zero : m = 0
    · subst zero
      obtain ⟨sign, minus, unpacked⟩ := unpack_of_zero other
      cases sign with
      | positive => cases minus
      | negative =>
          rw [mul_eq, mul_eq, unpacked, unpack_of_plusZero decoded, unpacked₂]
          change ofFloat (.ofModel (.pack (.zero .negative))) =
            (ofFloat (.ofModel (.pack (.zero .positive)))).neg
          decide
    · have positive := Nat.pos_of_ne_zero zero
      obtain ⟨sign, minus, unpacked⟩ := unpack_of_ofFloat other positive
      cases sign with
      | positive => cases minus
      | negative =>
          rw [mul_eq, mul_eq, unpacked, unpack_of_positive decoded positive, unpacked₂]
          exact (sameMagnitude_round (product_low e e₂ positive full)).neg .positive
  · rw [unbounded] at other
    rw [infinite_mul other second (by omega), infinite_mul unbounded second (by omega), neg]

/-! ## Equal numbers -/

theorem beq_iff_compare :
    (x == y) = true ↔ x.toModel.unpack.compare y.toModel.unpack = some .eq := by
  change (x.toModel.unpack.compare y.toModel.unpack == some .eq) = true ↔ _
  exact beq_iff_eq

theorem beq_iff_value_eq (first : x.isFinite = true) (second : y.isFinite = true) :
    (x == y) = true ↔ (ofFloat x).value = (ofFloat y).value := by
  rw [beq_iff_compare, compare_value (kept_of_isFinite (isFinite_iff.mp first))
    (kept_of_isFinite (isFinite_iff.mp second)), ofFloat_eq, ofFloat_eq, Option.some.injEq,
    compare_eq_iff_eq]

/-- An infinity equals only itself. -/
theorem beq_iff_of_infinite {negative : Bool} (unbounded : ofFloat y = .infinite negative) :
    (x == y) = true ↔ ofFloat x = .infinite negative := by
  obtain ⟨sign, rfl, unpacked⟩ := unpack_of_infinite unbounded
  rw [beq_iff_compare, unpacked, ofFloat_eq]
  cases x.toModel.unpack with
  | infinity other => cases sign <;> cases other <;> decide
  | _ => cases sign <;> simp [UnpackedFloat.compare, ofUnpacked]

theorem ofFloat_ne_infinite (finite : x.isFinite = true) (negative : Bool) :
    ofFloat x ≠ .infinite negative := by
  intro unbounded
  rw [isFinite_iff, unbounded] at finite
  cases finite

theorem infinite_of_beq {negative : Bool} (same : (x == y) = true)
    (unbounded : ofFloat x = .infinite negative) : ofFloat y = .infinite negative := by
  obtain ⟨sign, rfl, unpacked⟩ := unpack_of_infinite unbounded
  rw [beq_iff_compare, unpacked] at same
  rw [ofFloat_eq]
  cases other : y.toModel.unpack with
  | infinity otherSign =>
      rw [other] at same
      cases sign <;> cases otherSign <;> first | rfl | exact absurd same (by decide)
  | _ =>
      rw [other] at same
      cases sign <;> simp [UnpackedFloat.compare] at same

/-! ## Zeros -/

theorem unpack_of_plusInfinite (unbounded : ofFloat x = .infinite false) :
    x.toModel.unpack = .infinity .positive := by
  obtain ⟨sign, plus, unpacked⟩ := unpack_of_infinite unbounded
  cases sign with
  | negative => cases plus
  | positive => exact unpacked

theorem unpack_of_hasSign (plus : HasSign y false) :
    y.toModel.unpack = .zero .positive ∨ y.toModel.unpack = .infinity .positive ∨
      ∃ m e positive, y.toModel.unpack = .finite .positive m e positive := by
  rcases plus with ⟨m, e, decoded⟩ | unbounded
  · rcases Nat.eq_zero_or_pos m with rfl | positive
    · exact Or.inl (unpack_of_plusZero decoded)
    · exact Or.inr (Or.inr ⟨m, e, positive, unpack_of_positive decoded positive⟩)
  · exact Or.inr (Or.inl (unpack_of_plusInfinite unbounded))

/-- The minus of a zero is lost in a sum. -/
theorem minusZero_add (plus : HasSign y false) : -0.0 + y = 0.0 + y := by
  rw [add_eq, add_eq]
  rcases unpack_of_hasSign plus with unpacked | unpacked | ⟨m, e, positive, unpacked⟩ <;>
    rw [unpacked] <;> rfl

/-! ## Sums that do not fall -/

/-- Not below a finite number; it may be infinite. -/
def AtLeast (x z : Float) : Prop :=
  z.isFinite = true ∧ (ofFloat x).value ≤ (ofFloat z).value ∨ ofFloat z = .infinite false

theorem value_nonneg {m : Nat} {e : Int} (decoded : ofFloat y = .finite false m e) :
    0 ≤ (ofFloat y).value := by
  rw [value_of_decoded decoded]
  positivity

theorem infinite_add (finite : x.isFinite = true) (unbounded : ofFloat y = .infinite false) :
    ofFloat (x + y) = .infinite false := by
  rw [add_eq, unpack_of_plusInfinite unbounded]
  rcases exists_unpacked finite with ⟨sign, front⟩ | ⟨sign, m, e, positive, -, -, front⟩ <;>
    rw [front] <;> exact ofFloat_pack_infinity .positive

theorem add_infinite (unbounded : ofFloat x = .infinite false) (plus : HasSign y false) :
    ofFloat (x + y) = .infinite false := by
  rw [add_eq, unpack_of_plusInfinite unbounded]
  rcases unpack_of_hasSign plus with unpacked | unpacked | ⟨m, e, positive, unpacked⟩ <;>
    rw [unpacked] <;> exact ofFloat_pack_infinity .positive

/-- A sum does not fall below its first number if the second has no minus sign. -/
theorem atLeast_add (finite : x.isFinite = true) (plus : HasSign y false) : AtLeast x (x + y) := by
  rcases plus with ⟨m, e, decoded⟩ | unbounded
  · have nonneg := value_nonneg decoded
    have kept := representable_abs finite
    obtain ⟨negative, roundsTo, sign⟩ := signedRounds_add finite (isFinite_of_decoded decoded)
    -- Only a sum that is not positive can get a minus sign.
    have notAbove (minus : negative = true) : (ofFloat x).value + (ofFloat y).value ≤ 0 := by
      by_contra above
      have plus := sign (ne_of_gt (not_le.mp above))
      rw [minus] at plus
      exact absurd (of_decide_eq_true plus.symm) (not_lt.mpr (not_le.mp above).le)
    have nearer (minus : negative = true) :
        |(ofFloat x).value + (ofFloat y).value| ≤ |(ofFloat x).value| := by
      have below := notAbove minus
      rw [abs_of_nonpos below, abs_of_nonpos (by linarith)]
      linarith
    cases roundsTo with
    | infinite decodedSum above =>
        cases negative with
        | true => exact absurd (above _ kept) (not_lt.mpr (nearer rfl))
        | false => exact Or.inr decodedSum
    | @finite mantissa exponent decodedSum le ge =>
        refine Or.inl ⟨isFinite_of_decoded decodedSum, ?_⟩
        rw [decodedSum]
        cases negative with
        | true =>
            have within := le _ kept (nearer rfl)
            rw [abs_of_nonpos (by linarith [notAbove rfl])] at within
            exact le_neg_of_le_neg within
        | false =>
            rcases le_total (ofFloat x).value 0 with below | above
            · have magnitude : (0 : Rat) ≤ mantissa * 2 ^ exponent := by positivity
              exact below.trans magnitude
            · rw [abs_of_nonneg above] at kept
              exact ge _ kept ((le_add_of_nonneg_right nonneg).trans (le_abs_self _))
  · exact Or.inr (infinite_add finite unbounded)

theorem AtLeast.add (above : AtLeast x z) (plus : HasSign y false) : AtLeast x (z + y) := by
  rcases above with ⟨finite, le⟩ | unbounded
  · rcases atLeast_add finite plus with ⟨finiteSum, leSum⟩ | unbounded
    · exact Or.inl ⟨finiteSum, le.trans leSum⟩
    · exact Or.inr unbounded
  · exact Or.inr (add_infinite unbounded plus)

theorem atLeast_zero (plus : HasSign y false) : AtLeast 0.0 y := by
  rcases plus with ⟨m, e, decoded⟩ | unbounded
  · refine Or.inl ⟨isFinite_of_decoded decoded, ?_⟩
    rw [value_ofFloat_zero]
    exact value_nonneg decoded
  · exact Or.inr unbounded

theorem AtLeast.zero_le (above : AtLeast 0.0 z) : 0.0 ≤ z := by
  rcases above with ⟨finite, le⟩ | unbounded
  · rwa [le_iff_value_le (by decide) (isFinite_iff.mp finite)]
  · rw [le_iff_compare, unpack_of_plusInfinite unbounded]
    decide

end Floats

end Montage.Number.Binary64
