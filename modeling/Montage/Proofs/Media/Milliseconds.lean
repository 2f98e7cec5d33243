import Montage.Media.Catalog
import Montage.Proofs.Number.Bounds

/-!
Contract: which lengths the catalog keeps are positive.

A length is scaled to milliseconds, rounded to a whole number of them and scaled
back. All of it stays far below where whole numbers are no longer kept exactly,
so no length up to a milliard seconds grows past it, and a length is kept as
zero exactly when it is shorter than half a millisecond.

Owns: the lengths kept of probed ones.
Does not own: what clips of these lengths compile to, in `Proofs.Timeline.EndToEnd`.
-/

namespace Montage

open Montage.Number
open Montage.Number.Binary64

namespace Media

/-- A number of seconds that is not negative, up to a milliard. -/
structure IsShort (x : Float) : Prop where
  decoded : ∃ m e, ofFloat x = .finite false m e
  le : (ofFloat x).value ≤ 10 ^ 9

theorem representable_half : Representable (1 / 2) :=
  ⟨2 ^ 52, -53, canonical_full (by decide), by decide, by norm_num⟩

theorem representable_thousandth : Representable (1 / 1024) :=
  ⟨2 ^ 52, -62, canonical_full (by decide), by decide, by norm_num⟩

theorem representable_tenTo (power : Nat) (small : power ≤ 15) : Representable (10 ^ power) := by
  have short : 10 ^ power < 2 ^ 53 :=
    lt_of_le_of_lt (Nat.pow_le_pow_right (by decide) small) (by decide)
  have kept := representable_natCast short
  push_cast at kept
  exact kept

theorem ofFloat_thousand : ofFloat 1000.0 = .finite false (125 * 2 ^ 46) (-43) := by decide

theorem value_thousand : (ofFloat 1000.0).value = 1000 := by
  rw [value_of_decoded ofFloat_thousand]
  norm_num

/-! ## Half a millisecond -/

/-- The least number that is not below half a millisecond. -/
theorem ofFloat_half_millisecond :
    ofFloat 0.0005 = .finite false 4611686018427388 (-63) := by decide

/-- Scaled to milliseconds a length reaches a half just when it is half a millisecond long. -/
theorem half_le_scaled_iff {length : Float} {m : Nat} {e : Int}
    (decoded : ofFloat length = .finite false m e)
    (rounds : Rounds (length * 1000.0) ((ofFloat length).value * 1000)) :
    1 / 2 ≤ (ofFloat (length * 1000.0)).value ↔ (0.0005 : Float) ≤ length := by
  have finite : (ofFloat length).isFinite = true := by rw [decoded]; rfl
  have value := value_of_decoded decoded
  have valueHalf := value_of_decoded ofFloat_half_millisecond
  rw [le_iff_value_le (by decide) finite]
  constructor
  · intro reaches
    by_contra short
    -- What is kept below half a millisecond stays below a half when it is scaled.
    have before := le_pred_of_lt (canonical_of_ofBits decoded)
      (canonical_of_ofBits ofFloat_half_millisecond) (by decide) (by
        rw [← value, ← valueHalf]
        exact not_le.mp short)
    have belowHalf : Representable ((2 ^ 53 - 1 : Nat) * 2 ^ (-54 : Int)) :=
      ⟨2 ^ 53 - 1, -54, ⟨by decide, by decide, Or.inl (by decide)⟩, by decide, rfl⟩
    have within := rounds.le _ belowHalf (by
      rw [value]
      refine le_trans (mul_le_mul_of_nonneg_right before (by norm_num)) ?_
      norm_num)
    norm_num at within
    linarith
  · intro long
    refine rounds.ge _ representable_half ?_
    rw [valueHalf] at long
    norm_num at long ⊢
    linarith

/-! ## Lengths to the millisecond -/

/-- A positive length up to a milliard seconds, as probing gives it. -/
structure IsProbedLength (length : Float) : Prop where
  finite : length.isFinite = true
  positive : (0.0 : Float) < length
  short : length ≤ (1000000000.0 : Float)

theorem IsProbedLength.isShort {length : Float} (probed : IsProbedLength length) :
    IsShort length := by
  obtain ⟨m, e, decoded, -⟩ := (isPositive_iff.mpr ⟨probed.finite, probed.positive⟩).decoded
  have below := (le_iff_value_le (isFinite_iff.mp probed.finite) (by decide)).mp probed.short
  have milliard : (ofFloat 1000000000.0).value = 10 ^ 9 := by
    rw [value_of_decoded (by decide : ofFloat 1000000000.0 = .finite false (5 ^ 9 * 2 ^ 32) (-23))]
    norm_num
  rw [milliard] at below
  exact ⟨⟨m, e, decoded⟩, below⟩

theorem rounds_scaled {length : Float} (isShort : IsShort length) :
    Rounds (length * 1000.0) ((ofFloat length).value * 1000) := by
  obtain ⟨⟨m, e, decoded⟩, short⟩ := isShort
  have product := rounds_mul decoded ofFloat_thousand (by decide)
    (representable_tenTo 12 (by decide))
  rw [value_thousand] at product
  exact product (by linarith)

/-- A whole number of milliseconds is a length, and positive unless there are none. -/
theorem ofNat_div_thousand {count : Nat} (few : count ≤ 10 ^ 12) :
    IsShort (Float.ofNat count / 1000.0) ∧
      (0 < (ofFloat (Float.ofNat count / 1000.0)).value ↔ 1 ≤ count) := by
  have short : count < 2 ^ 53 := lt_of_le_of_lt few (by decide)
  have whole := rounds_ofNat short
  obtain ⟨m, e, decoded⟩ := whole.decoded
  have within : (count : Rat) ≤ 10 ^ 12 := by exact_mod_cast few
  have milliard := representable_tenTo 9 (by decide)
  have quotient := rounds_div decoded ofFloat_thousand (by decide) milliard
  rw [whole.eq (representable_natCast short), value_thousand] at quotient
  have rounds : Rounds (Float.ofNat count / 1000.0) (count / 1000) := quotient (by linarith)
  refine ⟨⟨rounds.decoded, rounds.le _ milliard (by linarith)⟩, ?_, ?_⟩
  · intro positive
    by_contra none
    obtain rfl : count = 0 := by omega
    have zero : (ofFloat (Float.ofNat 0 / 1000.0)).value ≤ ((0 : Nat) : Rat) :=
      rounds.le _ (representable_natCast (by decide)) (by simp)
    rw [Nat.cast_zero] at zero
    linarith
  · intro some
    have one : (1 : Rat) ≤ count := by exact_mod_cast some
    have above := rounds.ge _ representable_thousandth (by linarith)
    linarith

/-- A probed length stays one to the millisecond, unless it is shorter than half of one. -/
theorem toMilliseconds_isShort {length : Float} (probed : IsProbedLength length) :
    IsShort (toMilliseconds length) ∧
      (0 < (ofFloat (toMilliseconds length)).value ↔ (0.0005 : Float) ≤ length) := by
  have isShort := probed.isShort
  have scaled := rounds_scaled isShort
  have below : (ofFloat length).value * 1000 ≤ (10 ^ 12 : Nat) := by
    have short := isShort.le
    norm_num
    linarith
  obtain ⟨count, whole, few, -, reaches⟩ := scaled.exists_whole below (by decide)
  have milliseconds : toMilliseconds length = Float.ofNat count / 1000.0 := by
    rw [← whole]
    rfl
  obtain ⟨m, e, decoded⟩ := isShort.decoded
  obtain ⟨short, positive⟩ := ofNat_div_thousand few
  rw [milliseconds]
  refine ⟨short, positive.trans ?_⟩
  rw [reaches, ← half_le_scaled_iff decoded scaled]
  norm_num

end Media

end Montage
