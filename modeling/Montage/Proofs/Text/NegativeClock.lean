import Montage.Proofs.Text.WrittenClock

/-!
Contract: what a minus in front of a clock does.

The minus is read with the hours and turns them only; minutes and seconds are
added to what the hours are worth, as they are to hours without a minus. So the
clock is turned as a whole exactly if the minutes and seconds leave both sums
where the hours put them, and without hours the minus is lost.

Owns: clocks made of digits, with a minus in front and without one.
Does not own: what such a position does to the progress of an export.
-/

namespace Montage.Text

open Montage.Number
open Montage.Number.Binary64

/-- Hours, minutes and seconds in digits, the seconds with a fraction or without one. -/
structure DigitClock where
  hours : List Char
  minutes : List Char
  seconds : List Char
  fraction : Option (List Char)
  isHours : IsDigits hours
  isMinutes : IsDigits minutes
  isSeconds : IsDigits seconds
  isFraction : ∀ places ∈ fraction, AllDigits places

namespace DigitClock

def text (clock : DigitClock) : List Char :=
  clock.hours ++ ':' ::
    (clock.minutes ++ ':' :: (clock.seconds ++ fractionText clock.fraction))

def minusText (clock : DigitClock) : List Char := '-' :: clock.text

/-! ## Reading the fields -/

/-- The numbers that the fields are read as, none of them with a minus sign. -/
structure Reads (clock : DigitClock) (h m s : Float) : Prop where
  hours : readFloat? clock.hours = some h
  plusHours : HasSign h false
  plusMinutes : HasSign m false
  plusSeconds : HasSign s false
  plain : readClock? clock.text = some (h * 3600.0 + m * 60.0 + s)
  minus : readClock? clock.minusText = some (-h * 3600.0 + m * 60.0 + s)

theorem exists_readFloat? {whole : List Char} {fraction : Option (List Char)}
    (digits : IsDigits whole) (places : ∀ ds ∈ fraction, AllDigits ds) :
    ∃ x, readFloat? (whole ++ fractionText fraction) = some x ∧ HasSign x false :=
  ⟨_, readFloat?_digits digits places, hasSign_nearest _ _⟩

theorem exists_readFloat?_whole {whole : List Char} (digits : IsDigits whole) :
    ∃ x, readFloat? whole = some x ∧ HasSign x false := by
  have read : ∃ x, readFloat? (whole ++ fractionText none) = some x ∧ HasSign x false :=
    exists_readFloat? digits (by simp)
  rwa [fractionText, List.append_nil] at read

theorem not_mem_colon_fractionText {fraction : Option (List Char)}
    (places : ∀ ds ∈ fraction, AllDigits ds) : ':' ∉ fractionText fraction := by
  cases fraction with
  | none => exact List.not_mem_nil
  | some ds => simpa [fractionText] using not_mem_colon (places ds rfl)

theorem exists_reads (clock : DigitClock) : ∃ h m s, clock.Reads h m s := by
  obtain ⟨h, hours, plusHours⟩ := exists_readFloat?_whole clock.isHours
  obtain ⟨m, minutes, plusMinutes⟩ := exists_readFloat?_whole clock.isMinutes
  obtain ⟨s, seconds, plusSeconds⟩ := exists_readFloat? clock.isSeconds clock.isFraction
  have turned : readFloat? ('-' :: clock.hours) = some (-h) := by
    have minus : readFloat? ('-' :: (clock.hours ++ [])) = _ := readFloat?_minus clock.isHours
    rwa [List.append_nil, hours] at minus
  have noHours := not_mem_colon clock.isHours.all
  have noMinutes := not_mem_colon clock.isMinutes.all
  have noSeconds : ':' ∉ clock.seconds ++ fractionText clock.fraction := by
    rw [List.mem_append, not_or]
    exact ⟨not_mem_colon clock.isSeconds.all, not_mem_colon_fractionText clock.isFraction⟩
  have noMinus : ':' ∉ '-' :: clock.hours := by simp [noHours]
  exact ⟨h, m, s, hours, plusHours, plusMinutes, plusSeconds,
    readClock?_of_fields noHours noMinutes noSeconds hours minutes seconds,
    readClock?_of_fields noMinus noMinutes noSeconds turned minutes seconds⟩

theorem visible_minusText (clock : DigitClock) : Visible clock.minusText := by
  have minus : isBlank '-' = false := by decide
  have visibleFraction : Visible (fractionText clock.fraction) := by
    cases places : clock.fraction with
    | none => exact List.forall_mem_nil _
    | some ds => exact .cons (by decide) (visible_of_allDigits (clock.isFraction ds places))
  exact .cons minus (visible_fields (visible_of_allDigits clock.isHours.all)
    (visible_of_allDigits clock.isMinutes.all)
    ((visible_of_allDigits clock.isSeconds.all).append visibleFraction))

end DigitClock

/-! ## Sums of turned hours -/

section Sums

variable {x mirrored m s t u : Float}

/-- Two sums, one not below a number and one not below its mirror image, mirror each other only if
neither has left where it began. -/
theorem mirrored_iff_of_finite (finite : x.isFinite = true)
    (opposite : (ofFloat mirrored).value = -(ofFloat x).value) (above : AtLeast x t)
    (aboveMirrored : AtLeast mirrored u) :
    (u == -t) = true ↔ (t == x) = true ∧ (u == -x) = true := by
  rcases above with ⟨finiteSum, le⟩ | unboundedSum
  · have finiteTurned := isFinite_neg finiteSum
    rcases aboveMirrored with ⟨finiteMirrored, leMirrored⟩ | unbounded
    · rw [beq_iff_value_eq finiteMirrored finiteTurned, beq_iff_value_eq finiteSum finite,
        beq_iff_value_eq finiteMirrored (isFinite_neg finite), value_neg_float finiteSum,
        value_neg_float finite]
      rw [opposite] at leMirrored
      constructor
      · intro same
        constructor <;> linarith
      · rintro ⟨stays, staysMirrored⟩
        linarith
    · refine iff_of_false (fun same => ?_) (fun both => ?_)
      · exact ofFloat_ne_infinite finiteTurned false (infinite_of_beq same unbounded)
      · exact ofFloat_ne_infinite (isFinite_neg finite) false (infinite_of_beq both.2 unbounded)
  · refine iff_of_false (fun same => ?_) (fun both => ?_)
    · have mirroredSum := (beq_iff_of_infinite (ofFloat_neg_of_infinite unboundedSum)).mp same
      rcases aboveMirrored with ⟨finiteMirrored, -⟩ | unbounded
      · exact ofFloat_ne_infinite finiteMirrored true mirroredSum
      · rw [unbounded] at mirroredSum
        cases mirroredSum
    · exact ofFloat_ne_infinite finite false (infinite_of_beq both.1 unboundedSum)

/-- A sum whose first number is turned is turned as a whole exactly if what is added leaves that
number as it was, turned or not. -/
theorem mirrored_iff (plus : HasSign x false) (opposite : ofFloat mirrored = (ofFloat x).neg)
    (plusMinutes : HasSign m false) (plusSeconds : HasSign s false) :
    (mirrored + m + s == -(x + m + s)) = true ↔
      (x + m + s == x) = true ∧ (mirrored + m + s == -x) = true := by
  rcases plus with ⟨mantissa, exponent, decoded⟩ | unbounded
  · -- Nothing that is added has a minus, so both sums stay on their side of where they begin.
    have finite := isFinite_of_decoded decoded
    have isTurned : ofFloat mirrored = ofFloat (-x) := opposite.trans (ofFloat_neg x).symm
    have finiteMirrored : mirrored.isFinite = true := by
      rw [isFinite_iff, isTurned, ← isFinite_iff]
      exact isFinite_neg finite
    refine mirrored_iff_of_finite finite ?_ ((atLeast_add finite plusMinutes).add plusSeconds)
      ((atLeast_add finiteMirrored plusMinutes).add plusSeconds)
    rw [isTurned, value_neg_float finite]
  · have stays := add_infinite (add_infinite unbounded plusMinutes) plusSeconds
    rw [beq_iff_of_infinite (ofFloat_neg_of_infinite stays),
      beq_iff_of_infinite (ofFloat_neg_of_infinite unbounded), beq_iff_of_infinite unbounded,
      and_iff_right stays]

theorem eq_zero_of_beq (plus : HasSign x false) (zero : (x == 0.0) = true) : x = 0.0 := by
  rcases plus with ⟨mantissa, exponent, decoded⟩ | unbounded
  · rw [beq_iff_value_eq (isFinite_of_decoded decoded) (by decide), value_ofFloat_zero] at zero
    exact IsWhole.unique ⟨⟨_, _, decoded⟩, by rw [zero, Nat.cast_zero]⟩ isWhole_zero
  · exact absurd (infinite_of_beq zero unbounded) (by decide)

end Sums

/-! ## The turned clock -/

namespace DigitClock

variable {clock : DigitClock} {h m s : Float}

/-- What becomes of the position `t` of a clock whose hours are worth `whole` when a minus is put in
front: it turns into `u`. -/
structure Turned (clock : DigitClock) (whole t u : Float) : Prop where
  plain : readClock? clock.text = some t
  minus : readClock? clock.minusText = some u
  nonneg : 0.0 ≤ t
  mirrored_iff : (u == -t) = true ↔ (t == whole) = true ∧ (u == -whole) = true
  /-- Without hours the minus is lost. -/
  lost : (whole == 0.0) = true → u = t

theorem Reads.turned (reads : clock.Reads h m s) :
    clock.Turned (h * 3600.0) (h * 3600.0 + m * 60.0 + s) (-h * 3600.0 + m * 60.0 + s) := by
  have plusHours : HasSign (h * 3600.0) false := reads.plusHours.mul ofFloat_hour (by decide)
  have plusMinutes : HasSign (m * 60.0) false := reads.plusMinutes.mul ofFloat_minute (by decide)
  have opposite := ofFloat_neg_mul reads.plusHours ofFloat_hour (by decide)
  refine ⟨reads.plain, reads.minus,
    (((atLeast_zero plusHours).add plusMinutes).add reads.plusSeconds).zero_le,
    Text.mirrored_iff plusHours opposite plusMinutes reads.plusSeconds, ?_⟩
  intro zero
  have nothing := eq_zero_of_beq plusHours zero
  rw [nothing] at opposite ⊢
  have minusZero : ofFloat (-0.0) = .finite true 0 leastExponent := by decide
  have turnedHours : -h * 3600.0 = -0.0 := by
    rw [← ofFloat_neg, minusZero] at opposite
    exact eq_of_decoded opposite minusZero
  rw [turnedHours, minusZero_add plusMinutes]

end DigitClock

end Montage.Text
