import Montage.Proofs.Files.Naming
import Montage.Proofs.Number.Numerals
import Montage.Proofs.Project.InstantText
import Montage.Proofs.Text.Marker

/-!
Contract: a clock is read as the length that it was written for, to the second.

A length is cut to whole seconds, and these are spread over hours, minutes and
seconds. The digits of each field spell it again, and putting the fields back
together stays within the whole numbers that are kept exactly. No digit and no
colon ends a token, so a status line tells the clock behind its first marker.

Owns: the reading of three fields between colons, and `written_clock_is_read`.
Does not own: clocks with fractions or signs.
-/

namespace Montage.Text

open Montage.Number
open Montage.Number.Binary64

/-! ## Three fields -/

section Fields

variable {hours minutes seconds : List Char} {h m s : Float}

theorem not_mem_colon {cs : List Char} (all : AllDigits cs) : ':' ∉ cs :=
  fun member => absurd (all ':' member) (by decide)

/-- Three numerals between colons are read one by one. -/
theorem readClock?_of_fields (noColon : ':' ∉ hours) (noColonBehind : ':' ∉ minutes)
    (noColonLast : ':' ∉ seconds) (readHours : readFloat? hours = some h)
    (readMinutes : readFloat? minutes = some m) (readSeconds : readFloat? seconds = some s) :
    readClock? (hours ++ ':' :: (minutes ++ ':' :: seconds)) =
      some (h * 3600.0 + m * 60.0 + s) := by
  have pieces : splitAt ':' (hours ++ ':' :: (minutes ++ ':' :: seconds)) =
      [hours, minutes, seconds] := by
    rw [splitAt_append, splitAt_append, splitAt_of_not_mem noColon,
      splitAt_of_not_mem noColonBehind, splitAt_of_not_mem noColonLast]
    rfl
  rw [readClock?, pieces]
  simp only [readHours, readMinutes, readSeconds]
  rfl

theorem visible_of_allDigits {cs : List Char} (all : AllDigits cs) : Visible cs :=
  fun c member => Instant.isBlank_of_isDigit (all c member)

theorem visible_fields (inHours : Visible hours) (inMinutes : Visible minutes)
    (inSeconds : Visible seconds) : Visible (hours ++ ':' :: (minutes ++ ':' :: seconds)) := by
  have colon : isBlank ':' = false := by decide
  exact inHours.append (.cons colon (inMinutes.append (.cons colon inSeconds)))

end Fields

/-! ## Whole seconds -/

theorem ofFloat_hour : ofFloat 3600.0 = .finite false (225 * 2 ^ 45) (-41) := by decide

theorem ofFloat_minute : ofFloat 60.0 = .finite false (15 * 2 ^ 49) (-47) := by decide

section WholeSeconds

variable {total width n : Nat}

theorem readFloat?_paddedDigits (width : Nat) (short : n < 2 ^ 53) :
    ∃ x, readFloat? (paddedDigits width n) = some x ∧ IsWhole x n := by
  have digits : IsDigits (paddedDigits width n) :=
    ⟨allDigits_paddedDigits width n, paddedDigits_ne_nil width n⟩
  have read : readFloat? (paddedDigits width n ++ fractionText none) = _ :=
    readFloat?_digits digits (by simp)
  rw [fractionText, Option.getD_none, List.append_nil, wholeValue_paddedDigits] at read
  exact ⟨_, read, isWhole_nearest short⟩

/-- Hours, minutes and seconds are put together without an error. -/
theorem isWhole_sum {hours minutes seconds : Nat} {h m s : Float} (isHours : IsWhole h hours)
    (isMinutes : IsWhole m minutes) (isSeconds : IsWhole s seconds)
    (short : hours * 3600 + minutes * 60 + seconds < 2 ^ 53) :
    IsWhole (h * 3600.0 + m * 60.0 + s) (hours * 3600 + minutes * 60 + seconds) := by
  have hour : IsWhole 3600.0 3600 :=
    ⟨⟨_, _, ofFloat_hour⟩, by rw [value_of_decoded ofFloat_hour]; norm_num⟩
  have minute : IsWhole 60.0 60 :=
    ⟨⟨_, _, ofFloat_minute⟩, by rw [value_of_decoded ofFloat_minute]; norm_num⟩
  have shortMinutes := (Nat.le_add_right (hours * 3600 + minutes * 60) seconds).trans_lt short
  have first : IsWhole (h * 3600.0) (hours * 3600) :=
    isHours.mul hour ofFloat_hour (by decide) ((Nat.le_add_right _ _).trans_lt shortMinutes)
  have second : IsWhole (m * 60.0) (minutes * 60) :=
    isMinutes.mul minute ofFloat_minute (by decide) ((Nat.le_add_left _ _).trans_lt shortMinutes)
  exact (first.add second shortMinutes).add isSeconds short

theorem not_mem_colon_paddedDigits (width n : Nat) : ':' ∉ paddedDigits width n :=
  not_mem_colon (allDigits_paddedDigits width n)

theorem readClock?_clockChars (short : total < 2 ^ 53) :
    readClock? (clockChars total) = some (Float.ofNat total) := by
  obtain ⟨h, readHours, isHours⟩ := readFloat?_paddedDigits 2 (show total / 3600 < 2 ^ 53 by omega)
  obtain ⟨m, readMinutes, isMinutes⟩ :=
    readFloat?_paddedDigits 2 (show total % 3600 / 60 < 2 ^ 53 by omega)
  obtain ⟨s, readSeconds, isSeconds⟩ :=
    readFloat?_paddedDigits 2 (show total % 60 < 2 ^ 53 by omega)
  have together : total / 3600 * 3600 + total % 3600 / 60 * 60 + total % 60 = total := by omega
  have sum := isWhole_sum isHours isMinutes isSeconds (by rwa [together])
  rw [together] at sum
  rw [clockChars, readClock?_of_fields (not_mem_colon_paddedDigits _ _)
    (not_mem_colon_paddedDigits _ _) (not_mem_colon_paddedDigits _ _) readHours readMinutes
    readSeconds, sum.unique (isWhole_ofNat short)]

/-- Digits and colons are no blanks. -/
theorem visible_clockChars (total : Nat) : Visible (clockChars total) :=
  visible_fields (visible_of_allDigits (allDigits_paddedDigits _ _))
    (visible_of_allDigits (allDigits_paddedDigits _ _))
    (visible_of_allDigits (allDigits_paddedDigits _ _))

end WholeSeconds

/-! ## Written clocks -/

/-- Three fields that spell a number of seconds, each with two digits at least. -/
structure ClockFields (hours minutes seconds : List Char) (total : Nat) : Prop where
  digits : ∀ field ∈ [hours, minutes, seconds], AllDigits field ∧ 2 ≤ field.length
  belowHour : wholeValue minutes < 60
  belowMinute : wholeValue seconds < 60
  sum : wholeValue hours * 3600 + wholeValue minutes * 60 + wholeValue seconds = total

theorem clockFields_paddedDigits (total : Nat) :
    ClockFields (paddedDigits 2 (total / 3600)) (paddedDigits 2 (total % 3600 / 60))
      (paddedDigits 2 (total % 60)) total := by
  have padded (n : Nat) : AllDigits (paddedDigits 2 n) ∧ 2 ≤ (paddedDigits 2 n).length := by
    refine ⟨allDigits_paddedDigits 2 n, ?_⟩
    rw [paddedDigits, List.length_append, List.length_replicate]
    omega
  constructor
  · simp [padded]
  all_goals
    simp only [wholeValue_paddedDigits]
    omega

/-- What is written for a length, and what is read back from it. -/
structure WrittenClock (x : Float) : Prop where
  fields : ∃ hours minutes seconds, ClockFields hours minutes seconds (wholePart x) ∧
    (formatDuration x).toList = hours ++ ':' :: (minutes ++ ':' :: seconds)
  /-- The whole part is a number that is kept exactly. -/
  exact : IsWhole (Float.ofNat (wholePart x)) (wholePart x)
  read : readClock? (formatDuration x).toList = some (Float.ofNat (wholePart x))
  /-- A line that is marked in front of the clock, and not before, tells it. -/
  marked : ∀ before behind, ¬ marker <:+: before → EndsToken behind →
    findMarker? (before ++ marker ++ ((formatDuration x).toList ++ behind)) =
      some (Float.ofNat (wholePart x))

section Written

variable {x : Float}

theorem formatDuration_toList (above : 0.0 ≤ x) (below : x < 9007199254740992.0) :
    (formatDuration x).toList = clockChars (wholePart x) ∧ wholePart x < 2 ^ 53 := by
  have finite := isFinite_of_between above below
  have isFinite := isFinite_iff.mp finite
  have nonneg : 0 ≤ (ofFloat x).value := by
    rwa [le_iff_value_le (by decide) isFinite, value_ofFloat_zero] at above
  have limit : ofFloat 9007199254740992.0 = .finite false (2 ^ 52) 1 := by decide
  have bounded : (ofFloat x).value < 2 ^ 53 := by
    rw [lt_iff_value_lt isFinite (by rw [limit]; rfl), value_of_decoded limit] at below
    norm_num at below ⊢
    exact below
  have notBelow : ¬ x < 0.0 := by
    rw [lt_iff_value_lt isFinite (by decide), value_ofFloat_zero]
    exact not_lt.mpr nonneg
  refine ⟨?_, ?_⟩
  · rw [formatDuration, if_neg (by simp [notBelow, finite]), String.toList_ofList,
      toNat_toUInt64 finite nonneg (bounded.trans (by norm_num))]
  · rw [wholePart, Nat.floor_lt nonneg]
    exact_mod_cast bounded

/-- Below 2 ^ 53 seconds, what is written for a length is read as its whole part. -/
theorem written_clock_is_read (above : 0.0 ≤ x) (below : x < 9007199254740992.0) :
    WrittenClock x := by
  obtain ⟨written, short⟩ := formatDuration_toList above below
  have read : readClock? (formatDuration x).toList = some (Float.ofNat (wholePart x)) := by
    rw [written, readClock?_clockChars short]
  refine ⟨⟨_, _, _, clockFields_paddedDigits (wholePart x), written⟩, isWhole_ofNat short, read, ?_⟩
  intro before behind unmarked ends
  refine (leftmostClock_of_unmarked unmarked (.intro ?_ ends read)).find
  rw [written]
  exact visible_clockChars _

/-- An hour, two minutes and something over five seconds, told by a line with a second marker. -/
theorem written_clock_is_read_in_progress_line :
    (0.0 : Float) ≤ 3725.9 ∧ (3725.9 : Float) < 9007199254740992.0 ∧
      formatDuration 3725.9 = "01:02:05" ∧ WrittenClock 3725.9 ∧
      findMarker? "frame=7 time=01:02:05 bitrate=time=9".toList = some 3725.0 := by
  have above : (0.0 : Float) ≤ 3725.9 := by decide
  have below : (3725.9 : Float) < 9007199254740992.0 := by decide
  have written := written_clock_is_read above below
  have text : formatDuration 3725.9 = "01:02:05" := by decide +kernel
  have unmarked : ¬ marker <:+: "frame=7 ".toList := by decide
  have ends : EndsToken " bitrate=time=9".toList := by
    intro c first
    cases first
    decide
  have clock : readClock? "01:02:05".toList = some 3725.0 := by decide +kernel
  have read := written.read
  have told := written.marked _ _ unmarked ends
  rw [text, clock] at read
  rw [text, ← Option.some.inj read] at told
  exact ⟨above, below, text, written, told⟩

end Written

end Montage.Text
