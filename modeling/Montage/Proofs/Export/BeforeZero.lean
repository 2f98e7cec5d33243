import Montage.Proofs.Export.Scale
import Montage.Proofs.Text.NegativeClock

/-!
Contract: which positions leave the percentage alone.

A position that is not above zero, or not finite, is worth no more than any
percentage, so it never raises one; a positive one raises the percentage of an
export that is as long as it and has just begun. An event tells a position as its
time or on its line. So a clock with a minus in front is harmless exactly if it is
not read as a positive number.

Owns: events that tell a clock, and `minus_turns_hours_only`.
Does not own: what a clock with a minus is read as, in `Proofs.Text.NegativeClock`.
-/

namespace Montage.Export

open Montage.Number
open Montage.Number.Binary64
open Montage.Text

namespace Tracker

variable {total position reached : Float}

/-- The exact percentage is met to one decimal, so it is zero if that one is not above zero. -/
theorem not_lt_percentAt (measurable : IsPositive total) (finite : position.isFinite = true)
    (notAhead : (ofFloat position).value ≤ 0) (percentage : IsPercentage reached) :
    ¬ reached < percentAt total position := by
  obtain ⟨isPercent, tenths, few, value, near⟩ := percentAt_near measurable finite
  have share : (ofFloat position).value / (ofFloat total).value ≤ 0 :=
    div_nonpos_of_nonpos_of_nonneg notAhead measurable.2.le
  have none : exactPercent total position = 0 := by
    rw [exactPercent, max_eq_left ((min_le_right _ _).trans (by linarith))]
  have zero : tenths = 0 := by
    rw [none, sub_zero, abs_of_nonneg (by positivity)] at near
    norm_num at near
    have few : (tenths : Rat) < 1 := by linarith
    exact Nat.lt_one_iff.mp (by exact_mod_cast few)
  rw [lt_iff_value_lt percentage.finite isPercent.finite, value, zero,
    show Float.ofNat 0 / 10.0 = 0.0 by decide +kernel, value_ofFloat_zero]
  exact not_lt.mpr percentage.nonneg

/-- A position that is not above zero does nothing. -/
theorem update_of_not_isPositive (tracker : Tracker) (percentage : IsPercentage tracker.percent)
    (notAhead : ¬ IsPositive position) : tracker.update position = (none, tracker) := by
  unfold update
  split
  · next counts =>
      rw [Bool.and_eq_true] at counts
      obtain ⟨measurable, finite⟩ := counts
      have notAbove : (ofFloat position).value ≤ 0 :=
        not_lt.mp fun above => notAhead ⟨finite, above⟩
      exact if_neg (not_lt_percentAt (isMeasurable_iff.mp measurable) finite notAbove percentage)
  · rfl

/-- A positive position is the end of an export as long as it is. -/
theorem start_update_isSome (positive : IsPositive position) :
    ((start position).update position).1.isSome = true := by
  obtain ⟨isPercent, tenths, few, value, near⟩ := percentAt_near positive positive.1
  have all : exactPercent position position = 99 := by
    rw [exactPercent, div_self (ne_of_gt positive.2)]
    norm_num
  have many : (10 : Rat) ≤ tenths := by
    rw [all, abs_le] at near
    norm_num at near
    linarith
  have above : 1 ≤ (ofFloat (percentAt position position)).value := by
    rw [value]
    exact (rounds_tenth few).ge 1 representable_one (by linarith)
  have risen : (0.0 : Float) < percentAt position position := by
    rw [lt_iff_value_lt isPercentage_zero.finite isPercent.finite, value_ofFloat_zero]
    linarith
  have measurable := isMeasurable_iff.mpr positive
  simp [update, start, measurable, positive.1, risen]

end Tracker

/-! ## Events that tell a clock -/

/-- A line whose first marker stands in front of a text. -/
def MarksFirst (text : List Char) (line : String) : Prop :=
  ∃ before behind, line.toList = before ++ marker ++ (text ++ behind) ∧
    ¬ marker <:+: before ∧ EndsToken behind

/-- An event that tells its position by a text, as its time or behind the first marker of its
line. -/
inductive Tells (text : List Char) : EngineEvent → Prop
  | time {time line : String} (isTime : time.toList = text) : Tells text (.progress time line)
  | status {time line : String} (noTime : readClock? time.toList = none)
      (marked : MarksFirst text line) : Tells text (.progress time line)
  | log {level : LogLevel} {line : String} (marked : MarksFirst text line) :
      Tells text (.log level line)
  | error {line : String} (serious : Monitor.isHarmless line = false)
      (marked : MarksFirst text line) : Tells text (.error line)

section Telling

variable {text : List Char} {event : EngineEvent} {line : String} {position : Float}

theorem MarksFirst.find (marked : MarksFirst text line) (visible : Visible text)
    (clock : readClock? text = some position) : findMarker? line.toList = some position := by
  obtain ⟨before, behind, isLine, unmarked, ends⟩ := marked
  rw [isLine]
  exact (leftmostClock_of_unmarked unmarked (.intro visible ends clock)).find

theorem Tells.positionOf? (tells : Tells text event) (visible : Visible text)
    (clock : readClock? text = some position) : Monitor.positionOf? event = some position := by
  cases tells with
  | time isTime => simp [Monitor.positionOf?, isTime, clock]
  | status noTime marked => simp [Monitor.positionOf?, noTime, marked.find visible clock]
  | log marked => simp [Monitor.positionOf?, marked.find visible clock]
  | error serious marked => simp [Monitor.positionOf?, serious, marked.find visible clock]

/-- Whatever tells the text leaves the percentage of every export alone. -/
def NeverAdvances (text : List Char) : Prop :=
  ∀ monitor : Monitor, IsPercentage monitor.tracker.percent → ∀ event, Tells text event →
    (monitor.handle event).1 = none ∧ (monitor.handle event).2.tracker = monitor.tracker

theorem neverAdvances_iff (visible : Visible text)
    (clock : readClock? text = some position) :
    NeverAdvances text ↔ ¬ IsPositive position := by
  constructor
  · intro never positive
    have still := (never (.start position) isPercentage_zero (.progress (String.ofList text) "")
      (.time String.toList_ofList)).1
    have risen := Tracker.start_update_isSome positive
    simp only [Monitor.handle, Monitor.positionOf?, String.toList_ofList, clock] at still
    change ((Tracker.start position).update position).1 = none at still
    rw [still] at risen
    cases risen
  · intro notAhead monitor percentage event tells
    have update := monitor.tracker.update_of_not_isPositive percentage notAhead
    simp only [Monitor.handle, tells.positionOf? visible clock, Tracker.updateIfSome, update]
    exact ⟨trivial, trivial⟩

end Telling

/-- A clock with a minus in front of it is read as its hours turned, with minutes and seconds added;
so it is the mirror image only of a clock that minutes and seconds do not move, and leaves the
percentage alone unless it is read as a positive number. -/
theorem minus_turns_hours_only (clock : DigitClock) : ∃ h t u,
    readFloat? clock.hours = some h ∧ clock.Turned (h * 3600.0) t u ∧
      (NeverAdvances clock.minusText ↔ ¬ IsPositive u) := by
  obtain ⟨h, m, s, reads⟩ := clock.exists_reads
  exact ⟨h, _, _, reads.hours, reads.turned,
    neverAdvances_iff clock.visible_minusText reads.minus⟩

/-- An hour and a half. -/
def ninetyMinutes : DigitClock where
  hours := "01".toList
  minutes := "30".toList
  seconds := "00".toList
  fraction := some "00".toList
  isHours := by decide
  isMinutes := by decide
  isSeconds := by decide
  isFraction := by
    rintro places ⟨⟩
    decide

/-- The half hour stays on its side of zero, and still no percentage rises. -/
theorem ninety_minutes_with_minus :
    readClock? ninetyMinutes.text = some 5400.0 ∧
      readClock? ninetyMinutes.minusText = some (-1800.0) ∧
      ((-1800.0 : Float) == -5400.0) = false ∧ NeverAdvances ninetyMinutes.minusText := by
  obtain ⟨h, t, u, -, turned, never⟩ := minus_turns_hours_only ninetyMinutes
  have plain : readClock? ninetyMinutes.text = some 5400.0 := by decide +kernel
  have minus : readClock? ninetyMinutes.minusText = some (-1800.0) := by decide +kernel
  obtain rfl : u = -1800.0 := Option.some.inj (turned.minus.symm.trans minus)
  refine ⟨plain, minus, by decide, never.mpr ?_⟩
  rw [isPositive_iff]
  decide

/-- A second and a half before zero is half of a three second export. -/
theorem minus_lost_in_first_hour :
    readClock? "00:00:01.50".toList = some 1.5 ∧ readClock? "-00:00:01.50".toList = some 1.5 ∧
      ((1.5 : Float) == -1.5) = false ∧
      ((Monitor.start 3.0).handle (.log .info "size=0kB time=-00:00:01.50 speed=1x")).1 =
        some 50.0 := by
  decide +kernel

end Montage.Export
