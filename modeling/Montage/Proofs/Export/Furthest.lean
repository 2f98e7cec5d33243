import Montage.Proofs.Export.Reporting
import Montage.Proofs.Export.Scale
import Montage.Proofs.Number.Identity

/-!
Contract: the tracker shows the percentage of the furthest position.

Positions come in any order, repeated, and with undefined and infinite ones
among them. The percentage is always the largest of zero and those of the finite
positions so far, and one position at a time keeps it so. A largest member does
not depend on the order of a list, and only zero has two numbers for one value,
so neither does the percentage.

Owns: runs of a tracker, the percentages of the positions that count, and
`furthest_shown`.
-/

namespace Montage.Export

open Montage.Number
open Montage.Number.Binary64

/-- A member of a list that no other exceeds. -/
structure Largest (percent : Float) (among : List Float) : Prop where
  mem : percent ∈ among
  le : ∀ other ∈ among, other ≤ percent

namespace IsPercentage

variable {x y : Float}

theorem le_of_not_lt (first : IsPercentage x) (second : IsPercentage y) (notLess : ¬ x < y) :
    y ≤ x := by
  rw [lt_iff_value_lt first.finite second.finite, not_lt] at notLess
  rwa [le_iff_value_le second.finite first.finite]

theorem le_trans_lt {z : Float} (first : IsPercentage x) (second : IsPercentage y)
    (third : IsPercentage z) (below : x ≤ y) (less : y < z) : x < z := by
  rw [le_iff_value_le first.finite second.finite] at below
  rw [lt_iff_value_lt second.finite third.finite] at less
  rw [lt_iff_value_lt first.finite third.finite]
  exact below.trans_lt less

theorem isPositive_of_lt (first : IsPercentage x) (second : IsPercentage y) (less : x < y) :
    IsPositive y := by
  rw [lt_iff_value_lt first.finite second.finite] at less
  exact ⟨isFinite_iff.mpr second.finite, first.nonneg.trans_lt less⟩

end IsPercentage

namespace Tracker

/-! ## Runs -/

/-- The tracker behind the positions. -/
def follow (tracker : Tracker) (positions : List Float) : Tracker :=
  positions.foldl (fun tracker position => (tracker.update position).2) tracker

theorem follow_concat (tracker : Tracker) (positions : List Float) (next : Float) :
    tracker.follow (positions ++ [next]) = ((tracker.follow positions).update next).2 := by
  simp [follow]

/-- The answer to a position is that of the tracker behind those before it. -/
theorem getElem?_answers (tracker : Tracker) (before : List Float) (next : Float)
    (behind : List Float) : (tracker.answers (before ++ next :: behind))[before.length]? =
      some ((tracker.follow before).update next).1 := by
  induction before generalizing tracker with
  | nil => rfl
  | cons position rest inductionHypothesis => exact inductionHypothesis (tracker.update position).2

/-! ## Positions that count -/

/-- The percentages of the finite positions; there are none of a total that is not positive. -/
def percentages (total : Float) (positions : List Float) : List Float :=
  if IsPositive total then (positions.filter Float.isFinite).map (percentAt total) else []

section Percentages

variable {total percent : Float} {positions : List Float}

theorem mem_percentages_iff : percent ∈ percentages total positions ↔
    IsPositive total ∧
      ∃ position ∈ positions, position.isFinite = true ∧ percentAt total position = percent := by
  by_cases positive : IsPositive total <;> simp [percentages, positive, and_assoc]

theorem isPercentage_of_mem (member : percent ∈ 0.0 :: percentages total positions) :
    IsPercentage percent := by
  rcases List.mem_cons.mp member with rfl | counted
  · exact isPercentage_zero
  · obtain ⟨positive, position, -, finite, rfl⟩ := mem_percentages_iff.mp counted
    exact (percentAt_near positive finite).1

theorem isPercentage_of_percentages_eq (single : percentages total positions = [percent]) :
    IsPercentage percent := by
  have member : percent ∈ percentages total positions := by
    rw [single]
    exact List.mem_singleton_self percent
  exact isPercentage_of_mem (List.mem_cons_of_mem 0.0 member)

theorem mem_percentages_concat_iff {next : Float} :
    percent ∈ 0.0 :: percentages total (positions ++ [next]) ↔
      percent ∈ 0.0 :: percentages total positions ∨ percent ∈ percentages total [next] := by
  by_cases positive : IsPositive total <;>
    simp [percentages, positive, List.filter_append, or_assoc]

/-- Everything one position can do: nothing unless its percentage exceeds the one shown. -/
theorem update_counted_cases (tracker : Tracker) (next : Float) :
    (tracker.update next = (none, tracker) ∧
        ∀ percent ∈ percentages tracker.total [next], ¬ tracker.percent < percent) ∨
      ∃ percent, percentages tracker.total [next] = [percent] ∧ tracker.percent < percent ∧
        tracker.update next = (some percent, { tracker with percent := percent }) := by
  have guarded : (isMeasurable tracker.total && next.isFinite) = true ↔
      IsPositive tracker.total ∧ next.isFinite = true := by
    rw [Bool.and_eq_true, isMeasurable_iff]
  by_cases counts : IsPositive tracker.total ∧ next.isFinite = true
  · have single : percentages tracker.total [next] = [percentAt tracker.total next] := by
      simp [percentages, counts]
    have passes := guarded.mpr counts
    by_cases more : tracker.percent < percentAt tracker.total next
    · exact Or.inr ⟨_, single, more, by simp [update, passes, more]⟩
    · exact Or.inl ⟨by simp [update, passes, more], by simpa [single] using more⟩
  · have ignored := Bool.eq_false_iff.mpr (mt guarded.mp counts)
    refine Or.inl ⟨by simp [update, ignored], ?_⟩
    intro percent member
    obtain ⟨positive, position, isNext, finite, -⟩ := mem_percentages_iff.mp member
    obtain rfl := List.mem_singleton.mp isNext
    exact absurd ⟨positive, finite⟩ counts

end Percentages

/-! ## The largest so far -/

/-- The tracker shows the largest of zero and the percentages of the positions. -/
structure Shows (tracker : Tracker) (total : Float) (positions : List Float) : Prop where
  sameTotal : tracker.total = total
  largest : Largest tracker.percent (0.0 :: percentages total positions)
  plusZero : tracker.percent = 0.0 ∨ IsPositive tracker.percent

section Shows

variable {tracker other : Tracker} {total : Float} {positions others : List Float}

theorem shows_start (total : Float) : (start total).Shows total [] where
  sameTotal := rfl
  largest := by
    have none : percentages total [] = [] := by
      unfold percentages
      split <;> rfl
    rw [none]
    refine ⟨List.mem_singleton_self _, ?_⟩
    intro percent member
    rw [List.mem_singleton.mp member]
    exact isPercentage_zero.le_refl
  plusZero := Or.inl rfl

theorem Shows.isPercentage (shows : tracker.Shows total positions) :
    IsPercentage tracker.percent :=
  isPercentage_of_mem shows.largest.mem

/-- A position more is shown too. -/
theorem Shows.update (shows : tracker.Shows total positions) (next : Float) :
    (tracker.update next).2.Shows total (positions ++ [next]) := by
  obtain ⟨rfl, largest, plusZero⟩ := shows
  have known := isPercentage_of_mem largest.mem
  rcases tracker.update_counted_cases next with ⟨same, noMore⟩ | ⟨percent, single, more, risen⟩
  · rw [same]
    refine ⟨rfl, ⟨mem_percentages_concat_iff.mpr (Or.inl largest.mem), ?_⟩, plusZero⟩
    intro percent member
    rcases mem_percentages_concat_iff.mp member with earlier | new
    · exact largest.le percent earlier
    · exact known.le_of_not_lt (isPercentage_of_mem member) (noMore percent new)
  · rw [risen]
    have reached := isPercentage_of_percentages_eq single
    have new : percent ∈ 0.0 :: percentages tracker.total (positions ++ [next]) := by
      rw [mem_percentages_concat_iff, single]
      exact Or.inr (List.mem_singleton_self percent)
    refine ⟨rfl, ⟨new, ?_⟩, Or.inr (known.isPositive_of_lt reached more)⟩
    intro other member
    rw [mem_percentages_concat_iff, single] at member
    rcases member with earlier | isNew
    · have percentage := isPercentage_of_mem earlier
      exact percentage.le_of_lt reached
        (percentage.le_trans_lt known reached (largest.le other earlier) more)
    · rw [List.mem_singleton.mp isNew]
      exact reached.le_refl

theorem shows_follow (total : Float) (positions : List Float) :
    ((start total).follow positions).Shows total positions := by
  induction positions using List.reverseRecOn with
  | nil => exact shows_start total
  | append_singleton before next inductionHypothesis =>
      rw [follow_concat]
      exact inductionHypothesis.update next

/-- A position is answered when its percentage exceeds all before it. -/
theorem Shows.answer_iff (shows : tracker.Shows total positions) (next percent : Float) :
    (tracker.update next).1 = some percent ↔
      percent ∈ percentages total [next] ∧
        ∀ earlier ∈ 0.0 :: percentages total positions, earlier < percent := by
  obtain ⟨rfl, largest, -⟩ := shows
  have known := isPercentage_of_mem largest.mem
  rcases tracker.update_counted_cases next with ⟨same, noMore⟩ | ⟨risen, single, more, updated⟩
  · rw [same]
    constructor
    · intro answered
      cases answered
    · rintro ⟨new, exceeds⟩
      exact absurd (exceeds _ largest.mem) (noMore percent new)
  · have reached := isPercentage_of_percentages_eq single
    rw [updated, single, List.mem_singleton, Option.some.injEq]
    constructor
    · rintro rfl
      refine ⟨rfl, ?_⟩
      intro earlier member
      exact (isPercentage_of_mem member).le_trans_lt known reached (largest.le earlier member) more
    · rintro ⟨rfl, -⟩
      rfl

/-- The percentage depends on which positions came in, and on nothing else. -/
theorem Shows.percent_eq (shows : tracker.Shows total positions) (too : other.Shows total others)
    (same : ∀ position, position ∈ others ↔ position ∈ positions) :
    other.percent = tracker.percent := by
  have members (percent : Float) : percent ∈ 0.0 :: percentages total others ↔
      percent ∈ 0.0 :: percentages total positions := by
    simp only [List.mem_cons, mem_percentages_iff, same]
  have value : (ofFloat other.percent).value = (ofFloat tracker.percent).value := by
    refine le_antisymm ?_ ?_
    · rw [← le_iff_value_le too.isPercentage.finite shows.isPercentage.finite]
      exact shows.largest.le _ ((members _).mp too.largest.mem)
    · rw [← le_iff_value_le shows.isPercentage.finite too.isPercentage.finite]
      exact too.largest.le _ ((members _).mpr shows.largest.mem)
  -- Equal values are one number unless they are zero, and minus zero is never shown.
  rcases too.plusZero with zero | positive
  · rcases shows.plusZero with alsoZero | positive
    · rw [zero, alsoZero]
    · rw [zero, value_ofFloat_zero] at value
      exact absurd positive.2 value.not_lt
  · rcases shows.plusZero with zero | alsoPositive
    · rw [zero, value_ofFloat_zero] at value
      exact absurd positive.2 value.not_gt
    · exact positive.eq_of_value_eq alsoPositive value

end Shows

/-- What a tracker shows and answers when positions come in. -/
structure Furthest (total : Float) (positions : List Float) : Prop where
  largest : Largest ((start total).follow positions).percent (0.0 :: percentages total positions)
  unmeasurable : ¬ IsPositive total → ((start total).follow positions).percent = 0.0
  rising : Rising 0.0 ((start total).answers positions).reduceOption
  /-- A position is answered exactly when it exceeds all before it. -/
  answered : ∀ before next behind, positions = before ++ next :: behind → ∀ percent,
    ((start total).answers positions)[before.length]? = some (some percent) ↔
      percent ∈ percentages total [next] ∧
        ∀ earlier ∈ 0.0 :: percentages total before, earlier < percent
  /-- Order and repetition do not matter. -/
  unordered : ∀ others, (∀ position, position ∈ others ↔ position ∈ positions) →
    ((start total).follow others).percent = ((start total).follow positions).percent
  /-- The percentages are the exact ones, clamped and rounded to one decimal. -/
  near : IsPositive total → ∀ position ∈ positions, position.isFinite = true →
    OneDecimal (percentAt total position) (exactPercent total position) (2 ^ (-43 : Int))

/-- Whatever positions come in, the tracker shows the furthest and answers with each new one. -/
theorem furthest_shown (total : Float) (positions : List Float) : Furthest total positions where
  largest := (shows_follow total positions).largest
  unmeasurable := by
    intro unmeasurable
    have shown := (shows_follow total positions).largest.mem
    simpa [percentages, unmeasurable] using shown
  rising := answers_rising (start total) positions isPercentage_zero
  answered := by
    rintro before next behind rfl percent
    rw [getElem?_answers, Option.some.injEq]
    exact (shows_follow total before).answer_iff next percent
  unordered := by
    intro others same
    exact (shows_follow total positions).percent_eq (shows_follow total others) same
  near := by
    intro positive position _ finite
    exact (percentAt_near positive finite).2

example : (start 80.0).answers [20.0, 10.0, 0.0 / 0.0, 60.0, 1.0e300, 90.0] =
    [some 25.0, none, none, some 75.0, some 99.0, none] := by decide +kernel

end Tracker

end Montage.Export
