import Montage.Proofs.Number.Differences
import Montage.Proofs.Timeline.LaneSet
import Montage.Proofs.Timeline.ValidClip

/-!
Contract: what stays finite on a timeline of rounded numbers.

Validation checks the numbers of a clip one by one; what is computed from them
may still leave the range. A trimmed length is finite, but slowed down it may
become infinite, and with it the end of the clip. No gap in front of such an end
is finite and none is wide, so every filler is finite when the length of the
timeline is.

Owns: the signs of ends and gaps, and finite fillers.
Does not own: how these numbers are printed, in `Proofs.Compile.PrintedNumbers`.
-/

namespace Montage

open Montage.Number
open Montage.Number.Binary64

theorem nonneg_of_not_lt {x : Float} (finite : x.isFinite = true) (notBelow : ¬ x < 0.0) :
    0 ≤ (ofFloat x).value := by
  rwa [lt_iff_value_lt (isFinite_iff.mp finite) (by decide), value_ofFloat_zero, not_lt] at notBelow

theorem nonneg_of_isCount {x : Float} (counted : isCount x = true) :
    x.isFinite = true ∧ 0 ≤ (ofFloat x).value := by
  simp only [isCount, Bool.and_eq_true, Bool.not_eq_true', decide_eq_false_iff_not] at counted
  exact ⟨counted.1, nonneg_of_not_lt counted.1 counted.2⟩

namespace PlacedClip.Valid

variable {clip : PlacedClip Float}

theorem isPositive_speed (valid : clip.Valid) : IsPositive clip.speed := by
  obtain ⟨finite, above⟩ := valid.speed
  refine ⟨finite, ?_⟩
  rwa [le_iff_value_le (isFinite_iff.mp finite) (by decide), value_ofFloat_zero, not_le] at above

/-- A trimmed length is finite and not negative. -/
theorem isFinite_trimmed (valid : clip.Valid) : (clip.trimEnd - clip.trimStart).isFinite = true ∧
    0 ≤ (ofFloat (clip.trimEnd - clip.trimStart)).value := by
  obtain ⟨startFinite, startNonneg⟩ := nonneg_of_isCount valid.trimStart
  obtain ⟨endFinite, above⟩ := valid.trimEnd
  rw [le_iff_value_le (isFinite_iff.mp endFinite) (isFinite_iff.mp startFinite), not_le] at above
  have finite := isFinite_sub endFinite startFinite (startNonneg.trans above.le) startNonneg
  refine ⟨finite, ?_⟩
  rcases (signedRounds_sub endFinite startFinite).notNegative (sub_nonneg.mpr above.le) with
    ⟨-, nonneg⟩ | unbounded
  · exact nonneg
  · rw [isFinite_iff, unbounded] at finite
    cases finite

/-- The end of a clip may be infinite, but it is not negative. -/
theorem notNegative_finish (valid : clip.Valid) : NotNegative clip.finish := by
  obtain ⟨offsetFinite, offsetNonneg⟩ := nonneg_of_isCount valid.offset
  obtain ⟨finite, nonneg⟩ := valid.isFinite_trimmed
  exact .add offsetFinite offsetNonneg (.div finite nonneg valid.isPositive_speed)

end PlacedClip.Valid

namespace Lane

section Fillers

variable {α : Type} [Seconds α]

/-- A filler is as long as a gap: from where the lane is, or the end of a clip, to where a clip
starts, or the lane ends. -/
theorem gap_of_filler {total position gap : α} {clips : List (PlacedClip α)}
    (member : .filler gap ∈ lay total position clips) :
    ∃ stop start, gap = stop - start ∧
      (stop = total ∨ ∃ clip ∈ clips, stop = clip.offset) ∧
      (start = position ∨ ∃ clip ∈ clips, start = clip.finish) := by
  induction clips generalizing position with
  | nil =>
      obtain ⟨-, isGap⟩ := filler_mem_fill_iff.mp member
      exact ⟨total, position, isGap, Or.inl rfl, Or.inl rfl⟩
  | cons clip rest inductionHypothesis =>
      rw [lay, List.mem_append, List.mem_cons] at member
      rcases member with before | isClip | behind
      · obtain ⟨-, isGap⟩ := filler_mem_fill_iff.mp before
        exact ⟨clip.offset, position, isGap, Or.inr ⟨clip, List.mem_cons_self, rfl⟩, Or.inl rfl⟩
      · cases isClip
      · obtain ⟨stop, start, isGap, isStop, isStart⟩ := inductionHypothesis behind
        refine ⟨stop, start, isGap, ?_, Or.inr ?_⟩
        · rcases isStop with isTotal | ⟨later, inRest, same⟩
          · exact Or.inl isTotal
          · exact Or.inr ⟨later, List.mem_cons_of_mem clip inRest, same⟩
        · rcases isStart with isFinish | ⟨later, inRest, same⟩
          · exact ⟨clip, List.mem_cons_self, isFinish⟩
          · exact ⟨later, List.mem_cons_of_mem clip inRest, same⟩

end Fillers

/-- On a timeline of finite length every filler of valid clips is finite. -/
theorem isFinite_filler {clips : List (PlacedClip Float)} {total gap : Float}
    (valid : ∀ clip ∈ clips, clip.Valid) (finite : total.isFinite = true)
    (nonneg : 0 ≤ (ofFloat total).value) (member : .filler gap ∈ segments clips total) :
    gap.isFinite = true ∧ (gapTolerance : Float) < gap := by
  have wide : (gapTolerance : Float) < gap := wide_of_mem_lay member
  refine ⟨?_, wide⟩
  obtain ⟨stop, start, rfl, isStop, isStart⟩ := gap_of_filler member
  have stopCounts : stop.isFinite = true ∧ 0 ≤ (ofFloat stop).value := by
    rcases isStop with rfl | ⟨clip, listed, rfl⟩
    · exact ⟨finite, nonneg⟩
    · exact nonneg_of_isCount (valid clip (mem_order.mp listed)).offset
  have startNotNegative : NotNegative start := by
    rcases isStart with rfl | ⟨clip, listed, rfl⟩
    · exact Or.inl ⟨by decide, value_ofFloat_zero.ge⟩
    · exact (valid clip (mem_order.mp listed)).notNegative_finish
  exact isFinite_sub_of_lt stopCounts.1 stopCounts.2 startNotNegative wide

end Lane

end Montage
