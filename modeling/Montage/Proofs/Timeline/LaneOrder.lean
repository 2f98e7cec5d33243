import Mathlib.Algebra.Order.Ring.Rat
import Mathlib.Tactic.Linarith
import Mathlib.Tactic.NormNum
import Montage.Timeline.Lane

/-!
Contract: the order of clips on the video lane.

Owns: that lane order loses no clip and repeats none, that a lane plays its
clips in that order, that it is sorted, and what sorted means for offsets that
are exact rationals.
Does not own: gaps and fillers.
-/

namespace Montage

open Montage.Number

/-- Kinds of number whose sorting comparison is a total preorder. -/
class SortedSeconds (α : Type) [Seconds α] : Prop where
  total : ∀ x y : α, Seconds.notAfter x y = true ∨ Seconds.notAfter y x = true
  trans : ∀ x y z : α, Seconds.notAfter x y = true → Seconds.notAfter y z = true →
    Seconds.notAfter x z = true

theorem notAfter_rat_iff (x y : Rat) : Seconds.notAfter x y = true ↔ x ≤ y := by
  simp [Seconds.notAfter]

instance : SortedSeconds Rat where
  total x y := by
    simp only [notAfter_rat_iff]
    exact le_total x y
  trans x y z := by
    simp only [notAfter_rat_iff]
    exact le_trans

namespace Lane

section Order

variable {α : Type} [Seconds α]

theorem insert_perm (clip : PlacedClip α) (clips : List (PlacedClip α)) :
    (insert clip clips).Perm (clip :: clips) := by
  induction clips with
  | nil => exact List.Perm.refl _
  | cons other rest inductionHypothesis =>
      simp only [insert]
      split
      · exact List.Perm.refl _
      · exact (inductionHypothesis.cons other).trans (List.Perm.swap clip other rest)

theorem order_perm (clips : List (PlacedClip α)) : (order clips).Perm clips := by
  induction clips with
  | nil => exact List.Perm.refl _
  | cons clip rest inductionHypothesis =>
      exact (insert_perm clip (order rest)).trans (inductionHypothesis.cons clip)

theorem mem_order {clip : PlacedClip α} {clips : List (PlacedClip α)} :
    clip ∈ order clips ↔ clip ∈ clips :=
  (order_perm clips).mem_iff

def Segment.clip? : Segment α → Option (PlacedClip α)
  | .filler _ => none
  | .clip placed => some placed

/-- A gap is filled when it is wide, by a filler as long as itself. -/
theorem filler_mem_fill_iff {gap duration : α} :
    .filler duration ∈ fill gap ↔ (gapTolerance : α) < gap ∧ duration = gap := by
  unfold fill
  split <;> simp [*]

theorem fill_clips (gap : α) : (fill gap).filterMap Segment.clip? = [] := by
  unfold fill
  split <;> rfl

theorem lay_clips (total position : α) (clips : List (PlacedClip α)) :
    (lay total position clips).filterMap Segment.clip? = clips := by
  induction clips generalizing position with
  | nil => exact fill_clips _
  | cons clip rest inductionHypothesis =>
      simp only [lay, List.filterMap_append, fill_clips, List.nil_append, List.filterMap_cons,
        Segment.clip?, inductionHypothesis]

/-- A lane plays its clips in lane order, whatever fillers stand between them. -/
theorem segments_clips (clips : List (PlacedClip α)) (total : α) :
    (segments clips total).filterMap Segment.clip? = order clips :=
  lay_clips total 0.0 (order clips)

theorem notAfter_iff (x y : PlacedClip α) :
    notAfter x y = true ↔
      Seconds.notAfter x.offset y.offset = true ∧
        (Seconds.notAfter y.offset x.offset = true →
          x.input < y.input ∨ x.input = y.input ∧ x.index ≤ y.index) := by
  simp only [notAfter]
  split
  · split <;> simp_all
  · simp_all

variable [SortedSeconds α]

theorem notAfter_total (x y : PlacedClip α) : notAfter x y = true ∨ notAfter y x = true := by
  simp only [notAfter_iff]
  have total := SortedSeconds.total x.offset y.offset
  by_cases forward : Seconds.notAfter x.offset y.offset = true
  · by_cases backward : Seconds.notAfter y.offset x.offset = true
    · simp only [forward, backward, true_and, forall_const]
      omega
    · simp [forward, backward]
  · simp [forward, total.resolve_left forward]

theorem notAfter_trans {x y z : PlacedClip α} (first : notAfter x y = true)
    (second : notAfter y z = true) : notAfter x z = true := by
  rw [notAfter_iff] at first second ⊢
  refine ⟨SortedSeconds.trans _ _ _ first.1 second.1, ?_⟩
  intro backward
  -- All three offsets are level, so the later keys of both steps count.
  have firstKeys := first.2 (SortedSeconds.trans _ _ _ second.1 backward)
  have secondKeys := second.2 (SortedSeconds.trans _ _ _ backward first.1)
  omega

theorem insert_sorted {clip : PlacedClip α} {clips : List (PlacedClip α)}
    (sorted : clips.Pairwise fun x y => notAfter x y = true) :
    (insert clip clips).Pairwise fun x y => notAfter x y = true := by
  induction clips with
  | nil => exact List.pairwise_singleton _ _
  | cons other rest inductionHypothesis =>
      rw [List.pairwise_cons] at sorted
      simp only [insert]
      split
      · next before =>
          refine List.Pairwise.cons ?_ (List.pairwise_cons.mpr sorted)
          intro later member
          rcases List.mem_cons.mp member with rfl | inRest
          · exact before
          · exact notAfter_trans before (sorted.1 later inRest)
      · next notBefore =>
          refine List.Pairwise.cons ?_ (inductionHypothesis sorted.2)
          intro later member
          rcases List.mem_cons.mp ((insert_perm clip rest).mem_iff.mp member) with rfl | inRest
          · exact (notAfter_total later other).resolve_left notBefore
          · exact sorted.1 later inRest

/-- In lane order no clip comes after a later one. -/
theorem order_sorted (clips : List (PlacedClip α)) :
    (order clips).Pairwise fun x y => notAfter x y = true := by
  induction clips with
  | nil => exact List.Pairwise.nil
  | cons clip rest inductionHypothesis => exact insert_sorted inductionHypothesis

end Order

theorem order_offsets (clips : List (PlacedClip Rat)) :
    (order clips).Pairwise fun x y => x.offset ≤ y.offset := by
  refine (order_sorted clips).imp ?_
  intro x y before
  exact (notAfter_rat_iff _ _).mp ((notAfter_iff x y).mp before).1

end Lane

end Montage
