import Mathlib.Data.List.Chain
import Mathlib.Data.List.Nodup
import Montage.Proofs.Timeline.LaneOrder

/-!
Contract: a video lane depends on the set of its clips alone.

Lane order compares offsets, then inputs, then positions in the timeline. The
positions are distinct, so the comparison is a strict order on the clips at hand
and leaves one way to put them: `lane_of_clip_set` says what a lane looks like,
and that shuffling the clips does not change it.

Owns: the strict order of clips, where fillers can stand, and that lanes of
shuffled clips are equal, for rounded and for exact offsets.
Does not own: how long fillers are, in `Proofs.Timeline.Accounting`.
-/

namespace Montage

open Montage.Number

/-- Rounded offsets are sorted by a rank, with `-0` before `0` and undefined numbers at the ends. -/
instance : SortedSeconds Float where
  total x y := by
    simp only [Seconds.notAfter, decide_eq_true_eq]
    exact le_total _ _
  trans x y z := by
    simp only [Seconds.notAfter, decide_eq_true_eq]
    exact le_trans

namespace Lane

section Order

variable {α : Type} [Seconds α]

/-- Strictly before in the lane: by offset, then by input, then by position in the timeline. -/
def Before (x y : PlacedClip α) : Prop :=
  Seconds.notAfter y.offset x.offset = false ∨
    (Seconds.notAfter x.offset y.offset = true ∧ Seconds.notAfter y.offset x.offset = true ∧
      (x.input < y.input ∨ (x.input = y.input ∧ x.index < y.index)))

theorem before_of_notAfter {x y : PlacedClip α} (sorted : notAfter x y = true)
    (apart : x.index ≠ y.index) : Before x y := by
  rw [notAfter_iff] at sorted
  obtain ⟨offsets, keys⟩ := sorted
  cases backward : Seconds.notAfter y.offset x.offset with
  | false => exact Or.inl backward
  | true =>
      have later := keys backward
      exact Or.inr ⟨offsets, backward, by omega⟩

theorem index_eq_of_notAfter {x y : PlacedClip α} (forward : notAfter x y = true)
    (backward : notAfter y x = true) : x.index = y.index := by
  rw [notAfter_iff] at forward backward
  have firstKeys := forward.2 backward.1
  have secondKeys := backward.2 forward.1
  omega

end Order

/-! ## Where fillers stand -/

section Fillers

variable {α : Type}

def Segment.IsFiller (segment : Segment α) : Prop := segment.clip? = none

theorem fillers_apart_cons (clip : PlacedClip α) {lane : List (Segment α)}
    (apart : lane.IsChain fun x y => ¬ (x.IsFiller ∧ y.IsFiller)) :
    (Segment.clip clip :: lane).IsChain fun x y => ¬ (x.IsFiller ∧ y.IsFiller) := by
  rw [List.isChain_cons]
  refine ⟨?_, apart⟩
  rintro next - ⟨isFiller, -⟩
  cases isFiller

variable [Seconds α]

theorem wide_of_mem_lay {total position duration : α} {clips : List (PlacedClip α)}
    (member : .filler duration ∈ lay total position clips) : (gapTolerance : α) < duration := by
  have wide {gap : α} (inFill : .filler duration ∈ fill gap) : (gapTolerance : α) < duration := by
    obtain ⟨above, rfl⟩ := filler_mem_fill_iff.mp inFill
    exact above
  induction clips generalizing position with
  | nil => exact wide member
  | cons clip rest inductionHypothesis =>
      rcases List.mem_append.mp member with inFront | behind
      · exact wide inFront
      · rcases List.mem_cons.mp behind with isClip | inRest
        · cases isClip
        · exact inductionHypothesis inRest

/-- Between two fillers there is a clip. -/
theorem fillers_apart_lay (total position : α) (clips : List (PlacedClip α)) :
    (lay total position clips).IsChain fun x y => ¬ (x.IsFiller ∧ y.IsFiller) := by
  induction clips generalizing position with
  | nil =>
      simp only [lay, fill]
      split
      · exact List.isChain_singleton _
      · exact List.isChain_nil
  | cons clip rest inductionHypothesis =>
      have behind := fillers_apart_cons clip (inductionHypothesis clip.finish)
      simp only [lay, fill]
      split
      · rw [List.singleton_append, List.isChain_cons]
        refine ⟨?_, behind⟩
        rintro next isNext ⟨-, isFiller⟩
        cases isNext
        cases isFiller
      · exact behind

end Fillers

/-! ## One lane for one set of clips -/

section Lanes

variable {α : Type} [Seconds α]

/-- A lane that plays each of some clips once, in order, with fillers only where they are needed. -/
structure Orderly (clips : List (PlacedClip α)) (lane : List (Segment α)) : Prop where
  plays : (lane.filterMap Segment.clip?).Perm clips
  ordered : (lane.filterMap Segment.clip?).Pairwise Before
  apart : lane.IsChain fun x y => ¬ (x.IsFiller ∧ y.IsFiller)
  wide : ∀ duration, .filler duration ∈ lane → (0.01 : α) < duration

variable [SortedSeconds α] {clips : List (PlacedClip α)}

theorem order_before (distinct : (clips.map (·.index)).Nodup) : (order clips).Pairwise Before := by
  have indices : ((order clips).map (·.index)).Nodup :=
    ((order_perm clips).map _).nodup_iff.mpr distinct
  have apart : (order clips).Pairwise fun x y => x.index ≠ y.index := List.pairwise_map.mp indices
  refine (List.pairwise_and_iff.mpr ⟨order_sorted clips, apart⟩).imp ?_
  rintro x y ⟨sorted, other⟩
  exact before_of_notAfter sorted other

/-- Sorted lists of the same clips with distinct positions are equal. -/
theorem order_of_perm {shuffled : List (PlacedClip α)} (distinct : (clips.map (·.index)).Nodup)
    (shuffles : shuffled.Perm clips) : order shuffled = order clips := by
  have together : (order shuffled).Perm (order clips) :=
    ((order_perm shuffled).trans shuffles).trans (order_perm clips).symm
  refine together.eq_of_pairwise ?_ (order_sorted shuffled) (order_sorted clips)
  intro x y inShuffled inClips forward backward
  have first : x ∈ clips := shuffles.mem_iff.mp (mem_order.mp inShuffled)
  have second : y ∈ clips := mem_order.mp inClips
  exact List.inj_on_of_nodup_map distinct first second (index_eq_of_notAfter forward backward)

/-- A lane plays its clips once each in lane order, and it is the same lane however the clips are
shuffled. -/
theorem lane_of_clip_set (distinct : (clips.map (·.index)).Nodup) (total : α) :
    Orderly clips (segments clips total) ∧
      ∀ shuffled : List (PlacedClip α), shuffled.Perm clips →
        segments shuffled total = segments clips total := by
  constructor
  · refine ⟨?_, ?_, fillers_apart_lay _ _ _, fun _ => wide_of_mem_lay⟩
    · rw [segments_clips]
      exact order_perm clips
    · rw [segments_clips]
      exact order_before distinct
  · intro shuffled shuffles
    unfold segments
    rw [order_of_perm distinct shuffles]

end Lanes

/-- Three clips at one offset, two of them of one file, behind a clip at the other zero. -/
def levelClips : List (PlacedClip Float) :=
  [(3, 1, 0.5), (1, 0, 0.5), (2, 0, 0.5), (0, 1, -0.0)].map fun (index, input, offset) =>
    ⟨index, ⟨"film"⟩, input, offset, 0.0, 1.0, 1.0, 100.0, 0, false, true, 1920, 1080⟩

theorem lane_of_level_clips :
    (levelClips.map (·.index)).Nodup ∧
      (Orderly levelClips (segments levelClips 2.0) ∧
        ∀ shuffled : List (PlacedClip Float), shuffled.Perm levelClips →
          segments shuffled 2.0 = segments levelClips 2.0) :=
  have distinct : (levelClips.map (·.index)).Nodup := by decide
  ⟨distinct, lane_of_clip_set distinct 2.0⟩

end Lane

end Montage
