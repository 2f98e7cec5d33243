import Montage.Proofs.Timeline.LaneOrder
import Montage.Proofs.Timeline.ValidClip

/-!
Contract: where black filler stands.

A filler reaches back from the next clip, or from the end of the timeline, to
the end of the clip before it. `black_is_free_iff` says exactly when no clip
occupies any point that fillers stand for: the clip before each filler must end
last of all clips so far. A short clip inside a longer one breaks this, since
laying goes back to the end of the short one; `nested_clip_covers_filler` shows
one.

Owns: the points a clip occupies, the fillers a lane has, and the exact
condition under which they are free.
-/

namespace Montage

open Montage.Number

/-- A clip occupies the timeline from its start up to, but not including, its end. -/
def PlacedClip.Occupies (clip : PlacedClip Rat) (time : Rat) : Prop :=
  clip.offset ≤ time ∧ time < clip.finish

namespace Lane

/-! ## The fillers of a lane -/

section Lay

variable {α : Type} [Seconds α]

/-- Where laying some clips from a position on arrives. -/
def reached (position : α) : List (PlacedClip α) → α
  | [] => position
  | clip :: rest => reached clip.finish rest

theorem reached_append_singleton (position : α) (earlier : List (PlacedClip α))
    (clip : PlacedClip α) : reached position (earlier ++ [clip]) = clip.finish := by
  induction earlier generalizing position with
  | nil => rfl
  | cons first rest inductionHypothesis => exact inductionHypothesis first.finish

theorem fill_of_wide {gap : α} (wide : (gapTolerance : α) < gap) :
    fill gap = [.filler gap] :=
  if_pos wide

theorem fill_of_not_wide {gap : α} (narrow : ¬ (gapTolerance : α) < gap) :
    fill gap = ([] : List (Segment α)) :=
  if_neg narrow

theorem fill_length_le (gap : α) : (fill gap).length ≤ 1 := by
  simp only [fill]
  split <;> simp

/-- A filler before a clip belongs to the first clip laid, or to the lane behind it. -/
theorem filler_before_clip_cases {position duration : α} {first clip : PlacedClip α}
    {lane before after : List (Segment α)}
    (laid : fill (first.offset - position) ++ .clip first :: lane =
      before ++ .filler duration :: .clip clip :: after) :
    (first = clip ∧ duration = clip.offset - position ∧ (gapTolerance : α) < duration) ∨
      ∃ front, lane = front ++ .filler duration :: .clip clip :: after := by
  by_cases wide : (gapTolerance : α) < first.offset - position
  · rw [fill_of_wide wide] at laid
    rcases before with _ | ⟨gapFiller, _ | ⟨firstClip, front⟩⟩
    · simp only [List.cons_append, List.nil_append, List.cons.injEq, Segment.filler.injEq,
        Segment.clip.injEq] at laid
      obtain ⟨rfl, rfl, -⟩ := laid
      exact Or.inl ⟨rfl, rfl, wide⟩
    · simp at laid
    · simp only [List.cons_append, List.nil_append, List.cons.injEq] at laid
      exact Or.inr ⟨front, laid.2.2⟩
  · rw [fill_of_not_wide wide] at laid
    rcases before with _ | ⟨firstClip, front⟩
    · simp at laid
    · simp only [List.cons_append, List.nil_append, List.cons.injEq] at laid
      exact Or.inr ⟨front, laid.2⟩

/-- A filler of some length stands right before a clip of the lane exactly when it is the gap in
front of that clip and the gap is wide. -/
theorem filler_before_clip_iff {total position duration : α} {clips : List (PlacedClip α)}
    {clip : PlacedClip α} :
    (∃ before after, lay total position clips = before ++ .filler duration :: .clip clip :: after) ↔
      ∃ earlier later, clips = earlier ++ clip :: later ∧
        duration = clip.offset - reached position earlier ∧ (gapTolerance : α) < duration := by
  induction clips generalizing position with
  | nil =>
      -- A lane without clips is one filler at most.
      simp only [lay, List.nil_eq, List.append_eq_nil_iff, reduceCtorEq, and_false, false_and,
        exists_const, iff_false, not_exists]
      intro before after equal
      have short := fill_length_le (total - position)
      rw [equal] at short
      simp only [List.length_append, List.length_cons] at short
      omega
  | cons first rest inductionHypothesis =>
      constructor
      · rintro ⟨before, after, laid⟩
        rcases filler_before_clip_cases laid with ⟨rfl, gap, wide⟩ | ⟨front, behind⟩
        · exact ⟨[], rest, rfl, gap, wide⟩
        · obtain ⟨earlier, later, rfl, gap⟩ := inductionHypothesis.mp ⟨front, after, behind⟩
          exact ⟨first :: earlier, later, rfl, gap⟩
      · rintro ⟨earlier, later, equal, gap, wide⟩
        rcases earlier with _ | ⟨start, earlier⟩
        · simp only [List.nil_append, List.cons.injEq] at equal
          obtain ⟨rfl, rfl⟩ := equal
          simp only [reached] at gap
          subst gap
          exact ⟨[], lay total first.finish rest, by simp [lay, fill_of_wide wide]⟩
        · simp only [List.cons_append, List.cons.injEq] at equal
          obtain ⟨rfl, rfl⟩ := equal
          obtain ⟨before, after, laid⟩ := inductionHypothesis.mpr ⟨earlier, later, rfl, gap, wide⟩
          exact ⟨fill (first.offset - position) ++ .clip first :: before, after, by simp [lay, laid]⟩

/-- The lane ends with a filler of some length exactly when it is the gap behind the last clip and
the gap is wide. -/
theorem trailing_filler_iff {total position duration : α} {clips : List (PlacedClip α)} :
    (∃ before, lay total position clips = before ++ [.filler duration]) ↔
      duration = total - reached position clips ∧ (gapTolerance : α) < duration := by
  rw [← List.getLast?_eq_some_iff]
  induction clips generalizing position with
  | nil =>
      simp only [lay, reached]
      by_cases wide : (gapTolerance : α) < total - position
      · simp only [fill_of_wide wide, List.getLast?_singleton, Option.some.injEq,
          Segment.filler.injEq]
        constructor
        · rintro rfl
          exact ⟨rfl, wide⟩
        · rintro ⟨rfl, -⟩
          rfl
      · simp only [fill_of_not_wide wide, List.getLast?_nil, reduceCtorEq, false_iff]
        rintro ⟨rfl, reallyWide⟩
        exact wide reallyWide
  | cons first rest inductionHypothesis =>
      simp only [reached]
      rw [← inductionHypothesis, lay, List.getLast?_append, List.getLast?_cons]
      -- The clip in front is never the filler at the end.
      cases (lay total first.finish rest).getLast? <;> simp

end Lay

/-! ## Free stretches -/

/-- No clip occupies any point strictly between two times. -/
def Free (clips : List (PlacedClip Rat)) (low high : Rat) : Prop :=
  ∀ clip ∈ clips, ∀ time, low < time → time < high → ¬ clip.Occupies time

/-- Every filler of the lane stands for a stretch of the timeline that no clip occupies. -/
def BlackIsFree (clips : List (PlacedClip Rat)) (total : Rat) : Prop :=
  (∀ before duration clip after,
      segments clips total = before ++ .filler duration :: .clip clip :: after →
        Free clips (clip.offset - duration) clip.offset) ∧
    ∀ before duration, segments clips total = before ++ [.filler duration] →
      Free clips (total - duration) total

/-- Wherever the lane leaves a wide gap, no clip ends later than the one in front of the gap. -/
def GapsFollowLastEnd (clips : List (PlacedClip Rat)) (total : Rat) : Prop :=
  (∀ earlier clip later, order clips = earlier ++ clip :: later →
      (gapTolerance : Rat) < clip.offset - reached 0.0 earlier →
        ∀ other ∈ earlier, other.finish ≤ reached 0.0 earlier) ∧
    ((gapTolerance : Rat) < total - reached 0.0 (order clips) →
      ∀ other ∈ clips, other.finish ≤ reached 0.0 (order clips))

theorem gapTolerance_pos : (0 : Rat) < gapTolerance := by
  norm_num [gapTolerance]

theorem free_append_iff {first second : List (PlacedClip Rat)} {low high : Rat} :
    Free (first ++ second) low high ↔ Free first low high ∧ Free second low high := by
  simp only [Free, List.mem_append, or_imp, forall_and]

theorem free_order_iff {clips : List (PlacedClip Rat)} {low high : Rat} :
    Free (order clips) low high ↔ Free clips low high := by
  simp only [Free, mem_order]

theorem free_of_start_after {later : List (PlacedClip Rat)} {low high : Rat}
    (starts : ∀ clip ∈ later, high ≤ clip.offset) : Free later low high := by
  intro clip member time _ before occupied
  exact absurd occupied.1 (not_le.mpr (before.trans_le (starts clip member)))

theorem offset_le_reached (position : Rat) {earlier : List (PlacedClip Rat)}
    (valid : ∀ clip ∈ earlier, clip.Valid)
    (sorted : earlier.Pairwise fun x y => x.offset ≤ y.offset) {clip : PlacedClip Rat}
    (member : clip ∈ earlier) : clip.offset ≤ reached position earlier := by
  obtain rfl | ⟨front, last, rfl⟩ := List.eq_nil_or_concat earlier
  · cases member
  · rw [List.concat_eq_append] at *
    rw [reached_append_singleton]
    have lastEnds : last.offset ≤ last.finish := (valid last (by simp)).offset_lt_finish.le
    rcases List.mem_append.mp member with inFront | isLast
    · exact ((List.pairwise_append.mp sorted).2.2 clip inFront last (by simp)).trans lastEnds
    · rw [List.mem_singleton.mp isLast]
      exact lastEnds

/-- Behind clips that start one after another, the stretch up to `high` is free of them exactly when
none of them ends after the last one. -/
theorem free_behind_iff {earlier : List (PlacedClip Rat)} {position high : Rat}
    (valid : ∀ clip ∈ earlier, clip.Valid)
    (sorted : earlier.Pairwise fun x y => x.offset ≤ y.offset)
    (wide : reached position earlier < high) :
    Free earlier (reached position earlier) high ↔
      ∀ other ∈ earlier, other.finish ≤ reached position earlier := by
  constructor
  · intro free other member
    by_contra late
    rw [not_le] at late
    have started := offset_le_reached position valid sorted member
    obtain ⟨time, after, before⟩ := exists_between (lt_min wide late)
    exact free other member time after (lt_of_lt_of_le before (min_le_left _ _))
      ⟨started.trans after.le, lt_of_lt_of_le before (min_le_right _ _)⟩
  · intro bounded other member time after before occupied
    exact absurd (occupied.2.trans_le (bounded other member)) (not_lt.mpr after.le)

theorem lt_of_gap_wide {position high : Rat} (wide : (gapTolerance : Rat) < high - position) :
    position < high :=
  sub_pos.mp (gapTolerance_pos.trans wide)

/-- The stretch in front of a clip of the lane is free exactly when no earlier clip ends after the
clip before it. -/
theorem free_before_clip_iff {clips earlier later : List (PlacedClip Rat)} {clip : PlacedClip Rat}
    (valid : ∀ clip ∈ clips, clip.Valid) (split : order clips = earlier ++ clip :: later)
    (wide : (gapTolerance : Rat) < clip.offset - reached 0.0 earlier) :
    Free clips (reached 0.0 earlier) clip.offset ↔
      ∀ other ∈ earlier, other.finish ≤ reached 0.0 earlier := by
  have sorted := order_offsets clips
  rw [split, List.pairwise_append, List.pairwise_cons] at sorted
  have earlierValid : ∀ other ∈ earlier, other.Valid := by
    intro other member
    exact valid other (mem_order.mp (by simp [split, member]))
  have laterFree : Free (clip :: later) (reached 0.0 earlier) clip.offset := by
    refine free_of_start_after ?_
    intro other member
    rcases List.mem_cons.mp member with rfl | inLater
    · exact le_refl _
    · exact sorted.2.1.1 other inLater
  rw [← free_order_iff, split, free_append_iff, and_iff_left laterFree,
    free_behind_iff earlierValid sorted.1 (lt_of_gap_wide wide)]

/-- The stretch behind the whole lane is free exactly when no clip ends after the last one. -/
theorem free_behind_lane_iff {clips : List (PlacedClip Rat)} {total : Rat}
    (valid : ∀ clip ∈ clips, clip.Valid)
    (wide : (gapTolerance : Rat) < total - reached 0.0 (order clips)) :
    Free clips (reached 0.0 (order clips)) total ↔
      ∀ other ∈ clips, other.finish ≤ reached 0.0 (order clips) := by
  have orderValid : ∀ other ∈ order clips, other.Valid := fun other member =>
    valid other (mem_order.mp member)
  rw [← free_order_iff, free_behind_iff orderValid (order_offsets clips) (lt_of_gap_wide wide)]
  simp only [mem_order]

/-- Fillers stand for free stretches exactly when every wide gap follows the latest end so far. -/
theorem black_is_free_iff {clips : List (PlacedClip Rat)} {total : Rat}
    (valid : ∀ clip ∈ clips, clip.Valid) :
    BlackIsFree clips total ↔ GapsFollowLastEnd clips total := by
  refine and_congr ⟨?_, ?_⟩ ⟨?_, ?_⟩
  · intro black earlier clip later split wide
    obtain ⟨before, after, laid⟩ :=
      filler_before_clip_iff.mpr ⟨earlier, later, split, rfl, wide⟩
    have free := black before _ clip after laid
    rw [sub_sub_cancel] at free
    exact (free_before_clip_iff valid split wide).mp free
  · intro follows before duration clip after laid
    obtain ⟨earlier, later, split, rfl, wide⟩ := filler_before_clip_iff.mp ⟨before, after, laid⟩
    rw [sub_sub_cancel]
    exact (free_before_clip_iff valid split wide).mpr (follows earlier clip later split wide)
  · intro black wide
    obtain ⟨before, laid⟩ := trailing_filler_iff.mpr ⟨rfl, wide⟩
    have free := black before _ laid
    rw [sub_sub_cancel] at free
    exact (free_behind_lane_iff valid wide).mp free
  · intro follows before duration laid
    obtain ⟨rfl, wide⟩ := trailing_filler_iff.mp ⟨before, laid⟩
    rw [sub_sub_cancel]
    exact (free_behind_lane_iff valid wide).mpr (follows wide)

/-! ## A nested clip -/

/-- A clip with picture of some length, at full speed. -/
def pictureAt (index : Nat) (offset length : Rat) : PlacedClip Rat :=
  ⟨index, ⟨"film"⟩, 0, offset, 0, length, 1, 100, 0, false, true, 1920, 1080⟩

/-- The second clip lies inside the first, and the third starts while the first still plays. -/
def nestedClips : List (PlacedClip Rat) :=
  [pictureAt 0 0 10, pictureAt 1 2 1, pictureAt 2 8 1]

theorem black_is_free_iff_nested :
    (∀ clip ∈ nestedClips, clip.Valid) ∧
      (BlackIsFree nestedClips 10 ↔ GapsFollowLastEnd nestedClips 10) :=
  have valid : ∀ clip ∈ nestedClips, clip.Valid := by decide +kernel
  ⟨valid, black_is_free_iff valid⟩

/-- The filler in front of the third clip covers three seconds to eight, where the first plays. -/
theorem nested_clip_covers_filler :
    (∀ clip ∈ nestedClips, clip.Valid) ∧ (nestedClips.map (·.index)).Nodup ∧
      ¬ BlackIsFree nestedClips 10 := by
  refine ⟨by decide +kernel, by decide, ?_⟩
  intro black
  have laid : segments nestedClips 10 =
      [.clip (pictureAt 0 0 10), .clip (pictureAt 1 2 1)] ++
        .filler 5 :: .clip (pictureAt 2 8 1) :: [.filler 1] := by decide +kernel
  have occupied : (pictureAt 0 0 10).Occupies 5 :=
    ⟨by decide +kernel, by decide +kernel⟩
  exact black.1 _ _ _ _ laid (pictureAt 0 0 10) (by simp [nestedClips]) 5
    (by decide +kernel) (by decide +kernel) occupied

end Lane

end Montage
