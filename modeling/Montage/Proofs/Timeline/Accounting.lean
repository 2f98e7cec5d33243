import Mathlib.Tactic.Ring
import Montage.Proofs.Timeline.Filler

/-!
Contract: how long a lane is, and where on it each clip starts.

Laying compares every clip with the end of the clip before it. A gap of at most
a hundredth of a second is dropped: nothing stands for it, and all that comes
later moves by its length. So what a lane is short of is what its dropped gaps
sum to, and without dropped gaps it tiles the timeline.

Owns: the gaps of a lane, the length of its segments, and the account of both.
Does not own: whether a filler stands for a free stretch, in
`Proofs.Timeline.Filler`.
-/

namespace Montage.Lane

open Montage.Number

/-! ## Gaps -/

/-- The gaps in front of clips laid from a position on, and behind them the gap up to `total`. -/
def gapsFrom (position : Rat) (clips : List (PlacedClip Rat)) (total : Rat) : List Rat :=
  List.zipWith (fun start finish => start - finish) (clips.map (·.offset) ++ [total])
    (position :: clips.map (·.finish))

/-- The gaps of a lane: one in front of each clip in lane order, and one at its end. -/
def gaps (clips : List (PlacedClip Rat)) (total : Rat) : List Rat :=
  gapsFrom 0 (order clips) total

/-- What the gaps that nothing stands for sum to. -/
def droppedLength (gaps : List Rat) : Rat :=
  (gaps.filter fun gap => gap ≤ 1 / 100).sum

theorem gapsFrom_nil (position total : Rat) : gapsFrom position [] total = [total - position] := rfl

theorem gapsFrom_cons (position total : Rat) (clip : PlacedClip Rat)
    (rest : List (PlacedClip Rat)) :
    gapsFrom position (clip :: rest) total =
      (clip.offset - position) :: gapsFrom clip.finish rest total := rfl

theorem length_gapsFrom (position total : Rat) (clips : List (PlacedClip Rat)) :
    (gapsFrom position clips total).length = clips.length + 1 := by
  simp [gapsFrom]

theorem droppedLength_nil : droppedLength [] = 0 := rfl

theorem droppedLength_cons (gap : Rat) (rest : List Rat) :
    droppedLength (gap :: rest) = (if gap ≤ 1 / 100 then gap else 0) + droppedLength rest := by
  unfold droppedLength
  rw [List.filter_cons]
  by_cases narrow : gap ≤ 1 / 100
  · rw [if_pos narrow, if_pos (decide_eq_true narrow), List.sum_cons]
  · rw [if_neg narrow, if_neg (by simpa using narrow), zero_add]

/-- Gaps that are not negative are dropped only up to the tolerance each. -/
theorem droppedLength_bounds {gaps : List Rat} (forward : ∀ gap ∈ gaps, 0 ≤ gap) :
    0 ≤ droppedLength gaps ∧ droppedLength gaps ≤ 1 / 100 * gaps.length := by
  induction gaps with
  | nil => simp [droppedLength_nil]
  | cons gap rest inductionHypothesis =>
      obtain ⟨nonneg, most⟩ := inductionHypothesis fun later member => forward later (by simp [member])
      have here := forward gap (by simp)
      rw [droppedLength_cons, List.length_cons]
      push_cast
      split
      · constructor <;> linarith
      · constructor <;> linarith

/-! ## Lengths -/

/-- How long a segment plays. -/
def Segment.length : Segment Rat → Rat
  | .filler duration => duration
  | .clip placed => placed.effectiveDuration

def laneLength (lane : List (Segment Rat)) : Rat := (lane.map Segment.length).sum

theorem laneLength_append (first second : List (Segment Rat)) :
    laneLength (first ++ second) = laneLength first + laneLength second := by
  simp [laneLength]

theorem laneLength_cons (segment : Segment Rat) (rest : List (Segment Rat)) :
    laneLength (segment :: rest) = segment.length + laneLength rest := by
  simp [laneLength]

/-- What stands for a gap: a filler of its length, unless the gap is dropped. -/
def bridge (gap : Rat) : List (Segment Rat) :=
  if gap ≤ 1 / 100 then [] else [.filler gap]

/-- Clips in turn, each behind the bridge of the gap in front of it. -/
def bridged : List Rat → List (PlacedClip Rat) → List (Segment Rat)
  | gap :: gaps, clip :: clips => bridge gap ++ .clip clip :: bridged gaps clips
  | gaps, [] => gaps.flatMap bridge
  | [], clips => clips.map .clip

theorem fill_eq_bridge (gap : Rat) : fill gap = bridge gap := by
  have tolerance : (gapTolerance : Rat) = 1 / 100 := by norm_num [gapTolerance]
  unfold fill bridge
  rw [tolerance]
  by_cases narrow : gap ≤ 1 / 100
  · rw [if_pos narrow, if_neg (not_lt.mpr narrow)]
  · rw [if_neg narrow, if_pos (not_le.mp narrow)]

theorem laneLength_bridge (gap : Rat) :
    laneLength (bridge gap) = gap - if gap ≤ 1 / 100 then gap else 0 := by
  unfold bridge
  split
  · simp [laneLength]
  · simp [laneLength, Segment.length]

/-! ## Laying -/

theorem lay_eq_bridged (total position : Rat) (clips : List (PlacedClip Rat)) :
    lay total position clips = bridged (gapsFrom position clips total) clips := by
  induction clips generalizing position with
  | nil => simp [lay, gapsFrom_nil, bridged, fill_eq_bridge]
  | cons clip rest inductionHypothesis =>
      rw [lay, gapsFrom_cons, bridged, fill_eq_bridge, inductionHypothesis]

/-- A lane reaches from its position to `total`, less what it drops. -/
theorem laneLength_lay (total position : Rat) (clips : List (PlacedClip Rat)) :
    laneLength (lay total position clips) =
      total - position - droppedLength (gapsFrom position clips total) := by
  induction clips generalizing position with
  | nil =>
      rw [lay, fill_eq_bridge, laneLength_bridge, gapsFrom_nil, droppedLength_cons,
        droppedLength_nil, add_zero]
  | cons clip rest inductionHypothesis =>
      rw [lay, fill_eq_bridge, laneLength_append, laneLength_bridge, laneLength_cons,
        inductionHypothesis, gapsFrom_cons, droppedLength_cons]
      simp only [Segment.length, PlacedClip.finish]
      ring

/-- What stands in front of a clip is as long as the way to its offset, less what is dropped up to
it. -/
theorem lay_before (total position : Rat) (earlier later : List (PlacedClip Rat))
    (clip : PlacedClip Rat) :
    ∃ before after, lay total position (earlier ++ clip :: later) = before ++ .clip clip :: after ∧
      before.filterMap Segment.clip? = earlier ∧
      laneLength before = clip.offset - position -
        droppedLength ((gapsFrom position (earlier ++ clip :: later) total).take
          (earlier.length + 1)) := by
  induction earlier generalizing position with
  | nil =>
      refine ⟨fill (clip.offset - position), lay total clip.finish later, rfl, fill_clips _, ?_⟩
      rw [fill_eq_bridge, laneLength_bridge, List.nil_append, gapsFrom_cons, List.length_nil,
        List.take_succ_cons, List.take_zero, droppedLength_cons, droppedLength_nil, add_zero]
  | cons first rest inductionHypothesis =>
      obtain ⟨before, after, laid, plays, length⟩ := inductionHypothesis first.finish
      refine ⟨fill (first.offset - position) ++ .clip first :: before, after, ?_, ?_, ?_⟩
      · rw [List.cons_append, lay, laid, List.append_assoc, List.cons_append]
      · rw [List.filterMap_append, fill_clips, List.nil_append, List.filterMap_cons, plays]
        rfl
      · rw [laneLength_append, fill_eq_bridge, laneLength_bridge, laneLength_cons, length,
          List.cons_append, gapsFrom_cons, List.length_cons, List.take_succ_cons,
          droppedLength_cons]
        simp only [Segment.length, PlacedClip.finish]
        ring

/-! ## Tiling -/

/-- A clip stands at its offset; a filler may stand anywhere. -/
def Segment.FitsAt (time : Rat) : Segment Rat → Prop
  | .filler _ => True
  | .clip placed => placed.offset = time

/-- Segments follow one another from one time to another without a gap, each of positive length and
each clip at its offset. -/
def Tiles : Rat → List (Segment Rat) → Rat → Prop
  | start, [], stop => start = stop
  | start, segment :: rest, stop =>
    segment.FitsAt start ∧ 0 < segment.length ∧ Tiles (start + segment.length) rest stop

theorem tiles_bridge {gap position stop : Rat} {lane : List (Segment Rat)}
    (clean : gap = 0 ∨ 1 / 100 < gap) (tiles : Tiles (position + gap) lane stop) :
    Tiles position (bridge gap ++ lane) stop := by
  rcases clean with rfl | wide
  · rw [add_zero] at tiles
    simpa [bridge] using tiles
  · have positive : 0 < gap := by linarith
    rw [bridge, if_neg (not_le.mpr wide)]
    exact ⟨trivial, positive, tiles⟩

theorem tiles_lay {total position : Rat} {clips : List (PlacedClip Rat)}
    (valid : ∀ clip ∈ clips, clip.Valid)
    (clean : ∀ gap ∈ gapsFrom position clips total, gap = 0 ∨ 1 / 100 < gap) :
    Tiles position (lay total position clips) total := by
  induction clips generalizing position with
  | nil =>
      have atEnd : Tiles (position + (total - position)) [] total := by
        show position + (total - position) = total
        ring
      have tiles := tiles_bridge (clean (total - position) (by simp [gapsFrom_nil])) atEnd
      rw [lay, fill_eq_bridge]
      simpa using tiles
  | cons clip rest inductionHypothesis =>
      rw [gapsFrom_cons] at clean
      have behind : Tiles clip.finish (lay total clip.finish rest) total := by
        apply inductionHypothesis
        · intro later member
          exact valid later (by simp [member])
        · intro gap member
          exact clean gap (by simp [member])
      rw [lay, fill_eq_bridge]
      apply tiles_bridge (clean (clip.offset - position) (by simp))
      have reached : position + (clip.offset - position) = clip.offset := by ring
      rw [reached]
      exact ⟨rfl, (valid clip (by simp)).effectiveDuration_pos, behind⟩

/-! ## The account of a lane -/

/-- What a lane consists of, where its clips start, and how long it is. -/
structure Accounted (clips : List (PlacedClip Rat)) (total : Rat) : Prop where
  /-- A gap that is not dropped has one filler of its length, and there are no other fillers. -/
  laid : segments clips total = bridged (gaps clips total) (order clips)
  /-- A clip starts at its offset, less what is dropped up to it. -/
  starts : ∀ earlier clip later, order clips = earlier ++ clip :: later →
    ∃ before after, segments clips total = before ++ .clip clip :: after ∧
      before.filterMap Segment.clip? = earlier ∧
      laneLength before =
        clip.offset - droppedLength ((gaps clips total).take (earlier.length + 1))
  length : laneLength (segments clips total) = total - droppedLength (gaps clips total)
  /-- Without overlaps a lane is never too long, and short by the tolerance per gap at most. -/
  shortfall : (∀ gap ∈ gaps clips total, 0 ≤ gap) →
    0 ≤ total - laneLength (segments clips total) ∧
      total - laneLength (segments clips total) ≤ 1 / 100 * (clips.length + 1)
  /-- Without dropped gaps every clip starts at its offset and the lane reaches `total`. -/
  tiles : (∀ gap ∈ gaps clips total, gap = 0 ∨ 1 / 100 < gap) →
    Tiles 0 (segments clips total) total

theorem segments_eq_lay (clips : List (PlacedClip Rat)) (total : Rat) :
    segments clips total = lay total 0 (order clips) := by
  have zero : (0.0 : Rat) = 0 := by norm_num
  rw [segments, zero]

theorem laneLength_segments (clips : List (PlacedClip Rat)) (total : Rat) :
    laneLength (segments clips total) = total - droppedLength (gaps clips total) := by
  rw [segments_eq_lay, laneLength_lay, sub_zero, gaps]

theorem segments_before {clips earlier later : List (PlacedClip Rat)} {clip : PlacedClip Rat}
    (total : Rat) (split : order clips = earlier ++ clip :: later) :
    ∃ before after, segments clips total = before ++ .clip clip :: after ∧
      before.filterMap Segment.clip? = earlier ∧
      laneLength before =
        clip.offset - droppedLength ((gaps clips total).take (earlier.length + 1)) := by
  obtain ⟨before, after, laid, plays, length⟩ := lay_before total 0 earlier later clip
  refine ⟨before, after, ?_, plays, ?_⟩
  · rw [segments_eq_lay, split, laid]
  · rw [length, gaps, split, sub_zero]

/-- Every lane of valid clips is accounted for, whatever overlaps and gaps it has. -/
theorem lane_accounted {clips : List (PlacedClip Rat)} (total : Rat)
    (valid : ∀ clip ∈ clips, clip.Valid) : Accounted clips total where
  laid := by
    rw [segments_eq_lay, lay_eq_bridged, gaps]
  starts := by
    intro earlier clip later split
    exact segments_before total split
  length := laneLength_segments clips total
  shortfall := by
    intro forward
    obtain ⟨nonneg, most⟩ := droppedLength_bounds forward
    have count : (gaps clips total).length = clips.length + 1 := by
      rw [gaps, length_gapsFrom, (order_perm clips).length_eq]
    rw [count] at most
    push_cast at most
    rw [laneLength_segments]
    constructor <;> linarith
  tiles := by
    intro clean
    rw [segments_eq_lay]
    apply tiles_lay
    · intro clip member
      exact valid clip (mem_order.mp member)
    · exact clean

/-- A gap of half a second, one that is dropped, and clips that overlap. -/
theorem lane_accounted_overlapping :
    (∀ clip ∈ [pictureAt 0 (1 / 2) 2, pictureAt 1 (501 / 200) 3, pictureAt 2 4 1], clip.Valid) ∧
      Accounted [pictureAt 0 (1 / 2) 2, pictureAt 1 (501 / 200) 3, pictureAt 2 4 1] 8 ∧
      gaps [pictureAt 0 (1 / 2) 2, pictureAt 1 (501 / 200) 3, pictureAt 2 4 1] 8 =
        [1 / 2, 1 / 200, -(301 / 200), 3] := by
  have valid : ∀ clip ∈ [pictureAt 0 (1 / 2) 2, pictureAt 1 (501 / 200) 3, pictureAt 2 4 1],
      clip.Valid := by decide +kernel
  exact ⟨valid, lane_accounted 8 valid, by decide +kernel⟩

end Montage.Lane
