import Montage.Timeline.Placement

/-!
Contract: the video lane.

Clips are laid one after another in the order of their offsets, and every gap
wider than the tolerance becomes a filler, the gap behind the last clip
included. Overlapping clips are not layered: the later one follows.

Owns: lane order, gaps, and the length of a timeline.
-/

namespace Montage

open Montage.Number

variable {α : Type} [Seconds α]

/-- Gaps up to this many seconds are left out. -/
def gapTolerance : α := 0.01

def lastFinish (clips : List (PlacedClip α)) : α :=
  clips.foldl (fun latest clip => larger latest clip.finish) 0.0

/-- The length of a timeline: the override, or where the last clip ends. -/
def timelineDuration (clips : List (PlacedClip α)) (override? : Option α) : α :=
  override?.getD (lastFinish clips)

namespace Lane

inductive Segment (α : Type) where
  | filler (duration : α)
  | clip (clip : PlacedClip α)
deriving DecidableEq, Repr

/-- Lane order: by offset, then by input, then by position in the timeline. -/
def notAfter (x y : PlacedClip α) : Bool :=
  if Seconds.notAfter x.offset y.offset then
    if Seconds.notAfter y.offset x.offset then
      x.input < y.input || x.input == y.input && x.index ≤ y.index
    else true
  else false

/-- Puts a clip before the first clip it does not come after. -/
def insert (clip : PlacedClip α) : List (PlacedClip α) → List (PlacedClip α)
  | [] => [clip]
  | other :: rest =>
    if notAfter clip other then clip :: other :: rest else other :: insert clip rest

/-- The clips in lane order; clips that compare equal keep their order. -/
def order (clips : List (PlacedClip α)) : List (PlacedClip α) :=
  clips.foldr insert []

/-- The filler of a gap, when the gap is wide enough to need one. -/
def fill (gap : α) : List (Segment α) :=
  if (gapTolerance : α) < gap then [.filler gap] else []

/-- Lays ordered clips from a position on and fills up to `total`. -/
def lay (total position : α) : List (PlacedClip α) → List (Segment α)
  | [] => fill (total - position)
  | clip :: rest =>
    fill (clip.offset - position) ++ .clip clip :: lay total clip.finish rest

/-- The lane of some clips, filled up to `total`. -/
def segments (clips : List (PlacedClip α)) (total : α) : List (Segment α) :=
  lay total 0.0 (order clips)

end Lane

end Montage
