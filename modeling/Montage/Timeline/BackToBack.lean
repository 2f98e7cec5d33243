import Montage.Timeline.Basic

/-!
Contract: files laid end to end.

Each file becomes one clip of its whole length that starts where the one before
ends. Without any picture among the files the timeline is sound only.
-/

namespace Montage

open Montage.Number
open Montage.Media

variable {α : Type} [Seconds α]

/-- A clip of a whole file at normal speed and loudness. -/
def Clip.whole (asset : Asset α) (offset : α) : Clip α where
  fileId := asset.id
  offset := offset
  trimStart := some 0.0
  trimEnd := some asset.duration
  speed := 1.0
  volume := unityVolume
  track := 0

/-- Clips one after another from an offset on. -/
def clipsFrom (offset : α) : List (Asset α) → List (Clip α)
  | [] => []
  | asset :: rest => Clip.whole asset offset :: clipsFrom (offset + asset.duration) rest

def backToBack (assets : List (Asset α)) : Timeline α where
  clips := clipsFrom 0.0 assets
  duration := none
  format := if assets.any (·.hasVideo) then .mp4 else .mp3

end Montage
