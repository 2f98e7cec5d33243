import Montage.Graph.Chain
import Montage.Number.Word
import Montage.Timeline.Lane

/-!
Contract: the chains of the two sides of a graph.

Every clip with sound gets a chain of its own, and several chains are mixed.
Every entry of the video lane gets a chain, and several are concatenated. A
single chain needs no joining and is the output itself.

Owns: the chains of clips and fillers, the frame size, and the joining chains.
-/

namespace Montage.Compile

open Montage.Number
open Montage.Graph

variable {α : Type} [Seconds α]

/-- A label of a family, told apart by a number. -/
def numbered (family : String) (n : Nat) : Label := ⟨family ++ natText n⟩

/-- The chains of one side, and the label of what they produce. -/
structure Side (α : Type) where
  chains : List (Chain α)
  output : Option Label
deriving DecidableEq, Repr

/-- Joins chains by one more chain; a single chain stays alone. -/
def joined (chains : List (Chain α)) (label : Label) (join : Nat → Graph.Filter α) : Side α :=
  match chains with
  | [] => ⟨[], none⟩
  | [only] => ⟨[only], some only.output⟩
  | _ =>
    let sources := chains.map fun chain => Source.label chain.output
    ⟨chains ++ [⟨sources, [join chains.length], label⟩], some label⟩

/-! ## Sound -/

namespace Audio

def mixLabel : Label := ⟨"outa"⟩

/-- The delay that brings a clip to its offset, in whole milliseconds. -/
def delay? (clip : PlacedClip α) : Option (Graph.Filter α) :=
  let millis := Seconds.wholePart (clip.offset * 1000.0)
  if 0 < millis then some (.delay millis) else none

/-- The gain of a clip, unless it is exactly one. -/
def gain? (clip : PlacedClip α) : Option (Graph.Filter α) :=
  if clip.volume == unityVolume then none else some (.volume (clip.volume / unityVolume))

/-- Trims the source, restarts its timestamps, retimes, delays and amplifies it. -/
def clipChain (clip : PlacedClip α) : Chain α where
  sources := [.input clip.input .audio]
  filters :=
    [.audioTrim clip.trimStart clip.trimEnd, .audioSetPts .restart] ++ Speed.filters clip.speed ++
      (delay? clip).toList ++ (gain? clip).toList
  output := numbered "a" clip.index

def assemble (clips : List (PlacedClip α)) : Side α :=
  joined ((clips.filter (·.hasAudio)).map clipChain) mixLabel .mix

end Audio

/-! ## Picture -/

structure Resolution where
  width : Nat
  height : Nat
deriving DecidableEq, Repr

def Resolution.text (resolution : Resolution) : String :=
  sizeText "x" resolution.width resolution.height

namespace Video

def concatLabel : Label := ⟨"outv"⟩

/-- The size of a picture when no clip tells one. -/
def fallbackResolution : Resolution := ⟨1920, 1080⟩

def fillerFrameRate : Nat := 30

/-- The next even number, as a word of 32 bits. -/
def roundUpEven (n : Nat) : Nat := wordOf (n + n % 2)

/-- The largest side of clips with a picture. -/
def most (side : PlacedClip α → Nat) (clips : List (PlacedClip α)) : Nat :=
  (clips.filter (·.hasVideo)).foldl (fun most clip => max most (side clip)) 0

/-- The largest width and the largest height, rounded up to even. -/
def resolution (clips : List (PlacedClip α)) : Resolution :=
  if most (·.width) clips = 0 ∨ most (·.height) clips = 0 then fallbackResolution
  else ⟨roundUpEven (most (·.width) clips), roundUpEven (most (·.height) clips)⟩

/-- The frame size in a build, which may stop where a side is rounded. -/
def resolutionIn? (build : Build) (clips : List (PlacedClip α)) : Option Resolution :=
  if most (·.width) clips = 0 ∨ most (·.height) clips = 0 then some fallbackResolution
  else do
    let width ← build.word? (most (·.width) clips + most (·.width) clips % 2)
    let height ← build.word? (most (·.height) clips + most (·.height) clips % 2)
    some ⟨width, height⟩

/-- Stretches timestamps against the speed, unless the speed is one. -/
def stretch? (speed : α) : Option (Graph.Filter α) :=
  if Speed.isUnity speed then none else some (.setPts (.scale (1.0 / speed)))

/-- Trims the source, restarts and stretches its timestamps, and fits it to the frame. -/
def clipChain (size : Resolution) (clip : PlacedClip α) : Chain α where
  sources := [.input clip.input .video]
  filters :=
    [.trim clip.trimStart clip.trimEnd, .setPts .restart] ++ (stretch? clip.speed).toList ++
      [.scaleToFit size.width size.height, .padCentered size.width size.height, .sampleAspect 1]
  output := numbered "v" clip.index

def fillerChain (size : Resolution) (ordinal : Nat) (duration : α) : Chain α where
  sources := []
  filters := [.black size.width size.height duration fillerFrameRate, .sampleAspect 1]
  output := numbered "blk" ordinal

/-- The chains of a lane; fillers are numbered from `ordinal` on. -/
def laneChains (size : Resolution) (ordinal : Nat) : List (Lane.Segment α) → List (Chain α)
  | [] => []
  | .filler duration :: rest =>
    fillerChain size ordinal duration :: laneChains size (ordinal + 1) rest
  | .clip clip :: rest => clipChain size clip :: laneChains size ordinal rest

/-- Clips with a picture in frames of one size, filled up to `total`. -/
def framed (video : List (PlacedClip α)) (total : α) (size : Resolution) : Side α × Resolution :=
  (joined (laneChains size 0 (Lane.segments video total)) concatLabel .concat, size)

/-- The video side, filled up to `total`; there is none when no clip has a picture. -/
def assemble? (clips : List (PlacedClip α)) (total : α) : Option (Side α × Resolution) :=
  let video := clips.filter (·.hasVideo)
  if video.isEmpty then none else some (framed video total (resolution video))

/-- The video side in a build, unless the build stops. -/
def assembleIn? (build : Build) (clips : List (PlacedClip α)) (total : α) :
    Option (Option (Side α × Resolution)) :=
  let video := clips.filter (·.hasVideo)
  if video.isEmpty then some none
  else (resolutionIn? build video).map fun size => some (framed video total size)

end Video

end Montage.Compile
