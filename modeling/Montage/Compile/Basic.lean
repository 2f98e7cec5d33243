import Montage.Compile.Assembly

/-!
Contract: a timeline compiled to a filter graph.

Compiling is a function of the timeline and the catalog alone. A timeline that
cannot be exported is refused before there is any graph.
-/

namespace Montage

open Montage.Number
open Montage.Media
open Montage.Graph
open Montage.Compile (Resolution Side)

/-- What the engine is to be told. -/
structure Compiled (α : Type) where
  /-- Paths of the files, each once, in the order of first use. -/
  inputs : List String
  graph : FilterGraph α
  videoOutput : Option Label
  audioOutput : Option Label
  duration : α
  resolution : Option Resolution
deriving DecidableEq, Repr

namespace Compiled

/-- The streams of the output, the picture first. -/
def outputLabels {α : Type} (compiled : Compiled α) : List Label :=
  compiled.videoOutput.toList ++ compiled.audioOutput.toList

end Compiled

variable {α : Type} [Seconds α]

/-- The video side of placed clips, unless the output is sound only. -/
def videoSide? (format : OutputFormat) (clips : List (PlacedClip α)) (duration : α) :
    Option (Side α × Resolution) :=
  if format.isAudioOnly then none else Compile.Video.assemble? clips duration

/-- Puts two sides into one graph, unless neither has an output. -/
def link (inputs : List String) (duration : α) (audio : Side α)
    (video : Option (Side α × Resolution)) : Except (CompileError α) (Compiled α) :=
  let videoChains := (video.map fun side => side.1.chains).getD []
  let videoOutput := video.bind fun side => side.1.output
  if videoOutput.isNone && audio.output.isNone then .error .noOutputStreams
  else
    .ok
      { inputs := inputs
        graph := (FilterGraph.empty.extend audio.chains).extend videoChains
        videoOutput := videoOutput
        audioOutput := audio.output
        duration := duration
        resolution := video.map Prod.snd }

/-- Puts the two sides of placed clips into one graph. -/
def assemble (timeline : Timeline α) (clips : List (PlacedClip α)) (inputs : List String) :
    Except (CompileError α) (Compiled α) :=
  let duration := timelineDuration clips timeline.durationOverride?
  link inputs duration (Compile.Audio.assemble clips) (videoSide? timeline.format clips duration)

def compile (timeline : Timeline α) (catalog : IdMap (Asset α)) :
    Except (CompileError α) (Compiled α) :=
  match placeClips catalog timeline.clips with
  | .error e => .error e
  | .ok (clips, files) => assemble timeline clips (files.map Prod.snd)

/-! ## Builds -/

def videoSideIn? (build : Build) (format : OutputFormat) (clips : List (PlacedClip α))
    (duration : α) : Option (Option (Side α × Resolution)) :=
  if format.isAudioOnly then some none else Compile.Video.assembleIn? build clips duration

/-- Compiles in a build. Every build compiles alike, except that one which checks its sums stops
where the frame size does not fit. -/
def compileIn (build : Build) (timeline : Timeline α) (catalog : IdMap (Asset α)) :
    Option (Except (CompileError α) (Compiled α)) :=
  match placeClips catalog timeline.clips with
  | .error e => some (.error e)
  | .ok (clips, files) =>
    let duration := timelineDuration clips timeline.durationOverride?
    (videoSideIn? build timeline.format clips duration).map
      (link (files.map Prod.snd) duration (Compile.Audio.assemble clips))

end Montage
