import Montage.Number.Seconds
import Montage.Number.Shortest

/-!
Contract: the processing stages of a filter graph and their text.

Owns: the stages with their parameters and the grammar each is written in.
Does not own: chains and labels, in `Graph.Chain`.
-/

namespace Montage.Graph

open Montage.Number

/-- What becomes of presentation timestamps. -/
inductive Pts (α : Type) where
  | restart
  /-- Timestamps are multiplied by a factor. -/
  | scale (factor : α)
deriving DecidableEq, Repr

/-- One stage with its parameters. -/
inductive Filter (α : Type) where
  | trim (start finish : α)
  | audioTrim (start finish : α)
  | setPts (pts : Pts α)
  | audioSetPts (pts : Pts α)
  /-- Change of tempo without change of pitch. -/
  | tempo (factor : α)
  | delay (millis : Nat)
  /-- Linear gain; one leaves the sound as it is. -/
  | volume (gain : α)
  /-- Fits the picture inside a box and keeps its aspect ratio. -/
  | scaleToFit (width height : Nat)
  /-- Pads the picture to a box and centres it. -/
  | padCentered (width height : Nat)
  | sampleAspect (ratio : Nat)
  /-- A black picture of a size, length and frame rate. -/
  | black (width height : Nat) (duration : α) (rate : Nat)
  /-- The sum of the inputs, as long as the longest. -/
  | mix (inputs : Nat)
  /-- The inputs one after another, picture only. -/
  | concat (segments : Nat)
deriving DecidableEq, Repr

def natText (n : Nat) : String := String.ofList (digits n)

/-- Text of a frame size with a mark between width and height. -/
def sizeText (mark : String) (width height : Nat) : String :=
  natText width ++ mark ++ natText height

def Pts.text : Pts Float → String
  | .restart => "PTS-STARTPTS"
  | .scale factor => fixed 6 factor ++ "*PTS"

def Filter.text : Filter Float → String
  | .trim start finish => "trim=start=" ++ shortest start ++ ":end=" ++ shortest finish
  | .audioTrim start finish => "atrim=start=" ++ shortest start ++ ":end=" ++ shortest finish
  | .setPts pts => "setpts=" ++ pts.text
  | .audioSetPts pts => "asetpts=" ++ pts.text
  | .tempo factor => "atempo=" ++ fixed 6 factor
  | .delay millis => "adelay=" ++ natText millis ++ ":all=1"
  | .volume gain => "volume=" ++ fixed 2 gain
  | .scaleToFit width height =>
    "scale=" ++ sizeText ":" width height ++ ":force_original_aspect_ratio=decrease"
  | .padCentered width height => "pad=" ++ sizeText ":" width height ++ ":(ow-iw)/2:(oh-ih)/2"
  | .sampleAspect ratio => "setsar=" ++ natText ratio
  | .black width height duration rate =>
    "color=c=black:s=" ++ sizeText "x" width height ++ ":d=" ++ fixed 6 duration ++ ":r=" ++
      natText rate
  | .mix inputs =>
    "amix=inputs=" ++ natText inputs ++ ":duration=longest:dropout_transition=0:normalize=0"
  | .concat segments => "concat=n=" ++ natText segments ++ ":v=1:a=0"

end Montage.Graph
