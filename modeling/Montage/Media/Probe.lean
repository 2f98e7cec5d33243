import Montage.Error

/-!
Contract: from the streams of a probed file to the facts the catalog keeps.

Embedded cover art is reported as a video stream but is no picture. The last
video stream decides the frame size. A file needs a positive length.
-/

namespace Montage.Media

open Montage.Number

structure Probed (α : Type) where
  duration : α
  hasVideo : Bool
  hasAudio : Bool
  width : Nat
  height : Nat
deriving DecidableEq, Repr

structure Stream where
  kind : Option String
  codec : Option String
  width : Option Int
  height : Option Int
deriving DecidableEq, Repr

namespace Stream

/-- Codecs of embedded pictures. -/
def pictureCodecs : List String := ["mjpeg", "png"]

def isVideo (stream : Stream) : Bool :=
  stream.kind == some "video" && !(stream.codec.any fun codec => pictureCodecs.contains codec)

def isAudio (stream : Stream) : Bool :=
  stream.kind == some "audio"

/-- Frame sides stay below this. -/
def sideLimit : Int := 4294967296

/-- A frame side; a missing, negative or oversized one counts as zero. -/
def side : Option Int → Nat
  | some value => if 0 ≤ value ∧ value < sideLimit then value.toNat else 0
  | none => 0

end Stream

namespace Probed

variable {α : Type}

def addStream (media : Probed α) (stream : Stream) : Probed α :=
  if stream.isVideo then
    { media with
      hasVideo := true
      width := Stream.side stream.width
      height := Stream.side stream.height }
  else if stream.isAudio then { media with hasAudio := true }
  else media

/-- A file of some length of which no stream is known yet. -/
def ofDuration (duration : α) : Probed α := ⟨duration, false, false, 0, 0⟩

end Probed

def isLength {α : Type} [Seconds α] (duration : α) : Bool :=
  Seconds.isFinite duration && decide ((0.0 : α) < duration)

/-- The facts of a file from its length and its streams in order. -/
def summarize {α : Type} [Seconds α] (path : String) (duration : Option α)
    (streams : List Stream) : Except Error (Probed α) :=
  match duration.filter isLength with
  | some length => .ok (streams.foldl Probed.addStream (.ofDuration length))
  | none => .error (.unsupportedMedia (path ++ " has no positive duration"))

end Montage.Media
