import Montage.Media.Asset

/-!
Contract: timelines as users write them.

A timeline places clips of media files on a time axis; a clip may be trimmed,
sped up or slowed down, and made louder or softer.

Owns: output formats, clips and timelines.
Does not own: validation, in `Timeline.Placement`.
-/

namespace Montage

open Montage.Number
open Montage.Media

inductive OutputFormat where
  | mp4
  | mp3
deriving DecidableEq, Repr

namespace OutputFormat

def extension : OutputFormat → String
  | .mp4 => "mp4"
  | .mp3 => "mp3"

def isAudioOnly : OutputFormat → Bool
  | .mp4 => false
  | .mp3 => true

/-- The format with exactly this extension. -/
def ofExtension? (text : String) : Option OutputFormat :=
  if text = "mp4" then some .mp4
  else if text = "mp3" then some .mp3
  else none

/-- Lower case for ASCII letters; other characters stay. -/
def lowered (text : String) : String :=
  String.ofList (text.toList.map Char.toLower)

/-- Reads a format in any case of letters; the refusal shows the text in lower case. -/
def read (text : String) : Except String OutputFormat :=
  match ofExtension? (lowered text) with
  | some format => .ok format
  | none =>
    .error ("unsupported output format '" ++ lowered text ++ "' (expected mp4 or mp3)")

end OutputFormat

/-- Gain in percent that leaves a clip as loud as it is. -/
def unityVolume {α : Type} [Seconds α] : α := 100.0

structure Clip (α : Type) where
  fileId : FileId
  /-- Where the clip starts on the timeline, in seconds. -/
  offset : α
  /-- First second of the file that plays; the beginning when absent. -/
  trimStart : Option α
  /-- Last second of the file that plays; the end when absent. -/
  trimEnd : Option α
  speed : α
  volume : α
  track : Nat
deriving DecidableEq, Repr

/-- Clips in the order given, with an optional length that overrides theirs. -/
structure Timeline (α : Type) where
  clips : List (Clip α)
  duration : Option α
  format : OutputFormat
deriving DecidableEq, Repr

namespace Timeline

/-- The overriding length, when it is finite and positive. -/
def durationOverride? {α : Type} [Seconds α] (timeline : Timeline α) : Option α :=
  timeline.duration.filter fun d => Seconds.isFinite d && decide ((0.0 : α) < d)

end Timeline

end Montage
