import Montage.Media.IdMap
import Montage.Timeline.Basic
import Montage.Timeline.Speed

/-!
Contract: clips resolved against the media they use.

Placing a clip fills its defaults from the file and checks its numbers in a
fixed order; the first fault is reported. Files are numbered by first use.

Owns: placed clips, the faults of clips, and the placing of all clips.
-/

namespace Montage

open Montage.Number
open Montage.Media

/-- How far a trim may reach beyond a length that was rounded to milliseconds. -/
def trimTolerance {α : Type} [Seconds α] : α := 0.001

/-- A clip with its file's facts, ready to be assembled. -/
structure PlacedClip (α : Type) where
  /-- Position in the timeline's list of clips; labels are numbered by it. -/
  index : Nat
  fileId : FileId
  /-- Position of the clip's file among the inputs. -/
  input : Nat
  offset : α
  trimStart : α
  trimEnd : α
  speed : α
  volume : α
  track : Nat
  hasAudio : Bool
  hasVideo : Bool
  width : Nat
  height : Nat
deriving DecidableEq, Repr

namespace PlacedClip

variable {α : Type} [Seconds α]

/-- Length on the timeline, speed applied. -/
def effectiveDuration (clip : PlacedClip α) : α :=
  (clip.trimEnd - clip.trimStart) / clip.speed

/-- Where the clip ends on the timeline. -/
def finish (clip : PlacedClip α) : α :=
  clip.offset + clip.effectiveDuration

end PlacedClip

inductive ClipFault (α : Type) where
  | offset (value : α)
  | trimStart (value : α)
  | trimOrder (finish start : α)
  | trimBeyondFile (finish : α) (name : String) (duration : α)
  | speed (value : α)
  | volume (value : α)
deriving DecidableEq, Repr

def ClipFault.text : ClipFault Float → String
  | .offset value => "offset " ++ shortest value ++ " must be >= 0"
  | .trimStart value => "trimStart " ++ shortest value ++ " must be >= 0"
  | .trimOrder finish start =>
    "trimEnd " ++ shortest finish ++ " must be greater than trimStart " ++ shortest start
  | .trimBeyondFile finish name duration =>
    "trimEnd " ++ shortest finish ++ " exceeds the duration of " ++ name ++ " (" ++
      shortest duration ++ ")"
  | .speed value => "speed " ++ shortest value ++ " must be > 0"
  | .volume value => "volume " ++ shortest value ++ " must be >= 0"

/-- Why a timeline cannot be compiled. -/
inductive CompileError (α : Type) where
  | noClips
  | unknownFile (index : Nat) (id : FileId)
  | invalidClip (index : Nat) (fault : ClipFault α)
  | noOutputStreams
deriving DecidableEq, Repr

section Placing

variable {α : Type} [Seconds α]

/-- A number that is finite and not negative. -/
def isCount (x : α) : Bool := Seconds.isFinite x && !decide (x < (0.0 : α))

/-- The first fault of a clip, its defaults filled in from the file. -/
def Clip.fault? (clip : Clip α) (asset : Asset α) : Option (ClipFault α) :=
  let start := clip.trimStart.getD 0.0
  let finish := clip.trimEnd.getD asset.duration
  if !isCount clip.offset then some (.offset clip.offset)
  else if !isCount start then some (.trimStart start)
  else if !Seconds.isFinite finish || decide (finish ≤ start) then some (.trimOrder finish start)
  else if asset.duration + trimTolerance < finish then
    some (.trimBeyondFile finish asset.name asset.duration)
  else if !Seconds.isFinite clip.speed || decide (clip.speed ≤ (0.0 : α)) then
    some (.speed clip.speed)
  else if !isCount clip.volume then some (.volume clip.volume)
  else none

def Clip.placed (clip : Clip α) (asset : Asset α) (index input : Nat) : PlacedClip α where
  index := index
  fileId := clip.fileId
  input := input
  offset := clip.offset
  trimStart := clip.trimStart.getD 0.0
  trimEnd := clip.trimEnd.getD asset.duration
  speed := clip.speed
  volume := clip.volume
  track := clip.track
  hasAudio := asset.hasAudio
  hasVideo := asset.hasVideo
  width := asset.width
  height := asset.height

def Clip.place (clip : Clip α) (asset : Asset α) (index input : Nat) :
    Except (CompileError α) (PlacedClip α) :=
  match clip.fault? asset with
  | some fault => .error (.invalidClip index fault)
  | none => .ok (clip.placed asset index input)

/-- Places clips in order; `used` lists the files met so far, each with its path. -/
def placeFrom (catalog : IdMap (Asset α)) (index : Nat) (used : List (FileId × String)) :
    List (Clip α) → Except (CompileError α) (List (PlacedClip α) × List (FileId × String))
  | [] => .ok ([], used)
  | clip :: rest =>
    match IdMap.get? clip.fileId catalog with
    | none => .error (.unknownFile index clip.fileId)
    | some asset =>
      let input := used.findIdx fun file => file.1 == clip.fileId
      let usedNow := if input < used.length then used else used ++ [(clip.fileId, asset.path)]
      match clip.place asset index input with
      | .error e => .error e
      | .ok placed =>
        match placeFrom catalog (index + 1) usedNow rest with
        | .error e => .error e
        | .ok (others, files) => .ok (placed :: others, files)

/-- Places every clip; the files come back in the order of their first use. -/
def placeClips (catalog : IdMap (Asset α)) (clips : List (Clip α)) :
    Except (CompileError α) (List (PlacedClip α) × List (FileId × String)) :=
  if clips.isEmpty then .error .noClips else placeFrom catalog 0 [] clips

end Placing

end Montage
