import Montage.Media.IdMap
import Montage.Project.Instant
import Montage.Timeline.Record

/-!
Contract: project documents.

A project keeps a timeline together with the files its clips use, so that it
can be opened where the catalog is not at hand.

Owns: capturing a timeline, and the JSON form of a project. The timeline's
members stand among those of the project.
-/

namespace Montage

open Montage.Media
open Montage.Text
open Montage.Json (Slot ofText ofNat member)

structure Project where
  version : Nat
  name : String
  savedAt : Instant
  /-- The files that clips use, under the ids the document gives them. -/
  files : IdMap (Asset Float)
  timeline : Timeline Float
  /-- Number of tracks shown by an editor. -/
  tracks : Nat
deriving DecidableEq, Repr

namespace Project

/-- The version that is written, and the only one that is opened. -/
def currentVersion : Nat := 1

/-- Blanks around a name do not count. -/
def trimmedName (name : String) : String := String.ofList (trim name.toList)

/-- One track more than the highest that a clip is on, as a word of 32 bits. -/
def trackCount (clips : List (Clip Float)) : Nat :=
  ((clips.map fun clip => wordOf (clip.track + 1)).max?).getD 1

def usedFiles (catalog : IdMap (Asset Float)) (clips : List (Clip Float)) : IdMap (Asset Float) :=
  IdMap.ofList
    ((clips.filterMap fun clip => IdMap.get? clip.fileId catalog).map fun asset =>
      (asset.id, asset))

/-- A project of a timeline as it stands at `now`. Clips of unknown files are kept. -/
def capture (now : Instant) (name : String) (timeline : Timeline Float)
    (catalog : IdMap (Asset Float)) : Project where
  version := currentVersion
  name := trimmedName name
  savedAt := now
  files := usedFiles catalog timeline.clips
  timeline := timeline
  tracks := trackCount timeline.clips

/-! ## JSON form -/

def toJson (project : Project) : Json :=
  .object
    ([member "version" (ofNat project.version), member "name" (ofText project.name),
      member "savedAt" (ofText project.savedAt.text),
      member "files" (.object (project.files.map fun entry =>
        (some entry.1.text, entry.2.toJson)))] ++
      project.timeline.members ++ [member "tracks" (ofNat project.tracks)])

def fieldNames : List String := ["version", "name", "savedAt", "files", "tracks"]

def fileOfMember? (m : Json.Quoted × Json) : Option (FileId × Asset Float) :=
  m.1.bind fun key => (Asset.ofJson? m.2).map fun asset => (FileId.mk key, asset)

/-- Reads files by id; of two files under one id the later one stays. -/
def filesOfJson? : Json → Option (IdMap (Asset Float))
  | .object members => (members.mapM fileOfMember?).map IdMap.ofList
  | _ => none

/-- A value that counts as nothing beside a format written as a key. -/
def isEmptyValue : Json → Bool
  | .null => true
  | .object [] => true
  | _ => false

def instantOfJson? (v : Json) : Option Instant :=
  v.text?.bind fun s => Instant.read? s.toList

/-- How deep the members may nest that are kept until the timeline is read. -/
def bufferedDepth : Nat := 126

/-- Reads the members that are not the timeline's, given the timeline. -/
def ofSlots? (now : Instant) (timeline : Timeline Float) : List Slot → Option Project
  | [version, name, savedAt, files, tracks] => do
    pure
      { version := ← version.required (Json.nat? wordLimit)
        name := ← name.required Json.text?
        savedAt := ← savedAt.withDefault now instantOfJson?
        files := ← files.withDefault [] filesOfJson?
        timeline := timeline
        tracks := ← tracks.withDefault 1 (Json.nat? wordLimit) }
  | _ => none

/-- Reads a project; one without a date was saved `now`. -/
def ofJson? (now : Instant) : Json → Option Project
  | .object members => do
    let slots ← Json.objectSlots? fieldNames members
    let others := members.filter fun m => !(fieldNames.any fun name => m.1 == some name)
    let timelineSlots ← Json.objectSlots? Timeline.fieldNames others
    let timeline ← Timeline.ofSlots? isEmptyValue timelineSlots
    if others.all fun m => Json.isReadable bufferedDepth m.2 then ofSlots? now timeline slots
    else none
  | _ => none

end Project

end Montage
