import Montage.Json.Record
import Montage.Number.Word
import Montage.Timeline.Basic

/-!
Contract: clips, timelines and media files in JSON form.

Owns: the field names in their declared order, the defaults of absent fields,
and writing and reading of each record.
-/

namespace Montage

open Montage.Media
open Montage.Json (Slot ofText ofNat ofFloat member memberIfSome)

namespace Media.FileId

def toJson (id : FileId) : Json := ofText id.text

def ofJson? (v : Json) : Option FileId := v.text?.map FileId.mk

end Media.FileId

namespace Media.Asset

def fieldNames : List String :=
  ["id", "path", "name", "duration", "hasVideo", "hasAudio", "width", "height"]

def toJson (asset : Asset Float) : Json :=
  .object
    [member "id" asset.id.toJson, member "path" (ofText asset.path),
     member "name" (ofText asset.name), member "duration" (ofFloat asset.duration),
     member "hasVideo" (.bool asset.hasVideo), member "hasAudio" (.bool asset.hasAudio),
     member "width" (ofNat asset.width), member "height" (ofNat asset.height)]

def ofSlots? : List Slot → Option (Asset Float)
  | [id, path, name, duration, hasVideo, hasAudio, width, height] => do
    pure
      { id := ← id.required FileId.ofJson?
        path := ← path.required Json.text?
        name := ← name.required Json.text?
        duration := ← duration.required Json.float?
        hasVideo := ← hasVideo.required Json.bool?
        hasAudio := ← hasAudio.required Json.bool?
        width := ← width.withDefault 0 (Json.nat? wordLimit)
        height := ← height.withDefault 0 (Json.nat? wordLimit) }
  | _ => none

def ofJson? (v : Json) : Option (Asset Float) :=
  (v.slots? fieldNames).bind ofSlots?

end Media.Asset

namespace Clip

def fieldNames : List String :=
  ["fileId", "offset", "trimStart", "trimEnd", "speed", "volume", "track"]

def toJson (clip : Clip Float) : Json :=
  .object
    ([member "fileId" clip.fileId.toJson, member "offset" (ofFloat clip.offset)] ++
      memberIfSome "trimStart" (clip.trimStart.map ofFloat) ++
      memberIfSome "trimEnd" (clip.trimEnd.map ofFloat) ++
      [member "speed" (ofFloat clip.speed), member "volume" (ofFloat clip.volume),
       member "track" (ofNat clip.track)])

def ofSlots? : List Slot → Option (Clip Float)
  | [fileId, offset, trimStart, trimEnd, speed, volume, track] => do
    pure
      { fileId := ← fileId.required FileId.ofJson?
        offset := ← offset.withDefault 0.0 Json.float?
        trimStart := ← trimStart.withDefault none (Json.nullable Json.float?)
        trimEnd := ← trimEnd.withDefault none (Json.nullable Json.float?)
        speed := ← speed.withDefault 1.0 Json.float?
        volume := ← volume.withDefault unityVolume Json.float?
        track := ← track.withDefault 0 (Json.nat? wordLimit) }
  | _ => none

def ofJson? (v : Json) : Option (Clip Float) :=
  (v.slots? fieldNames).bind ofSlots?

end Clip

namespace OutputFormat

def toJson (format : OutputFormat) : Json := ofText format.extension

/-- Reads a name, or an object with the name as its one key and an empty value. -/
def ofJson? (isEmpty : Json → Bool) : Json → Option OutputFormat
  | .string q => q.bind ofExtension?
  | .object [(key, v)] => if isEmpty v then key.bind ofExtension? else none
  | _ => none

end OutputFormat

namespace Timeline

def fieldNames : List String := ["clips", "duration", "format"]

def members (timeline : Timeline Float) : List (Json.Quoted × Json) :=
  member "clips" (.array (timeline.clips.map Clip.toJson)) ::
    (memberIfSome "duration" (timeline.duration.map ofFloat) ++
      [member "format" timeline.format.toJson])

def toJson (timeline : Timeline Float) : Json := .object timeline.members

/-- Reads the fields; `isEmpty` says which values may stand beside a format written as a key. -/
def ofSlots? (isEmpty : Json → Bool) : List Slot → Option (Timeline Float)
  | [clips, duration, format] => do
    pure
      { clips := ← clips.required (Json.list? Clip.ofJson?)
        duration := ← duration.withDefault none (Json.nullable Json.float?)
        format := ← format.withDefault .mp4 (OutputFormat.ofJson? isEmpty) }
  | _ => none

def isNull : Json → Bool
  | .null => true
  | _ => false

def ofJson? (v : Json) : Option (Timeline Float) :=
  (v.slots? fieldNames).bind (ofSlots? isNull)

end Timeline

end Montage
