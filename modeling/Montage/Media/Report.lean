import Montage.Json.Record
import Montage.Json.Text
import Montage.Media.Probe
import Montage.Number.Numeral

/-!
Contract: what the prober prints about a file, and what becomes of it.

The report is a JSON record of streams and of the container. Many of its fields
are of no use here, but a report in which one of them is missing or has the
wrong kind is not a report.

Owns: the fields of a report, its reading, and the outcome of a prober's run.
-/

namespace Montage.Media

open Montage.Files
open Montage.Json (Slot)

inductive FieldKind where
  | text
  | integer
  | textIfAny
  | integerIfAny
  /-- A text that may be missing but not `null`. -/
  | textOrNothing
  /-- A record with fields of its own. -/
  | record (fields : List (String × FieldKind))
  | recordIfAny (fields : List (String × FieldKind))
  /-- Any number of such records; none when the field is missing. -/
  | recordsIfAny (fields : List (String × FieldKind))

namespace FieldKind

mutual

def accepts : FieldKind → Slot → Bool
  | .text, slot => (slot.required Json.text?).isSome
  | .integer, slot => (slot.required Json.int64?).isSome
  | .textIfAny, slot => (slot.optional Json.text?).isSome
  | .integerIfAny, slot => (slot.optional Json.int64?).isSome
  | .textOrNothing, slot => (slot.withDefault "" Json.text?).isSome
  | .record fields, .given v => acceptsRecord fields v
  | .record _, _ => false
  | .recordIfAny _, .given .null => true
  | .recordIfAny fields, .given v => acceptsRecord fields v
  | .recordIfAny _, .absent => true
  | .recordIfAny _, .beyondEnd => false
  | .recordsIfAny fields, .given (.array items) => items.all fun v => acceptsRecord fields v
  | .recordsIfAny _, .given _ => false
  | .recordsIfAny _, _ => true

/-- True when a value is a record with these fields. -/
def acceptsRecord (fields : List (String × FieldKind)) (v : Json) : Bool :=
  match v.slots? (fields.map Prod.fst) with
  | some slots => acceptsAll fields slots
  | none => false

def acceptsAll : List (String × FieldKind) → List Slot → Bool
  | (_, kind) :: fields, slot :: slots => kind.accepts slot && acceptsAll fields slots
  | _, _ => true

end

end FieldKind

namespace Report

def all (kind : FieldKind) (names : List String) : List (String × FieldKind) :=
  names.map fun name => (name, kind)

/-- What a stream is used for, each as a number. -/
def dispositionFields : List (String × FieldKind) :=
  all .integer
    ["default", "dub", "original", "comment", "lyrics", "karaoke", "forced", "hearing_impaired",
     "visual_impaired", "clean_effects", "attached_pic", "timed_thumbnails"]

def streamTagFields : List (String × FieldKind) :=
  all .textIfAny ["language", "creation_time", "handler_name", "encoder", "timecode", "reel_name"]

def streamFields : List (String × FieldKind) :=
  all .integer ["index"] ++
  all .textIfAny
    ["codec_name", "sample_aspect_ratio", "display_aspect_ratio", "color_range", "color_space",
     "bits_per_raw_sample", "channel_layout", "max_bit_rate", "nb_frames", "nb_read_frames",
     "codec_long_name", "codec_type", "codec_time_base"] ++
  all .text ["codec_tag_string", "codec_tag"] ++
  all .textIfAny ["sample_fmt", "sample_rate"] ++
  all .integerIfAny ["channels", "bits_per_sample"] ++
  all .text ["r_frame_rate", "avg_frame_rate", "time_base"] ++
  all .integerIfAny ["start_pts"] ++ all .textIfAny ["start_time"] ++
  all .integerIfAny ["duration_ts"] ++ all .textIfAny ["duration", "bit_rate"] ++
  [("disposition", .record dispositionFields), ("tags", .recordIfAny streamTagFields)] ++
  all .textIfAny ["profile"] ++
  all .integerIfAny
    ["width", "height", "coded_width", "coded_height", "closed_captions", "has_b_frames"] ++
  all .textIfAny ["pix_fmt"] ++ all .integerIfAny ["level"] ++
  all .textIfAny ["chroma_location"] ++ all .integerIfAny ["refs"] ++
  all .textIfAny ["is_avc", "nal_length", "nal_length_size", "field_order", "id"] ++
  [("side_data_list", .recordsIfAny (all .text ["side_data_type"]))]

def formatTagFields : List (String × FieldKind) :=
  all .textIfAny
    ["WMFSDKNeeded", "DeviceConformanceTemplate", "WMFSDKVersion", "IsVBR", "major_brand",
     "minor_version", "compatible_brands", "creation_time", "encoder"]

def formatFields : List (String × FieldKind) :=
  all .text ["filename"] ++ all .integer ["nb_streams", "nb_programs"] ++
  all .text ["format_name", "format_long_name"] ++ all .textIfAny ["start_time", "duration"] ++
  all .textOrNothing ["size"] ++ all .textIfAny ["bit_rate"] ++ all .integer ["probe_score"] ++
  [("tags", .recordIfAny formatTagFields)]

/-- What a record has for one of its fields. -/
def field? (fields : List (String × FieldKind)) (name : String) (v : Json) : Option Json :=
  match (v.slots? (fields.map Prod.fst)).bind fun slots =>
    ((fields.map Prod.fst).zip slots).lookup name with
  | some (.given value) => some value
  | _ => none

def streamOf (v : Json) : Stream :=
  let part (name : String) := field? streamFields name v
  ⟨(part "codec_type").bind Json.text?, (part "codec_name").bind Json.text?,
    (part "width").bind Json.int64?, (part "height").bind Json.int64?⟩

/-- The length of a file as the report writes it. -/
def durationText? (format : Json) : Option String :=
  (field? formatFields "duration" format).bind Json.text?

end Report

/-- What a report says of a file: its length, if one can be read, and its streams. -/
structure Report where
  duration : Option Float
  streams : List Stream
deriving Repr

namespace Report

/-- Reads a report; the records it is made of must have all their fields. -/
def ofJson? (v : Json) : Option Report :=
  match v.slots? ["streams", "format"] with
  | some [.given (.array streams), .given format] =>
    if (streams.all fun stream => FieldKind.acceptsRecord streamFields stream) &&
        FieldKind.acceptsRecord formatFields format then
      some ⟨(durationText? format).bind fun s => Number.readFloat? s.toList, streams.map streamOf⟩
    else none
  | _ => none

end Report

/-! ## Runs of the prober -/

/-- How a run of the prober ended. -/
inductive ProbeRun where
  | notStarted (cause : OsError)
  | ended (status : ExitStatus) (output diagnostics : String)
deriving Repr

namespace ProbeRun

def tool : String := "ffprobe (media ingest)"

/-- The facts that a run for a path has brought out. -/
def outcome (path : String) : ProbeRun → Except Error (Probed Float)
  | .notStarted cause => .error (.commandStart tool cause)
  | .ended status output diagnostics =>
    if status.isSuccess then
      match (Json.read? output).bind Report.ofJson? with
      | some report => summarize path report.duration report.streams
      | none => .error (.probeSyntax "media ingest")
    else .error (.commandFailed tool status diagnostics)

end ProbeRun

end Montage.Media
