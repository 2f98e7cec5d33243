import Montage.Compile.Basic
import Montage.Export.Command
import Montage.Media.Asset
import Montage.Project.Store
import Montage.Project.Settings
import Montage.Text.Bytes
import Montage.Text.Clock
import Montage.Text.Upper

/-!
Contract: what commands print.

A page has a heading in capitals, lines of a label and a value, and listed
items. Every line ends in a line feed.
-/

namespace Montage.CommandLine.Display

open Montage.Export
open Montage.Graph (natText Label)
open Montage.Media
open Montage.Text

def line (text : String) : String := text ++ "\n"

def heading (title : String) : String :=
  line "" ++ line ("===== " ++ upper title ++ " =====") ++ line ""

/-- Columns of a label and its colon. -/
def labelWidth : Nat := 14

def padded (width : Nat) (text : String) : String :=
  text ++ String.ofList (List.replicate (width - text.length) ' ')

def status (label value : String) : String :=
  line ("  " ++ padded labelWidth (label ++ ":") ++ " " ++ value)

def item (text : String) : String := line ("  - " ++ text)

def success (text : String) : String := line ("✓ " ++ text)

def warning (text : String) : String := line ("! " ++ text)

def join (texts : List String) : String := texts.foldl (fun all text => all ++ text) ""

/-! ## Pages -/

def streams (asset : Asset Float) : String :=
  match asset.hasVideo, asset.hasAudio with
  | true, true => "video + audio"
  | true, false => "video only"
  | false, true => "audio only"
  | false, false => "none"

def dimensions (width height : Nat) : String := natText width ++ "x" ++ natText height

def asset (a : Asset Float) : String :=
  line a.name ++ status "Id" a.id.text ++ status "Duration" (formatDuration a.duration) ++
    status "Streams" (streams a) ++
    (if a.hasDimensions then status "Resolution" (dimensions a.width a.height) else "") ++ line ""

def media (assets : List (Asset Float)) : String :=
  heading "Media" ++ join (assets.map asset)

def missing (names : List String) : String :=
  join (names.map fun name => warning ("Media file missing: " ++ name))

def inputs (paths : List String) : String :=
  join (paths.zipIdx.map fun entry => item (natText entry.2 ++ ": " ++ entry.1))

def labels (outputs : List Label) : String :=
  String.ofList (joinWith [' '] (outputs.map fun label => label.text.toList))

def graph (name : String) (compiled : Compiled Float) : String :=
  heading ("Graph: " ++ name) ++ status "Duration" (formatDuration compiled.duration) ++
    join (compiled.resolution.toList.map fun size => status "Resolution" size.text) ++
    status "Outputs" (labels compiled.outputLabels) ++
    heading "Inputs" ++ inputs compiled.inputs ++
    heading "Filter chains" ++ join (compiled.graph.chains.map fun chain => line chain.text)

def exportHeader (name destination : String) (format : OutputFormat) : String :=
  heading ("Export: " ++ name) ++ status "Output" destination ++ status "Format" format.extension

def exported (destination : String) (size : Nat) : String :=
  success ("Exported " ++ destination ++ " (" ++ formatBytes (UInt64.ofNat size) ++ ")")

def project (summary : Project.Summary) : String :=
  item (summary.name ++ " (" ++ summary.fileName ++ "): " ++ natText summary.clips ++
    " clip(s), " ++ natText summary.files ++ " file(s), " ++ natText summary.tracks ++ " track(s)")

def projects (dir : String) (summaries : List Project.Summary) : String :=
  heading "Projects" ++ status "Directory" dir ++
    (if summaries.isEmpty then line "  No saved projects." else join (summaries.map project))

/-- Stands for the engine that is found by name. -/
def engineByName : String := "ffmpeg (PATH)"

def settings (s : Settings) : String :=
  heading "Settings" ++ status "Projects" s.projectDir ++ status "Exports" s.exportDir ++
    status "ffmpeg" (s.ffmpegPath.getD engineByName)

end Montage.CommandLine.Display
