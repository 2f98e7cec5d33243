import Montage.Files.Path
import Montage.Json.Record

/-!
Contract: the settings kept between runs, and their JSON form.

A settings file overlays the defaults of a workspace: an absent, null or blank
field keeps its default.
-/

namespace Montage

open Montage.Files
open Montage.Json (Slot ofText member memberIfSome)

structure Settings where
  projectDir : String
  exportDir : String
  /-- The engine to run; found by name when absent. -/
  ffmpegPath : Option String
deriving DecidableEq, Repr

namespace Settings

/-- The settings file of a workspace, and the directory of its projects. -/
def fileName : String := "settings.json"

def projectsDirName : String := "_projects"

def defaults (workspace : String) : Settings :=
  ⟨Path.join workspace projectsDirName, workspace, none⟩

def toJson (settings : Settings) : Json :=
  .object
    ([member "projectDir" (ofText settings.projectDir),
      member "exportDir" (ofText settings.exportDir)] ++
      memberIfSome "ffmpegPath" (settings.ffmpegPath.map ofText))

def fieldNames : List String := ["projectDir", "exportDir", "ffmpegPath"]

def ofSlots? : List Slot → Option Settings
  | [projectDir, exportDir, ffmpegPath] => do
    pure
      { projectDir := ← projectDir.required Json.text?
        exportDir := ← exportDir.required Json.text?
        ffmpegPath := ← ffmpegPath.withDefault none (Json.nullable Json.text?) }
  | _ => none

def ofJson? (v : Json) : Option Settings :=
  (v.slots? fieldNames).bind ofSlots?

/-- Settings of which any may be missing. -/
structure Overlay where
  projectDir : Option String
  exportDir : Option String
  ffmpegPath : Option String
deriving DecidableEq, Repr

namespace Overlay

def ofSlots? : List Slot → Option Overlay
  | [projectDir, exportDir, ffmpegPath] => do
    pure
      { projectDir := ← projectDir.optional Json.text?
        exportDir := ← exportDir.optional Json.text?
        ffmpegPath := ← ffmpegPath.optional Json.text? }
  | _ => none

def ofJson? (v : Json) : Option Overlay :=
  (v.slots? fieldNames).bind ofSlots?

/-- A path that says something. -/
def given? (path : Option String) : Option String :=
  path.filter fun p => !p.isEmpty

/-- Replaces the fields that are given. -/
def apply (overlay : Overlay) (base : Settings) : Settings where
  projectDir := (given? overlay.projectDir).getD base.projectDir
  exportDir := (given? overlay.exportDir).getD base.exportDir
  ffmpegPath := given? overlay.ffmpegPath <|> base.ffmpegPath

end Overlay

end Settings

end Montage
