import Montage.CommandLine.Display
import Montage.CommandLine.Host
import Montage.CommandLine.Invocation
import Montage.Export.Destination
import Montage.Media.Catalog
import Montage.Project.SettingsStore
import Montage.Project.Store
import Montage.Timeline.BackToBack

/-!
Contract: the commands.

Each command prints as it goes and may fail on the way; what has been printed
stays.
-/

namespace Montage.CommandLine

open Montage.Export
open Montage.Files
open Montage.Media

def TimelineChoice.apply (choice : TimelineChoice) (timeline : Timeline Float) : Timeline Float :=
  { timeline with
    format := choice.format.getD timeline.format
    duration := choice.duration <|> timeline.duration }

def SettingsChoice.apply (choice : SettingsChoice) (settings : Settings) : Settings where
  projectDir := choice.projectDir.getD settings.projectDir
  exportDir := choice.exportDir.getD settings.exportDir
  ffmpegPath := choice.ffmpeg <|> settings.ffmpegPath

section

variable {m : Type → Type} [Monad m] [Host m]

def say (text : String) : ExceptT Error m Unit := ExceptT.lift (Host.print text)

def loadSettings (workspace : String) : ExceptT Error m Settings :=
  ExceptT.lift (Settings.load (Settings.filePath workspace) workspace)

def probeStored (path : String) : ExceptT Error m (Probed Float) := ExceptT.mk (Host.probe path)

/-- Saves files laid end to end as a project; answers with its path. -/
def saveBackToBack (workspace name : String) (assets : List (Asset Float))
    (catalog : Catalog Float) : ExceptT Error m String := do
  let settings ← loadSettings workspace
  let now ← (Host.now : m Instant)
  Project.save settings.projectDir (Project.capture now name (backToBack assets) catalog)

def probe (workspace : String) (files : List String) (json : Bool) (project : Option String) :
    ExceptT Error m Unit := do
  let (assets, catalog) ← Catalog.ingestAll storagePath probeStored .empty files
  say (if json then Display.line (Json.array (assets.map Asset.toJson)).indented
    else Display.media assets)
  match project with
  | none => pure ()
  | some name =>
    let path ← saveBackToBack workspace name assets catalog
    if json then pure () else say (Display.success ("Saved project to " ++ path))

/-- Opens a project, tells what is missing, and makes the changes asked for. -/
def openTimeline (choice : TimelineChoice) :
    ExceptT Error m (Project.Opened × Timeline Float) := do
  let now ← (Host.now : m Instant)
  let opened ← Project.load now choice.project
  say (Display.missing opened.missing)
  pure (opened, choice.apply opened.timeline)

def showGraph (choice : TimelineChoice) : ExceptT Error m Unit := do
  let (opened, timeline) ← openTimeline choice
  match compile timeline opened.catalog with
  | .error fault => throw fault.toError
  | .ok compiled => say (Display.graph opened.name compiled)

def reportExport (destination : String) (status : Status) : ExceptT Error m Unit :=
  match status.phase with
  | .succeeded => do
    let size ← (FileSystem.size? destination : m (Option Nat))
    say (Display.exported destination (size.getD 0))
  | _ => throw status.failure

def exportMedia (workspace : String) (choice : ExportChoice) : ExceptT Error m Unit := do
  let settings ← loadSettings workspace
  let (opened, timeline) ← openTimeline choice.timeline
  let stamp ← (Host.stamp : m String)
  let destination := Destination.resolve choice.output
    (choice.exportDir.getD settings.exportDir) choice.name timeline.format stamp
  ensureParent destination
  say (Display.exportHeader opened.name destination timeline.format)
  let program := choice.ffmpeg <|> settings.ffmpegPath
  let (begun, job) ← start .initial program timeline opened.catalog destination
  let behaviour ← (Host.runEngine job.command : m Behaviour)
  reportExport destination (runToEnd begun job behaviour)

def listProjects (workspace : String) : ExceptT Error m Unit := do
  let settings ← loadSettings workspace
  let now ← (Host.now : m Instant)
  let summaries ← Project.list now settings.projectDir
  say (Display.projects settings.projectDir summaries)

def keepSettings (workspace : String) (settings : Settings) : ExceptT Error m Unit := do
  settings.ensureDirectories
  let path := Settings.filePath workspace
  settings.save path
  say (Display.success ("Saved settings to " ++ path))

def changeSettings (workspace : String) (choice : SettingsChoice) : ExceptT Error m Unit := do
  let settings := choice.apply (← loadSettings workspace)
  if choice.hasChanges then keepSettings workspace settings
  say (Display.settings settings)

/-- Carries out a task in a workspace. -/
def Task.run (workspace : String) : Task → ExceptT Error m Unit
  | .probe files json project => CommandLine.probe workspace files json project
  | .showGraph choice => CommandLine.showGraph choice
  | .exportMedia choice => CommandLine.exportMedia workspace choice
  | .listProjects => CommandLine.listProjects workspace
  | .changeSettings choice => CommandLine.changeSettings workspace choice

def Invocation.run (invocation : Invocation) : ExceptT Error m Unit :=
  invocation.task.run invocation.workspace

end

end Montage.CommandLine
