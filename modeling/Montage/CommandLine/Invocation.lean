import Montage.CommandLine.Scan

/-!
Contract: what a command line asks for.

The words up to the name of a command belong to the program, the rest to the
command. Of a global option the value nearest to the command counts, and one
that is written counts before one from the environment.

Owns: tasks and invocations, and reading a command line as one.
-/

namespace Montage.CommandLine

open Montage.Number

structure TimelineChoice where
  project : String
  format : Option OutputFormat
  duration : Option Float
deriving DecidableEq, Repr

/-- Where an export goes and what runs it. -/
structure ExportChoice where
  timeline : TimelineChoice
  output : Option String
  name : Option String
  exportDir : Option String
  ffmpeg : Option String
deriving DecidableEq, Repr

structure SettingsChoice where
  projectDir : Option String
  exportDir : Option String
  ffmpeg : Option String
deriving DecidableEq, Repr

namespace SettingsChoice

def hasChanges (choice : SettingsChoice) : Bool :=
  choice.projectDir.isSome || choice.exportDir.isSome || choice.ffmpeg.isSome

end SettingsChoice

inductive Task where
  | probe (files : List String) (json : Bool) (project : Option String)
  | showGraph (timeline : TimelineChoice)
  | exportMedia (choice : ExportChoice)
  | listProjects
  | changeSettings (choice : SettingsChoice)
deriving DecidableEq, Repr

namespace Task

def timelineOf (scan : Scan) (project : String) : TimelineChoice :=
  ⟨project, (scan.value? "format").bind fun text => (OutputFormat.read text).toOption,
    (scan.value? "duration").bind fun text => readFloat? text.toList⟩

def ofScan (name : CommandName) (scan : Scan) : Except Refusal Task :=
  match name, scan.operands with
  | .probe, [] | .graph, [] | .exportMedia, [] => .error .missingRequiredArgument
  | .probe, files => .ok (.probe files (scan.has "json") (scan.value? "project"))
  | .graph, project :: _ => .ok (.showGraph (timelineOf scan project))
  | .exportMedia, project :: _ =>
    .ok (.exportMedia
      ⟨timelineOf scan project, scan.value? "output", scan.value? "name",
        scan.value? "export-dir", scan.value? "ffmpeg"⟩)
  | .projects, _ => .ok .listProjects
  | .settings, _ =>
    .ok (.changeSettings
      ⟨scan.value? "project-dir", scan.value? "export-dir", scan.value? "ffmpeg"⟩)

end Task

structure Invocation where
  task : Task
  verbose : Bool
  workspace : String
deriving DecidableEq, Repr

namespace Invocation

def defaultWorkspace : String := "."

/-- The words before the command, its name and the words after it. -/
structure Division where
  before : Scan
  command : Option (String × List String)

/-- Reads words up to the name of a command. -/
def divide : Scan → List String → Except Refusal Division
  | scan, [] => .ok ⟨scan, none⟩
  | scan, word :: rest =>
    let isValue := match scan.pending with
      | .waiting _ => true
      | _ => false
    if !scan.trailing && !isValue &&
        (word == helpWord || (CommandName.ofText? word).isSome) then
      .ok ⟨scan, some (word, rest)⟩
    else
      match scan.takeWord topLevel word with
      | .ok next => divide next rest
      | .error refusal => .error refusal

/-- Help is there for every command, and for nothing else. -/
def helpFor : List String → Refusal
  | [] => .displayHelp
  | [word] =>
    if word == helpWord || (CommandName.ofText? word).isSome then .displayHelp
    else .invalidSubcommand
  | _ => .invalidSubcommand

/-- Why a command line without a command is refused. -/
def withoutCommand (environment : List (String × String)) (before : Scan) : Refusal :=
  match before.finish topLevel environment with
  | .error refusal => refusal
  | .ok scan => if scan.given.isEmpty then .displayHelpOnMissing else .missingSubcommand

/-- The workspace: written after the command or before it, or else from the environment. -/
def workspaceOf (environment : List (String × String)) (before after : Scan) : String :=
  ((after.value? OptionSpec.workspace.name <|> before.value? OptionSpec.workspace.name) <|>
    OptionSpec.workspace.variableName.bind (List.lookup · environment)).getD defaultWorkspace

def ofCommand (environment : List (String × String)) (before : Scan) (name : CommandName)
    (words : List String) : Except Refusal Invocation := do
  let written ← Scan.start.takeWords name.level words
  let after ← written.finish name.level environment
  let task ← Task.ofScan name after
  let first ← before.resolve
  discard (first.finish topLevel environment)
  let last ← written.resolve
  pure
    { task := task
      verbose := first.has OptionSpec.verbose.name || last.has OptionSpec.verbose.name
      workspace := workspaceOf environment first last }

/-- Reads the words after the program's name, given the variables of the environment. -/
def read (environment : List (String × String)) (words : List String) :
    Except Refusal Invocation := do
  let division ← divide .start words
  match division.command with
  | none => .error (withoutCommand environment division.before)
  | some (word, rest) =>
    match CommandName.ofText? word with
    | some name => ofCommand environment division.before name rest
    | none => .error (helpFor rest)

end Invocation

end Montage.CommandLine
