import Montage.CommandLine.Commands
import Montage.Media.Report
import Std.Time.Format

/-!
Contract: the program on a machine.

Commands run on the machine's own files. Other programs are not started from
here: a command that needs the prober or the engine reports that it could not
be started. Directories are not listed either.

Owns: the host of a machine, and the exit code.
-/

namespace Montage.CommandLine

open Montage.Export
open Montage.Files
open Montage.Media

def causeOf : IO.Error → OsError
  | .noFileOrDirectory .. => .notFound
  | .permissionDenied .. => .permissionDenied
  | .alreadyExists .. => .alreadyExists
  | .inappropriateType .. => .notDirectory
  | failure => .other (toString failure)

def attempt {β : Type} (action : IO β) : IO (Except OsError β) := do
  try
    pure (.ok (← action))
  catch failure =>
    pure (.error (causeOf failure))

def succeeds {β : Type} (action : IO β) : IO Bool := do
  match ← attempt action with
  | .ok _ => pure true
  | .error _ => pure false

def readTextFile (path : String) : IO (Except OsError String) := do
  match ← attempt (IO.FS.readBinFile path) with
  | .error cause => pure (.error cause)
  | .ok content =>
    match String.fromUTF8? content with
    | some text => pure (.ok text)
    | none => pure (.error .notText)

def instantOf (clock : Std.Time.PlainDateTime) : Instant :=
  { year := clock.date.year.toInt
    month := clock.date.month.val.toNat
    day := clock.date.day.val.toNat
    hour := clock.time.hour.val.toNat
    minute := clock.time.minute.val.toNat
    second := clock.time.second.val.toNat
    nano := clock.time.nanosecond.val.toNat }

/-- Date and time of day in fifteen characters. -/
def stampOf (t : Instant) : String :=
  let digits (width value : Nat) : String := String.ofList (Number.paddedDigits width value)
  digits 4 t.year.toNat ++ digits 2 t.month ++ digits 2 t.day ++ "_" ++ digits 2 t.hour ++
    digits 2 t.minute ++ digits 2 t.second

/-- Reported for programs that are not started from here. -/
def notStarted : OsError := .other "starting programs is not supported"

instance : Host IO where
  readText := readTextFile
  writeText path text := attempt (IO.FS.writeFile path text)
  ensureDirectory path :=
    if path.isEmpty then pure (.ok ()) else attempt (IO.FS.createDirAll path)
  namesIn _ := pure (.error (.other "listing directories is not supported"))
  isPresent path := succeeds (IO.FS.realPath path)
  isDirectory path := succeeds (IO.FS.realPath (path ++ "/."))
  size? path := do
    match ← attempt (IO.FS.readBinFile path) with
    | .ok content => pure (some content.size)
    | .error _ => pure none
  canonical? path := do
    match ← attempt (IO.FS.realPath path) with
    | .ok canonical => pure (some canonical.toString)
    | .error _ => pure none
  workingDirectory := do
    pure (← IO.currentDir).toString
  print text := IO.print text
  now := do
    let clock ← Std.Time.Timestamp.now
    pure (instantOf (.ofWallTime (.ofTimestamp clock .zero)))
  stamp := do
    pure (stampOf (instantOf (← Std.Time.PlainDateTime.now)))
  probe _ := pure (.error (.commandStart ProbeRun.tool notStarted))
  runEngine _ := pure (.refuses (.commandStart "ffmpeg" notStarted))

/-- The variables that stand in for options. -/
def variableNames : List String :=
  (topLevel.options ++ CommandName.all.flatMap fun name => name.ownOptions).filterMap
    OptionSpec.variableName

def readVariables : IO (List (String × String)) :=
  variableNames.filterMapM fun name => do
    pure ((← IO.getEnv name).map fun value => (name, value))

def versionText : String := "montage 0.1.0"

def usage : String :=
  "Usage: montage [--verbose] [--workspace DIR] <" ++
    " | ".intercalate (CommandName.all.map CommandName.text) ++ "> ..."

/-- What a refusal says, and the exit code that goes with it. -/
def explain : Refusal → String × UInt32
  | .displayHelp => (usage, 0)
  | .displayVersion => (versionText, 0)
  | .displayHelpOnMissing => (usage, 2)
  | .invalidValue => ("error: a value is required", 2)
  | .unknownArgument => ("error: unexpected argument", 2)
  | .valueValidation => ("error: invalid value", 2)
  | .argumentConflict => ("error: an option cannot be used multiple times", 2)
  | .missingRequiredArgument => ("error: a required argument was not provided", 2)
  | .invalidSubcommand => ("error: unrecognized command", 2)
  | .tooManyValues => ("error: unexpected value for an option", 2)
  | .missingSubcommand => ("error: a command is required", 2)

end Montage.CommandLine

open Montage.CommandLine in
def main (words : List String) : IO UInt32 := do
  match Invocation.read (← readVariables) words with
  | .error refusal =>
    let (text, code) := explain refusal
    if code = 0 then IO.println text else IO.eprintln text
    pure code
  | .ok invocation =>
    match ← (invocation.run : ExceptT Montage.Error IO Unit).run with
    | .ok () => pure 0
    | .error failure =>
      IO.eprintln ("Error: " ++ failure.message)
      pure 1
